/-
# The book in the browser

The page `ui/static/index.html` keeps the book of the server once more: it starts from a
`snapshot` message, which has all orders but only the ten best levels of each side, and then
applies the same packets.  A level that both have equal they keep equal (`InStep.receive`).  A
level that the snapshot has left out is missing when it gets among the ten best ones.
-/
import FixExchange.Lib.Ladder
import FixExchange.Ui.Reflects

namespace FixExchange

/-- An entry of `bookOrders`. -/
structure BookOrder where
  price : Price
  qty : ℤ
deriving DecidableEq, Repr

/-- The `snapshot` message of `websocket_endpoint`. -/
structure SnapshotMessage where
  book : List (String × List (Price × ℤ) × List (Price × ℤ))
  orders : List (String × OrderState)

/-- The order in which the levels of a side are listed: `'0'` bids, else asks. -/
def Ahead (side : Char) (p q : Price) : Prop := if side = '0' then q ≤ p else p ≤ q

namespace Ahead

variable {side : Char}

instance : DecidableRel (Ahead side) := fun p q => by unfold Ahead; infer_instance

instance : Std.Total (Ahead side) := ⟨fun p q => by
  unfold Ahead
  split_ifs
  · exact le_total q p
  · exact le_total p q⟩

instance : IsTrans Price (Ahead side) := ⟨fun p q t hpq hqt => by
  unfold Ahead at *
  split_ifs at *
  · exact hqt.trans hpq
  · exact hpq.trans hqt⟩

instance : Std.Antisymm (Ahead side) := ⟨fun p q hpq hqp => by
  unfold Ahead at *
  split_ifs at *
  · exact le_antisymm hqp hpq
  · exact le_antisymm hpq hqp⟩

end Ahead

/-- The ten best levels of a side. -/
def topTen (side : Char) (levels : PriceLevels) : List (Price × ℤ) :=
  Ladder.best (Ahead side) 10 levels

namespace Subscriber

/-- `_book_snapshot`. -/
def bookSnapshot (s : Subscriber) : List (String × List (Price × ℤ) × List (Price × ℤ)) :=
  s.orderBook.entries.map fun e => (e.1, topTen '0' e.2.bids, topTen '1' e.2.asks)

/-- The `snapshot` message that the server sends. -/
def snapshotMessage (s : Subscriber) : SnapshotMessage where
  book := s.bookSnapshot
  orders := s.orderState.entries.map fun e => (e.1, e.2)

end Subscriber

/-- What the page keeps: `book` and `bookOrders`. -/
structure Browser where
  book : StrMap SymbolBook
  bookOrders : StrMap BookOrder

namespace Browser

/-- The page when it has been loaded. -/
def init : Browser := ⟨∅, ∅⟩

/-- The names that every object has: `book[name]` is a function when nothing has been entered
under such a name, and its `bids` and `asks` are undefined. -/
def inherited : List String :=
  ["constructor", "hasOwnProperty", "isPrototypeOf", "propertyIsEnumerable", "toLocaleString",
    "toString", "valueOf", "__proto__", "__defineGetter__", "__defineSetter__",
    "__lookupGetter__", "__lookupSetter__"]

/-- `onSnapshot`. -/
def onSnapshot (b : Browser) (msg : SnapshotMessage) : Browser where
  book := msg.book.foldl
    (fun book e => book.insert e.1 ⟨Ladder.ofPairs e.2.1, Ladder.ofPairs e.2.2⟩) b.book
  bookOrders := msg.orders.foldl (fun orders e => orders.insert e.1 ⟨e.2.price, e.2.qty⟩) ∅

/-- `setLevel`. -/
def setLevel (lvls : PriceLevels) (price : Price) (qty : ℤ) : PriceLevels :=
  if qty ≤ 0 then lvls.erase price else lvls.insert price qty

/-- The book of a symbol, which is empty when there is none. -/
def bookOf (b : Browser) (symbol : String) : SymbolBook := (b.book.lookup symbol).getD ⟨∅, ∅⟩

/-- The levels of a side. -/
def levels (b : Browser) (symbol : String) (side : Char) : PriceLevels :=
  if side = '0' then (b.bookOf symbol).bids else (b.bookOf symbol).asks

/-- `setLevel(lvls, price, (lvls.get(price) || 0) + delta)`. -/
def addToLevel (b : Browser) (symbol : String) (side : Char) (price : Price) (delta : ℤ) :
    Browser :=
  let sides := b.bookOf symbol
  let shift := fun lvls : PriceLevels => setLevel lvls price ((lvls.lookup price).getD 0 + delta)
  { b with
    book := b.book.insert symbol
      (if side = '0' then { sides with bids := shift sides.bids }
        else { sides with asks := shift sides.asks }) }

/-- Set an entry of `bookOrders`. -/
def setOrder (b : Browser) (eid : String) (order : BookOrder) : Browser :=
  { b with bookOrders := b.bookOrders.insert eid order }

/-- Delete an entry of `bookOrders`. -/
def deleteOrder (b : Browser) (eid : String) : Browser :=
  { b with bookOrders := b.bookOrders.erase eid }

/-- `if (!book[symbol]) book[symbol] = ...`. -/
def enterSymbol (b : Browser) (symbol : String) : Browser :=
  if symbol ∈ b.book ∨ symbol ∈ inherited then b
  else { b with book := b.book.insert symbol ⟨∅, ∅⟩ }

/-- `onMd`, as far as it is about the book. -/
def onMd (b : Browser) (evt : EventType) (side : Char) (symbol : String) (price : Price) (qty : ℤ)
    (eid : String) : Browser :=
  let b := b.enterSymbol symbol
  if symbol ∉ b.book ∨ (side ≠ '0' ∧ side ≠ '1') ∨ eid = "" then b
  else
    match evt with
    | .NewOrder => (b.setOrder eid ⟨price, qty⟩).addToLevel symbol side price qty
    | .Cancel =>
      match b.bookOrders.lookup eid with
      | none => b
      | some prev => (b.deleteOrder eid).addToLevel symbol side prev.price (-prev.qty)
    | .FillResting =>
      match b.bookOrders.lookup eid with
      | none => b
      | some prev =>
        let b := b.addToLevel symbol side prev.price (-(prev.qty - qty))
        if qty = 0 then b.deleteOrder eid else b.setOrder eid { prev with qty := qty }
    | .Trade => b
    | .ReplaceInPlace =>
      match b.bookOrders.lookup eid with
      | none => b
      | some prev =>
        (b.addToLevel symbol side prev.price (-(prev.qty - qty))).setOrder eid
          { prev with qty := qty }
    | .ReplaceDelete =>
      match b.bookOrders.lookup eid with
      | none => b
      | some prev => (b.deleteOrder eid).addToLevel symbol side prev.price (-prev.qty)
    | .ReplaceNew => (b.setOrder eid ⟨price, qty⟩).addToLevel symbol side price qty

/-- A packet of the feed, which the server passes on when it can unpack it. -/
def receive (b : Browser) (pkt : MdPacket) : Browser :=
  match Subscriber.decode pkt.symbol, Subscriber.decode pkt.exchangeId with
  | some symbol, some eid => b.onMd pkt.eventType pkt.side symbol pkt.price pkt.qty eid
  | _, _ => b

/-- The bids that `renderBook` shows. -/
def sortedBids (b : Browser) (symbol : String) : List (Price × ℤ) :=
  topTen '0' (b.bookOf symbol).bids

/-- The asks that `renderBook` shows. -/
def sortedAsks (b : Browser) (symbol : String) : List (Price × ℤ) :=
  topTen '1' (b.bookOf symbol).asks

end Browser

/-- The page shows the ten best levels of the server. -/
structure Agree (s : Subscriber) (b : Browser) : Prop where
  bids : ∀ symbol, b.sortedBids symbol = topTen '0' (s.bookOf symbol).bids
  asks : ∀ symbol, b.sortedAsks symbol = topTen '1' (s.bookOf symbol).asks

lemma agree_iff {s : Subscriber} {b : Browser} :
    Agree s b ↔ ∀ symbol side, side = '0' ∨ side = '1' →
      topTen side (b.levels symbol side) = topTen side (s.levels symbol side) := by
  constructor
  · rintro h symbol side (rfl | rfl)
    · exact h.bids symbol
    · exact h.asks symbol
  · intro h
    exact ⟨fun symbol => h symbol '0' (Or.inl rfl), fun symbol => h symbol '1' (Or.inr rfl)⟩

/-! ## The snapshot -/

/-- What the page keeps of an order. -/
def OrderState.booked (st : OrderState) : BookOrder := ⟨st.price, st.qty⟩

namespace Browser

variable {s : Subscriber} {b : Browser}

/-- The page as it starts. -/
def start (s : Subscriber) : Browser := init.onSnapshot s.snapshotMessage

lemma lookup_book_start (s : Subscriber) (symbol : String) :
    (start s).book.lookup symbol = (s.orderBook.lookup symbol).map fun sides =>
      ⟨Ladder.cut (Ahead '0') 10 sides.bids, Ladder.cut (Ahead '1') 10 sides.asks⟩ := by
  rw [← Ladder.lookup_ofPairs_map]
  simp only [start, init, onSnapshot, Subscriber.snapshotMessage, Subscriber.bookSnapshot,
    Ladder.ofPairs, List.foldl_map]
  rfl

lemma mem_book_start {symbol : String} : symbol ∈ (start s).book ↔ symbol ∈ s.orderBook := by
  rw [← AList.lookup_isSome, lookup_book_start, Option.isSome_map, AList.lookup_isSome]

/-- All orders are in the snapshot. -/
lemma lookup_bookOrders_start (s : Subscriber) (eid : String) :
    (start s).bookOrders.lookup eid = (s.orderState.lookup eid).map OrderState.booked := by
  rw [← Ladder.lookup_ofPairs_map]
  simp only [start, onSnapshot, Subscriber.snapshotMessage, Ladder.ofPairs, List.foldl_map]
  rfl

/-- The ten best levels of each side are in the snapshot. -/
lemma levels_start (s : Subscriber) (symbol : String) {side : Char}
    (hside : side = '0' ∨ side = '1') :
    (start s).levels symbol side = Ladder.cut (Ahead side) 10 (s.levels symbol side) := by
  rw [levels, bookOf, lookup_book_start, Subscriber.levels, Subscriber.bookOf]
  rcases hside with rfl | rfl <;> cases s.orderBook.lookup symbol <;> rfl

/-! ## Packets -/

lemma bookOf_enterSymbol (b : Browser) (symbol symbol' : String) :
    (b.enterSymbol symbol).bookOf symbol' = b.bookOf symbol' := by
  rw [enterSymbol]
  split_ifs with hmem
  · rfl
  · rw [bookOf, bookOf]
    by_cases hs : symbol' = symbol
    · subst hs
      rw [AList.lookup_insert, AList.lookup_eq_none.mpr fun h => hmem (Or.inl h)]
      rfl
    · rw [AList.lookup_insert_ne hs]

lemma bookOrders_enterSymbol (b : Browser) (symbol : String) :
    (b.enterSymbol symbol).bookOrders = b.bookOrders := by
  rw [enterSymbol]
  split_ifs <;> rfl

end Browser

/-- Which level `addToLevel` changes, and how. -/
lemma Subscriber.lookup_addToLevel (s : Subscriber) {symbol symbol' : String} {side side' : Char}
    (price price' : Price) (delta : ℤ) (hside : side = '0' ∨ side = '1')
    (hside' : side' = '0' ∨ side' = '1') :
    ((s.addToLevel symbol side price delta).levels symbol' side').lookup price'
      = if symbol' = symbol ∧ side' = side ∧ price' = price then
          (if ((s.levels symbol side).lookup price).getD 0 + delta ≤ 0 then none
            else some (((s.levels symbol side).lookup price).getD 0 + delta))
        else (s.levels symbol' side').lookup price' := by
  rw [levels_addToLevel s _ _ hside hside']
  by_cases hsame : symbol' = symbol ∧ side' = side
  · obtain ⟨rfl, rfl⟩ := hsame
    simp only [true_and, if_true, lookup_setLevel]
  · have hnot : ¬(symbol' = symbol ∧ side' = side ∧ price' = price) := fun h =>
      hsame ⟨h.1, h.2.1⟩
    rw [if_neg hsame, if_neg hnot]

/-- The page moves a level as the server does. -/
lemma Browser.lookup_addToLevel (b : Browser) {symbol symbol' : String} {side side' : Char}
    (price price' : Price) (delta : ℤ) (hside : side = '0' ∨ side = '1')
    (hside' : side' = '0' ∨ side' = '1') :
    ((b.addToLevel symbol side price delta).levels symbol' side').lookup price'
      = if symbol' = symbol ∧ side' = side ∧ price' = price then
          (if ((b.levels symbol side).lookup price).getD 0 + delta ≤ 0 then none
            else some (((b.levels symbol side).lookup price).getD 0 + delta))
        else (b.levels symbol' side').lookup price' :=
  Subscriber.lookup_addToLevel ⟨b.book, ∅⟩ price price' delta hside hside'

/-- The page has the orders of the server, and shows the same at the levels of `P`. -/
structure InStep (listed : String → Prop) (P : String → Char → Price → Prop) (s : Subscriber)
    (b : Browser) : Prop where
  orders : ∀ eid, b.bookOrders.lookup eid = (s.orderState.lookup eid).map OrderState.booked
  levels : ∀ symbol side price, side = '0' ∨ side = '1' → P symbol side price →
    (b.levels symbol side).lookup price = (s.levels symbol side).lookup price
  /-- No listed symbol that the page does not know has a name that every object has. -/
  known : ∀ symbol ∈ Browser.inherited, listed symbol → TextFits 8 symbol → symbol ∈ b.book

namespace InStep

variable {listed : String → Prop} {P : String → Char → Price → Prop} {s s' : Subscriber}
  {b b' : Browser}

lemma start (hknown : ∀ symbol ∈ Browser.inherited, listed symbol → TextFits 8 symbol →
      symbol ∈ s.orderBook) :
    InStep listed (fun symbol side price => ((Browser.start s).levels symbol side).lookup price
      = (s.levels symbol side).lookup price) s (Browser.start s) :=
  ⟨Browser.lookup_bookOrders_start s, fun _ _ _ _ h => h, fun symbol hsymbol hlisted hfits =>
    Browser.mem_book_start.mpr (hknown symbol hsymbol hlisted hfits)⟩

lemma enterSymbol (h : InStep listed P s b) (symbol : String) :
    InStep listed P (s.enterSymbol symbol) (b.enterSymbol symbol) := by
  refine ⟨fun eid => ?_, fun symbol' side price hside hP => ?_,
    fun symbol' hsymbol hlisted hfits => ?_⟩
  · rw [b.bookOrders_enterSymbol, s.orderState_enterSymbol]
    exact h.orders eid
  · rw [Browser.levels, b.bookOf_enterSymbol, Subscriber.levels, s.bookOf_enterSymbol]
    exact h.levels symbol' side price hside hP
  · have hmem := h.known symbol' hsymbol hlisted hfits
    rw [Browser.enterSymbol]
    split_ifs
    · exact hmem
    · exact (AList.mem_insert _).mpr (Or.inr hmem)

/-- Both move a level by the same amount. -/
lemma move (h : InStep listed P s b) {symbol : String} {side : Char} (hside : side = '0' ∨ side = '1')
    (price : Price) (delta : ℤ)
    (hs' : s'.orderBook = (s.addToLevel symbol side price delta).orderBook)
    (hb' : b'.book = (b.addToLevel symbol side price delta).book)
    (horders : ∀ eid, b'.bookOrders.lookup eid
      = (s'.orderState.lookup eid).map OrderState.booked) : InStep listed P s' b' := by
  refine ⟨horders, fun symbol' side' price' hside' hP => ?_,
    fun symbol' hsymbol hlisted hfits => ?_⟩
  · have hslevels := Subscriber.levels_congr hs' symbol' side'
    have hblevels : b'.levels symbol' side'
        = (b.addToLevel symbol side price delta).levels symbol' side' := by
      rw [Browser.levels, Browser.levels, Browser.bookOf, Browser.bookOf, hb']
    rw [hslevels, hblevels, s.lookup_addToLevel price price' delta hside hside',
      b.lookup_addToLevel price price' delta hside hside']
    by_cases hsame : symbol' = symbol ∧ side' = side ∧ price' = price
    · obtain ⟨rfl, rfl, rfl⟩ := hsame
      rw [h.levels symbol' side' price' hside hP]
    · rw [if_neg hsame, if_neg hsame]
      exact h.levels symbol' side' price' hside' hP
  · rw [hb']
    exact (AList.mem_insert _).mpr (Or.inr (h.known symbol' hsymbol hlisted hfits))

lemma orders_insert (h : InStep listed P s b) (eid : String) (st : OrderState) (eid' : String) :
    (b.bookOrders.insert eid st.booked).lookup eid'
      = ((s.orderState.insert eid st).lookup eid').map OrderState.booked := by
  by_cases heid : eid' = eid
  · rw [heid, AList.lookup_insert, AList.lookup_insert, Option.map_some]
  · rw [AList.lookup_insert_ne heid, AList.lookup_insert_ne heid, h.orders]

lemma orders_erase (h : InStep listed P s b) (eid eid' : String) :
    (b.bookOrders.erase eid).lookup eid'
      = ((s.orderState.erase eid).lookup eid').map OrderState.booked := by
  by_cases heid : eid' = eid
  · rw [heid, AList.lookup_erase, AList.lookup_erase, Option.map_none]
  · rw [AList.lookup_erase_ne heid, AList.lookup_erase_ne heid, h.orders]

/-- **An event** that names an order keeps equal what is equal. -/
theorem onMd (h : InStep listed P s b) (evt : EventType) (side : Char) {symbol : String}
    (price : Price) (qty : ℤ) {eid : String} (hlisted : listed symbol)
    (hsymbol : TextFits 8 symbol) (heid : eid ≠ "") :
    InStep listed P (s.applyMd evt side symbol price qty eid)
      (b.onMd evt side symbol price qty eid) := by
  have henter := h.enterSymbol symbol
  have hmem : symbol ∈ (b.enterSymbol symbol).book := by
    rw [Browser.enterSymbol]
    split_ifs with hin
    · exact hin.elim id fun hname => h.known symbol hname hlisted hsymbol
    · exact (AList.mem_insert _).mpr (Or.inl rfl)
  simp only [Subscriber.applyMd, Browser.onMd, hmem, heid, not_true_eq_false, false_or, or_false]
  revert henter
  generalize s.enterSymbol symbol = s
  generalize b.enterSymbol symbol = b
  intro h
  by_cases hsides : side ≠ '0' ∧ side ≠ '1'
  · rw [if_pos hsides, if_pos hsides]
    exact h
  have hside : side = '0' ∨ side = '1' := by tauto
  rw [if_neg hsides, if_neg hsides]
  have horder := h.orders eid
  cases evt with
  | NewOrder => exact h.move hside price qty rfl rfl (h.orders_insert eid ⟨price, qty, symbol, side⟩)
  | Cancel =>
    cases hprev : s.orderState.lookup eid with
    | none => simpa only [horder, hprev, Option.map_none] using h
    | some prev =>
      simp only [horder, hprev, Option.map_some]
      exact h.move hside prev.price (-prev.qty) rfl rfl (h.orders_erase eid)
  | FillResting =>
    cases hprev : s.orderState.lookup eid with
    | none => simpa only [horder, hprev, Option.map_none] using h
    | some prev =>
      simp only [horder, hprev, Option.map_some]
      split_ifs
      · exact h.move hside prev.price (-(prev.qty - qty)) rfl rfl (h.orders_erase eid)
      · exact h.move hside prev.price (-(prev.qty - qty)) rfl rfl
          (h.orders_insert eid { prev with qty := qty })
  | Trade => exact h
  | ReplaceInPlace =>
    cases hprev : s.orderState.lookup eid with
    | none => simpa only [horder, hprev, Option.map_none] using h
    | some prev =>
      simp only [horder, hprev, Option.map_some]
      exact h.move hside prev.price (-(prev.qty - qty)) rfl rfl
        (h.orders_insert eid { prev with qty := qty })
  | ReplaceDelete =>
    cases hprev : s.orderState.lookup eid with
    | none => simpa only [horder, hprev, Option.map_none] using h
    | some prev =>
      simp only [horder, hprev, Option.map_some]
      exact h.move hside prev.price (-prev.qty) rfl rfl (h.orders_erase eid)
  | ReplaceNew =>
    exact h.move hside price qty rfl rfl (h.orders_insert eid ⟨price, qty, symbol, side⟩)

end InStep

/-- A text that has been read from a field fits in it. -/
lemma textFits_of_decode {n : ℕ} {field : FixedText n} {text : String}
    (h : Subscriber.decode field = some text) : TextFits n text := by
  simp only [Subscriber.decode] at h
  split_ifs at h with hascii
  obtain rfl := Option.some.inj h
  refine ⟨?_, ?_, ?_⟩
  · rw [String.toList_ofList]
    exact (List.rdropWhile_prefix _ _).length_le.trans field.2.le
  · rw [String.toList_ofList]
    intro hlast
    have hne := List.ne_nil_of_mem (List.mem_of_getLast? hlast)
    rw [List.getLast?_eq_some_getLast hne] at hlast
    have hnot := List.rdropWhile_last_not (fun c => decide (c = '\x00')) field.1 hne
    simp [Option.some.inj hlast] at hnot
  · rw [String.toList_ofList]
    simpa using hascii

lemma exchangeId_ne_empty (n : ℕ) : exchangeId n ≠ "" := by
  intro h
  have hlist := congrArg String.toList h
  simp [exchangeId] at hlist

/-- The id in a packet is one that the exchange gives to an order, and the symbol is listed. -/
structure Genuine (listed : String → Prop) (pkt : MdPacket) : Prop where
  id : ∀ eid, Subscriber.decode pkt.exchangeId = some eid → ∃ n, eid = exchangeId n
  symbol : ∀ symbol, Subscriber.decode pkt.symbol = some symbol → listed symbol

namespace InStep

variable {listed : String → Prop} {P : String → Char → Price → Prop} {s : Subscriber}
  {b : Browser}

lemma receive (h : InStep listed P s b) {pkt : MdPacket} (hpkt : Genuine listed pkt) :
    InStep listed P (s.receive pkt) (b.receive pkt) := by
  rw [Subscriber.receive, Browser.receive]
  cases hsymbol : Subscriber.decode pkt.symbol with
  | none => exact h
  | some symbol =>
    cases heid : Subscriber.decode pkt.exchangeId with
    | none => exact h
    | some eid =>
      obtain ⟨n, rfl⟩ := hpkt.id eid heid
      exact h.onMd _ _ _ _ (hpkt.symbol symbol hsymbol) (textFits_of_decode hsymbol)
        (exchangeId_ne_empty n)

/-- **A sequence of packets** keeps equal what is equal. -/
theorem foldl_receive (h : InStep listed P s b) {pkts : List MdPacket}
    (hids : ∀ pkt ∈ pkts, Genuine listed pkt) :
    InStep listed P (pkts.foldl Subscriber.receive s) (pkts.foldl Browser.receive b) := by
  induction pkts generalizing s b with
  | nil => exact h
  | cons pkt pkts ih =>
    exact ih (h.receive (hids pkt List.mem_cons_self)) fun pkt' hpkt =>
      hids pkt' (List.mem_cons_of_mem _ hpkt)

end InStep

/-! ## When the snapshot is enough -/

/-- No side has more than ten levels, and the server knows every listed symbol that has a name
that every object has. -/
structure Subscriber.Shallow (s : Subscriber) (listed : String → Prop) : Prop where
  levels : ∀ symbol side, side = '0' ∨ side = '1' → (s.levels symbol side).keys.length ≤ 10
  known : ∀ symbol ∈ Browser.inherited, listed symbol → TextFits 8 symbol → symbol ∈ s.orderBook

/-- **A page that has got everything** keeps up. -/
theorem agree_of_shallow {s : Subscriber} {listed : String → Prop} (h : s.Shallow listed)
    {pkts : List MdPacket}
    (hids : ∀ pkt ∈ pkts, Genuine listed pkt) :
    Agree (pkts.foldl Subscriber.receive s) (pkts.foldl Browser.receive (Browser.start s)) := by
  have hstep := (InStep.start h.known).foldl_receive hids
  refine agree_iff.mpr fun symbol side hside => Ladder.best_congr fun price =>
    hstep.levels symbol side price hside ?_
  rw [Browser.levels_start s symbol hside, Ladder.lookup_cut_of_le (h.levels symbol side hside)]

/-! ## When it is not -/

/-- The order that the packets of a notice name. -/
def Notice.subject : Notice → String
  | .filled maker _ => maker.exchangeId
  | .cancelled _ order | .rested order _ => order.exchangeId
  | .replaced req _ _ => req.origOrderId

/-- The symbol that the packets of a notice name. -/
def Notice.symbol : Notice → String
  | .filled maker _ => maker.symbol
  | .cancelled _ order | .rested order _ => order.symbol
  | .replaced req _ _ => req.symbol

lemma Notice.texts_of_mem {n : Notice} {m : MarketDataPublisher} {pkt : MdPacket}
    (h : pkt ∈ (n.publish m).sent) : pkt ∈ m.sent ∨
      pkt.exchangeId = fillFixed 16 n.subject ∧ pkt.symbol = fillFixed 8 n.symbol := by
  have hsend : ∀ {m : MarketDataPublisher} {evt side price qty},
      pkt ∈ (m.send evt side n.symbol price qty n.subject).sent → pkt ∈ m.sent ∨
        pkt.exchangeId = fillFixed 16 n.subject ∧ pkt.symbol = fillFixed 8 n.symbol := by
    intro m evt side price qty hmem
    rcases List.mem_append.mp hmem with hmem | hmem
    · exact Or.inl hmem
    · rw [List.mem_singleton.mp hmem]
      exact Or.inr ⟨rfl, rfl⟩
  cases n with
  | filled maker taker => exact (hsend h).elim hsend Or.inr
  | cancelled id order => exact hsend h
  | replaced req newLeavesQty oldPrice =>
    simp only [publish, MarketDataPublisher.onReplace] at h
    split_ifs at h
    · exact hsend h
    · exact (hsend h).elim hsend Or.inr
  | rested order leavesQty => exact hsend h

/-- An order of a listed symbol, with an id that the exchange gives. -/
structure Order.Genuine (listed : String → Prop) (o : Order) : Prop where
  fits : o.TextsFit
  symbol : listed o.symbol
  number : ∃ n, o.exchangeId = FixExchange.exchangeId n

/-- The orders are genuine. -/
def GenuineOrders (listed : String → Prop) (L : OrderLedger) : Prop :=
  ∀ id o, L id = some o → o.exchangeId = id ∧ o.Genuine listed

/-- The packets of notices that the exchange can give when these orders rest. -/
def Announced (listed : String → Prop) (L : OrderLedger) (pkts : List MdPacket) : Prop :=
  ∃ ns L', Follows L ns L' ∧ (∀ o k, .rested o k ∈ ns → o.Genuine listed) ∧
    pkts <+: (ns.foldl Notice.publish MarketDataPublisher.init).sent

namespace GenuineOrders

variable {listed : String → Prop} {L L' : OrderLedger}

lemma drop (h : GenuineOrders listed L) (id : String) : GenuineOrders listed (L.drop id) :=
  fun id' o ho => h id' o (Ledger.of_drop_eq_some ho)

lemma put (h : GenuineOrders listed L) {o : Order} {id : String} (hid : o.exchangeId = id)
    (ho : o.Genuine listed) : GenuineOrders listed (L.put id o) := by
  intro id' o' ho'
  by_cases heq : id' = id
  · rw [heq, Ledger.put_self] at ho'
    obtain rfl := Option.some.inj ho'
    exact ⟨hid.trans heq.symm, ho⟩
  · rw [Ledger.put_of_ne heq] at ho'
    exact h id' o' ho'

lemma post (h : GenuineOrders listed L) {n : Notice} (hfits : n.Fits L)
    (hrested : ∀ o k, n = .rested o k → o.Genuine listed) : GenuineOrders listed (n.post L) := by
  cases n with
  | filled maker taker =>
    obtain ⟨-, o, ho, -⟩ := hfits
    obtain ⟨hid, hgenuine⟩ := h _ o ho
    rw [Notice.post, OrderLedger.setOpen, Ledger.setAmount]
    split_ifs
    · exact h.drop _
    · rw [Ledger.adjust_of_some ho]
      exact h.put hid ⟨hgenuine.fits, hgenuine.symbol, hgenuine.number⟩
  | cancelled id order => exact h.drop id
  | replaced req newLeavesQty oldPrice =>
    obtain ⟨-, o, ho, -⟩ := hfits
    obtain ⟨hid, hgenuine⟩ := h _ o ho
    rw [Notice.post, Ledger.adjust_of_some ho]
    exact h.put hid ⟨hgenuine.fits, hgenuine.symbol, hgenuine.number⟩
  | rested order leavesQty =>
    have hgenuine := hrested order leavesQty rfl
    exact h.put rfl ⟨hgenuine.fits, hgenuine.symbol, hgenuine.number⟩

/-- A notice is about a genuine order. -/
lemma exists_order (h : GenuineOrders listed L) {n : Notice} (hfits : n.Fits L)
    (hrested : ∀ o k, n = .rested o k → o.Genuine listed) :
    ∃ o : Order, o.Genuine listed ∧ n.subject = o.exchangeId ∧ n.symbol = o.symbol := by
  cases n with
  | filled maker taker =>
    obtain ⟨-, o, ho, hsymbol, -⟩ := hfits
    obtain ⟨hid, hgenuine⟩ := h _ o ho
    exact ⟨o, hgenuine, hid.symm, hsymbol.symm⟩
  | cancelled id order => exact ⟨order, (h id order hfits).2, rfl, rfl⟩
  | replaced req newLeavesQty oldPrice =>
    obtain ⟨-, o, ho, -, hsymbol, -⟩ := hfits
    obtain ⟨hid, hgenuine⟩ := h _ o ho
    exact ⟨o, hgenuine, hid.symm, hsymbol.symm⟩
  | rested order leavesQty => exact ⟨order, hrested order leavesQty rfl, rfl, rfl⟩

/-- What is announced is genuine. -/
lemma packets {ns : List Notice} (hfollows : Follows L ns L') (h : GenuineOrders listed L)
    (hrested : ∀ o k, .rested o k ∈ ns → o.Genuine listed)
    {m : MarketDataPublisher} (hm : ∀ pkt ∈ m.sent, Genuine listed pkt) :
    ∀ pkt ∈ (ns.foldl Notice.publish m).sent, Genuine listed pkt := by
  induction hfollows generalizing m with
  | nil => exact hm
  | @cons L L' n ns fits rest ih =>
    have hone : ∀ o k, n = .rested o k → o.Genuine listed :=
      fun o k hn => hrested o k (hn ▸ List.mem_cons_self)
    refine ih (h.post fits hone) (fun o k hmem => hrested o k (List.mem_cons_of_mem _ hmem)) ?_
    intro pkt hpkt
    rcases Notice.texts_of_mem hpkt with hmem | ⟨hid, hsymbol⟩
    · exact hm pkt hmem
    · obtain ⟨o, hgenuine, hsubject, hsym⟩ := h.exists_order fits hone
      refine ⟨fun eid heid => ?_, fun symbol hdecode => ?_⟩
      · rw [hid, hsubject, decode_fillFixed hgenuine.fits.1] at heid
        rw [← Option.some.inj heid]
        exact hgenuine.number
      · rw [hsymbol, hsym, decode_fillFixed hgenuine.fits.2] at hdecode
        rw [← Option.some.inj hdecode]
        exact hgenuine.symbol

end GenuineOrders

/-- The page after the packets of a notice. -/
def Notice.display (b : Browser) (n : Notice) : Browser :=
  (n.publish MarketDataPublisher.init).sent.foldl Browser.receive b

lemma Notice.foldl_display (ns : List Notice) (b : Browser) :
    (ns.foldl Notice.publish MarketDataPublisher.init).sent.foldl Browser.receive b
      = ns.foldl Notice.display b := Notice.foldl_sents (fun _ _ _ => rfl) ns _ b

lemma Notice.foldl_hear (ns : List Notice) (s : Subscriber) :
    (ns.foldl Notice.publish MarketDataPublisher.init).sent.foldl Subscriber.receive s
      = ns.foldl Notice.hear s := Notice.foldl_sents (fun _ _ _ => rfl) ns _ s

section

variable {listed : String → Prop} {P : String → Char → Price → Prop} {s : Subscriber}
  {b : Browser} {L : OrderLedger}

/-- An order that is cancelled changes no level but its own. -/
lemma InStep.cancelled (h : InStep listed P s b) (hs : Reflects s L) (hL : GenuineOrders listed L)
    {id : String} {o : Order} (ho : L id = some o) {symbol : String} {side : Char} {p : Price}
    (hside : side = '0' ∨ side = '1')
    (hne : ¬(symbol = o.symbol ∧ side = MarketDataPublisher.packetSide o.side ∧ p = o.price)) :
    ((Notice.hear s (.cancelled id o)).levels symbol side).lookup p
        = (s.levels symbol side).lookup p ∧
      ((Notice.display b (.cancelled id o)).levels symbol side).lookup p
        = (b.levels symbol side).lookup p := by
  obtain ⟨hid, -, hidfits, hsymfits⟩ := hs.orders id o ho
  obtain ⟨-, -, hlisted, k, hnumber⟩ := hL id o ho
  rw [hid] at hnumber
  have hoside := packetSide_eq o.side
  have hsides : ¬(MarketDataPublisher.packetSide o.side ≠ '0' ∧
      MarketDataPublisher.packetSide o.side ≠ '1') := by
    rcases hoside with hs | hs <;> simp [hs]
  have hempty : id ≠ "" := hnumber ▸ exchangeId_ne_empty k
  have hhear : Notice.hear s (.cancelled id o)
      = s.applyMd .Cancel (MarketDataPublisher.packetSide o.side) o.symbol o.price 0 id := by
    rw [← hid]
    exact s.receive_of_fits _ _ _ _ _ hsymfits hidfits
  have hdisplay : Notice.display b (.cancelled id o)
      = b.onMd .Cancel (MarketDataPublisher.packetSide o.side) o.symbol o.price 0 id := by
    rw [← hid]
    simp only [Notice.display, Notice.publish, MarketDataPublisher.onCancel,
      MarketDataPublisher.send, MarketDataPublisher.init, List.nil_append, List.foldl_cons,
      List.foldl_nil, Browser.receive, decode_fillFixed hsymfits, decode_fillFixed hidfits]
  have henter := h.enterSymbol o.symbol
  have hmem : o.symbol ∈ (b.enterSymbol o.symbol).book := by
    rw [Browser.enterSymbol]
    split_ifs with hin
    · exact hin.elim (fun hmem => hmem) fun hname => h.known o.symbol hname hlisted hsymfits
    · exact (AList.mem_insert _).mpr (Or.inl rfl)
  have hstate : (s.enterSymbol o.symbol).orderState.lookup id = some o.shown := by
    rw [s.orderState_enterSymbol, hs.lookup, ho]
    rfl
  have horder : (b.enterSymbol o.symbol).bookOrders.lookup id = some o.shown.booked := by
    rw [henter.orders, hstate]
    rfl
  have hshown : ¬(symbol = o.symbol ∧ side = MarketDataPublisher.packetSide o.side ∧
      p = o.shown.price) := hne
  have hbooked : ¬(symbol = o.symbol ∧ side = MarketDataPublisher.packetSide o.side ∧
      p = o.shown.booked.price) := hne
  rw [hhear, hdisplay]
  simp only [Subscriber.applyMd, Browser.onMd, if_neg hsides, hmem, hempty, hstate, horder,
    not_true_eq_false, false_or, or_false]
  rw [Subscriber.lookup_addToLevel _ _ _ _ hoside hside,
    Browser.lookup_addToLevel _ _ _ _ hoside hside, if_neg hshown, if_neg hbooked]
  refine ⟨?_, ?_⟩
  · rw [Subscriber.levels, Subscriber.levels, ← s.bookOf_enterSymbol o.symbol]
    rfl
  · rw [Browser.levels, Browser.levels, ← b.bookOf_enterSymbol o.symbol]
    rfl

/-- **Notices** keep equal what is equal. -/
lemma InStep.displays (h : InStep listed P s b) (hL : GenuineOrders listed L) {L' : OrderLedger}
    {ns : List Notice} (hfollows : Follows L ns L')
    (hrested : ∀ o k, .rested o k ∈ ns → o.Genuine listed) :
    InStep listed P (ns.foldl Notice.hear s) (ns.foldl Notice.display b) := by
  rw [← Notice.foldl_hear, ← Notice.foldl_display]
  exact h.foldl_receive (hL.packets hfollows hrested (by simp [MarketDataPublisher.init]))

/-- All orders of a level can be cancelled, which changes no other level. -/
lemma InStep.cancels (h : InStep listed P s b) (hs : Reflects s L) (hL : GenuineOrders listed L)
    {symbol : String} {side : Char} {p : Price} {ids : List String} (hnodup : ids.Nodup)
    (hids : ∀ id ∈ ids, ∃ o, L id = some o ∧ o.symbol = symbol ∧
      MarketDataPublisher.packetSide o.side = side ∧ o.price = p) :
    ∃ ns L', Follows L ns L' ∧ (∀ o k, .rested o k ∉ ns) ∧
      (∀ id, L' id = if id ∈ ids then none else L id) ∧
      ∀ price, price ≠ p →
        ((ns.foldl Notice.hear s).levels symbol side).lookup price
            = (s.levels symbol side).lookup price ∧
          ((ns.foldl Notice.display b).levels symbol side).lookup price
            = (b.levels symbol side).lookup price := by
  induction ids generalizing s b L with
  | nil =>
    exact ⟨[], L, .nil, fun _ _ => List.not_mem_nil, fun id => by simp, fun _ _ => ⟨rfl, rfl⟩⟩
  | cons id ids ih =>
    obtain ⟨hid, hnodup⟩ := List.nodup_cons.mp hnodup
    obtain ⟨o, ho, rfl, rfl, rfl⟩ := hids id List.mem_cons_self
    have hfits : (Notice.cancelled id o).Fits L := ho
    have hs' : Reflects (Notice.hear s (.cancelled id o)) (L.drop id) :=
      hs.hear hfits fun o k hn => absurd hn (by simp)
    have h' : InStep listed P (Notice.hear s (.cancelled id o)) (Notice.display b (.cancelled id o)) :=
      h.displays hL (.cons hfits .nil : Follows L [.cancelled id o] _) (by simp)
    have hids' : ∀ id' ∈ ids, ∃ o', L.drop id id' = some o' ∧ o'.symbol = o.symbol ∧
        MarketDataPublisher.packetSide o'.side = MarketDataPublisher.packetSide o.side ∧
        o'.price = o.price := by
      intro id' hid'
      have hne : id' ≠ id := by
        rintro rfl
        exact hid hid'
      rw [Ledger.drop_of_ne hne]
      exact hids id' (List.mem_cons_of_mem _ hid')
    obtain ⟨ns, L', hfollows, hrested, hL', hframe⟩ := ih h' hs' (hL.drop id) hnodup hids'
    refine ⟨.cancelled id o :: ns, L', .cons hfits hfollows, fun o' k hmem => ?_, fun id' => ?_,
      fun price hprice => ?_⟩
    · rcases List.mem_cons.mp hmem with heq | hmem
      · exact absurd heq (by simp)
      · exact hrested o' k hmem
    · rw [hL']
      by_cases heq : id' = id
      · simp [heq, Ledger.drop_self]
      · simp [heq, Ledger.drop_of_ne heq]
    · obtain ⟨hserver, hpage⟩ := hframe price hprice
      obtain ⟨hserver₁, hpage₁⟩ := h.cancelled hs hL ho (packetSide_eq o.side)
        fun hsame => hprice hsame.2.2
      exact ⟨hserver.trans hserver₁, hpage.trans hpage₁⟩

/-- The levels of a server that has no order at one of them. -/
lemma Reflects.lookup_eq_none (hs : Reflects s L) {symbol : String} {side : Char} {p : Price}
    (hside : side = '0' ∨ side = '1')
    (hnone : ∀ id o, L id = some o → ¬(o.symbol = symbol ∧
      MarketDataPublisher.packetSide o.side = side ∧ o.price = p)) :
    (s.levels symbol side).lookup p = none := by
  have hzero : openAt s.orderState symbol side p = 0 := by
    refine List.sum_eq_zero fun x hx => ?_
    obtain ⟨kv, hkv, rfl⟩ := List.mem_map.mp hx
    have hlookup := AList.mem_lookup_iff.mpr hkv
    rw [Option.mem_def, hs.lookup] at hlookup
    obtain ⟨o, ho, hshown⟩ := Option.map_eq_some_iff.mp hlookup
    rw [← hshown]
    exact if_neg (hnone kv.1 o ho)
  rw [hs.tallies symbol side p hside, hzero, if_pos le_rfl]

/-- The level of an order is there. -/
lemma Reflects.lookup_ne_none (hs : Reflects s L) {id : String} {o : Order} (ho : L id = some o) :
    (s.levels o.symbol (MarketDataPublisher.packetSide o.side)).lookup o.price ≠ none := by
  have hside := packetSide_eq o.side
  have hpos := (hs.orders id o ho).2.1
  have hstate : s.orderState.lookup id = some o.shown := by
    rw [hs.lookup, ho]
    rfl
  have hself : o.shown.at o.symbol (MarketDataPublisher.packetSide o.side) o.price = o.leavesQty :=
    if_pos ⟨rfl, rfl, rfl⟩
  have hrest : 0 ≤ Ledger.total
      (fun st => st.at o.symbol (MarketDataPublisher.packetSide o.side) o.price)
      (s.orderState.erase id) := by
    refine Ledger.total_nonneg fun kv hkv => ?_
    rw [OrderState.at]
    split_ifs
    · exact (hs.adds.sane_erase kv.1 kv.2 (AList.mem_lookup_iff.mpr hkv)).1.le
    · exact le_rfl
  rw [hs.tallies _ _ _ hside, openAt, Ledger.total_erase_of_some hstate, hself,
    if_neg (by omega)]
  exact Option.some_ne_none _

/-- An event enters no symbol but its own. -/
lemma Browser.mem_onMd {evt : EventType} {side : Char} {symbol name : String} {price : Price}
    {qty : ℤ} {eid : String} (h : name ∈ (b.onMd evt side symbol price qty eid).book) :
    name ∈ (b.enterSymbol symbol).book := by
  simp only [onMd] at h
  revert h
  generalize b.enterSymbol symbol = b
  intro h
  by_cases hout : symbol ∉ b.book ∨ (side ≠ '0' ∧ side ≠ '1') ∨ eid = ""
  · rwa [if_pos hout] at h
  rw [if_neg hout] at h
  have hsymbol : symbol ∈ b.book := by
    by_contra hnot
    exact hout (Or.inl hnot)
  have hadd : ∀ {b' : Browser} {price delta}, b'.book = b.book →
      name ∈ (b'.addToLevel symbol side price delta).book → name ∈ b.book := by
    intro b' price delta hbook hmem
    rcases (AList.mem_insert _).mp hmem with rfl | hmem
    · exact hsymbol
    · rwa [hbook] at hmem
  cases evt with
  | NewOrder => exact hadd rfl h
  | Cancel =>
    cases hprev : b.bookOrders.lookup eid with
    | none => rwa [hprev] at h
    | some prev =>
      rw [hprev] at h
      exact hadd rfl h
  | FillResting =>
    cases hprev : b.bookOrders.lookup eid with
    | none => rwa [hprev] at h
    | some prev =>
      simp only [hprev] at h
      split_ifs at h <;> exact hadd rfl h
  | Trade => exact h
  | ReplaceInPlace =>
    cases hprev : b.bookOrders.lookup eid with
    | none => rwa [hprev] at h
    | some prev =>
      rw [hprev] at h
      exact hadd rfl h
  | ReplaceDelete =>
    cases hprev : b.bookOrders.lookup eid with
    | none => rwa [hprev] at h
    | some prev =>
      rw [hprev] at h
      exact hadd rfl h
  | ReplaceNew => exact hadd rfl h

/-- What is announced under a name that every object has does not reach the page. -/
lemma Browser.notMem_foldl_receive {name : String} (hname : name ∈ inherited)
    (h : name ∉ b.book) (pkts : List MdPacket) : name ∉ (pkts.foldl receive b).book := by
  induction pkts generalizing b with
  | nil => exact h
  | cons pkt pkts ih =>
    refine ih fun hmem => h ?_
    rw [receive] at hmem
    split at hmem
    · have henter := mem_onMd hmem
      rw [enterSymbol] at henter
      split_ifs at henter with hin
      · exact henter
      · rcases (AList.mem_insert _).mp henter with rfl | henter
        · exact absurd (Or.inr hname) hin
        · exact henter
    · exact hmem

/-- An id that is free, or can be made so. -/
lemma GenuineOrders.exists_free (hL : GenuineOrders listed L) :
    ∃ ns L' id, Follows L ns L' ∧ (∀ o k, .rested o k ∉ ns) ∧ L' id = none ∧ TextFits 16 id ∧
      ∃ n, id = exchangeId n := by
  by_cases hsome : ∃ id o, L id = some o
  · obtain ⟨id, o, ho⟩ := hsome
    obtain ⟨rfl, hgenuine⟩ := hL id o ho
    exact ⟨[.cancelled o.exchangeId o], L.drop o.exchangeId, o.exchangeId, .cons ho .nil, by simp,
      Ledger.drop_self, hgenuine.fits.1, hgenuine.number⟩
  · refine ⟨[], L, exchangeId 1, .nil, by simp, ?_, by decide, 1, rfl⟩
    by_contra hne
    exact hsome ⟨_, Option.ne_none_iff_exists'.mp hne⟩

/-- **A symbol that has a name that every object has** stays without a book on the page. -/
lemma known_of_agree (hs : Reflects s L) (hL : GenuineOrders listed L)
    (hagree : ∀ pkts, Announced listed L pkts →
      Agree (pkts.foldl Subscriber.receive s) (pkts.foldl Browser.receive (Browser.start s)))
    {name : String} (hname : name ∈ Browser.inherited) (hlisted : listed name)
    (hfits : TextFits 8 name) :
    name ∈ s.orderBook := by
  by_contra hnot
  obtain ⟨ns, L', id, hfollows, hrested, hfree, hid, hnumber⟩ := hL.exists_free
  let o : Order := ⟨"a", id, "A", name, '1', '2', 1, 1, 1, '0'⟩
  have hfollows' : Follows L (ns ++ [.rested o 1]) (Notice.post L' (.rested o 1)) :=
    hfollows.append (.cons ⟨one_pos, hfree⟩ .nil)
  have htexts : ∀ o' k, .rested o' k ∈ ns ++ [.rested o 1] → o'.Genuine listed := by
    intro o' k hmem
    rcases List.mem_append.mp hmem with hmem | hmem
    · exact absurd hmem (hrested o' k)
    · obtain ⟨rfl, -⟩ := Notice.rested.inj (List.mem_singleton.mp hmem)
      exact ⟨⟨hid, hfits⟩, hlisted, hnumber⟩
  have hannounced := hagree _ ⟨_, _, hfollows', htexts, List.prefix_refl _⟩
  have hbids := hannounced.bids name
  -- the page has nothing
  have hpage := Browser.notMem_foldl_receive hname (b := Browser.start s)
    (fun hmem => hnot (Browser.mem_book_start.mp hmem))
    ((ns ++ [Notice.rested o 1]).foldl Notice.publish MarketDataPublisher.init).sent
  rw [Browser.sortedBids, Browser.bookOf, AList.lookup_eq_none.mpr hpage] at hbids
  -- the server has the order
  have hs' := hs.hears hfollows' fun o k hmem => (htexts o k hmem).fits
  have hlevel := hs'.lookup_ne_none (Ledger.put_self : Ledger.put _ id (o.withLeaves 1) id = _)
  rw [← Notice.foldl_hear] at hlevel
  have hlength := congrArg List.length hbids
  rw [topTen, topTen, Ladder.length_best, Ladder.length_best] at hlength
  have hmem := AList.lookup_isSome.mp (Option.ne_none_iff_isSome.mp hlevel)
  have hpos := List.length_pos_of_mem (AList.mem_keys.mp hmem)
  have hside : MarketDataPublisher.packetSide (o.withLeaves 1).side = '0' := rfl
  rw [hside, Subscriber.levels, if_pos rfl] at hpos
  have hzero : (∅ : PriceLevels).keys.length = 0 := rfl
  simp only [Option.getD_none, hzero] at hlength
  have hname : (o.withLeaves 1).symbol = name := rfl
  rw [hname] at hpos
  omega

/-- **A level that was left out is missing** once the orders of a better one have been
cancelled. -/
lemma shallow_of_agree (hs : Reflects s L) (hL : GenuineOrders listed L)
    (hknown : ∀ symbol ∈ Browser.inherited, listed symbol → TextFits 8 symbol →
      symbol ∈ s.orderBook)
    (hagree : ∀ pkts, Announced listed L pkts →
      Agree (pkts.foldl Subscriber.receive s) (pkts.foldl Browser.receive (Browser.start s)))
    {symbol : String} {side : Char} (hside : side = '0' ∨ side = '1') :
    (s.levels symbol side).keys.length ≤ 10 := by
  by_contra hdeep
  have hdeep := not_le.mp hdeep
  have hlevels := Browser.levels_start s symbol hside
  -- one of the best levels
  obtain ⟨p, hp⟩ : ∃ p, p ∈ Ladder.cut (Ahead side) 10 (s.levels symbol side) := by
    have hlength := Ladder.length_keys_cut (r := Ahead side) (n := 10)
      (m := s.levels symbol side)
    obtain ⟨p, hp⟩ := List.exists_mem_of_length_pos
      (l := (Ladder.cut (Ahead side) 10 (s.levels symbol side)).keys) (by omega)
    exact ⟨p, AList.mem_keys.mpr hp⟩
  -- its orders
  have hids : ∀ id ∈ (s.orderState.keys.filter fun id => decide (∃ st ∈ s.orderState.lookup id,
      st.symbol = symbol ∧ st.side = side ∧ st.price = p)), ∃ o, L id = some o ∧
        o.symbol = symbol ∧ MarketDataPublisher.packetSide o.side = side ∧ o.price = p := by
    intro id hid
    obtain ⟨st, hst, hat⟩ := of_decide_eq_true (List.mem_filter.mp hid).2
    rw [Option.mem_def, hs.lookup] at hst
    obtain ⟨o, ho, rfl⟩ := Option.map_eq_some_iff.mp hst
    exact ⟨o, ho, hat⟩
  have hstart : InStep listed _ _ _ := InStep.start hknown
  obtain ⟨ns, L', hfollows, hrested, hL', hframe⟩ :=
    hstart.cancels hs hL (s.orderState.keys_nodup.filter _) hids
  have hno : ∀ o k, .rested o k ∈ ns → o.Genuine listed := fun o k hmem =>
    absurd hmem (hrested o k)
  have hend := hstart.displays hL hfollows hno
  have hs' := hs.hears hfollows fun o k hmem => (hno o k hmem).fits
  -- the level is gone, on the server and on the page
  have hgone : ((ns.foldl Notice.hear s).levels symbol side).lookup p = none := by
    refine hs'.lookup_eq_none hside fun id o ho hat => ?_
    rw [hL'] at ho
    split_ifs at ho with hid
    have hst : s.orderState.lookup id = some o.shown := by
      rw [hs.lookup, ho]
      rfl
    refine hid (List.mem_filter.mpr ⟨AList.mem_keys.mp ?_, decide_eq_true ⟨o.shown, hst, hat⟩⟩)
    exact AList.lookup_isSome.mp (by rw [hst]; rfl)
  have hgone' : ((ns.foldl Notice.display (Browser.start s)).levels symbol side).lookup p
      = none := by
    rw [hend.levels symbol side p hside ?_, hgone]
    rw [hlevels, Ladder.lookup_cut_of_mem hp]
  have hserver : ∀ price, ((s.levels symbol side).erase p).lookup price
      = ((ns.foldl Notice.hear s).levels symbol side).lookup price := by
    intro price
    by_cases hprice : price = p
    · rw [hprice, AList.lookup_erase, hgone]
    · rw [AList.lookup_erase_ne hprice, (hframe price hprice).1]
  have hpage : ∀ price, ((Ladder.cut (Ahead side) 10 (s.levels symbol side)).erase p).lookup price
      = ((ns.foldl Notice.display (Browser.start s)).levels symbol side).lookup price := by
    intro price
    by_cases hprice : price = p
    · rw [hprice, AList.lookup_erase, hgone']
    · rw [AList.lookup_erase_ne hprice, (hframe price hprice).2, hlevels]
  have hannounced := hagree _ ⟨ns, L', hfollows, hno, List.prefix_refl _⟩
  rw [Notice.foldl_hear, Notice.foldl_display] at hannounced
  refine Ladder.best_erase_ne hdeep hp ?_
  calc Ladder.best (Ahead side) 10 ((s.levels symbol side).erase p)
      = topTen side ((ns.foldl Notice.hear s).levels symbol side) := Ladder.best_congr hserver
    _ = topTen side ((ns.foldl Notice.display (Browser.start s)).levels symbol side) :=
        (agree_iff.mp hannounced symbol side hside).symm
    _ = Ladder.best (Ahead side) 10
          ((Ladder.cut (Ahead side) 10 (s.levels symbol side)).erase p) :=
        (Ladder.best_congr hpage).symm

/-- **When the page keeps up with the server**: at the start no side has more than ten levels, and
no listed symbol is missing that has a name that every object has.  Then it keeps up whatever the
server is sent; else the exchange can send something after which it shows other levels. -/
theorem browser_agrees_iff (listed : String → Prop) (s : Subscriber) :
    (s.Shallow listed → ∀ pkts : List MdPacket, (∀ pkt ∈ pkts, Genuine listed pkt) →
      Agree (pkts.foldl Subscriber.receive s) (pkts.foldl Browser.receive (Browser.start s))) ∧
    (∀ L, Reflects s L → GenuineOrders listed L →
      ((∀ pkts, Announced listed L pkts → Agree (pkts.foldl Subscriber.receive s)
        (pkts.foldl Browser.receive (Browser.start s))) ↔ s.Shallow listed)) := by
  refine ⟨fun hshallow pkts hpkts => agree_of_shallow hshallow hpkts, fun L hs hL =>
    ⟨fun hagree => ?_, ?_⟩⟩
  · have hknown : ∀ symbol ∈ Browser.inherited, listed symbol → TextFits 8 symbol →
        symbol ∈ s.orderBook := fun symbol => known_of_agree hs hL hagree
    exact ⟨fun symbol side hside => shallow_of_agree hs hL hknown hagree hside, hknown⟩
  · rintro hshallow pkts ⟨ns, L', hfollows, hrested, hpkts⟩
    have hgenuine := hL.packets hfollows hrested (m := MarketDataPublisher.init)
      (by simp [MarketDataPublisher.init])
    exact agree_of_shallow hshallow fun pkt hpkt => hgenuine pkt (hpkts.subset hpkt)

end

/-! ## Two servers -/

/-- A server before the first packet. -/
lemma reflects_empty : Reflects ⟨∅, ∅⟩ Ledger.empty := by
  refine ⟨fun id o ho => absurd ho (by simp [Ledger.empty]), Ledger.ofAList_empty, ?_⟩
  rintro symbol side price (rfl | rfl) <;> rfl

/-- Orders that come to rest one after the other. -/
lemma follows_rested {listed : String → Prop} {orders : List Order} {L : OrderLedger}
    (hids : (orders.map Order.exchangeId).Nodup) (hL : GenuineOrders listed L)
    (hfree : ∀ o ∈ orders, L o.exchangeId = none ∧ 0 < o.leavesQty ∧ o.Genuine listed) :
    ∃ L', Follows L (orders.map fun o => Notice.rested o o.leavesQty) L' ∧
      GenuineOrders listed L' := by
  induction orders generalizing L with
  | nil => exact ⟨L, .nil, hL⟩
  | cons o orders ih =>
    obtain ⟨hid, hids⟩ := List.nodup_cons.mp hids
    obtain ⟨hnone, hpos, hgenuine⟩ := hfree o List.mem_cons_self
    have hfits : (Notice.rested o o.leavesQty).Fits L := ⟨hpos, hnone⟩
    have hL' := hL.post hfits fun o' k heq => (Notice.rested.inj heq).1 ▸ hgenuine
    obtain ⟨L', hfollows, hL''⟩ := ih hids hL' fun o' ho' => by
      obtain ⟨hnone', hpos', hgenuine'⟩ := hfree o' (List.mem_cons_of_mem _ ho')
      have hne : o'.exchangeId ≠ o.exchangeId := fun heq =>
        hid (List.mem_map.mpr ⟨o', ho', heq⟩)
      exact ⟨(Ledger.put_of_ne hne).trans hnone', hpos', hgenuine'⟩
    exact ⟨L', .cons hfits hfollows, hL''⟩

/-- Buy orders, each at a price of its own. -/
def ladderOrders (n : ℕ) : List Order :=
  (List.range n).map fun k =>
    ⟨"a", exchangeId (k + 1), "A", "X", '1', '2', (100 + k : ℕ), 1, 1, '0'⟩

/-- A server that has heard of the orders. -/
def ladderServer (n : ℕ) : Subscriber :=
  ((ladderOrders n).map fun o => Notice.rested o o.leavesQty).foldl Notice.hear ⟨∅, ∅⟩

lemma ladderServer_reflects {n : ℕ} (hids : ((ladderOrders n).map Order.exchangeId).Nodup)
    (hfits : ∀ o ∈ ladderOrders n, o.TextsFit) :
    ∃ L, Reflects (ladderServer n) L ∧ GenuineOrders (· = "X") L := by
  have hgenuine : ∀ o ∈ ladderOrders n, o.Genuine (· = "X") := by
    intro o ho
    refine ⟨hfits o ho, ?_, ?_⟩ <;> obtain ⟨k, -, rfl⟩ := List.mem_map.mp ho
    · rfl
    · exact ⟨k + 1, rfl⟩
  have hfree : ∀ o ∈ ladderOrders n, (Ledger.empty : OrderLedger) o.exchangeId = none ∧
      0 < o.leavesQty ∧ o.Genuine (· = "X") := by
    intro o ho
    refine ⟨rfl, ?_, hgenuine o ho⟩
    obtain ⟨k, -, rfl⟩ := List.mem_map.mp ho
    exact one_pos
  obtain ⟨L, hfollows, hL⟩ :=
    follows_rested (L := Ledger.empty) hids (fun id o ho => absurd ho (by simp [Ledger.empty])) hfree
  refine ⟨L, Reflects.hears hfollows reflects_empty fun o k hmem => ?_, hL⟩
  obtain ⟨o', ho', heq⟩ := List.mem_map.mp hmem
  exact (Notice.rested.inj heq).1 ▸ hfits o' ho'

theorem browser_agrees_iff_sample :
    ∃ L, Reflects (ladderServer 2) L ∧ ∀ pkts, Announced (· = "X") L pkts →
      Agree (pkts.foldl Subscriber.receive (ladderServer 2))
        (pkts.foldl Browser.receive (Browser.start (ladderServer 2))) := by
  obtain ⟨L, hs, hL⟩ := ladderServer_reflects (n := 2) (by decide +kernel) (by decide +kernel)
  obtain ⟨-, hiff⟩ := browser_agrees_iff (· = "X") (ladderServer 2)
  refine ⟨L, hs, (hiff L hs hL).mpr ⟨fun symbol side _ => ?_, ?_⟩⟩
  · have hentries : ∀ e ∈ (ladderServer 2).orderBook.entries,
        e.2.bids.keys.length ≤ 10 ∧ e.2.asks.keys.length ≤ 10 := by decide +kernel
    rw [Subscriber.levels, Subscriber.bookOf]
    cases hlookup : (ladderServer 2).orderBook.lookup symbol with
    | none => split_ifs <;> exact Nat.zero_le _
    | some sides =>
      obtain ⟨hbids, hasks⟩ := hentries ⟨symbol, sides⟩ (AList.mem_lookup_iff.mp hlookup)
      split_ifs
      · exact hbids
      · exact hasks
  · rintro symbol hname rfl
    exact absurd hname (by decide)

/-- Eleven bids: when the best one is cancelled, the page shows nine levels and the server has
ten. -/
theorem level_left_out :
    ∃ L pkts, Reflects (ladderServer 11) L ∧ GenuineOrders (· = "X") L ∧
      Announced (· = "X") L pkts ∧
      ¬ Agree (pkts.foldl Subscriber.receive (ladderServer 11))
        (pkts.foldl Browser.receive (Browser.start (ladderServer 11))) := by
  obtain ⟨L, hs, hL⟩ := ladderServer_reflects (n := 11) (by decide +kernel) (by decide +kernel)
  have hstate : (ladderServer 11).orderState.lookup "EXCH-11" = some ⟨110, 1, "X", '0'⟩ := by
    decide +kernel
  rw [hs.lookup, Option.map_eq_some_iff] at hstate
  obtain ⟨o, ho, hshown⟩ := hstate
  obtain ⟨hid, -⟩ := hL _ o ho
  refine ⟨L, _, hs, hL, ⟨[.cancelled "EXCH-11" o], _, .cons ho .nil, by simp,
    List.prefix_refl _⟩, fun hagree => ?_⟩
  obtain ⟨hprice, -, hsymbol, hside⟩ := OrderState.mk.inj hshown
  have hsent : ([Notice.cancelled "EXCH-11" o].foldl Notice.publish MarketDataPublisher.init).sent
      = [⟨1, .Cancel, '0', fillFixed 8 "X", 110, 0, fillFixed 16 "EXCH-11"⟩] := by
    rw [← hprice, ← hside, ← hid, ← hsymbol]
    rfl
  have hbids := congrArg List.length (hagree.bids "X")
  rw [hsent] at hbids
  have hnine : (([⟨1, .Cancel, '0', fillFixed 8 "X", 110, 0, fillFixed 16 "EXCH-11"⟩].foldl
      Browser.receive (Browser.start (ladderServer 11))).sortedBids "X").length = 9 := by
    decide +kernel
  have hten : (topTen '0' (([⟨1, .Cancel, '0', fillFixed 8 "X", 110, 0,
      fillFixed 16 "EXCH-11"⟩].foldl Subscriber.receive (ladderServer 11)).bookOf
        "X").bids).length = 10 := by
    decide +kernel
  omega

end FixExchange
