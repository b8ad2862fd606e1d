/-
# A subscriber reflects the book

A subscriber keeps two things: the orders, and per symbol, side and price the total of their
open quantities.  It never adds up a level again, but moves it by the change that a packet
brings; that the level stays the total of the orders (`Tallies`) is therefore an invariant of
every packet.  The packets of a notice then make the change of the orders that the notice is
about (`Reflects.hear`), given that texts survive the fields of a packet (`TextFits`).
-/
import FixExchange.Gateway.FollowsBook
import FixExchange.Ui.Subscriber

namespace FixExchange

/-! ## Texts in packets -/

/-- A text that a field of `n` characters can hold: it is not cut off, none of it is taken for
padding, and all of it is ASCII. -/
structure TextFits (n : ℕ) (text : String) : Prop where
  length : text.toList.length ≤ n
  padding : text.toList.getLast? ≠ some '\x00'
  ascii : ∀ c ∈ text.toList, c.toNat < 128

instance (n : ℕ) (text : String) : Decidable (TextFits n text) :=
  decidable_of_iff (text.toList.length ≤ n ∧ text.toList.getLast? ≠ some '\x00' ∧
      text.toList.all (fun c => decide (c.toNat < 128)) = true)
    ⟨fun ⟨hl, hp, ha⟩ => ⟨hl, hp, by simpa using ha⟩,
      fun ⟨hl, hp, ha⟩ => ⟨hl, hp, by simpa using ha⟩⟩

/-- **A text that fits is read as it was written.** -/
theorem decode_fillFixed {n : ℕ} {text : String} (h : TextFits n text) :
    Subscriber.decode (fillFixed n text) = some text := by
  have hstrip : (text.toList.take n ++ List.replicate (n - text.toList.length) '\x00').rdropWhile
      (fun c => c = '\x00') = text.toList := by
    rw [List.take_of_length_le h.length]
    induction n - text.toList.length with
    | zero =>
      rw [List.replicate_zero, List.append_nil, List.rdropWhile_eq_self_iff]
      intro hne hlast
      refine h.padding ?_
      rw [List.getLast?_eq_some_getLast hne, of_decide_eq_true hlast]
    | succ k ih =>
      rw [List.replicate_succ', ← List.append_assoc, List.rdropWhile_concat_pos _ _ _ (by simp), ih]
  have hascii : (text.toList.all fun c => c.toNat < 128) = true := by simpa using h.ascii
  rw [Subscriber.decode, fillFixed]
  dsimp only
  rw [hstrip, if_pos hascii, String.ofList_toList]

/-! ## Levels and orders -/

/-- What an order adds to a level. -/
def OrderState.at (st : OrderState) (symbol : String) (side : Char) (price : Price) : ℤ :=
  if st.symbol = symbol ∧ st.side = side ∧ st.price = price then st.qty else 0

/-- The total of the orders at a level. -/
def openAt (states : StrMap OrderState) (symbol : String) (side : Char) (price : Price) : ℤ :=
  Ledger.total (fun st => st.at symbol side price) states

namespace Subscriber

variable {s s' : Subscriber}

/-- The levels show the totals `Q`; a level without anything open is left out. -/
def Tallies (s : Subscriber) (Q : String → Char → Price → ℤ) : Prop :=
  ∀ symbol side price, side = '0' ∨ side = '1' →
    (s.levels symbol side).lookup price
      = if Q symbol side price ≤ 0 then none else some (Q symbol side price)

lemma lookup_setLevel (levels : PriceLevels) (price : Price) (qty : ℤ) (price' : Price) :
    (setLevel levels price qty).lookup price'
      = if price' = price then (if qty ≤ 0 then none else some qty)
        else levels.lookup price' := by
  by_cases hp : price' = price
  · subst hp
    rw [setLevel, if_pos rfl]
    by_cases hq : qty ≤ 0
    · rw [if_pos hq, if_pos hq]
      exact AList.lookup_erase _ _
    · rw [if_neg hq, if_neg hq]
      exact AList.lookup_insert _
  · rw [setLevel, if_neg hp]
    by_cases hq : qty ≤ 0
    · rw [if_pos hq]
      exact AList.lookup_erase_ne hp
    · rw [if_neg hq]
      exact AList.lookup_insert_ne hp

lemma levels_congr (h : s'.orderBook = s.orderBook) (symbol : String) (side : Char) :
    s'.levels symbol side = s.levels symbol side := by
  rw [levels, levels, bookOf, bookOf, h]

/-- Which levels `addToLevel` changes. -/
lemma levels_addToLevel (s : Subscriber) {symbol symbol' : String} {side side' : Char}
    (price : Price) (delta : ℤ) (hside : side = '0' ∨ side = '1')
    (hside' : side' = '0' ∨ side' = '1') :
    (s.addToLevel symbol side price delta).levels symbol' side'
      = if symbol' = symbol ∧ side' = side then
          setLevel (s.levels symbol side) price
            (((s.levels symbol side).lookup price).getD 0 + delta)
        else s.levels symbol' side' := by
  by_cases hsymbol : symbol' = symbol
  · subst hsymbol
    rcases hside with rfl | rfl <;> rcases hside' with rfl | rfl <;>
      simp [levels, bookOf, addToLevel]
  · rw [if_neg fun h => hsymbol h.1]
    simp only [levels, bookOf, addToLevel]
    rw [AList.lookup_insert_ne hsymbol]

/-- **Moving a level** moves the total it shows. -/
lemma Tallies.addToLevel {Q : String → Char → Price → ℤ} (h : s.Tallies Q)
    (hQ : ∀ symbol side price, 0 ≤ Q symbol side price) (st : OrderState)
    (hside : st.side = '0' ∨ st.side = '1') :
    (s.addToLevel st.symbol st.side st.price st.qty).Tallies fun symbol side price =>
      Q symbol side price + st.at symbol side price := by
  intro symbol side price hside'
  rw [levels_addToLevel s _ _ hside hside']
  by_cases hsame : symbol = st.symbol ∧ side = st.side
  · obtain ⟨rfl, rfl⟩ := hsame
    have hold : ((s.levels st.symbol st.side).lookup st.price).getD 0
        = Q st.symbol st.side st.price := by
      rw [h _ _ _ hside]
      have hnonneg := hQ st.symbol st.side st.price
      split_ifs with hle
      · exact le_antisymm hnonneg hle
      · rfl
    rw [if_pos ⟨rfl, rfl⟩, lookup_setLevel, hold]
    by_cases hprice : price = st.price
    · subst hprice
      simp [OrderState.at]
    · have hprice' : ¬st.price = price := fun heq => hprice heq.symm
      rw [if_neg hprice, h _ _ _ hside]
      simp [OrderState.at, hprice']
  · have hother : st.at symbol side price = 0 :=
      if_neg fun heq => hsame ⟨heq.1.symm, heq.2.1.symm⟩
    simp only [if_neg hsame, h _ _ _ hside', hother, add_zero]

/-- The orders have open quantities and sides, and each level is the total of the orders
there. -/
structure Adds (s : Subscriber) : Prop where
  sane : ∀ id st, s.orderState.lookup id = some st → 0 < st.qty ∧ (st.side = '0' ∨ st.side = '1')
  tallies : s.Tallies (openAt s.orderState)

namespace Adds

variable {id : String} {st prev : OrderState}

lemma openAt_nonneg (h : s.Adds) (symbol : String) (side : Char) (price : Price) :
    0 ≤ openAt s.orderState symbol side price := by
  refine Ledger.total_nonneg fun kv hkv => ?_
  rw [OrderState.at]
  split_ifs
  · exact (h.sane kv.1 kv.2 (AList.mem_lookup_iff.mpr hkv)).1.le
  · exact le_refl 0

/-- An update that moves a level by `d` and changes the total of the orders there by `d`. -/
lemma update (h : s.Adds) {d : OrderState} (hside : d.side = '0' ∨ d.side = '1')
    (hbook : s'.orderBook = (s.addToLevel d.symbol d.side d.price d.qty).orderBook)
    (htotal : ∀ symbol side price, openAt s'.orderState symbol side price
      = openAt s.orderState symbol side price + d.at symbol side price)
    (hsane : ∀ id st, s'.orderState.lookup id = some st →
      0 < st.qty ∧ (st.side = '0' ∨ st.side = '1')) : s'.Adds := by
  refine ⟨hsane, fun symbol side price hside' => ?_⟩
  rw [levels_congr hbook, h.tallies.addToLevel h.openAt_nonneg d hside symbol side price hside',
    htotal]

lemma sane_insert (h : s.Adds) (hqty : 0 < st.qty) (hside : st.side = '0' ∨ st.side = '1')
    (id' : String) (st' : OrderState) (hst' : (s.orderState.insert id st).lookup id' = some st') :
    0 < st'.qty ∧ (st'.side = '0' ∨ st'.side = '1') := by
  by_cases hid : id' = id
  · subst hid
    rw [AList.lookup_insert] at hst'
    obtain rfl := Option.some.inj hst'
    exact ⟨hqty, hside⟩
  · rw [AList.lookup_insert_ne hid] at hst'
    exact h.sane id' st' hst'

lemma sane_erase (h : s.Adds) (id' : String) (st' : OrderState)
    (hst' : (s.orderState.erase id).lookup id' = some st') :
    0 < st'.qty ∧ (st'.side = '0' ∨ st'.side = '1') := by
  by_cases hid : id' = id
  · subst hid
    rw [AList.lookup_erase] at hst'
    exact absurd hst' (by simp)
  · rw [AList.lookup_erase_ne hid] at hst'
    exact h.sane id' st' hst'

/-- An order comes in. -/
lemma enter (h : s.Adds) (hid : s.orderState.lookup id = none) (hqty : 0 < st.qty)
    (hside : st.side = '0' ∨ st.side = '1')
    (hbook : s'.orderBook = (s.addToLevel st.symbol st.side st.price st.qty).orderBook)
    (hstate : s'.orderState = s.orderState.insert id st) : s'.Adds := by
  refine h.update hside hbook (fun symbol side price => ?_) ?_
  · rw [openAt, openAt, hstate, Ledger.total_insert, Ledger.total_erase_of_none hid, add_comm]
  · rw [hstate]
    exact h.sane_insert hqty hside

/-- An order goes. -/
lemma leave (h : s.Adds) (hid : s.orderState.lookup id = some prev)
    (hbook : s'.orderBook
      = (s.addToLevel prev.symbol prev.side prev.price (-prev.qty)).orderBook)
    (hstate : s'.orderState = s.orderState.erase id) : s'.Adds := by
  refine h.update (d := { prev with qty := -prev.qty }) (h.sane id prev hid).2 hbook
    (fun symbol side price => ?_) ?_
  · rw [openAt, openAt, hstate, Ledger.total_erase_of_some hid]
    simp only [OrderState.at]
    split_ifs <;> omega
  · rw [hstate]
    exact h.sane_erase

/-- The open quantity of an order changes. -/
lemma resize (h : s.Adds) (hid : s.orderState.lookup id = some prev) {qty : ℤ} (hqty : 0 < qty)
    (hbook : s'.orderBook
      = (s.addToLevel prev.symbol prev.side prev.price (-(prev.qty - qty))).orderBook)
    (hstate : s'.orderState = s.orderState.insert id { prev with qty := qty }) : s'.Adds := by
  have hside := (h.sane id prev hid).2
  refine h.update (d := { prev with qty := -(prev.qty - qty) }) hside hbook
    (fun symbol side price => ?_) ?_
  · rw [openAt, openAt, hstate, Ledger.total_insert, Ledger.total_erase_of_some hid]
    simp only [OrderState.at]
    split_ifs <;> omega
  · rw [hstate]
    exact h.sane_insert hqty hside

end Adds

lemma bookOf_enterSymbol (s : Subscriber) (symbol symbol' : String) :
    (s.enterSymbol symbol).bookOf symbol' = s.bookOf symbol' := by
  rw [enterSymbol]
  split_ifs with hmem
  · rfl
  · rw [bookOf, bookOf]
    by_cases hs : symbol' = symbol
    · subst hs
      rw [AList.lookup_insert, AList.lookup_eq_none.mpr hmem]
      rfl
    · rw [AList.lookup_insert_ne hs]

lemma orderState_enterSymbol (s : Subscriber) (symbol : String) :
    (s.enterSymbol symbol).orderState = s.orderState := by
  rw [enterSymbol]
  split_ifs <;> rfl

end Subscriber

open MarketDataPublisher (packetSide)

lemma packetSide_eq (side : Char) : packetSide side = '0' ∨ packetSide side = '1' := by
  rw [packetSide]
  split_ifs
  · exact Or.inl rfl
  · exact Or.inr rfl

/-- An order as a subscriber keeps it. -/
def Order.shown (o : Order) : OrderState := ⟨o.price, o.leavesQty, o.symbol, packetSide o.side⟩

/-- The texts of an order fit in a packet. -/
def Order.TextsFit (o : Order) : Prop := TextFits 16 o.exchangeId ∧ TextFits 8 o.symbol

instance : DecidablePred Order.TextsFit := fun o => by
  unfold Order.TextsFit; infer_instance

/-- A subscriber has the orders of a ledger, and the totals of their open quantities. -/
structure Reflects (s : Subscriber) (L : OrderLedger) : Prop where
  orders : ∀ id o, L id = some o → o.exchangeId = id ∧ 0 < o.leavesQty ∧ o.TextsFit
  state : Ledger.ofAList s.orderState = Ledger.map Order.shown L
  tallies : s.Tallies (openAt s.orderState)

namespace Reflects

variable {s : Subscriber} {L : OrderLedger} {id : String} {o : Order}

lemma lookup (h : Reflects s L) (id : String) :
    s.orderState.lookup id = (L id).map Order.shown := congrFun h.state id

lemma adds (h : Reflects s L) : s.Adds := by
  refine ⟨fun id st hst => ?_, h.tallies⟩
  rw [h.lookup] at hst
  obtain ⟨o, ho, rfl⟩ := Option.map_eq_some_iff.mp hst
  exact ⟨(h.orders id o ho).2.1, packetSide_eq _⟩

lemma enterSymbol (h : Reflects s L) (symbol : String) : Reflects (s.enterSymbol symbol) L := by
  refine ⟨h.orders, ?_, fun symbol' side price hside => ?_⟩
  · rw [s.orderState_enterSymbol]
    exact h.state
  · rw [Subscriber.levels, s.bookOf_enterSymbol, s.orderState_enterSymbol]
    exact h.tallies symbol' side price hside

/-- A new order is heard of. -/
lemma newOrder (h : Reflects s L) (hid : L o.exchangeId = none) (hpos : 0 < o.leavesQty)
    (hfits : o.TextsFit) :
    Reflects (s.applyMd .NewOrder (packetSide o.side) o.symbol o.price o.leavesQty o.exchangeId)
      (L.put o.exchangeId o) := by
  have hs := h.enterSymbol o.symbol
  have hside : ¬(packetSide o.side ≠ '0' ∧ packetSide o.side ≠ '1') := by
    rcases packetSide_eq o.side with hs | hs <;> simp [hs]
  simp only [Subscriber.applyMd, if_neg hside]
  refine ⟨fun id' o' ho' => ?_, ?_, ?_⟩
  · by_cases hid' : id' = o.exchangeId
    · rw [hid', Ledger.put_self] at ho'
      obtain rfl := Option.some.inj ho'
      exact ⟨hid'.symm, hpos, hfits⟩
    · rw [Ledger.put_of_ne hid'] at ho'
      exact h.orders id' o' ho'
  · rw [Ledger.map_put, ← hs.state]
    exact Ledger.ofAList_insert _
  · have hnone : (s.enterSymbol o.symbol).orderState.lookup o.exchangeId = none := by
      rw [hs.lookup, hid]
      rfl
    refine Subscriber.Adds.tallies ?_
    have hqty : 0 < o.shown.qty := hpos
    exact hs.adds.enter hnone hqty (packetSide_eq _) rfl rfl

/-- An order is heard to be gone. -/
lemma cancel (h : Reflects s L) (hid : L id = some o) (price : Price) (qty : ℤ) :
    Reflects (s.applyMd .Cancel (packetSide o.side) o.symbol price qty id) (L.drop id) := by
  have hs := h.enterSymbol o.symbol
  have hside : ¬(packetSide o.side ≠ '0' ∧ packetSide o.side ≠ '1') := by
    rcases packetSide_eq o.side with hs | hs <;> simp [hs]
  have hsome : (s.enterSymbol o.symbol).orderState.lookup id = some o.shown := by
    rw [hs.lookup, hid]
    rfl
  simp only [Subscriber.applyMd, if_neg hside, hsome]
  refine ⟨fun id' o' ho' => ?_, ?_, ?_⟩
  · by_cases hid' : id' = id
    · rw [hid', Ledger.drop_self] at ho'
      exact absurd ho' (by simp)
    · rw [Ledger.drop_of_ne hid'] at ho'
      exact h.orders id' o' ho'
  · rw [Ledger.map_drop, ← hs.state]
    exact Ledger.ofAList_erase _
  · refine Subscriber.Adds.tallies ?_
    exact hs.adds.leave hsome rfl rfl

/-- The open quantity of an order is heard to have changed. -/
lemma resize (h : Reflects s L) (hid : L id = some o) (o' : Order) (hpos : 0 < o'.leavesQty)
    (hsame : o'.exchangeId = o.exchangeId ∧ o'.symbol = o.symbol ∧ o'.side = o.side ∧
      o'.price = o.price) (price : Price) :
    Reflects (s.applyMd .ReplaceInPlace (packetSide o.side) o.symbol price o'.leavesQty id)
      (L.put id o') := by
  have hs := h.enterSymbol o.symbol
  have hside : ¬(packetSide o.side ≠ '0' ∧ packetSide o.side ≠ '1') := by
    rcases packetSide_eq o.side with hs | hs <;> simp [hs]
  have hsome : (s.enterSymbol o.symbol).orderState.lookup id = some o.shown := by
    rw [hs.lookup, hid]
    rfl
  have hshown : o'.shown = { o.shown with qty := o'.leavesQty } := by
    simp only [Order.shown, hsame.2.1, hsame.2.2.1, hsame.2.2.2]
  simp only [Subscriber.applyMd, if_neg hside, hsome]
  refine ⟨fun id' o'' ho'' => ?_, ?_, ?_⟩
  · by_cases hid' : id' = id
    · rw [hid', Ledger.put_self] at ho''
      obtain rfl := Option.some.inj ho''
      obtain ⟨hoid, -, hfits⟩ := h.orders id o hid
      refine ⟨by rw [hsame.1, hoid, hid'], hpos, ?_⟩
      rw [Order.TextsFit, hsame.1, hsame.2.1]
      exact hfits
    · rw [Ledger.put_of_ne hid'] at ho''
      exact h.orders id' o'' ho''
  · rw [Ledger.map_put, ← hs.state, hshown]
    exact Ledger.ofAList_insert _
  · refine Subscriber.Adds.tallies ?_
    exact hs.adds.resize hsome hpos rfl rfl

/-- A fill of an order is heard of. -/
lemma fillResting (h : Reflects s L) (hid : L id = some o) {qty : ℤ} (hqty : 0 ≤ qty)
    (price : Price) :
    Reflects (s.applyMd .FillResting (packetSide o.side) o.symbol price qty id)
      (L.setOpen id qty) := by
  have hs := h.enterSymbol o.symbol
  have hside : ¬(packetSide o.side ≠ '0' ∧ packetSide o.side ≠ '1') := by
    rcases packetSide_eq o.side with hs | hs <;> simp [hs]
  have hsome : (s.enterSymbol o.symbol).orderState.lookup id = some o.shown := by
    rw [hs.lookup, hid]
    rfl
  by_cases h0 : qty = 0
  · -- the last of the order goes, as when it is cancelled
    subst h0
    have hgone := h.cancel hid price 0
    simp only [Subscriber.applyMd, if_neg hside, hsome] at hgone ⊢
    rw [OrderLedger.setOpen, Ledger.setAmount, if_pos rfl, if_true, sub_zero]
    exact hgone
  · have hresize := h.resize hid (o.withLeaves qty) (lt_of_le_of_ne hqty (Ne.symm h0))
      ⟨rfl, rfl, rfl, rfl⟩ price
    simp only [Subscriber.applyMd, if_neg hside, hsome] at hresize ⊢
    rw [OrderLedger.setOpen, Ledger.setAmount, if_neg h0, if_neg h0, Ledger.adjust_of_some hid]
    exact hresize

/-- A trade is not a change of the book. -/
lemma trade (h : Reflects s L) (symbol : String) (price : Price) (qty : ℤ) (id : String) :
    Reflects (s.applyMd .Trade '2' symbol price qty id) L := by
  simp only [Subscriber.applyMd]
  exact h.enterSymbol symbol

end Reflects

/-! ## Notices -/

/-- A subscriber after the packets of a notice. -/
def Notice.hear (s : Subscriber) (n : Notice) : Subscriber :=
  (n.publish MarketDataPublisher.init).sent.foldl Subscriber.receive s

lemma Subscriber.receive_of_fits (s : Subscriber) (seq : ℕ) (evt : EventType) (side : Char)
    {symbol id : String} (price : Price) (qty : ℤ) (hsymbol : TextFits 8 symbol)
    (hid : TextFits 16 id) :
    s.receive ⟨seq, evt, side, fillFixed 8 symbol, price, qty, fillFixed 16 id⟩
      = s.applyMd evt side symbol price qty id := by
  simp only [receive, decode_fillFixed hsymbol, decode_fillFixed hid]

/-- The packets of a notice have the same effect whatever has been sent before, on whoever does
not look at their numbers. -/
lemma Notice.foldl_sent {σ : Type*} {f : σ → MdPacket → σ}
    (hf : ∀ x pkt seq, f x { pkt with seq := seq } = f x pkt) (n : Notice)
    (m : MarketDataPublisher) (x : σ) : (n.publish m).sent.foldl f x
      = (n.publish MarketDataPublisher.init).sent.foldl f (m.sent.foldl f x) := by
  have hseq : ∀ x seq evt side symbol price qty id,
      f x ⟨seq + 1, evt, side, symbol, price, qty, id⟩
        = f x ⟨0, evt, side, symbol, price, qty, id⟩ :=
    fun x seq evt side symbol price qty id => hf x ⟨0, evt, side, symbol, price, qty, id⟩ (seq + 1)
  cases n with
  | filled maker taker =>
    simp [publish, MarketDataPublisher.onFill, MarketDataPublisher.send,
      MarketDataPublisher.init, hseq]
  | cancelled id order =>
    simp [publish, MarketDataPublisher.onCancel, MarketDataPublisher.send,
      MarketDataPublisher.init, hseq]
  | replaced req newLeavesQty oldPrice =>
    simp only [publish, MarketDataPublisher.onReplace]
    split_ifs <;> simp [MarketDataPublisher.send, MarketDataPublisher.init, hseq]
  | rested order leavesQty =>
    simp [publish, MarketDataPublisher.onNewOrder, MarketDataPublisher.send,
      MarketDataPublisher.init, hseq]

/-- The packets of notices, one after the other. -/
lemma Notice.foldl_sents {σ : Type*} {f : σ → MdPacket → σ}
    (hf : ∀ x pkt seq, f x { pkt with seq := seq } = f x pkt) (ns : List Notice)
    (m : MarketDataPublisher) (x : σ) : (ns.foldl Notice.publish m).sent.foldl f x
      = ns.foldl (fun x n => (n.publish MarketDataPublisher.init).sent.foldl f x)
          (m.sent.foldl f x) := by
  induction ns generalizing m with
  | nil => rfl
  | cons n ns ih => rw [List.foldl_cons, List.foldl_cons, ih, n.foldl_sent hf]

/-- A subscriber hears a notice in the same way whatever has been sent before. -/
lemma Notice.foldl_publish (n : Notice) (m : MarketDataPublisher) (s : Subscriber) :
    (n.publish m).sent.foldl Subscriber.receive s
      = n.hear (m.sent.foldl Subscriber.receive s) :=
  n.foldl_sent (fun _ _ _ => rfl) m s

/-- **The packets of a notice** make the change of the orders that the notice is about. -/
theorem Reflects.hear {s : Subscriber} {L : OrderLedger} (h : Reflects s L) {n : Notice}
    (hfits : n.Fits L) (htexts : ∀ o k, n = .rested o k → o.TextsFit) :
    Reflects (n.hear s) (n.post L) := by
  cases n with
  | filled maker taker =>
    obtain ⟨hnonneg, o, ho, hsymbol, hside⟩ := hfits
    obtain ⟨hid, -, hidfits, hsymfits⟩ := h.orders _ o ho
    rw [hid] at hidfits
    simp only [Notice.hear, Notice.publish, MarketDataPublisher.onFill, MarketDataPublisher.send,
      MarketDataPublisher.init, List.nil_append, List.singleton_append, List.foldl_cons,
      List.foldl_nil]
    rw [← hsymbol, ← hside, Subscriber.receive_of_fits _ _ _ _ _ _ hsymfits hidfits,
      Subscriber.receive_of_fits _ _ _ _ _ _ hsymfits hidfits]
    exact (h.fillResting ho hnonneg maker.price).trade _ _ _ _
  | cancelled id order =>
    obtain ⟨hid, -, hidfits, hsymfits⟩ := h.orders id order hfits
    simp only [Notice.hear, Notice.publish, MarketDataPublisher.onCancel,
      MarketDataPublisher.send, MarketDataPublisher.init, List.nil_append, List.foldl_cons,
      List.foldl_nil]
    rw [Subscriber.receive_of_fits _ _ _ _ _ _ hsymfits hidfits, hid]
    exact h.cancel hfits order.price 0
  | replaced req newLeavesQty oldPrice =>
    obtain ⟨hpos, o, ho, hprice, hsymbol, hside⟩ := hfits
    obtain ⟨hid, -, hidfits, hsymfits⟩ := h.orders _ o ho
    have htexts' : (FixGateway.replaced o req newLeavesQty).TextsFit := ⟨hidfits, hsymfits⟩
    have hleaves : (FixGateway.replaced o req newLeavesQty).leavesQty = newLeavesQty :=
      max_eq_right hpos.le
    rw [hid] at hidfits
    rw [Notice.post, Ledger.adjust_of_some ho]
    by_cases hsame : oldPrice = req.newPrice
    · have hresize := h.resize ho (FixGateway.replaced o req newLeavesQty)
        (by rw [hleaves]; exact hpos) ⟨rfl, rfl, rfl, (hprice.trans hsame).symm⟩ req.newPrice
      simp only [Notice.hear, Notice.publish, MarketDataPublisher.onReplace, if_pos hsame,
        MarketDataPublisher.send, MarketDataPublisher.init, List.nil_append, List.foldl_cons,
        List.foldl_nil]
      rw [← hsymbol, ← hside, Subscriber.receive_of_fits _ _ _ _ _ _ hsymfits hidfits]
      rw [hleaves] at hresize
      exact hresize
    · have hnew := (h.cancel ho oldPrice 0).newOrder (o := FixGateway.replaced o req newLeavesQty)
        (by rw [← hid]; exact Ledger.drop_self) (by rw [hleaves]; exact hpos) htexts'
      simp only [Notice.hear, Notice.publish, MarketDataPublisher.onReplace, if_neg hsame,
        MarketDataPublisher.send, MarketDataPublisher.init, List.nil_append,
        List.singleton_append, List.foldl_cons, List.foldl_nil]
      rw [← hsymbol, ← hside, Subscriber.receive_of_fits _ _ _ _ _ _ hsymfits hidfits,
        Subscriber.receive_of_fits _ _ _ _ _ _ hsymfits hidfits]
      have hoid : (FixGateway.replaced o req newLeavesQty).exchangeId = req.origOrderId := hid
      rw [hoid, Ledger.put_drop_self, hleaves] at hnew
      exact hnew
  | rested order leavesQty =>
    obtain ⟨hpos, hnone⟩ := hfits
    have htext := htexts order leavesQty rfl
    have hnew := h.newOrder (o := order.withLeaves leavesQty) hnone hpos htext
    simp only [Notice.hear, Notice.publish, MarketDataPublisher.onNewOrder,
      MarketDataPublisher.send, MarketDataPublisher.init, List.nil_append, List.foldl_cons,
      List.foldl_nil]
    rw [Subscriber.receive_of_fits _ _ _ _ _ _ htext.2 htext.1]
    exact hnew

/-- **The packets of notices** that follow a ledger make its changes. -/
theorem Reflects.hears {s : Subscriber} {L L' : OrderLedger} {ns : List Notice}
    (hfollows : Follows L ns L') (h : Reflects s L)
    (htexts : ∀ o k, .rested o k ∈ ns → o.TextsFit) : Reflects (ns.foldl Notice.hear s) L' := by
  induction hfollows generalizing s with
  | nil => exact h
  | @cons L L' n ns fits rest ih =>
    exact ih (h.hear fits fun o k hn => htexts o k (hn ▸ List.mem_cons_self)) fun o k hmem =>
      htexts o k (List.mem_cons_of_mem _ hmem)

end FixExchange
