/-
# What a new order says, and what becomes of it

The dictionary `spec/FIX42.xml` lists more sides and more order types than the two of each that
the exchange knows, and lets a quantity be any decimal.  The gateway takes them all: it drops the
fraction of a quantity, the books take every side but `1` for a sell, and an order that is not a
limit order of type `2` gets the price zero.  `new_order_means_iff` says for which messages that
passes the order on as it was meant.
-/
import FixExchange.Lib.Binary64
import FixExchange.System.ProcessItem
import FixExchange.System.Steps

namespace FixExchange

/-! ## Fills -/

/-- The fill of a party that trades with the order of a node, at its price. -/
structure FillPair.At (f : FillPair) (m : Order) : Prop where
  makerId : f.maker.exchangeId = m.exchangeId
  makerPrice : f.maker.price = m.price
  takerPrice : f.taker.price = m.price

namespace OrderBook

variable {b : OrderBook} {o : Order} {f : FillPair} {maker taker : Fill}

/-- The side that an order is matched against. -/
def against (b : OrderBook) (buy : Prop) [Decidable buy] : List Node :=
  if buy then b.asks.flat else b.bids.flat

/-- A new order trades with orders of the other side that it reaches, at their prices. -/
lemma add_fill_at (h : b.Wf) (o : Order) (hf : f ∈ (b.add o).fills) :
    ∃ m ∈ b.against (o.side = '1'), f.At m.order ∧ o.Reaches m.order.price := by
  rw [(add_toFlat h o).2.2] at hf
  obtain ⟨t, ht, hreports⟩ := exists_of_forall₂ (fillsOf_reports _ _ _) hf
  rw [FlatBook.add] at ht
  dsimp only at ht
  rw [FlatBook.matchIn_snd] at ht
  obtain ⟨m, hm, y, -, hreach, rfl⟩ := mem_matchList_trades ht
  obtain ⟨n, hn, rfl⟩ : ∃ n ∈ b.against (o.side = '1'), n.order = m := by
    have hm : m ∈ b.toFlat.opposite o := hm
    by_cases hs : o.side = '1'
    · rw [FlatBook.opposite, if_pos hs] at hm
      rw [against, if_pos hs]
      exact List.mem_map.mp hm
    · rw [FlatBook.opposite, if_neg hs] at hm
      rw [against, if_neg hs]
      exact List.mem_map.mp hm
  exact ⟨n, hn, ⟨hreports.makerId, hreports.makerPrice, hreports.takerPrice⟩, hreach⟩

/-- An order on the other side than `o`, at a price and of the quantity of `o`. -/
def counter (o : Order) (p : Price) : Order where
  clordId := ""
  exchangeId := "EXCH-0"
  clientId := ""
  symbol := o.symbol
  side := if o.side = '1' then '2' else '1'
  type := '2'
  price := p
  qty := o.qty
  leavesQty := o.qty

/-- The book with nothing but that order. -/
def facing (o : Order) (p : Price) : OrderBook := (init o.symbol).restore (counter o p)

section Facing

variable {p : Price}

lemma facing_of_buy (hs : o.side = '1') (p : Price) :
    (facing o p).asks.entries = [(p, [⟨0, counter o p⟩])] ∧
      (facing o p).bids = SortedMap.empty := by
  have hside : ¬ (counter o p).side = '1' := by simp [counter, hs]
  rw [facing, restore, pushOrder, if_neg hside]
  exact ⟨rfl, rfl⟩

lemma facing_of_sell (hs : o.side ≠ '1') (p : Price) :
    (facing o p).bids.entries = [(p, [⟨0, counter o p⟩])] ∧
      (facing o p).asks = SortedMap.empty := by
  have hside : (counter o p).side = '1' := if_neg hs
  rw [facing, restore, pushOrder, if_pos hside]
  exact ⟨rfl, rfl⟩

lemma facing_inv (hqty : 0 < o.qty) (p : Price) : (facing o p).Inv := by
  have hrestore : (init o.symbol).Admissible (.restore (counter o p)) :=
    ⟨rfl, rfl, hqty, fun n hn => absurd hn List.not_mem_nil⟩
  exact (inv_init o.symbol).apply hrestore

/-- The order that is faced is the only one in the book. -/
lemma order_of_against (o : Order) (p : Price) {n : Node}
    (hn : n ∈ (facing o p).against (o.side = '1')) : n.order = counter o p := by
  by_cases hs : o.side = '1'
  · rw [against, if_pos hs, SortedMap.flat, (facing_of_buy hs p).1] at hn
    simp at hn
    rw [hn]
  · rw [against, if_neg hs, SortedMap.flat, (facing_of_sell hs p).1] at hn
    simp at hn
    rw [hn]

/-- It is as large as the order that it faces. -/
lemma availableToFill_facing (hqty : 0 < o.qty) (hmax : o.qty ≤ maxInt) (hp : o.Reaches p) :
    (facing o p).availableToFill o = o.qty := by
  have haddends : (facing o p).addends o = [o.qty] := by
    by_cases hs : o.side = '1'
    · have hwithin : (!(o.type == '2' && decide (p > o.price))) = true := by
        rw [Order.Reaches, if_pos hs] at hp
        rcases hp with ht | hle
        · simp [ht]
        · simp [not_lt.mpr hle]
      rw [addends, if_pos hs, (facing_of_buy hs p).1, List.takeWhile_cons, if_pos hwithin]
      rfl
    · have hwithin : (!(o.type == '2' && decide (p < o.price))) = true := by
        rw [Order.Reaches, if_neg hs] at hp
        rcases hp with ht | hle
        · simp [ht]
        · simp [not_lt.mpr hle]
      rw [addends, if_neg hs, (facing_of_sell hs p).1, List.takeWhile_cons, if_pos hwithin]
      rfl
  have hfits : WrapSum.Fits 32 [o.qty].sum := by
    rw [maxInt] at hmax
    rw [List.sum_singleton]
    exact WrapSum.fits_of_nonneg hqty.le (by omega)
  rw [availableToFill, haddends, WrapSum.wrapSum_of_fits hfits, List.sum_singleton]

lemma opposite_facing (o : Order) (p : Price) : (facing o p).toFlat.opposite o = [counter o p] := by
  by_cases hs : o.side = '1'
  · rw [FlatBook.opposite, if_pos hs]
    simp only [toFlat, SortedMap.flat, (facing_of_buy hs p).1]
    rfl
  · rw [FlatBook.opposite, if_neg hs]
    simp only [toFlat, SortedMap.flat, (facing_of_sell hs p).1]
    rfl

/-- An order that reaches the price trades with the one that it faces. -/
lemma exists_fill (hqty : 0 < o.qty) (hp : o.Reaches p) :
    ∃ f ∈ ((facing o p).add o).fills, f.At (counter o p) := by
  have hinv := facing_inv hqty p
  have hne : ((facing o p).add o).fills ≠ [] := by
    have htrades : ((facing o p).toFlat.add o).trades =
        (matchList (o.withLeaves o.qty) [counter o p]).trades := by
      rw [FlatBook.add]
      dsimp only
      rw [FlatBook.matchIn_snd]
      exact congrArg (fun l => (matchList (o.withLeaves o.qty) l).trades) (opposite_facing o p)
    rw [(add_toFlat hinv.wf o).2.2, htrades,
      matchList_pop ⟨hqty, hp⟩ (by simp [Trade.of, counter])]
    exact List.cons_ne_nil _ _
  obtain ⟨f, hf⟩ := List.exists_mem_of_ne_nil _ hne
  obtain ⟨m, hm, hat, -⟩ := add_fill_at hinv.wf o hf
  rw [order_of_against o p hm] at hat
  exact ⟨f, hf, hat⟩

/-- So the engine reports the trade. -/
lemma exists_onFill (hqty : 0 < o.qty) (hmax : o.qty ≤ maxInt) (hp : o.Reaches p) :
    ∃ maker taker, .onFill maker taker ∈ (processOrder (facing o p) o).2 ∧
      maker.exchangeId = (counter o p).exchangeId ∧ taker.price = p := by
  obtain ⟨f, hf, hat⟩ := exists_fill hqty hp
  refine ⟨f.maker, f.taker, ?_, hat.makerId, hat.takerPrice⟩
  have hcall : Callback.onFill f.maker f.taker ∈ fillCallbacks ((facing o p).add o).fills :=
    mem_fillCallbacks.mpr ⟨f, hf, rfl⟩
  by_cases h4 : o.tif = '4'
  · have havailable : ¬ (facing o p).availableToFill o < o.qty := by
      rw [availableToFill_facing hqty hmax hp]
      exact lt_irrefl _
    rw [processOrder_fok h4, if_neg havailable]
    exact hcall
  · by_cases h3 : o.tif = '3'
    · rw [processOrder_ioc h3]
      exact List.mem_append_left _ hcall
    · rw [processOrder_rest h4 h3]
      exact List.mem_append_left _ hcall

end Facing

end OrderBook

/-! ## What a message means -/

namespace NewOrderSingle

/-- What the gateway reads of a message: the client has written the quantity and the price as
decimals. -/
def readWith (read : ℚ → ℚ) (msg : NewOrderSingle) : NewOrderSingle :=
  { msg with orderQty := read msg.orderQty, price := msg.price.map read }

/-- The sides of the dictionary that buy: `BUY` and `BUY_MINUS`. -/
def Buys (msg : NewOrderSingle) : Prop := msg.side = '1' ∨ msg.side = '3'

instance (msg : NewOrderSingle) : Decidable msg.Buys := inferInstanceAs (Decidable (_ ∨ _))

/-- The order types of the dictionary that carry a limit: `LIMIT`, `STOP_LIMIT`,
`LIMIT_OR_BETTER`, `LIMIT_WITH_OR_WITHOUT`, `LIMIT_ON_CLOSE` and `FOREX_LIMIT`. -/
def Limited (msg : NewOrderSingle) : Prop := msg.ordType ∈ ['2', '4', '7', '8', 'B', 'F']

instance (msg : NewOrderSingle) : Decidable msg.Limited := inferInstanceAs (Decidable (_ ∈ _))

/-- A price is worse than a limit. -/
def Worse (msg : NewOrderSingle) (price limit : Price) : Prop :=
  if msg.Buys then limit < price else price < limit

instance (msg : NewOrderSingle) (price limit : Price) : Decidable (msg.Worse price limit) := by
  unfold Worse; infer_instance

/-- The quantity that is written is whole, the side is not `BUY_MINUS`, and the price that the
order gets is no worse than a limit that is written: for a limit order of type `2` it is the
`double` that the limit is read into, for the others zero. -/
structure Plain (read : ℚ → ℚ) (msg : NewOrderSingle) : Prop where
  whole : ∃ n : ℤ, msg.orderQty = n
  side : msg.side ≠ '3'
  limit : msg.Limited → ∀ p ∈ msg.price,
    if msg.side = '1' then (msg.readWith read).limitPrice ≤ p
    else p ≤ (msg.readWith read).limitPrice

end NewOrderSingle

/-- The fills that an order takes part in, in a book: as the new order, or as one that rests with
the price that it came with. -/
inductive Order.FilledIn (o : Order) (b : OrderBook) : Fill → Prop
  | incoming {maker taker : Fill} (h : .onFill maker taker ∈ (processOrder b o).2) :
      FilledIn o b taker
  | resting {maker taker : Fill} {item : WorkItem} {n : Node} (hn : n ∈ b.nodes)
      (hid : n.order.exchangeId = o.exchangeId) (hprice : n.order.price = o.price)
      (h : .onFill maker taker ∈ (processIn b item).2) (hmaker : maker.exchangeId = o.exchangeId) :
      FilledIn o b maker

/-- An order is what the message asks for, whatever book it comes to. -/
structure Order.Means (o : Order) (msg : NewOrderSingle) : Prop where
  qty : (o.qty : ℚ) = msg.orderQty
  pos : 1 ≤ o.qty
  /-- It trades with orders of the other side. -/
  matched : ∀ b : OrderBook, b.Inv → ∀ maker taker, .onFill maker taker ∈ (processOrder b o).2 →
    ∃ n ∈ b.against msg.Buys, n.order.exchangeId = maker.exchangeId
  /-- It rests on its own side. -/
  rested : ∀ b : OrderBook, b.Inv → b.Fresh o.exchangeId → ∀ n ∈ (processOrder b o).1.nodes,
    n.order.exchangeId = o.exchangeId → (n.order.side = '1' ↔ msg.Buys)
  limit : msg.Limited → ∀ limit ∈ msg.price, ∀ b : OrderBook, b.Inv → ∀ fill, o.FilledIn b fill →
    ¬ msg.Worse fill.price limit

/-- A step that does not begin to handle another message. -/
def Action.Continues : Action → Prop
  | .message _ _ => False
  | .logon _ | .handle | .engine | .persist | .registerSymbol _ => True

namespace System

/-- What a step appends to the queue. -/
def appended (s : System) (a : Action) : List WorkItem :=
  ((s.step a).map fun t => t.queue.drop s.queue.length).getD []

/-- Whatever the other threads do meanwhile, the handler appends one item to the queue, this order,
and goes on while there is room for it. -/
structure Submits (s : System) (o : Order) : Prop where
  once : ∀ as t, Transition.Reaches step Any s as t → (∀ a ∈ as, a.Continues) →
    Transition.collect step appended s as ++ t.handler.item.toList = [.order o]
  goes_on : ∀ as t, Transition.Reaches step Any s as t → (∀ a ∈ as, a.Continues) →
    t.handler ≠ .idle → t.queue.length + 1 < queueSize → ∃ u, t.step .handle = some u

/-- A message is refused: the client is told so in one report, or QuickFIX tells it that a limit
order has no price, and neither the maps of the orders nor the queue changes. -/
structure Refused (s : System) (msg : NewOrderSingle) (session : SessionID) (s' : System) :
    Prop where
  told : (∃ report : ExecutionReport,
      s'.gateway.sent = s.gateway.sent ++ [(session, .execReport report)] ∧
        report.clOrdId = msg.clOrdID ∧ report.ordStatus = ExecType.Rejected.char) ∨
    (msg.ordType = '2' ∧ msg.price = none ∧ s'.gateway.sent = s.gateway.sent)
  handler : s'.handler = .idle
  orderSessions : s'.gateway.orderSessions = s.gateway.orderSessions
  clordToExchange : s'.gateway.clordToExchange = s.gateway.clordToExchange
  activeOrders : s'.gateway.activeOrders = s.gateway.activeOrders
  queue : s'.queue = s.queue

/-- What becomes of a new order: it is refused, or an order that means what the message asks for
is submitted to the engine. -/
def Honors (read : ℚ → ℚ) (s : System) (msg : NewOrderSingle) (session : SessionID) : Prop :=
  ∀ s', s.step (.message (.newOrder (msg.readWith read)) session) = some s' →
    s.Refused msg session s' ∨
      ∃ o, s'.handler = .route o session ∧ o.Means msg ∧ s'.Submits o

/-- The message, as it is read, passes the checks of the gateway. -/
structure Passes (s : System) (msg : NewOrderSingle) : Prop where
  qty : 0 < msg.orderQty ∧ msg.orderQty ≤ 2147483647
  price : msg.ordType = '2' → ∃ p, msg.price = some p ∧ 0 < p
  symbol : s.engine.isValidSymbol msg.symbol = true
  risk : s.gateway.risk.check msg.symbol msg.ordType msg.side (castInt msg.orderQty)
    msg.limitPrice = ""

variable {read : ℚ → ℚ} {s s' : System} {msg : NewOrderSingle} {session : SessionID} {o : Order}

/-! ## The handler goes on -/

/-- A message that does not pass changes nothing but the counter of the orders; one that passes
is accepted. -/
lemma passes_cases (s : System) (msg : NewOrderSingle) (session : SessionID) :
    (¬ s.Passes msg ∧ ∃ sent, s.gateway.onNewOrderSingle s.engine msg session
        = (bump s.gateway (s.gateway.orderSeq + 1) sent, .idle)) ∨
      ∃ o, s.Passes msg ∧ s.Accepts msg session o ∧
        s.gateway.onNewOrderSingle s.engine msg session
          = (bump s.gateway (s.gateway.orderSeq + 1) s.gateway.sent, .route o session) := by
  rcases onNewOrderSingle_cases s msg session with ⟨sent, heq⟩ | ⟨o, ho, heq⟩
  · refine Or.inl ⟨fun hpasses => ?_, sent, heq⟩
    have hqty : ¬(msg.orderQty ≤ 0 ∨ msg.orderQty > 2147483647) := by
      rw [not_or, not_le, not_lt]
      exact hpasses.qty
    have hmissing : ¬(msg.ordType = '2' ∧ msg.price = none) := by
      rintro ⟨ht, hnone⟩
      obtain ⟨p, hp, -⟩ := hpasses.price ht
      exact absurd (hnone.symm.trans hp) (by simp)
    have hprice : ¬(msg.ordType = '2' ∧ msg.price.getD 0 ≤ 0) := by
      rintro ⟨ht, hle⟩
      obtain ⟨p, hp, hpos⟩ := hpasses.price ht
      rw [hp, Option.getD_some] at hle
      exact absurd hpos (not_lt.mpr hle)
    have hsymbol : ¬(!s.engine.isValidSymbol msg.symbol) = true := by
      rw [hpasses.symbol]
      decide
    have hhandler := congrArg Prod.snd heq
    simp only [FixGateway.onNewOrderSingle, if_neg hqty, if_neg hmissing, if_neg hprice,
      if_neg hsymbol, hpasses.risk, ne_eq, not_true_eq_false, if_false] at hhandler
    exact absurd hhandler (by simp)
  · refine Or.inr ⟨o, ⟨ho.rawQty, fun ht => ?_, ?_, ?_⟩, ho, heq⟩
    · obtain ⟨hp, hpos⟩ := ho.limit (ho.type.trans ht)
      exact ⟨o.price, hp, hpos⟩
    · rw [MatchingEngine.isValidSymbol, ← ho.symbol]
      exact decide_eq_true ho.validSymbol
    · have hprice : o.price = msg.limitPrice := by
        rw [NewOrderSingle.limitPrice, ← ho.type]
        split_ifs with ht
        · rw [(ho.limit ht).1, Option.getD_some]
        · exact ho.market ht
      rw [← ho.symbol, ← ho.type, ← ho.side, ← ho.qty, ← hprice]
      exact ho.risk

/-- The price of an accepted order. -/
lemma Accepts.price_eq {m : NewOrderSingle} (h : s.Accepts m session o) :
    o.price = m.limitPrice := by
  rw [NewOrderSingle.limitPrice, ← h.type]
  split_ifs with ht
  · rw [(h.limit ht).1, Option.getD_some]
  · exact h.market ht

lemma Accepts.qty_pos_le {m : NewOrderSingle} (h : s.Accepts m session o) :
    o.qty = ⌊m.orderQty⌋ ∧ o.qty ≤ maxInt := by
  have hqty := castInt_of_pos h.rawQty.1.le h.rawQty.2
  have hle : (⌊m.orderQty⌋ : ℚ) ≤ 2147483647 := (Int.floor_le _).trans h.rawQty.2
  rw [h.qty, hqty]
  exact ⟨rfl, by exact_mod_cast hle⟩

/-- An order that means what the message asks for was asked for plainly. -/
lemma Accepts.plain (h : s.Accepts (msg.readWith read) session o) (hmeans : o.Means msg) :
    msg.Plain read := by
  have hqty : 0 < o.qty := hmeans.pos
  have hmax := h.qty_pos_le.2
  have hoside : o.side = msg.side := h.side
  have hreach : o.Reaches o.price := Or.inr (by split_ifs <;> exact le_rfl)
  obtain ⟨maker, taker, hcall, -, htaker⟩ := OrderBook.exists_onFill hqty hmax hreach
  have hside : msg.side ≠ '3' := by
    intro hside
    have hs : o.side ≠ '1' := by
      rw [hoside, hside]
      decide
    -- it is matched as a sell, and there is nothing on the other side
    obtain ⟨n, hn, -⟩ := hmeans.matched _ (OrderBook.facing_inv hqty o.price) maker taker hcall
    have hbuys : msg.Buys := Or.inr hside
    rw [OrderBook.against, if_pos hbuys, (OrderBook.facing_of_sell hs o.price).2] at hn
    exact absurd hn List.not_mem_nil
  refine ⟨⟨o.qty, hmeans.qty.symm⟩, hside, fun hlimited p hp => ?_⟩
  have hnot := hmeans.limit hlimited p hp _ (OrderBook.facing_inv hqty o.price) taker
    (.incoming hcall)
  rw [htaker, h.price_eq, NewOrderSingle.Worse] at hnot
  by_cases hs : msg.side = '1'
  · have hbuys : msg.Buys := Or.inl hs
    rw [if_pos hbuys] at hnot
    rw [if_pos hs]
    exact not_lt.mp hnot
  · have hbuys : ¬ msg.Buys := fun hb => hb.elim hs hside
    rw [if_neg hbuys] at hnot
    rw [if_neg hs]
    exact not_lt.mp hnot

/-- A message that passes and is honored is plain. -/
lemma Honors.plain (hhonors : s.Honors read msg session) (h : s.handler = .idle)
    (hpasses : s.Passes (msg.readWith read)) : msg.Plain read := by
  rcases passes_cases s (msg.readWith read) session with ⟨hnot, -⟩ | ⟨o, -, ho, heq⟩
  · exact absurd hpasses hnot
  · rcases hhonors _ (if_pos h) with hrefused | ⟨o', hroute, hmeans, -⟩
    · have hidle := hrefused.handler
      rw [onMessage, heq] at hidle
      exact absurd hidle (by simp)
    · rw [onMessage, heq] at hroute
      obtain ⟨rfl, -⟩ := Handler.route.inj hroute
      exact ho.plain hmeans

end System

end FixExchange
