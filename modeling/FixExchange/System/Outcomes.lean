/-
# What the engine tells of an item

The calls that the engine makes for a new order and for a replace are all that its client hears.
What they report of a new order as filled, resting and cancelled adds up to its quantity, unless it
is a market order without a time in force and the book runs out (`order_accounted_iff`): nothing is
reported about the rest of such an order (`market_rest_dropped`).

A replace is reported as refused when the returned quantity is negative.  It is so for an id that
does not rest; but a negative quantity in the request is returned as well, in place or after the
order has been taken out of the book, and an order whose quantity is set to zero in place stays in
the book.  A refusal therefore means that nothing has been changed exactly when the requested
quantity is positive, or zero and not set in place (`replace_tells_iff`).

A negative quantity that has been set in place is traded with as it is: it makes the incoming order
larger.  Both results are for orders of which an `int` is left all the time.
-/
import FixExchange.System.BookLookup
import FixExchange.System.Owners

namespace FixExchange

/-- A request that sets the quantity of an order in place. -/
def ReplaceRequest.InPlace (req : ReplaceRequest) (o : Order) : Prop :=
  req.newPrice = o.price ∧ req.newQty < o.leavesQty

/-- The order that a request adds again. -/
def ReplaceRequest.added (req : ReplaceRequest) (o : Order) : Order :=
  { o with price := req.newPrice, qty := req.newQty, leavesQty := req.newQty }

namespace OrderBook

variable {b : OrderBook} {o : Order} {req : ReplaceRequest}

/-- An order without a quantity trades with none. -/
lemma add_value_of_nonpos (h : b.Wf) (hq : o.qty ≤ 0) : (b.add o).value = o.qty := by
  rw [add_value_eq h]
  cases b.toFlat.opposite o with
  | nil => rfl
  | cons m l =>
    rw [matchList_stop fun hopen => absurd hopen.1 (not_lt.mpr hq)]
    rfl

/-- A replace that leaves something of its order leaves it in the book. -/
lemma replace_rests (h : b.Wf) (hp : b.Patient)
    (hv : 0 < (b.replace req.origOrderId req.newPrice req.newQty).value) :
    ∃ n ∈ (processReplace b req).1.nodes, n.order.exchangeId = req.origOrderId := by
  rw [FixExchange.processReplace]
  rcases h.replace_eq req.origOrderId req.newPrice req.newQty with
    ⟨-, hr⟩ | ⟨n, hn, hid, ⟨-, -, hr⟩ | ⟨-, hr⟩⟩
  · rw [hr] at hv
    exact absurd hv (by simp)
  · rw [hr]
    dsimp only
    rw [modify_nodes]
    exact ⟨_, List.mem_map_of_mem hn, by rw [if_pos rfl]; exact hid⟩
  · rw [hr] at hv ⊢
    have hwf := h.unlink hn
    rw [hid] at hwf
    obtain ⟨m, hm, ho⟩ := add_rests hwf hv (h.limit n hn) (hp n hn)
    exact ⟨m, hm, by rw [ho]; exact hid⟩

/-- A replace that finds its order, with a quantity that is not negative, is answered as
done. -/
lemma replace_value_nonneg (h : b.Wf) (hfound : req.origOrderId ∈ b.orderIndex)
    (hq : 0 ≤ req.newQty) : 0 ≤ (b.replace req.origOrderId req.newPrice req.newQty).value := by
  rcases h.replace_eq req.origOrderId req.newPrice req.newQty with
    ⟨hnone, -⟩ | ⟨n, hn, hid, ⟨-, -, hr⟩ | ⟨-, hr⟩⟩
  · exact absurd hfound (AList.lookup_eq_none.mp hnone)
  · rw [hr]
    exact hq
  · rw [hr]
    have hwf := h.unlink hn
    rw [hid] at hwf
    exact add_value_nonneg hwf hq

/-- The one call about the replace itself. -/
lemma mem_processReplace {found : Bool} {n : ℤ} :
    .onReplace req found n ∈ (processReplace b req).2 ↔
      n = (b.replace req.origOrderId req.newPrice req.newQty).value ∧ found = decide (n ≥ 0) := by
  rw [processReplace, List.mem_append]
  constructor
  · rintro (hmem | hmem)
    · obtain ⟨f, -, heq⟩ := mem_fillCallbacks.mp hmem
      exact absurd heq (by simp)
    · obtain ⟨-, rfl, rfl⟩ := Callback.onReplace.inj (List.mem_singleton.mp hmem)
      exact ⟨rfl, rfl⟩
  · rintro ⟨rfl, rfl⟩
    exact Or.inr (List.mem_singleton.mpr rfl)

/-- The opposite side is not touched when an order is taken out. -/
lemma opposite_unlink (id : String) (it : ℕ) (p : Price) {side : Char} (hside : o.side = side) :
    (b.unlink id it p side).toFlat.opposite o = b.toFlat.opposite o := by
  subst hside
  by_cases hs : o.side = '1' <;> simp [FlatBook.opposite, toFlat, unlink, hs]

/-- The fills of a replace. -/
lemma onFill_mem_processReplace {maker taker : Fill} :
    .onFill maker taker ∈ (processReplace b req).2 ↔ .onFill maker taker ∈
      fillCallbacks (b.replace req.origOrderId req.newPrice req.newQty).fills := by
  rw [processReplace, List.mem_append]
  simp

/-- When what is left of an order that is added stays an `int`. -/
lemma add_in_range_iff (h : b.Wf) (hq : 0 ≤ o.qty) :
    (∀ maker taker, .onFill maker taker ∈ fillCallbacks (b.add o).fills →
      taker.leavesQty ≤ maxInt) ↔ (o.withLeaves o.qty).MatchesInRange (b.toFlat.opposite o) := by
  rw [add_fillsOf h, fillCallbacks_in_range]
  exact matchList_in_range_iff hq

/-- The call about a replace tells what has happened: a refused replace has not found its order
and has left the book as it was, and the quantity of one that is done is what is open of the
order, zero when it does not rest any more; and what is left of the order when it trades is an
`int` all the time. -/
structure ReplaceTells (b : OrderBook) (req : ReplaceRequest) : Prop where
  refused : ∀ n, .onReplace req false n ∈ (processReplace b req).2 →
    b.Fresh req.origOrderId ∧ (processReplace b req).1 = b
  gone : ∀ n, .onReplace req true n ∈ (processReplace b req).2 →
    (n = 0 ↔ (processReplace b req).1.Fresh req.origOrderId)
  leavesQty : ∀ n, .onReplace req true n ∈ (processReplace b req).2 →
    ∀ m ∈ (processReplace b req).1.nodes, m.order.exchangeId = req.origOrderId →
      m.order.leavesQty = n
  in_range : ∀ maker taker, .onFill maker taker ∈ (processReplace b req).2 →
    taker.leavesQty ≤ maxInt

/-- The call tells what has happened when a quantity that is not negative is left. -/
lemma replaceTells_of_nonneg (hv : 0 ≤ (b.replace req.origOrderId req.newPrice req.newQty).value)
    (hgone : (b.replace req.origOrderId req.newPrice req.newQty).value = 0 ↔
      (b.replace req.origOrderId req.newPrice req.newQty).book.Fresh req.origOrderId)
    (hleaves : ∀ m ∈ (b.replace req.origOrderId req.newPrice req.newQty).book.nodes,
      m.order.exchangeId = req.origOrderId →
        m.order.leavesQty = (b.replace req.origOrderId req.newPrice req.newQty).value)
    (hrange : ∀ maker taker, .onFill maker taker ∈ (processReplace b req).2 →
      taker.leavesQty ≤ maxInt) :
    b.ReplaceTells req := by
  refine ⟨fun n hn => ?_, fun n hn => ?_, fun n hn => ?_, hrange⟩
  · obtain ⟨rfl, hfound⟩ := mem_processReplace.mp hn
    exact absurd hv (of_decide_eq_false hfound.symm)
  · rw [(mem_processReplace.mp hn).1]
    exact hgone
  · rw [(mem_processReplace.mp hn).1]
    exact hleaves

/-- A quantity that is positive is set in place, or is that of an order that is added and stays an
`int`; one that is zero is not set in place. -/
def TellsWhen (b : OrderBook) (req : ReplaceRequest) (o : Order) : Prop :=
  0 < req.newQty ∧ (req.InPlace o ∨ (req.added o).MatchesInRange (b.toFlat.opposite o)) ∨
    req.newQty = 0 ∧ ¬ req.InPlace o

/-- An order that is not set in place. -/
lemma tellsWhen_of_not_inPlace (hnot : ¬ req.InPlace o) : b.TellsWhen req o ↔
    0 ≤ req.newQty ∧ (req.added o).MatchesInRange (b.toFlat.opposite o) := by
  constructor
  · rintro (⟨hpos, hin | hrange⟩ | ⟨h0, -⟩)
    · exact absurd hin hnot
    · exact ⟨hpos.le, hrange⟩
    · exact ⟨h0.ge, Or.inl (Order.absorbedInRange_of_nonpos h0.le _)⟩
  · rintro ⟨hle, hrange⟩
    rcases hle.lt_or_eq with hpos | h0
    · exact Or.inl ⟨hpos, Or.inr hrange⟩
    · exact Or.inr ⟨h0.symm, hnot⟩

/-- The orders with the id of the request are one order. -/
lemma forall_of_id_iff (hk : b.Keyed) {n : Node} (hn : n ∈ b.nodes) {id : String}
    (hid : n.order.exchangeId = id) (P : Order → Prop) :
    (∀ m ∈ b.nodes, m.order.exchangeId = id → P m.order) ↔ P n.order := by
  refine ⟨fun hall => hall n hn hid, fun hone m hm hmid => ?_⟩
  rw [hk.eq_of_id hm hn (hmid.trans hid.symm)]
  exact hone

/-- A negative value is a refusal, and the order was there. -/
lemma ReplaceTells.value_nonneg (htells : b.ReplaceTells req) {n : Node} (hn : n ∈ b.nodes)
    (hid : n.order.exchangeId = req.origOrderId) :
    0 ≤ (b.replace req.origOrderId req.newPrice req.newQty).value := by
  by_contra hneg
  exact (htells.refused _ (mem_processReplace.mpr ⟨rfl, (decide_eq_false hneg).symm⟩)).1 n hn hid

/-- A replace in place tells what has happened when the quantity is positive. -/
lemma replaceTells_in_place (hk : b.Keyed) {n : Node} (hn : n ∈ b.nodes)
    (hid : n.order.exchangeId = req.origOrderId)
    (hr : b.replace req.origOrderId req.newPrice req.newQty
      = ⟨b.modify n.addr fun o => { o with qty := req.newQty, leavesQty := req.newQty },
        req.newQty, []⟩) :
    b.ReplaceTells req ↔ 0 < req.newQty := by
  have hvalue : (b.replace req.origOrderId req.newPrice req.newQty).value = req.newQty := by
    rw [hr]
  have hstays : ¬(b.replace req.origOrderId req.newPrice req.newQty).book.Fresh
      req.origOrderId := by
    rw [hr]
    dsimp only
    intro hfresh'
    rw [Fresh, modify_nodes] at hfresh'
    exact hfresh' _ (List.mem_map_of_mem hn) (by rw [if_pos rfl]; exact hid)
  constructor
  · intro htells
    have hle := htells.value_nonneg hn hid
    refine lt_of_le_of_ne (by rw [← hvalue]; exact hle) fun h0 => ?_
    refine hstays ((htells.gone _ (mem_processReplace.mpr
      ⟨rfl, (decide_eq_true hle).symm⟩)).mp ?_)
    rw [hvalue]
    exact h0.symm
  · intro hpos
    refine replaceTells_of_nonneg (by rw [hvalue]; exact hpos.le)
      (iff_of_false (by rw [hvalue]; exact hpos.ne') hstays) (fun m hm hmid => ?_)
      fun maker taker hmem => ?_
    · rw [hvalue]
      rw [hr] at hm
      dsimp only at hm
      rw [modify_nodes] at hm
      obtain ⟨m', hm', rfl⟩ := List.mem_map.mp hm
      split_ifs at hmid ⊢ with haddr
      · rfl
      · exact absurd (by rw [hk.eq_of_id hm' hn (hmid.trans hid.symm)]) haddr
    · rw [onFill_mem_processReplace, hr] at hmem
      exact absurd hmem List.not_mem_nil

/-- A replace of an order that is not there tells that. -/
lemma replaceTells_of_fresh (hfresh : b.Fresh req.origOrderId)
    (hr : b.replace req.origOrderId req.newPrice req.newQty = ⟨b, -1, []⟩) :
    b.ReplaceTells req := by
  refine ⟨fun n _ => ⟨hfresh, by rw [processReplace, hr]⟩, fun n hn => ?_, fun n hn => ?_,
    fun maker taker hmem => ?_⟩
  · obtain ⟨rfl, hfound⟩ := mem_processReplace.mp hn
    rw [hr] at hfound
    exact absurd hfound (by simp)
  · obtain ⟨rfl, hfound⟩ := mem_processReplace.mp hn
    rw [hr] at hfound
    exact absurd hfound (by simp)
  · rw [onFill_mem_processReplace, hr] at hmem
    exact absurd hmem List.not_mem_nil

/-- An order that is added rests with what is left of it, and only with that. -/
lemma leavesQty_of_mem_add {o : Order} (h : b.Wf) (hk : b.Keyed) (hfresh : b.Fresh o.exchangeId)
    {m : Node} (hm : m ∈ (b.add o).book.nodes) (hid : m.order.exchangeId = o.exchangeId) :
    0 < (b.add o).value ∧ m.order.leavesQty = (b.add o).value := by
  by_cases hrest : (b.add o).value > 0 ∧ o.type = '2' ∧ o.tif ≠ '3'
  · obtain ⟨m', hm', ho'⟩ := add_rests h hrest.1 hrest.2.1 hrest.2.2
    rw [(hk.add h hfresh).eq_of_id hm hm' (by rw [hid, ho']; rfl), ho']
    exact ⟨hrest.1, rfl⟩
  · obtain ⟨m', hm', hleft⟩ := add_nodes_of_not_rests h hrest hm
    exact absurd (by rw [← hid, hleft.eq_withLeaves]; rfl) (hfresh m' hm')

/-- A limit order that is added is gone when nothing is left of it. -/
lemma add_value_eq_zero_iff {o : Order} (h : b.Wf) (hk : b.Keyed) (hfresh : b.Fresh o.exchangeId)
    (hq : 0 ≤ o.qty) (htype : o.type = '2') (htif : o.tif ≠ '3') :
    (b.add o).value = 0 ↔ (b.add o).book.Fresh o.exchangeId := by
  constructor
  · intro h0 m hm hid
    exact absurd h0 (leavesQty_of_mem_add h hk hfresh hm hid).1.ne'
  · intro hgone
    by_contra hne
    obtain ⟨m, hm, ho⟩ := add_rests h (lt_of_le_of_ne (add_value_nonneg h hq) (Ne.symm hne))
      htype htif
    exact hgone m hm (by rw [ho]; rfl)

/-- A replace that takes its order out and adds it again tells what has happened when the quantity
is not negative and stays an `int`. -/
lemma replaceTells_added (h : b.Wf) (hk : b.Keyed) (hp : b.Patient) {n : Node} (hn : n ∈ b.nodes)
    (hid : n.order.exchangeId = req.origOrderId)
    (hr : b.replace req.origOrderId req.newPrice req.newQty
      = (b.unlink req.origOrderId n.addr n.order.price n.order.side).add
        { n.order with price := req.newPrice, qty := req.newQty }) :
    b.ReplaceTells req ↔
      0 ≤ req.newQty ∧ (req.added n.order).MatchesInRange (b.toFlat.opposite n.order) := by
  have hwf := h.unlink hn
  have hkeyed := hk.unlink h hn
  have hfresh := hk.fresh_unlink h hn
  rw [hid] at hwf hkeyed hfresh
  set o : Order := { n.order with price := req.newPrice, qty := req.newQty } with ho
  set b' := b.unlink req.origOrderId n.addr n.order.price n.order.side with hb'
  have hrange : 0 ≤ req.newQty → ((∀ maker taker, .onFill maker taker ∈ (processReplace b req).2 →
      taker.leavesQty ≤ maxInt) ↔ (req.added n.order).MatchesInRange
        (b.toFlat.opposite n.order)) := by
    intro hq
    simp only [onFill_mem_processReplace, hr]
    have hopposite : b'.toFlat.opposite o = b.toFlat.opposite o := opposite_unlink _ _ _ rfl
    rw [add_in_range_iff hwf hq, hopposite]
    rfl
  constructor
  · intro htells
    have hle := htells.value_nonneg hn hid
    have hq : 0 ≤ req.newQty := by
      by_contra hneg
      rw [hr, add_value_of_nonpos hwf (not_le.mp hneg).le] at hle
      exact hneg hle
    exact ⟨hq, (hrange hq).mp htells.in_range⟩
  · rintro ⟨hq, hin⟩
    have hoid : o.exchangeId = req.origOrderId := hid
    rw [← hoid] at hfresh
    refine replaceTells_of_nonneg (by rw [hr]; exact add_value_nonneg hwf hq) ?_
      (fun m hm hmid => ?_) ((hrange hq).mpr hin)
    · rw [hr, ← hoid]
      exact add_value_eq_zero_iff hwf hkeyed hfresh hq (h.limit n hn) (hp n hn)
    · rw [hr] at hm ⊢
      exact (leavesQty_of_mem_add hwf hkeyed hfresh hm (hmid.trans hoid.symm)).2

/-- **When the call about a replace tells what has happened.** -/
theorem replaceTells_iff (h : b.Wf) (hk : b.Keyed) (hp : b.Patient) :
    b.ReplaceTells req ↔ ∀ n ∈ b.nodes, n.order.exchangeId = req.origOrderId →
      b.TellsWhen req n.order := by
  rcases h.replace_eq req.origOrderId req.newPrice req.newQty with
    ⟨hnone, hr⟩ | ⟨n, hn, hid, hr⟩
  · -- there is no such order
    have hfresh := (hk.lookup_eq_none_iff h).mp hnone
    exact iff_of_true (replaceTells_of_fresh hfresh hr) fun n hn hid => absurd hid (hfresh n hn)
  rw [forall_of_id_iff hk hn hid (b.TellsWhen req)]
  rcases hr with ⟨hprice, hlt, hr⟩ | ⟨hnot, hr⟩
  · -- the quantity is set in place, and the order stays
    have hin : req.InPlace n.order := ⟨hprice, hlt⟩
    rw [replaceTells_in_place hk hn hid hr, TellsWhen]
    simp [hin]
  · -- the order is taken out and added again
    rw [tellsWhen_of_not_inPlace hnot]
    exact replaceTells_added h hk hp hn hid hr

end OrderBook

namespace System

variable {s₀ s : System} {as : List Action}

/-! ## New orders -/

/-- An order that the gateway has accepted has a book. -/
lemma incoming_book {cfg : Config} {db : Database} {ok : System → Action → Prop}
    (hstart : StartsOn cfg db s₀) (hdb : db.Sound) (h : Transition.Reaches step ok s₀ as s)
    {o : Order} (ho : s.Incoming o) : ∃ b, s.engine.books.lookup o.symbol = some b := by
  have hall : (∀ sym ∈ s.engine.validSymbols, sym ∈ s.engine.books) ∧
      ∀ o, s.Incoming o → o.symbol ∈ s.engine.books := by
    refine h.invariant (I := fun s => (∀ sym ∈ s.engine.validSymbols, sym ∈ s.engine.books) ∧
      ∀ o, s.Incoming o → o.symbol ∈ s.engine.books) ⟨(hstart.founded hdb).symbols, ?_⟩
      fun s a s' _ _ hs _ hstep => ⟨symbols_step hstep hs.1, fun o ho => ?_⟩
    · cases hstart <;> simp [Incoming, start, recover, Handler.pending]
    · refine mem_books_of_step hstep ?_
      rcases incoming_step hstep ho with ho | ⟨m, session, -, haccepts, -⟩
      · exact hs.2 o ho
      · exact hs.1 _ haccepts.validSymbol
  exact Option.isSome_iff_exists.mp (AList.lookup_isSome.mpr (hall.2 o ho))

/-- **When a new order is accounted for**, in every state of every process in which the engine is
about to process it. -/
theorem order_accounted_iff {cfg : Config} {db : Database} {ok ok' : System → Action → Prop}
    {stop : System → Prop} {ids : List (String × String)}
    (hlives : Lives ok stop Database.empty ids db) (hstart : StartsOn cfg db s₀)
    (h : Transition.Reaches step ok' s₀ as s) {o : Order} {queue : List WorkItem}
    (hq : s.queue = .order o :: queue) (hqty : 1 ≤ o.qty) :
    ∃ b, s.engine.books.lookup o.symbol = some b ∧
      (b.AccountsFor o ↔ (o.withLeaves o.qty).AbsorbedInRange (b.toFlat.opposite o) ∨
        StaysInt o.qty (o.reachable (b.toFlat.opposite o)) ∧
          (o.tif = '3' ∨ o.tif ≠ '4' ∧ o.type = '2') ∨
        o.tif = '4' ∧ b.availableToFill o < o.qty) := by
  have hmem : .order o ∈ s.queue := by rw [hq]; exact List.mem_cons_self
  have hf : s.Founded :=
    h.invariant (hstart.founded hlives.owned.1) fun _ _ _ _ _ ih _ hstep => ih.step hstep
  obtain ⟨b, hb⟩ := incoming_book hstart hlives.owned.1 h (Or.inl hmem)
  exact ⟨b, hb, OrderBook.accountsFor_iff (hf.books.wf _ b hb) (hf.books.keyed _ b hb)
    (hf.queue.fresh o hmem _ b hb) (by omega)⟩

/-- A market order for five shares. -/
def marketOrder : Order where
  clordId := "a"
  exchangeId := "EXCH-1"
  clientId := "A"
  symbol := "X"
  side := '1'
  type := '1'
  price := 0
  qty := 5
  leavesQty := 5

/-- The market order is submitted. -/
def sampleMarketRun : List Action :=
  Sample.submit
    (.newOrder { clOrdID := "a", symbol := "X", side := '1', ordType := '1', orderQty := 5 })
    Sample.alice

/-- Orders to sell rest at two prices, and one of them has been set to a negative quantity. -/
def sampleAccountedRun : List Action :=
  Sample.submit (Sample.limit "a" '2' 5 10) Sample.alice ++ Sample.engine 2
    ++ Sample.submit (Sample.limit "b" '2' 4 11) Sample.alice ++ Sample.engine 2
    ++ Sample.forward (Sample.replace "c" "a" '2' (-2) 10) Sample.alice ++ Sample.engine 2
    ++ Sample.submit (Sample.limit "d" '1' 5 11) Sample.bob

/-- The order to buy. -/
def accountedOrder : Order where
  clordId := "d"
  exchangeId := "EXCH-3"
  clientId := "B"
  symbol := "X"
  side := '1'
  type := '2'
  price := 11
  qty := 5
  leavesQty := 5

theorem order_accounted_iff_sample :
    ∃ s, RunTo Sample.config Any sampleAccountedRun s ∧
      ∃ b, s.engine.books.lookup accountedOrder.symbol = some b ∧ b.AccountsFor accountedOrder := by
  have hreach : ∃ s, RunTo Sample.config Any sampleAccountedRun s ∧
      s.queue = [.order accountedOrder] ∧
      ∀ b ∈ s.engine.books.lookup accountedOrder.symbol,
        StaysInt accountedOrder.qty (accountedOrder.reachable (b.toFlat.opposite accountedOrder)) :=
    Transition.exists_reaches (by decide +kernel) (by decide +kernel)
  obtain ⟨s, hrun, hq, hstays⟩ := hreach
  obtain ⟨b, hb, hiff⟩ := order_accounted_iff
    (Lives.none : Lives Any (fun _ => True) _ _ _) .fresh hrun hq (by decide)
  exact ⟨s, hrun, b, hb, hiff.mpr (Or.inr (Or.inl ⟨hstays b hb, Or.inr ⟨by decide, rfl⟩⟩))⟩

/-- Nothing is reported about a market order that meets an empty book. -/
theorem market_rest_dropped :
    ∃ s, RunTo Sample.config Any sampleMarketRun s ∧ s.queue = [.order marketOrder] ∧
      ∃ b, s.engine.books.lookup marketOrder.symbol = some b ∧
        (processIn b (.order marketOrder)).2 = [] ∧ ¬ b.AccountsFor marketOrder := by
  have hreach : ∃ s, RunTo Sample.config Any sampleMarketRun s ∧
      (s.queue = [.order marketOrder] ∧ ∃ b ∈ s.engine.books.lookup marketOrder.symbol,
        (processIn b (.order marketOrder)).2 = []) :=
    Transition.exists_reaches (by decide +kernel) (by decide +kernel)
  obtain ⟨s, hrun, hq, b, hb, hcalls⟩ := hreach
  refine ⟨s, hrun, hq, b, hb, hcalls, fun hacc => ?_⟩
  have htotal := hacc.total
  have hprocess : (processOrder b marketOrder).2 = [] := hcalls
  rw [hprocess] at htotal
  exact absurd htotal (by decide)

/-! ## Replaces -/

/-- **A refused replace changes nothing**, and one that is done is told with the open quantity of
its order, in every book of every process, exactly if the order does not rest, or the requested
quantity is positive and stays an `int` when it is matched, or it is zero and not set in place. -/
theorem replace_tells_iff {cfg : Config} {db : Database} {ok ok' : System → Action → Prop}
    {stop : System → Prop} {ids : List (String × String)}
    (hlives : Lives ok stop Database.empty ids db) (hstart : StartsOn cfg db s₀)
    (h : Transition.Reaches step ok' s₀ as s) {sym : String} {b : OrderBook}
    (hb : s.engine.books.lookup sym = some b) (req : ReplaceRequest) :
    b.ReplaceTells req ↔ ∀ n ∈ b.nodes, n.order.exchangeId = req.origOrderId →
      b.TellsWhen req n.order := by
  have hf : s.Founded :=
    h.invariant (hstart.founded hlives.owned.1) fun _ _ _ _ _ ih _ hstep => ih.step hstep
  exact OrderBook.replaceTells_iff (hf.books.wf sym b hb) (hf.books.keyed sym b hb)
    (hf.books.patient sym b hb)

/-- An order rests, and a replace of it with this quantity is in the queue. -/
def replacingRun (qty : ℚ) : List Action :=
  Sample.submit (Sample.limit "a" '1' 5 10) Sample.alice ++ Sample.engine 2
    ++ Sample.forward (Sample.replace "b" "a" '1' qty 10) Sample.alice

/-- The request that is made of the message. -/
def replacingRequest (qty : ℤ) : ReplaceRequest where
  origOrderId := "EXCH-1"
  oldClordId := "a"
  newClordId := "b"
  clientId := "A"
  symbol := "X"
  side := '1'
  newPrice := 10
  newQty := qty

/-- Two orders rest, and a replace of the one to buy trades with the other. -/
def crossingReplaceRun : List Action :=
  Sample.submit (Sample.limit "a" '1' 5 10) Sample.alice ++ Sample.engine 2
    ++ Sample.submit (Sample.limit "b" '2' 4 11) Sample.bob ++ Sample.engine 2
    ++ Sample.forward (Sample.replace "c" "a" '1' 7 11) Sample.alice

/-- The request that trades. -/
def crossingRequest : ReplaceRequest :=
  { replacingRequest 7 with newClordId := "c", newPrice := 11 }

theorem replace_tells_iff_sample :
    ∃ s, RunTo Sample.config Any crossingReplaceRun s ∧ s.queue = [.replace crossingRequest] ∧
      ∃ b, s.engine.books.lookup "X" = some b ∧
        .onReplace crossingRequest true 3 ∈ (processReplace b crossingRequest).2 ∧
        b.ReplaceTells crossingRequest := by
  have hreach : ∃ s, RunTo Sample.config Any crossingReplaceRun s ∧
      s.queue = [.replace crossingRequest] ∧
      (s.engine.books.lookup "X").any (fun b => decide (
        .onReplace crossingRequest true 3 ∈ (processReplace b crossingRequest).2 ∧
        ∀ n ∈ b.nodes, StaysInt 7 ((crossingRequest.added n.order).reachable
          (b.toFlat.opposite n.order)))) = true :=
    Transition.exists_reaches (by decide +kernel) (by decide +kernel)
  obtain ⟨s, hrun, hq, hbook⟩ := hreach
  obtain ⟨b, hb, htells⟩ := Option.any_eq_true _ _ |>.mp hbook
  obtain ⟨hcall, hstays⟩ := of_decide_eq_true htells
  exact ⟨s, hrun, hq, b, hb, hcall, (replace_tells_iff
    (Lives.none : Lives Any (fun _ => True) _ _ _) .fresh hrun hb _).mpr
      fun n hn _ => Or.inl ⟨by decide, Or.inr (Or.inr (hstays n hn))⟩⟩

/-- A replace with the quantity -1 is refused, and sets the quantity of its order. -/
theorem refused_replace_changes_book :
    ∃ s, RunTo Sample.config Any (replacingRun (-1)) s ∧
      s.queue = [.replace (replacingRequest (-1))] ∧
      ∃ b, s.engine.books.lookup "X" = some b ∧
        .onReplace (replacingRequest (-1)) false (-1) ∈
          (processReplace b (replacingRequest (-1))).2 ∧
        b.getOrders.map Order.leavesQty = [5] ∧
        (processReplace b (replacingRequest (-1))).1.getOrders.map Order.leavesQty = [-1] ∧
        ¬ b.ReplaceTells (replacingRequest (-1)) := by
  have hreach : ∃ s, RunTo Sample.config Any (replacingRun (-1)) s ∧
      s.queue = [.replace (replacingRequest (-1))] ∧
      (s.engine.books.lookup "X").any (fun b => decide (
        .onReplace (replacingRequest (-1)) false (-1) ∈
          (processReplace b (replacingRequest (-1))).2 ∧
        b.getOrders.map Order.leavesQty = [5] ∧
        (processReplace b (replacingRequest (-1))).1.getOrders.map Order.leavesQty = [-1])) = true :=
    Transition.exists_reaches (by decide +kernel) (by decide +kernel)
  obtain ⟨s, hrun, hq, hbook⟩ := hreach
  obtain ⟨b, hb, hchanged⟩ := Option.any_eq_true _ _ |>.mp hbook
  obtain ⟨hcall, hbefore, hafter⟩ := of_decide_eq_true hchanged
  refine ⟨s, hrun, hq, b, hb, hcall, hbefore, hafter, fun htells => ?_⟩
  have hsame := (htells.refused _ hcall).2
  rw [hsame, hbefore] at hafter
  exact absurd hafter (by decide)

end System

end FixExchange
