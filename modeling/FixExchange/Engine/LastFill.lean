/-
# The last fill of an order

The fills of one operation are in order: an order of which a fill leaves nothing has no other
fill behind it, and does not rest afterwards.  A replace executes its order completely when the
resting orders that it reaches are open for all of the new quantity (`replace_executes_iff`).
Nothing is assumed about quantities; a replace may have made a resting order negative.
-/
import FixExchange.Engine.BookLedger
import FixExchange.Engine.TimeInForce

namespace FixExchange

lemma Order.LeftOf.exchangeId {m' m : Order} (h : m'.LeftOf m) :
    m'.exchangeId = m.exchangeId := by
  rw [h.eq_withLeaves]
  rfl

/-- Trades made one after the other: the first one leaves something of the incoming order, and
they are against different resting orders. -/
structure Trade.Before (t t' : Trade) : Prop where
  taker : t.taker.leavesQty ≠ 0
  maker : t.maker.exchangeId ≠ t'.maker.exchangeId

/-- **The trades of an incoming order** are made one after the other; the one that exhausts it
is the last, and a resting order that is exhausted does not stay. -/
lemma matchList_before (o : Order) {l : List Order} (hnodup : (l.map Order.exchangeId).Nodup) :
    (matchList o l).trades.Pairwise Trade.Before ∧ ∀ t ∈ (matchList o l).trades,
      (t.taker.leavesQty = 0 → (matchList o l).taker.leavesQty = 0) ∧
      (t.maker.leavesQty = 0 → ∀ m ∈ (matchList o l).rest,
        m.exchangeId ≠ t.maker.exchangeId) := by
  refine matchList_induction
    (P := fun _ l d => (l.map Order.exchangeId).Nodup → d.trades.Pairwise Trade.Before ∧
      ∀ t ∈ d.trades, (t.taker.leavesQty = 0 → d.taker.leavesQty = 0) ∧
        (t.maker.leavesQty = 0 → ∀ m ∈ d.rest, m.exchangeId ≠ t.maker.exchangeId))
    ?_ ?_ ?_ ?_ o l hnodup
  · exact fun o _ => ⟨List.Pairwise.nil, by simp⟩
  · exact fun o m l _ _ => ⟨List.Pairwise.nil, by simp⟩
  · intro o m l _ _ h0 _
    refine ⟨List.pairwise_singleton _ _, fun t ht => ?_⟩
    rw [List.mem_singleton.mp ht]
    exact ⟨id, fun h => absurd h h0⟩
  · intro o m l d _ _ _ hd ih hnodup
    obtain ⟨hm, hnodup⟩ := List.nodup_cons.mp hnodup
    obtain ⟨hpair, hlast⟩ := ih hnodup
    have hne : ∀ m' ∈ l, m'.exchangeId ≠ m.exchangeId := fun m' hm' heq =>
      hm (List.mem_map.mpr ⟨m', hm', heq⟩)
    refine ⟨List.pairwise_cons.mpr ⟨fun t ht => ⟨fun hex => ?_, fun heq => ?_⟩, hpair⟩,
      fun t ht => ?_⟩
    · rw [hd, matchList_trades_of_exhausted hex.le] at ht
      exact absurd ht List.not_mem_nil
    · rw [hd] at ht
      obtain ⟨m', hm', y, -, -, rfl⟩ := mem_matchList_trades ht
      exact hne m' hm' heq.symm
    · rcases List.mem_cons.mp ht with rfl | ht
      · refine ⟨fun hex => ?_, fun _ m' hm' => ?_⟩
        · rw [hd, matchList_taker_of_no_trades (matchList_trades_of_exhausted hex.le l)]
          exact hex
        · rw [hd] at hm'
          obtain ⟨m₀, hm₀, hleft⟩ := mem_matchList_rest hm'
          rw [hleft.exchangeId]
          exact hne m₀ hm₀
      · exact hlast t ht

/-- A resting order that a trade leaves open stays, with what the trade leaves of it. -/
lemma matchList_leaves_open (o : Order) (l : List Order) :
    ∀ t ∈ (matchList o l).trades, t.maker.leavesQty ≠ 0 → t.maker ∈ (matchList o l).rest := by
  refine matchList_induction
    (P := fun _ _ d => ∀ t ∈ d.trades, t.maker.leavesQty ≠ 0 → t.maker ∈ d.rest) ?_ ?_ ?_ ?_ o l
  · exact fun o t ht => absurd ht List.not_mem_nil
  · exact fun o m l _ t ht => absurd ht List.not_mem_nil
  · intro o m l _ _ h0 t ht _
    rw [List.mem_singleton.mp ht]
    exact List.mem_cons_self
  · intro o m l d _ _ h0 _ ih t ht hne
    rcases List.mem_cons.mp ht with rfl | ht
    · exact absurd h0 hne
    · exact ih t ht hne

namespace FlatBook

lemma mem_place {b : FlatBook} {o m : Order} :
    m ∈ (b.place o).orders ↔ m = o ∨ m ∈ b.orders := by
  by_cases hs : o.side = '1'
  · simp only [place, if_pos hs, orders, List.mem_append, List.mem_orderedInsert, or_assoc]
  · simp only [place, if_neg hs, orders, List.mem_append, List.mem_orderedInsert, or_left_comm]

/-- The same in a flat book. -/
lemma matchIn_before {b : FlatBook} (o : Order) (hnodup : (b.orders.map Order.exchangeId).Nodup) :
    (b.matchIn o).2.trades.Pairwise Trade.Before ∧ ∀ t ∈ (b.matchIn o).2.trades,
      (t.taker.leavesQty = 0 → (b.matchIn o).2.taker.leavesQty = 0) ∧
      (t.maker.leavesQty = 0 → ∀ m ∈ (b.matchIn o).1.orders,
        m.exchangeId ≠ t.maker.exchangeId) := by
  rw [orders, List.map_append] at hnodup
  obtain ⟨hbids, hasks, hne⟩ := List.nodup_append.mp hnodup
  by_cases hs : o.side = '1'
  · obtain ⟨hpair, hlast⟩ := matchList_before o hasks
    simp only [matchIn, if_pos hs]
    refine ⟨hpair, fun t ht => ⟨(hlast t ht).1, fun h0 m hm heq => ?_⟩⟩
    rcases List.mem_append.mp hm with hm | hm
    · -- an order of the other side has another id
      obtain ⟨m', hm', y, -, -, rfl⟩ := mem_matchList_trades ht
      exact hne _ (List.mem_map_of_mem hm) _ (List.mem_map_of_mem hm') heq
    · exact (hlast t ht).2 h0 m hm heq
  · obtain ⟨hpair, hlast⟩ := matchList_before o hbids
    simp only [matchIn, if_neg hs]
    refine ⟨hpair, fun t ht => ⟨(hlast t ht).1, fun h0 m hm heq => ?_⟩⟩
    rcases List.mem_append.mp hm with hm | hm
    · exact (hlast t ht).2 h0 m hm heq
    · obtain ⟨m', hm', y, -, -, rfl⟩ := mem_matchList_trades ht
      exact hne _ (List.mem_map_of_mem hm') _ (List.mem_map_of_mem hm) heq.symm

lemma matchIn_leaves_open (b : FlatBook) (o : Order) :
    ∀ t ∈ (b.matchIn o).2.trades, t.maker.leavesQty ≠ 0 → t.maker ∈ (b.matchIn o).1.orders := by
  intro t ht hne
  rw [matchIn] at ht ⊢
  split_ifs at ht ⊢
  · exact List.mem_append_right _ (matchList_leaves_open o _ t ht hne)
  · exact List.mem_append_left _ (matchList_leaves_open o _ t ht hne)

end FlatBook

/-- Fills reported one after the other. -/
structure FillPair.Before (f f' : FillPair) : Prop where
  taker : f.taker.leavesQty ≠ 0
  maker : f.maker.exchangeId ≠ f'.maker.exchangeId

lemma fillsOf_before {symbol : String} {seq : ℕ} {ts : List Trade}
    (h : ts.Pairwise Trade.Before) : (fillsOf symbol seq ts).Pairwise FillPair.Before := by
  induction ts generalizing seq with
  | nil => exact List.Pairwise.nil
  | cons t ts ih =>
    obtain ⟨hbefore, h⟩ := List.pairwise_cons.mp h
    refine List.pairwise_cons.mpr ⟨fun f hf => ?_, ih h⟩
    obtain ⟨t', ht', hmaker, -⟩ := mem_fillsOf hf
    refine ⟨(hbefore t' ht').taker, ?_⟩
    rw [hmaker.exchangeId]
    exact (hbefore t' ht').maker

namespace OrderBook

variable {b : OrderBook} {o : Order}

/-- The fills of an operation close orders: they are reported one after the other, an order of
which nothing is left does not rest, and when it is the taker nothing is left to be added. -/
structure Closes (b : OrderBook) (left : ℤ) (fs : List FillPair) : Prop where
  before : fs.Pairwise FillPair.Before
  maker : ∀ f ∈ fs, f.maker.leavesQty = 0 → b.Fresh f.maker.exchangeId
  taker : ∀ f ∈ fs, f.taker.leavesQty = 0 → left = 0 ∧ b.Fresh f.taker.exchangeId

lemma Closes.nil (b : OrderBook) (left : ℤ) : b.Closes left [] :=
  ⟨List.Pairwise.nil, by simp, by simp⟩

/-- A new order that does not rest is not in the book. -/
lemma fresh_add (h : b.Wf) (hfresh : b.Fresh o.exchangeId)
    (hrest : ¬ ((b.add o).value > 0 ∧ o.type = '2' ∧ o.tif ≠ '3')) :
    (b.add o).book.Fresh o.exchangeId := by
  intro n hn
  obtain ⟨m, hm, hleft⟩ := add_nodes_of_not_rests h hrest hn
  rw [hleft.exchangeId]
  exact hfresh m hm

/-- **The fills of a new order** close orders. -/
theorem add_closes (h : b.Wf) (hk : b.Keyed) (hfresh : b.Fresh o.exchangeId) :
    (b.add o).book.Closes (b.add o).value (b.add o).fills := by
  obtain ⟨hbook, hvalue, hfills⟩ := add_toFlat h o
  have hnodup : (b.toFlat.orders.map Order.exchangeId).Nodup := by
    rw [← getOrders_eq]
    exact hk.nodup
  obtain ⟨hpair, hlast⟩ := FlatBook.matchIn_before (o.withLeaves o.qty) hnodup
  have htrade : ∀ f ∈ (b.add o).fills, ∃ t ∈ (b.toFlat.matchIn (o.withLeaves o.qty)).2.trades,
      f.Reports t := by
    intro f hf
    rw [hfills] at hf
    exact exists_of_forall₂ (fillsOf_reports _ _ _) hf
  refine ⟨?_, fun f hf h0 n hn heq => ?_, fun f hf h0 => ?_⟩
  · rw [hfills]
    exact fillsOf_before hpair
  · obtain ⟨t, ht, hrep⟩ := htrade f hf
    rw [hrep.makerLeaves] at h0
    have hmem : n.order ∈ (b.add o).book.toFlat.orders := mem_orders_toFlat.mpr ⟨n, hn, rfl⟩
    rw [hbook, FlatBook.add] at hmem
    dsimp only at hmem
    rw [hrep.makerId] at heq
    by_cases hrests : FlatBook.Rests (b.toFlat.matchIn (o.withLeaves o.qty)).2.taker
    · rw [if_pos hrests] at hmem
      rcases FlatBook.mem_place.mp hmem with ho | hmem
      · -- the order that is added has an id of its own
        obtain ⟨m, hm, hmaker⟩ := (add_fill_parties h o hf).1
        refine hfresh m hm ?_
        rw [← hmaker.exchangeId, hrep.makerId, ← heq, ho, matchIn_taker]
        rfl
      · exact (hlast t ht).2 h0 _ hmem heq
    · rw [if_neg hrests] at hmem
      exact (hlast t ht).2 h0 _ hmem heq
  · obtain ⟨t, ht, hrep⟩ := htrade f hf
    rw [hrep.takerLeaves] at h0
    have hzero : (b.add o).value = 0 := by
      rw [hvalue]
      exact (hlast t ht).1 h0
    refine ⟨hzero, ?_⟩
    rw [(add_fill_parties h o hf).2.exchangeId]
    exact fresh_add h hfresh fun hrest => absurd hzero hrest.1.ne'

/-- **A resting order that a fill leaves open** stays, with what the fill leaves of it. -/
theorem add_leaves_open (h : b.Wf) (o : Order) : ∀ f ∈ (b.add o).fills, f.maker.leavesQty ≠ 0 →
    ∃ n ∈ (b.add o).book.nodes, n.order.exchangeId = f.maker.exchangeId ∧
      n.order.leavesQty = f.maker.leavesQty := by
  intro f hf hne
  obtain ⟨hbook, -, hfills⟩ := add_toFlat h o
  rw [hfills] at hf
  obtain ⟨t, ht, hrep⟩ := exists_of_forall₂ (fillsOf_reports _ _ _) hf
  rw [hrep.makerLeaves] at hne
  have hopen := FlatBook.matchIn_leaves_open b.toFlat (o.withLeaves o.qty) t ht hne
  have hmem : t.maker ∈ (b.add o).book.toFlat.orders := by
    rw [hbook, FlatBook.add]
    dsimp only
    split_ifs
    · exact FlatBook.mem_place.mpr (Or.inr hopen)
    · exact hopen
  obtain ⟨n, hn, heq⟩ := mem_orders_toFlat.mp hmem
  exact ⟨n, hn, by rw [heq, hrep.makerId], by rw [heq, hrep.makerLeaves]⟩

/-- **The fills of a replace** close orders. -/
theorem replace_closes (h : b.Wf) (hk : b.Keyed) (id : String) (p : Price) (q : ℤ) :
    (b.replace id p q).book.Closes (b.replace id p q).value (b.replace id p q).fills := by
  rcases h.replace_eq id p q with ⟨-, hr⟩ | ⟨m, hm, rfl, ⟨-, -, hr⟩ | ⟨-, hr⟩⟩
  · rw [hr]
    exact .nil _ _
  · rw [hr]
    exact .nil _ _
  · rw [hr]
    exact add_closes (h.unlink hm) (hk.unlink h hm) (hk.fresh_unlink h hm)

end OrderBook

/-! ## Complete executions -/

/-- **When a trade leaves nothing of the incoming order.** -/
lemma matchList_executes_iff (o : Order) (l : List Order) :
    (∃ t ∈ (matchList o l).trades, t.taker.leavesQty = 0) ↔
      0 < o.leavesQty ∧ (matchList o l).taker.leavesQty = 0 := by
  refine matchList_induction
    (P := fun o _ d => (∃ t ∈ d.trades, t.taker.leavesQty = 0) ↔
      0 < o.leavesQty ∧ d.taker.leavesQty = 0) ?_ ?_ ?_ ?_ o l
  · intro o
    simp only [List.not_mem_nil, false_and, exists_false, false_iff, not_and]
    omega
  · intro o m l _
    simp only [List.not_mem_nil, false_and, exists_false, false_iff, not_and]
    omega
  · intro o m l ho _ _
    simp only [List.mem_singleton, exists_eq_left]
    exact (and_iff_right ho).symm
  · intro o m l d ho _ _ hd ih
    simp only [List.exists_mem_cons_iff]
    rw [ih, and_iff_right ho]
    constructor
    · rintro (hex | ⟨-, hex⟩)
      · -- an exhausted order does not trade any more
        rw [hd, matchList_taker_of_no_trades (matchList_trades_of_exhausted hex.le l)]
        exact hex
      · exact hex
    · intro hex
      by_cases h0 : (Trade.of o m).taker.leavesQty = 0
      · exact Or.inl h0
      · refine Or.inr ⟨?_, hex⟩
        have hnonneg : 0 ≤ (Trade.of o m).taker.leavesQty := by
          rw [Trade.of_taker, Trade.of_qty, Order.withLeaves_leavesQty]
          omega
        omega

namespace OrderBook

variable {b : OrderBook}

/-- A new order is executed completely when the orders that it reaches can absorb it. -/
lemma add_executes_iff (h : b.Wf) (o : Order) :
    (∃ f ∈ (b.add o).fills, f.taker.leavesQty = 0) ↔
      0 < o.qty ∧ (o.withLeaves o.qty).AbsorbedBy (b.toFlat.opposite o) := by
  have htrades : (∃ f ∈ (b.add o).fills, f.taker.leavesQty = 0) ↔
      ∃ t ∈ (matchList (o.withLeaves o.qty) (b.toFlat.opposite o)).trades,
        t.taker.leavesQty = 0 := by
    have hfills : (b.add o).fills = fillsOf b.symbol b.execSeq
        (matchList (o.withLeaves o.qty) (b.toFlat.opposite o)).trades := by
      rw [(add_toFlat h o).2.2, FlatBook.add]
      dsimp only
      rw [FlatBook.matchIn_snd, FlatBook.opposite_withLeaves]
    rw [hfills]
    constructor
    · rintro ⟨f, hf, h0⟩
      obtain ⟨t, ht, hrep⟩ := exists_of_forall₂ (fillsOf_reports _ _ _) hf
      exact ⟨t, ht, hrep.takerLeaves.symm.trans h0⟩
    · rintro ⟨t, ht, h0⟩
      obtain ⟨f, hf, hrep⟩ := exists_of_forall₂ (fillsOf_reports b.symbol b.execSeq _).flip ht
      exact ⟨f, hf, hrep.takerLeaves.trans h0⟩
  rw [htrades, matchList_executes_iff, Order.withLeaves_leavesQty]
  exact and_congr_right fun hq => matchList_exhausted_iff hq.le

/-- The orders that a replaced order can trade with absorb its new quantity, and it is not shrunk
where it stands. -/
def Absorbs (b : OrderBook) (id : String) (p : Price) (q : ℤ) : Prop :=
  ∃ n ∈ b.nodes, n.order.exchangeId = id ∧ ¬ (p = n.order.price ∧ q < n.order.leavesQty) ∧ 0 < q ∧
    ({ n.order with price := p, leavesQty := q } : Order).AbsorbedBy (b.toFlat.opposite n.order)

/-- **When a replace executes its order completely.** -/
theorem replace_executes_iff (h : b.Wf) (hk : b.Keyed) (id : String) (p : Price) (q : ℤ) :
    (∃ f ∈ (b.replace id p q).fills, f.taker.leavesQty = 0) ↔ b.Absorbs id p q := by
  rcases h.replace_eq id p q with ⟨hnone, hr⟩ | ⟨n, hn, rfl, hr⟩
  · have hfresh := (hk.lookup_eq_none_iff h).mp hnone
    rw [hr]
    refine iff_of_false (by simp) ?_
    rintro ⟨n, hn, hid, -⟩
    exact hfresh n hn hid
  · -- the id belongs to one order of the book
    have honly : b.Absorbs n.order.exchangeId p q ↔
        ¬ (p = n.order.price ∧ q < n.order.leavesQty) ∧ 0 < q ∧
          ({ n.order with price := p, leavesQty := q } : Order).AbsorbedBy
            (b.toFlat.opposite n.order) := by
      constructor
      · rintro ⟨n', hn', hid, habsorbs⟩
        rwa [hk.eq_of_id hn' hn hid] at habsorbs
      · exact fun habsorbs => ⟨n, hn, rfl, habsorbs⟩
    rw [honly]
    rcases hr with ⟨hp, hq, hr⟩ | ⟨hout, hr⟩
    · rw [hr]
      exact iff_of_false (by simp) fun habsorbs => habsorbs.1 ⟨hp, hq⟩
    · have hopposite : (b.unlink n.order.exchangeId n.addr n.order.price n.order.side).toFlat.opposite
          n.order = b.toFlat.opposite n.order := by
        by_cases hs : n.order.side = '1' <;> simp [FlatBook.opposite, unlink, toFlat, hs]
      rw [hr, add_executes_iff (h.unlink hn), and_iff_right hout, ← hopposite]
      rfl

end OrderBook

end FixExchange
