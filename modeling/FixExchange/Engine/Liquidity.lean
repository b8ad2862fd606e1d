/-
# Liquidity and matching

How much an incoming order trades, told before it is matched: the read-only sum of
`available_to_fill` and the match loop agree.  On a book whose orders are all open the order
trades the smaller of its quantity and the sum (`add_value`).  On any book it is exhausted
exactly when some number of the resting orders it reaches can absorb it
(`matchList_exhausted_iff`), and what is left of it stays an `int` unless a negative open quantity
takes it out of the range (`matchList_ends`).
-/
import FixExchange.Engine.BookOps

namespace FixExchange

/-- The resting orders that an incoming order reaches, best first. -/
def Order.reachable (o : Order) (l : List Order) : List Order :=
  l.takeWhile fun m => o.Reaches m.price

/-- The total open quantity of a list of orders. -/
def openQty (l : List Order) : ℤ := (l.map Order.leavesQty).sum

@[simp] lemma openQty_nil : openQty [] = 0 := rfl

@[simp] lemma openQty_cons (m : Order) (l : List Order) :
    openQty (m :: l) = m.leavesQty + openQty l := by
  simp [openQty]

lemma openQty_nonneg {l : List Order} (h : ∀ m ∈ l, 0 < m.leavesQty) : 0 ≤ openQty l := by
  refine List.sum_nonneg fun x hx => ?_
  obtain ⟨m, hm, rfl⟩ := List.mem_map.mp hx
  exact (h m hm).le

/-- The first `k` reachable orders, for some `k`, are open for as much as the incoming order. -/
def Order.AbsorbedBy (o : Order) (l : List Order) : Prop :=
  ∃ k, o.leavesQty ≤ openQty ((o.reachable l).take k)

/-- What is left of a quantity is an `int`, while the open quantities of a list of orders are taken
off it one after the other. -/
def StaysInt : ℤ → List Order → Prop
  | _, [] => True
  | qty, m :: l => qty - m.leavesQty ≤ maxInt ∧ StaysInt (qty - m.leavesQty) l

instance decidableStaysInt : (qty : ℤ) → (l : List Order) → Decidable (StaysInt qty l)
  | _, [] => isTrue trivial
  | qty, m :: l =>
    have := decidableStaysInt (qty - m.leavesQty) l
    inferInstanceAs (Decidable (_ ∧ _))

/-- The first `k` reachable orders, for some `k`, absorb the incoming order, and what is left of it
on the way is an `int`. -/
def Order.AbsorbedInRange (o : Order) (l : List Order) : Prop :=
  ∃ k, StaysInt o.leavesQty ((o.reachable l).take k) ∧
    o.leavesQty ≤ openQty ((o.reachable l).take k)

section

variable {o m : Order} {l : List Order}

lemma Order.reachable_withLeaves (x : ℤ) : (o.withLeaves x).reachable l = o.reachable l := rfl

@[simp] lemma Order.reachable_nil : o.reachable [] = [] := rfl

lemma Order.reachable_cons_of_reaches (h : o.Reaches m.price) :
    o.reachable (m :: l) = m :: o.reachable l := by
  simp [Order.reachable, h]

lemma Order.reachable_cons_of_not (h : ¬ o.Reaches m.price) : o.reachable (m :: l) = [] := by
  simp [Order.reachable, h]

lemma Order.mem_of_mem_reachable (h : m ∈ o.reachable l) : m ∈ l := by
  induction l with
  | nil => exact absurd h List.not_mem_nil
  | cons a l ih =>
    by_cases ha : o.Reaches a.price
    · rw [Order.reachable_cons_of_reaches ha] at h
      rcases List.mem_cons.mp h with rfl | h
      · exact List.mem_cons_self
      · exact List.mem_cons_of_mem _ (ih h)
    · rw [Order.reachable_cons_of_not ha] at h
      exact absurd h List.not_mem_nil

/-- A trade that fills the resting order trades all that it was open for. -/
lemma Trade.qty_of_maker_filled (h : (Trade.of o m).maker.leavesQty = 0) :
    (Trade.of o m).taker = o.withLeaves (o.leavesQty - m.leavesQty) ∧
      m.leavesQty ≤ o.leavesQty := by
  rw [Trade.of_maker, Trade.of_qty, Order.withLeaves_leavesQty] at h
  have hmin : min o.leavesQty m.leavesQty = m.leavesQty := by omega
  rw [Trade.of_taker, Trade.of_qty, hmin]
  exact ⟨rfl, by omega⟩

/-- A trade that leaves the resting order open exhausts the incoming one. -/
lemma Trade.qty_of_maker_open (h : (Trade.of o m).maker.leavesQty ≠ 0) :
    (Trade.of o m).taker.leavesQty = 0 ∧ o.leavesQty ≤ m.leavesQty := by
  rw [Trade.of_maker, Trade.of_qty, Order.withLeaves_leavesQty] at h
  rw [Trade.of_taker, Trade.of_qty, Order.withLeaves_leavesQty]
  omega

/-- **When matching exhausts the incoming order**, on any list of resting orders. -/
lemma matchList_exhausted_iff (ho : 0 ≤ o.leavesQty) :
    (matchList o l).taker.leavesQty = 0 ↔ o.AbsorbedBy l := by
  refine matchList_induction
    (P := fun o l d => 0 ≤ o.leavesQty → (d.taker.leavesQty = 0 ↔ o.AbsorbedBy l))
    ?_ ?_ ?_ ?_ o l ho
  · intro o ho
    simp only [Order.AbsorbedBy, Order.reachable_nil, List.take_nil, openQty_nil, exists_const]
    omega
  · intro o m l hstop ho
    rcases not_and_or.mp hstop with h | h
    · have h0 : o.leavesQty = 0 := by omega
      exact iff_of_true h0 ⟨0, by simp [h0]⟩
    · simp only [Order.AbsorbedBy, Order.reachable_cons_of_not h, List.take_nil, openQty_nil,
        exists_const]
      omega
  · intro o m l _ hreach h0 _
    obtain ⟨htaker, hle⟩ := Trade.qty_of_maker_open h0
    refine iff_of_true htaker ⟨1, ?_⟩
    rw [Order.reachable_cons_of_reaches hreach]
    simpa using hle
  · intro o m l d ho hreach h0 _ ih _
    obtain ⟨htaker, hle⟩ := Trade.qty_of_maker_filled h0
    rw [htaker] at ih
    rw [ih (by rw [Order.withLeaves_leavesQty]; omega)]
    simp only [Order.AbsorbedBy, Order.reachable_withLeaves, Order.withLeaves_leavesQty,
      Order.reachable_cons_of_reaches hreach]
    constructor
    · rintro ⟨k, hk⟩
      refine ⟨k + 1, ?_⟩
      rw [List.take_succ_cons, openQty_cons]
      omega
    · rintro ⟨k, hk⟩
      cases k with
      | zero =>
        rw [List.take_zero, openQty_nil] at hk
        omega
      | succ k =>
        rw [List.take_succ_cons, openQty_cons] at hk
        exact ⟨k, by omega⟩

/-- The orders behind the first one, which is reached and traded away. -/
lemma Order.absorbedInRange_cons (hreach : o.Reaches m.price) (ho : 0 < o.leavesQty) :
    o.AbsorbedInRange (m :: l) ↔ o.leavesQty - m.leavesQty ≤ maxInt ∧
      (o.withLeaves (o.leavesQty - m.leavesQty)).AbsorbedInRange l := by
  simp only [Order.AbsorbedInRange, Order.reachable_withLeaves, Order.withLeaves_leavesQty,
    Order.reachable_cons_of_reaches hreach]
  constructor
  · rintro ⟨k, hstays, hk⟩
    cases k with
    | zero =>
      rw [List.take_zero, openQty_nil] at hk
      omega
    | succ k =>
      rw [List.take_succ_cons] at hstays hk
      rw [openQty_cons] at hk
      exact ⟨hstays.1, k, hstays.2, by omega⟩
  · rintro ⟨hint, k, hstays, hk⟩
    refine ⟨k + 1, ?_, ?_⟩
    · rw [List.take_succ_cons]
      exact ⟨hint, hstays⟩
    · rw [List.take_succ_cons, openQty_cons]
      omega

lemma Order.absorbedInRange_of_nonpos (ho : o.leavesQty ≤ 0) (l : List Order) :
    o.AbsorbedInRange l :=
  ⟨0, trivial, by simpa using ho⟩

/-- Every trade leaves the incoming order open for an `int`. -/
def TradesInRange (ts : List Trade) : Prop := ∀ t ∈ ts, t.taker.leavesQty ≤ maxInt

lemma tradesInRange_cons {t : Trade} {ts : List Trade} :
    TradesInRange (t :: ts) ↔ t.taker.leavesQty ≤ maxInt ∧ TradesInRange ts :=
  List.forall_mem_cons

/-- How matching ends: the incoming order is exhausted; or it has traded with all orders that it
reaches, and is still open; or what is left of it leaves the range of `int`. -/
structure Ends (o : Order) (l : List Order) (d : Matched) : Prop where
  absorbed : o.AbsorbedInRange l → d.taker.leavesQty = 0 ∧ TradesInRange d.trades
  ran_out : ¬ o.AbsorbedInRange l → StaysInt o.leavesQty (o.reachable l) →
    0 < d.taker.leavesQty ∧ TradesInRange d.trades
  out_of_range : ¬ o.AbsorbedInRange l → ¬ StaysInt o.leavesQty (o.reachable l) →
    ¬ TradesInRange d.trades

/-- Nothing is left of the incoming order. -/
lemma Ends.of_absorbed {d : Matched} (h : o.AbsorbedInRange l) (h0 : d.taker.leavesQty = 0)
    (hrange : TradesInRange d.trades) : Ends o l d :=
  ⟨fun _ => ⟨h0, hrange⟩, fun hnot => absurd h hnot, fun hnot => absurd h hnot⟩

/-- Nothing is reached. -/
lemma Ends.unreached (ho : 0 ≤ o.leavesQty) (hreach : o.reachable l = []) :
    Ends o l ⟨o, l, []⟩ := by
  have hiff : o.AbsorbedInRange l ↔ o.leavesQty ≤ 0 := by
    simp [Order.AbsorbedInRange, hreach, StaysInt]
  refine ⟨fun h => ⟨le_antisymm (hiff.mp h) ho, ?_⟩, fun h _ => ⟨not_le.mp (mt hiff.mpr h), ?_⟩,
    fun _ h => ?_⟩
  · exact fun t ht => absurd ht List.not_mem_nil
  · exact fun t ht => absurd ht List.not_mem_nil
  · rw [hreach] at h
    exact absurd trivial h

/-- The first order is traded away. -/
lemma Ends.cons {d : Matched} (hreach : o.Reaches m.price) (ho : 0 < o.leavesQty)
    (htaker : (Trade.of o m).taker = o.withLeaves (o.leavesQty - m.leavesQty))
    (h : Ends (o.withLeaves (o.leavesQty - m.leavesQty)) l d) :
    Ends o (m :: l) ⟨d.taker, d.rest, Trade.of o m :: d.trades⟩ := by
  have habsorbed := Order.absorbedInRange_cons (l := l) hreach ho
  have hstays : StaysInt o.leavesQty (o.reachable (m :: l)) ↔
      o.leavesQty - m.leavesQty ≤ maxInt ∧
        StaysInt (o.leavesQty - m.leavesQty) (o.reachable l) := by
    rw [Order.reachable_cons_of_reaches hreach]
    rfl
  have hrange : TradesInRange (Trade.of o m :: d.trades) ↔
      o.leavesQty - m.leavesQty ≤ maxInt ∧ TradesInRange d.trades := by
    rw [tradesInRange_cons, htaker, Order.withLeaves_leavesQty]
  refine ⟨fun ha => ?_, fun ha hs => ?_, fun ha hs hr => ?_⟩
  · obtain ⟨hint, ha⟩ := habsorbed.mp ha
    obtain ⟨h0, hr⟩ := h.absorbed ha
    exact ⟨h0, hrange.mpr ⟨hint, hr⟩⟩
  · obtain ⟨hint, hs⟩ := hstays.mp hs
    obtain ⟨hpos, hr⟩ := h.ran_out (fun ha' => ha (habsorbed.mpr ⟨hint, ha'⟩)) hs
    exact ⟨hpos, hrange.mpr ⟨hint, hr⟩⟩
  · obtain ⟨hint, hr⟩ := hrange.mp hr
    exact h.out_of_range (fun ha' => ha (habsorbed.mpr ⟨hint, ha'⟩))
      (fun hs' => hs (hstays.mpr ⟨hint, hs'⟩)) hr

/-- **How matching ends**, on any list of resting orders. -/
lemma matchList_ends (ho : 0 ≤ o.leavesQty) : Ends o l (matchList o l) := by
  refine matchList_induction (P := fun o l d => 0 ≤ o.leavesQty → Ends o l d) ?_ ?_ ?_ ?_ o l ho
  · exact fun o ho => .unreached ho rfl
  · intro o m l hstop ho
    rcases not_and_or.mp hstop with h | h
    · have h0 : o.leavesQty = 0 := le_antisymm (not_lt.mp h) ho
      exact .of_absorbed (Order.absorbedInRange_of_nonpos h0.le _) h0
        fun t ht => absurd ht List.not_mem_nil
    · exact .unreached ho (Order.reachable_cons_of_not h)
  · intro o m l ho hreach h0 _
    obtain ⟨htaker, hle⟩ := Trade.qty_of_maker_open h0
    have hint : o.leavesQty - m.leavesQty ≤ maxInt := by
      rw [maxInt]
      omega
    refine .of_absorbed ((Order.absorbedInRange_cons hreach ho).mpr ⟨hint,
      Order.absorbedInRange_of_nonpos (by rw [Order.withLeaves_leavesQty]; omega) l⟩) htaker ?_
    intro t ht
    rw [List.mem_singleton.mp ht, htaker]
    decide
  · intro o m l d ho hreach h0 _ ih _
    obtain ⟨htaker, hle⟩ := Trade.qty_of_maker_filled h0
    rw [htaker] at ih
    exact .cons hreach ho htaker (ih (by rw [Order.withLeaves_leavesQty]; omega))

/-- What is left of the incoming order is an `int` all the time. -/
def Order.MatchesInRange (o : Order) (l : List Order) : Prop :=
  o.AbsorbedInRange l ∨ StaysInt o.leavesQty (o.reachable l)

lemma matchList_in_range_iff (ho : 0 ≤ o.leavesQty) :
    TradesInRange (matchList o l).trades ↔ o.MatchesInRange l := by
  obtain ⟨habsorbed, hran_out, hout⟩ := matchList_ends (l := l) ho
  by_cases ha : o.AbsorbedInRange l
  · exact iff_of_true (habsorbed ha).2 (Or.inl ha)
  by_cases hs : StaysInt o.leavesQty (o.reachable l)
  · exact iff_of_true (hran_out ha hs).2 (Or.inr hs)
  · exact iff_of_false (hout ha hs) fun h => h.elim ha hs

/-- **How much is left of the incoming order** when all resting orders are open. -/
lemma matchList_leaves (ho : 0 ≤ o.leavesQty) (hl : ∀ m ∈ l, 0 < m.leavesQty) :
    (matchList o l).taker.leavesQty = max 0 (o.leavesQty - openQty (o.reachable l)) := by
  refine matchList_induction
    (P := fun o l d => 0 ≤ o.leavesQty → (∀ m ∈ l, 0 < m.leavesQty) →
      d.taker.leavesQty = max 0 (o.leavesQty - openQty (o.reachable l)))
    ?_ ?_ ?_ ?_ o l ho hl
  · intro o ho _
    simp [ho]
  · intro o m l hstop ho hl
    have hnonneg : 0 ≤ openQty (o.reachable (m :: l)) :=
      openQty_nonneg fun a ha => hl a (Order.mem_of_mem_reachable ha)
    rcases not_and_or.mp hstop with h | h
    · dsimp only
      omega
    · rw [Order.reachable_cons_of_not h, openQty_nil]
      dsimp only
      omega
  · intro o m l _ hreach h0 _ hl
    obtain ⟨htaker, hle⟩ := Trade.qty_of_maker_open h0
    have hnonneg : 0 ≤ openQty (o.reachable l) :=
      openQty_nonneg fun a ha => hl a (List.mem_cons_of_mem _ (Order.mem_of_mem_reachable ha))
    rw [Order.reachable_cons_of_reaches hreach, openQty_cons]
    dsimp only
    omega
  · intro o m l d _ hreach h0 _ ih _ hl
    obtain ⟨htaker, hle⟩ := Trade.qty_of_maker_filled h0
    rw [htaker, Order.reachable_withLeaves, Order.withLeaves_leavesQty] at ih
    rw [Order.reachable_cons_of_reaches hreach, openQty_cons, ih (by omega)
      fun a ha => hl a (List.mem_cons_of_mem _ ha)]
    congr 1
    omega

end

/-! ## The pre-check of the order book -/

section

variable {r : Price → Price → Prop}

/-- Stopping at the first level beyond a limit is stopping at the first order beyond it. -/
lemma addends_takeWhile {side : BookSide r} (hl : side.Leveled Node.price) (P : Price → Bool) :
    ((side.entries.takeWhile fun kv => P kv.1).flatMap fun kv => OrderBook.levelAddends kv.2)
      = ((side.flat.map Node.order).takeWhile fun m => P m.price).map Order.leavesQty := by
  obtain ⟨entries, _⟩ := side
  simp only [SortedMap.flat]
  simp only [SortedMap.Leveled] at hl
  induction entries with
  | nil => rfl
  | cons e l ih =>
    obtain ⟨hne, hkey⟩ := hl e List.mem_cons_self
    have hl' : ∀ e' ∈ l, e'.2 ≠ [] ∧ ∀ a ∈ e'.2, a.price = e'.1 :=
      fun e' he' => hl e' (List.mem_cons_of_mem _ he')
    rw [List.flatMap_cons, List.map_append]
    by_cases hP : P e.1 = true
    · -- the whole level is within the limit
      have hall : ∀ m ∈ e.2.map Node.order, P m.price = true := by
        intro m hm
        obtain ⟨n, hn, rfl⟩ := List.mem_map.mp hm
        exact (congrArg P (hkey n hn)).trans hP
      rw [List.takeWhile_cons, if_pos hP, List.flatMap_cons,
        ih (List.Pairwise.of_cons ‹_›) hl', List.takeWhile_append_of_pos hall, List.map_append,
        List.map_map]
      rfl
    · -- its first order is beyond the limit
      obtain ⟨n, q, hq⟩ := List.exists_cons_of_ne_nil hne
      have hn : ¬ P n.order.price = true := by
        have : n.price = e.1 := hkey n (by rw [hq]; exact List.mem_cons_self)
        exact fun h => hP (by rw [← this]; exact h)
      rw [List.takeWhile_cons, if_neg hP, hq, List.map_cons, List.cons_append,
        List.takeWhile_cons, if_neg hn]
      rfl

end

namespace FlatBook

/-- The side of the book that an order trades against. -/
def opposite (b : FlatBook) (o : Order) : List Order := if o.side = '1' then b.asks else b.bids

lemma opposite_withLeaves (b : FlatBook) (o : Order) (x : ℤ) :
    b.opposite (o.withLeaves x) = b.opposite o := rfl

lemma matchIn_snd (b : FlatBook) (o : Order) : (b.matchIn o).2 = matchList o (b.opposite o) := by
  by_cases hs : o.side = '1' <;> simp [matchIn, opposite, hs]

end FlatBook

namespace OrderBook

variable {b : OrderBook} {o : Order}

/-- `available_to_fill`, with the total as an exact integer. -/
def availableExact (b : OrderBook) (order : Order) : ℤ := (b.addends order).sum

/-- `available_to_fill` sums the orders that the order reaches. -/
lemma addends_eq (h : b.Wf) (ht : o.type = '1' ∨ o.type = '2') :
    b.addends o = (o.reachable (b.toFlat.opposite o)).map Order.leavesQty := by
  have hreach : ∀ p, decide (o.Reaches p)
      = !(o.type == '2' && if o.side = '1' then decide (p > o.price) else decide (p < o.price)) := by
    intro p
    rcases ht with ht | ht <;> by_cases hs : o.side = '1' <;> simp [Order.Reaches, ht, hs, ← not_lt]
  by_cases hs : o.side = '1'
  · simp only [addends, FlatBook.opposite, if_pos hs, toFlat, Order.reachable, hreach]
    exact addends_takeWhile h.asks_leveled fun p => !(o.type == '2' && decide (p > o.price))
  · simp only [addends, FlatBook.opposite, if_neg hs, toFlat, Order.reachable, hreach]
    exact addends_takeWhile h.bids_leveled fun p => !(o.type == '2' && decide (p < o.price))

lemma availableExact_eq (h : b.Wf) (ht : o.type = '1' ∨ o.type = '2') :
    b.availableExact o = openQty (o.reachable (b.toFlat.opposite o)) := by
  rw [availableExact, addends_eq h ht]
  rfl

lemma mem_opposite {m : Order} (hm : m ∈ b.toFlat.opposite o) : ∃ n ∈ b.nodes, n.order = m := by
  have hmem : m ∈ b.toFlat.orders := by
    by_cases hs : o.side = '1'
    · rw [FlatBook.opposite, if_pos hs] at hm
      exact List.mem_append_right _ hm
    · rw [FlatBook.opposite, if_neg hs] at hm
      exact List.mem_append_left _ hm
  exact mem_orders_toFlat.mp hmem

lemma add_value_eq (h : b.Wf) (o : Order) :
    (b.add o).value = (matchList (o.withLeaves o.qty) (b.toFlat.opposite o)).taker.leavesQty := by
  rw [(add_toFlat h o).2.1, FlatBook.add]
  dsimp only
  rw [FlatBook.matchIn_snd, FlatBook.opposite_withLeaves]

/-- **The pre-check agrees with the matcher.** -/
lemma add_value (h : b.Inv) (ht : o.type = '1' ∨ o.type = '2') (hq : 0 ≤ o.qty) :
    (b.add o).value = max 0 (o.qty - b.availableExact o) := by
  rw [add_value_eq h.wf, matchList_leaves hq, availableExact_eq h.wf ht]
  · rfl
  · intro m hm
    obtain ⟨n, hn, rfl⟩ := mem_opposite hm
    exact (h.positive n hn).1

end OrderBook

end FixExchange
