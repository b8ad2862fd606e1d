/-
# What matching does

The facts about `matchList` that the rest of the development uses: how much the incoming
order trades, what is left of the resting orders, why matching stops, and how much the
incoming order could have traded.
-/
import FixExchange.Engine.FlatBook

namespace FixExchange

/-- The total quantity of a list of trades. -/
def traded (ts : List Trade) : ℤ := (ts.map Trade.qty).sum

@[simp] lemma traded_nil : traded [] = 0 := rfl

@[simp] lemma traded_cons (t : Trade) (ts : List Trade) :
    traded (t :: ts) = t.qty + traded ts := by
  simp [traded]

namespace Trade

variable (o m : Order)

lemma of_taker : (Trade.of o m).taker = o.withLeaves (o.leavesQty - (Trade.of o m).qty) := rfl

lemma of_maker : (Trade.of o m).maker = m.withLeaves (m.leavesQty - (Trade.of o m).qty) := rfl

lemma of_qty : (Trade.of o m).qty = min o.leavesQty m.leavesQty := rfl

end Trade

section

variable {o : Order} {l : List Order}

/-- Case analysis along the run of `matchList`: it stops at the head, it ends with a trade
that leaves the head open, or it goes on behind a head that it has filled. -/
lemma matchList_induction {P : Order → List Order → Matched → Prop}
    (hnil : ∀ o, P o [] ⟨o, [], []⟩)
    (hstop : ∀ o m l, ¬(0 < o.leavesQty ∧ o.Reaches m.price) → P o (m :: l) ⟨o, m :: l, []⟩)
    (hlast : ∀ o m l, 0 < o.leavesQty → o.Reaches m.price → (Trade.of o m).maker.leavesQty ≠ 0 →
      P o (m :: l) ⟨(Trade.of o m).taker, (Trade.of o m).maker :: l, [Trade.of o m]⟩)
    (hpop : ∀ o m l d, 0 < o.leavesQty → o.Reaches m.price →
      (Trade.of o m).maker.leavesQty = 0 → d = matchList (Trade.of o m).taker l →
      P (Trade.of o m).taker l d → P o (m :: l) ⟨d.taker, d.rest, Trade.of o m :: d.trades⟩)
    (o : Order) (l : List Order) : P o l (matchList o l) := by
  induction l generalizing o with
  | nil => exact hnil o
  | cons m l ih =>
    by_cases hgo : 0 < o.leavesQty ∧ o.Reaches m.price
    · by_cases h0 : (Trade.of o m).maker.leavesQty = 0
      · rw [matchList_pop hgo h0]
        exact hpop o m l _ hgo.1 hgo.2 h0 rfl (ih _)
      · rw [matchList_last hgo h0]
        exact hlast o m l hgo.1 hgo.2 h0
    · rw [matchList_stop hgo]
      exact hstop o m l hgo

/-! ## The incoming order -/

/-- Matching changes nothing of the incoming order but its open quantity, which decreases by
what it trades. -/
lemma matchList_taker (o : Order) (l : List Order) :
    (matchList o l).taker = o.withLeaves (o.leavesQty - traded (matchList o l).trades) := by
  refine matchList_induction
    (P := fun o _ d => d.taker = o.withLeaves (o.leavesQty - traded d.trades))
    ?_ ?_ ?_ ?_ o l
  · intro o; simp
  · intro o m l _; simp
  · intro o m l _ _ _
    simp [Trade.of_taker]
  · intro o m l d _ _ _ _ ih
    rw [ih, Trade.of_taker, Order.withLeaves_withLeaves, Order.withLeaves_leavesQty, traded_cons]
    congr 1
    ring

lemma matchList_taker_leaves (o : Order) (l : List Order) :
    (matchList o l).taker.leavesQty = o.leavesQty - traded (matchList o l).trades := by
  rw [matchList_taker, Order.withLeaves_leavesQty]

/-- An order with a non-negative open quantity is never overfilled. -/
lemma matchList_taker_nonneg (h : 0 ≤ o.leavesQty) : 0 ≤ (matchList o l).taker.leavesQty := by
  refine matchList_induction (P := fun o _ d => 0 ≤ o.leavesQty → 0 ≤ d.taker.leavesQty)
    ?_ ?_ ?_ ?_ o l h
  · exact fun o h => h
  · exact fun o m l _ h => h
  · intro o m l _ _ _ _
    simp [Trade.of_taker, Trade.of_qty]
  · intro o m l d _ _ _ _ ih _
    exact ih (by simp [Trade.of_taker, Trade.of_qty])

/-- Matching stops because the incoming order is exhausted, or because it does not reach the
best of the orders that are left. -/
lemma matchList_exit (o : Order) (l : List Order) :
    (matchList o l).taker.leavesQty ≤ 0 ∨
      ∀ m ∈ (matchList o l).rest.head?, ¬ o.Reaches m.price := by
  refine matchList_induction
    (P := fun o _ d => d.taker.leavesQty ≤ 0 ∨ ∀ m ∈ d.rest.head?, ¬ o.Reaches m.price)
    ?_ ?_ ?_ ?_ o l
  · intro o; simp
  · intro o m l h
    rcases not_and_or.mp h with h | h
    · exact Or.inl (not_lt.mp h)
    · exact Or.inr (by simpa using h)
  · intro o m l _ _ h0
    left
    rw [Trade.of_maker, Trade.of_qty, Order.withLeaves_leavesQty] at h0
    rw [Trade.of_taker, Trade.of_qty, Order.withLeaves_leavesQty]
    omega
  · intro o m l d _ _ _ _ ih
    exact ih

/-! ## The resting orders -/

/-- What is left of a resting order: the order itself, or the order with part of a positive
open quantity. -/
def Order.LeftOf (m' m : Order) : Prop :=
  m' = m ∨ ∃ x, m' = m.withLeaves x ∧ (0 < m.leavesQty → 0 < x ∧ x ≤ m.leavesQty)

lemma Order.LeftOf.eq_withLeaves {m' m : Order} (h : m'.LeftOf m) :
    m' = m.withLeaves m'.leavesQty := by
  rcases h with rfl | ⟨x, rfl, -⟩
  · rfl
  · rfl

/-- A property that does not look at the open quantity passes to what is left. -/
lemma Order.LeftOf.of_forall {m' m : Order} (h : m'.LeftOf m) {P : Order → Prop}
    (hP : ∀ x, P (m.withLeaves x)) : P m' := by
  rw [h.eq_withLeaves]
  exact hP _

/-- The orders that are left, up to their open quantity, are a suffix of the resting ones. -/
lemma matchList_rest (o : Order) (l : List Order) :
    ∃ k, List.Forall₂ Order.LeftOf (matchList o l).rest (l.drop k) := by
  refine matchList_induction
    (P := fun _ l d => ∃ k, List.Forall₂ Order.LeftOf d.rest (l.drop k)) ?_ ?_ ?_ ?_ o l
  · exact fun _ => ⟨0, List.Forall₂.nil⟩
  · exact fun o m l _ => ⟨0, List.forall₂_same.mpr fun _ _ => Or.inl rfl⟩
  · intro o m l ho _ h0
    refine ⟨0, List.Forall₂.cons (Or.inr ⟨_, rfl, fun hm => ?_⟩)
      (List.forall₂_same.mpr fun _ _ => Or.inl rfl)⟩
    rw [Trade.of_maker, Trade.of_qty, Order.withLeaves_leavesQty] at h0
    omega
  · rintro o m l d _ _ _ _ ⟨k, hk⟩
    exact ⟨k + 1, by simpa using hk⟩

/-- The elements of a list that is related to another one have partners there. -/
lemma exists_of_forall₂ {α β : Type} {R : α → β → Prop} {as : List α} {bs : List β}
    (h : List.Forall₂ R as bs) {a : α} (ha : a ∈ as) : ∃ b ∈ bs, R a b := by
  induction h with
  | nil => exact absurd ha List.not_mem_nil
  | cons hab _ ih =>
    rcases List.mem_cons.mp ha with rfl | ha
    · exact ⟨_, List.mem_cons_self, hab⟩
    · obtain ⟨b, hb, hR⟩ := ih ha
      exact ⟨b, List.mem_cons_of_mem _ hb, hR⟩

lemma mem_matchList_rest {m' : Order} (h : m' ∈ (matchList o l).rest) :
    ∃ m ∈ l, m'.LeftOf m := by
  obtain ⟨k, hk⟩ := matchList_rest o l
  obtain ⟨m, hm, hleft⟩ := exists_of_forall₂ hk h
  exact ⟨m, List.mem_of_mem_drop hm, hleft⟩

/-! ## The trades -/

/-- Every trade is one of the incoming order, still open, against a resting order whose
price it reaches, at this price. -/
lemma mem_matchList_trades {t : Trade} (h : t ∈ (matchList o l).trades) :
    ∃ m ∈ l, ∃ y, 0 < y ∧ o.Reaches m.price ∧ t = Trade.of (o.withLeaves y) m := by
  refine matchList_induction
    (P := fun o l d => ∀ t ∈ d.trades,
      ∃ m ∈ l, ∃ y, 0 < y ∧ o.Reaches m.price ∧ t = Trade.of (o.withLeaves y) m)
    ?_ ?_ ?_ ?_ o l t h
  · simp
  · simp
  · intro o m l ho hreach _ t ht
    rw [List.mem_singleton.mp ht]
    exact ⟨m, List.mem_cons_self, o.leavesQty, ho, hreach, rfl⟩
  · intro o m l d ho hreach _ _ ih t ht
    rcases List.mem_cons.mp ht with rfl | ht
    · exact ⟨m, List.mem_cons_self, o.leavesQty, ho, hreach, rfl⟩
    · obtain ⟨m', hm', y, hy, hr, rfl⟩ := ih t ht
      exact ⟨m', List.mem_cons_of_mem _ hm', y, hy, hr, rfl⟩

/-- Against orders with positive open quantity only positive quantities are traded. -/
lemma traded_qty_pos (hl : ∀ m ∈ l, 0 < m.leavesQty) {t : Trade}
    (h : t ∈ (matchList o l).trades) : 0 < t.qty := by
  obtain ⟨m, hm, y, hy, -, rfl⟩ := mem_matchList_trades h
  exact lt_min hy (hl m hm)

lemma traded_nonneg (hl : ∀ m ∈ l, 0 < m.leavesQty) : 0 ≤ traded (matchList o l).trades := by
  refine List.sum_nonneg fun x hx => ?_
  obtain ⟨t, ht, rfl⟩ := List.mem_map.mp hx
  exact (traded_qty_pos hl ht).le

end

end FixExchange
