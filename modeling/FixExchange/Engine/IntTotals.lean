/-
# Totals in `int`

`available_to_fill`, `getBids` and `getAsks` of `src/engine/OrderBook.cpp` accumulate open
quantities in an `int`.  Each open quantity fits in an `int`, but nothing bounds their number: the
levels are reported with their exact totals when each of these fits (`levelsExact_iff`), and all
totals are the exact ones, for every order and at every price, exactly when the open quantity of
each side fits (`totals_fit_iff`).
-/
import FixExchange.Engine.Liquidity
import FixExchange.Lib.WrapSum
import Mathlib.Data.List.TakeWhile

namespace FixExchange

open WrapSum

namespace OrderBook

/-- The open quantity of a price level. -/
def levelTotal (level : List Node) : ℤ := (levelAddends level).sum

/-- The levels of a side are reported, each with its total, and no total leaves the range. -/
structure LevelsFit {r : Price → Price → Prop} (side : BookSide r) : Prop where
  running : ∀ e ∈ side.entries, RunningFits 32 (levelAddends e.2)
  reported : levels side = side.entries.map fun e => ⟨e.1, levelTotal e.2⟩

/-- No total of a book leaves the range of `int`: what can be filled is told for every order, so
that no order is killed that could be filled, and every level is reported with its total. -/
structure TotalsFit (b : OrderBook) : Prop where
  running : ∀ o, RunningFits 32 (b.addends o)
  available : ∀ o, b.availableToFill o = b.availableExact o
  fillable : ∀ o : Order, o.type = '1' ∨ o.type = '2' →
    o.qty ≤ FixExchange.openQty (o.reachable (b.toFlat.opposite o)) →
      ¬ b.availableToFill o < o.qty
  bids : LevelsFit b.bids
  asks : LevelsFit b.asks

section

variable {r : Price → Price → Prop} {side : BookSide r} {b : OrderBook} {o : Order}

lemma sum_flatMap_levelAddends (l : List (Price × List Node)) :
    (l.flatMap fun kv => levelAddends kv.2).sum = (l.map fun kv => levelTotal kv.2).sum := by
  induction l with
  | nil => rfl
  | cons kv l ih =>
    rw [List.flatMap_cons, List.sum_append, ih, List.map_cons, List.sum_cons, levelTotal]

/-- The open quantity of a side. -/
def sideTotal (side : BookSide r) : ℤ := (side.entries.map fun kv => levelTotal kv.2).sum

/-- Every order of the side is open. -/
def OpenSide (side : BookSide r) : Prop := ∀ n ∈ side.flat, 0 < n.order.leavesQty

lemma OpenSide.nonneg (h : OpenSide side) {e : Price × List Node} (he : e ∈ side.entries) :
    ∀ x ∈ levelAddends e.2, 0 ≤ x := by
  intro x hx
  obtain ⟨n, hn, rfl⟩ := List.mem_map.mp hx
  exact (h n (SortedMap.mem_flat.mpr ⟨e, he, hn⟩)).le

lemma OpenSide.nonneg_flatMap (h : OpenSide side) {l : List (Price × List Node)}
    (hl : l ⊆ side.entries) : ∀ x ∈ l.flatMap fun kv => levelAddends kv.2, 0 ≤ x := by
  intro x hx
  obtain ⟨e, he, hx⟩ := List.mem_flatMap.mp hx
  exact h.nonneg (hl he) x hx

/-- The first levels of a side hold no more than the side. -/
lemma OpenSide.sum_le (h : OpenSide side) {l : List (Price × List Node)}
    (hl : l <+: side.entries) : (l.map fun kv => levelTotal kv.2).sum ≤ sideTotal side := by
  refine sum_le_of_prefix (fun x hx => ?_) (hl.map _)
  obtain ⟨e, he, rfl⟩ := List.mem_map.mp hx
  exact List.sum_nonneg (h.nonneg he)

/-- A level holds no more than its side. -/
lemma OpenSide.level_le (h : OpenSide side) {e : Price × List Node} (he : e ∈ side.entries) :
    levelTotal e.2 ≤ sideTotal side := by
  refine List.single_le_sum (fun x hx => ?_) _ (List.mem_map_of_mem he)
  obtain ⟨e', he', rfl⟩ := List.mem_map.mp hx
  exact List.sum_nonneg (h.nonneg he')

/-- The first levels of a side that fits. -/
lemma OpenSide.runningFits (h : OpenSide side) (hfits : sideTotal side ≤ maxInt)
    {l : List (Price × List Node)} (hl : l <+: side.entries) :
    RunningFits 32 (l.flatMap fun kv => levelAddends kv.2) := by
  rw [runningFits_iff (h.nonneg_flatMap hl.subset), sum_flatMap_levelAddends]
  have hle := h.sum_le hl
  rw [maxInt] at hfits
  omega

/-- The orders of a level of open orders are open for something. -/
lemma OpenSide.levelTotal_pos (h : OpenSide side) (hl : side.Leveled Node.price)
    {e : Price × List Node} (he : e ∈ side.entries) : 0 < levelTotal e.2 := by
  obtain ⟨n, q, hq⟩ := List.exists_cons_of_ne_nil (hl e he).1
  have hmem : ∀ m ∈ e.2, 0 < m.order.leavesQty := fun m hm =>
    h m (SortedMap.mem_flat.mpr ⟨e, he, hm⟩)
  rw [levelTotal, levelAddends, hq, List.map_cons, List.sum_cons]
  have hn := hmem n (by rw [hq]; exact List.mem_cons_self)
  have hrest : 0 ≤ (q.map fun n => n.order.leavesQty).sum := by
    refine List.sum_nonneg fun x hx => ?_
    obtain ⟨m, hm, rfl⟩ := List.mem_map.mp hx
    exact (hmem m (by rw [hq]; exact List.mem_cons_of_mem _ hm)).le
  omega

/-- The total of a level that fits. -/
lemma OpenSide.runningFits_level (h : OpenSide side) {e : Price × List Node}
    (he : e ∈ side.entries) : RunningFits 32 (levelAddends e.2) ↔ levelTotal e.2 ≤ maxInt := by
  rw [runningFits_iff (h.nonneg he), levelTotal, maxInt]
  omega

/-- Every level is reported with its exact total. -/
def ReportsExact (side : BookSide r) : Prop :=
  levels side = side.entries.map fun e => ⟨e.1, levelTotal e.2⟩

/-- The total of every level is an `int`. -/
def LevelTotalsFit (side : BookSide r) : Prop := ∀ e ∈ side.entries, levelTotal e.2 ≤ maxInt

instance (side : BookSide r) : Decidable (LevelTotalsFit side) := List.decidableBAll _ _

lemma OpenSide.levels_eq (h : OpenSide side) (hl : side.Leveled Node.price)
    (hfits : LevelTotalsFit side) : ReportsExact side := by
  rw [ReportsExact, levels, ← List.filterMap_eq_map]
  refine List.filterMap_congr fun e he => ?_
  have hrunning := (h.runningFits_level he).mpr (hfits e he)
  rw [wrapSum_of_fits (hrunning _ List.prefix_rfl)]
  exact if_pos (h.levelTotal_pos hl he)

/-- Which levels `getBids` and `getAsks` return. -/
lemma mem_levels [IsStrictTotalOrder Price r] {price : Price} {qty : ℤ} :
    ⟨price, qty⟩ ∈ levels side ↔
      0 < qty ∧ wrapSum 32 (levelAddends (side.findD price [])) = qty := by
  rw [levels, List.mem_filterMap]
  constructor
  · rintro ⟨⟨p, level⟩, hmem, hlevel⟩
    split_ifs at hlevel with hpos
    obtain ⟨rfl, rfl⟩ := BookLevel.mk.inj (Option.some.inj hlevel)
    rw [SortedMap.findD, SortedMap.find?_eq_some_iff.mpr hmem]
    exact ⟨hpos, rfl⟩
  · rintro ⟨hpos, rfl⟩
    cases hfind : side.find? price with
    | none =>
      rw [SortedMap.findD, hfind] at hpos
      exact absurd hpos (by simp [levelAddends, wrapSum])
    | some level =>
      have hlevel : side.findD price [] = level := by
        rw [SortedMap.findD, hfind]
        rfl
      rw [hlevel] at hpos ⊢
      exact ⟨(price, level), SortedMap.find?_eq_some_iff.mp hfind, if_pos hpos⟩

/-- The levels that `getBids` and `getAsks` return are the exact totals, price by price. -/
def LevelsExact [DecidableRel r] (side : BookSide r) : Prop :=
  ∀ price qty, ⟨price, qty⟩ ∈ levels side ↔ 0 < qty ∧ levelTotal (side.findD price []) = qty

/-- **When the levels are exact**: when the total of each is an `int`. -/
theorem OpenSide.levelsExact_iff [IsStrictTotalOrder Price r] [DecidableRel r] (h : OpenSide side)
    (hl : side.Leveled Node.price) : LevelsExact side ↔ LevelTotalsFit side := by
  constructor
  · intro hexact e he
    have hlevel : side.findD e.1 [] = e.2 := by
      rw [SortedMap.findD, SortedMap.find?_eq_some_iff.mpr he]
      rfl
    have hmem := (hexact e.1 (levelTotal e.2)).mpr ⟨h.levelTotal_pos hl he, by rw [hlevel]⟩
    obtain ⟨-, hwrap⟩ := mem_levels.mp hmem
    rw [hlevel] at hwrap
    have hlt := (fits_wrapSum (w := 32) (by decide) (levelAddends e.2)).2
    rw [hwrap] at hlt
    rw [maxInt]
    omega
  · intro hfits price qty
    have hwrap : wrapSum 32 (levelAddends (side.findD price []))
        = levelTotal (side.findD price []) := by
      cases hfind : side.find? price with
      | none =>
        rw [SortedMap.findD, hfind]
        rfl
      | some level =>
        have he := SortedMap.find?_eq_some_iff.mp hfind
        rw [SortedMap.findD, hfind]
        exact wrapSum_of_fits ((h.runningFits_level he).mpr (hfits _ he) _ List.prefix_rfl)
    rw [mem_levels, hwrap]

/-- A side that fits is reported. -/
lemma OpenSide.levelsFit (h : OpenSide side) (hl : side.Leveled Node.price)
    (hfits : sideTotal side ≤ maxInt) : LevelsFit side :=
  have hle : LevelTotalsFit side := fun _ he => (h.level_le he).trans hfits
  ⟨fun e he => (h.runningFits_level he).mpr (hle e he), h.levels_eq hl hle⟩

lemma openSides (h : ∀ n ∈ b.nodes, 0 < n.order.leavesQty) : OpenSide b.bids ∧ OpenSide b.asks :=
  ⟨fun n hn => h n (mem_nodes.mpr (Or.inl hn)), fun n hn => h n (mem_nodes.mpr (Or.inr hn))⟩

/-- A market order reaches the whole opposite side. -/
lemma addends_market (ht : o.type = '1') :
    b.addends o = if o.side = '1' then b.asks.entries.flatMap fun kv => levelAddends kv.2
      else b.bids.entries.flatMap fun kv => levelAddends kv.2 := by
  have hall : ∀ l : List (Price × List Node), l.takeWhile (fun _ => true) = l :=
    fun l => List.takeWhile_eq_self_iff.mpr fun _ _ => rfl
  rw [addends, ht]
  simp [hall]

/-- **When the totals fit**: on a book whose orders are all open, exactly when the open quantity
of each side is an `int`. -/
theorem totals_fit_iff (h : b.Wf) (hopen : ∀ n ∈ b.nodes, 0 < n.order.leavesQty) :
    b.TotalsFit ↔ sideTotal b.bids ≤ maxInt ∧ sideTotal b.asks ≤ maxInt := by
  obtain ⟨hbids, hasks⟩ := openSides hopen
  constructor
  · intro hfit
    -- a market order of either side adds up all of the other
    set buy : Order := ⟨"", "", "", "", '1', '1', 0, 0, 0, '0'⟩ with hbuy
    set sell : Order := ⟨"", "", "", "", '2', '1', 0, 0, 0, '0'⟩ with hsell
    have hall := hfit.running sell _ List.prefix_rfl
    have hall' := hfit.running buy _ List.prefix_rfl
    rw [addends_market rfl, if_neg (by decide), sum_flatMap_levelAddends] at hall
    rw [addends_market rfl, if_pos rfl, sum_flatMap_levelAddends] at hall'
    have h1 := hall.2
    have h2 := hall'.2
    rw [sideTotal, sideTotal, maxInt]
    omega
  · rintro ⟨h1, h2⟩
    have hrunning : ∀ o, RunningFits 32 (b.addends o) := by
      intro o
      by_cases hs : o.side = '1'
      · rw [addends, if_pos hs]
        exact hasks.runningFits h2 (List.takeWhile_prefix _)
      · rw [addends, if_neg hs]
        exact hbids.runningFits h1 (List.takeWhile_prefix _)
    have havailable : ∀ o, b.availableToFill o = b.availableExact o := by
      intro o
      exact wrapSum_of_fits (hrunning o _ List.prefix_rfl)
    refine ⟨hrunning, havailable, fun o ht hle => ?_, hbids.levelsFit h.bids_leveled h1,
      hasks.levelsFit h.asks_leveled h2⟩
    rw [havailable, availableExact_eq h ht]
    exact not_lt.mpr hle

end

end OrderBook

end FixExchange
