/-
# Points at a distance

Times that must be strictly increasing can be spread out: each of them is moved to a fixed step
after the one before where it would come too early (`spread`).  The result is strictly increasing
(`spread_increasing`), and each point is at its time or at the step after the one before
(`placed_spread`).  Where the times are off by a constant only the second possibility is left
(`placed_shift`).
-/
import Mathlib.Tactic

namespace Spaced

variable {K : Type*} [Field K] [LinearOrder K] {step last q e d : K} {ts es live : List K}

/-- Each time is moved to a step after the one before, where it comes earlier. -/
def spread (step : K) : K → List K → List K
  | _, [] => []
  | last, t :: ts => max t (last + step) :: spread step (max t (last + step)) ts

/-- Each point is at its time, or a step after the point before it. -/
def Placed (step : K) : Option K → List K → List K → Prop
  | _, [], ps => ps = []
  | _, _ :: _, [] => False
  | prev, t :: ts, p :: ps =>
    (p = t ∨ ∃ q ∈ prev, p = q + step) ∧ Placed step (some p) ts ps

@[simp] lemma spread_nil (step last : K) : spread step last [] = [] := rfl

@[simp] lemma spread_cons (step last e : K) (es : List K) :
    spread step last (e :: es) =
      max e (last + step) :: spread step (max e (last + step)) es := rfl

omit [LinearOrder K] in
@[simp] lemma placed_nil {prev : Option K} : Placed step prev [] [] := rfl

omit [LinearOrder K] in
@[simp] lemma placed_cons {prev : Option K} {p : K} {ps : List K} :
    Placed step prev (e :: es) (p :: ps) ↔
      (p = e ∨ ∃ q ∈ prev, p = q + step) ∧ Placed step (some p) es ps := Iff.rfl

/-- Spreading the points one by one. -/
lemma spread_snoc (step last e : K) (es : List K) :
    spread step last (es ++ [e]) = spread step last es ++
      [max e (((spread step last es).getLast?.getD last) + step)] := by
  induction es generalizing last with
  | nil => rfl
  | cons e' es ih =>
    rw [List.cons_append, spread_cons, spread_cons, ih, List.cons_append]
    cases hs : spread step (max e' (last + step)) es with
    | nil => rfl
    | cons p ps => simp [List.getLast?_cons]

section Ordered

variable [IsStrictOrderedRing K]

/-- **The points are strictly increasing.** -/
theorem spread_increasing (hstep : 0 < step) (last : K) (ts : List K) :
    (last :: spread step last ts).Pairwise (· < ·) := by
  induction ts generalizing last with
  | nil => simp
  | cons t ts ih =>
    have hlast : last < max t (last + step) :=
      lt_of_lt_of_le (lt_add_of_pos_right last hstep) (le_max_right _ _)
    have hrest := ih (max t (last + step))
    refine List.pairwise_cons.mpr ⟨fun p hp => ?_, hrest⟩
    rcases List.mem_cons.mp hp with rfl | hp
    · exact hlast
    · exact hlast.trans ((List.pairwise_cons.mp hrest).1 p hp)

end Ordered

/-- **Each point is at its time, or a step after the one before it.** -/
theorem placed_spread (step q : K) (ts : List K) : Placed step (some q) ts (spread step q ts) := by
  induction ts generalizing q with
  | nil => rfl
  | cons t ts ih =>
    refine ⟨?_, ih _⟩
    rcases max_choice t (q + step) with hmax | hmax
    · exact Or.inl hmax
    · exact Or.inr ⟨q, rfl, hmax⟩

/-- The first point is a step after the start, or later. -/
lemma le_of_placed (h : Placed step none (e :: es) (spread step last ts)) : last + step ≤ e := by
  cases ts with
  | nil => exact h.elim
  | cons t ts =>
    obtain ⟨hhead | ⟨q, hq, -⟩, -⟩ := h
    · rw [← hhead]
      exact le_max_right _ _
    · exact absurd hq (by simp)

variable [IsStrictOrderedRing K]

/-- **Times that are off by a constant**: no point but one that has been moved is right. -/
theorem placed_shift (hd : d ≠ 0) :
    Placed step (some q) (ts ++ live) (spread step q (ts.map (fun t => t - d) ++ live)) ↔
      ∀ i (h : i < ts.length), ts[i] - d ≤ q + (i + 1 : ℕ) * step := by
  induction ts generalizing q with
  | nil => simp [placed_spread]
  | cons t ts ih =>
    rw [List.map_cons, List.cons_append, List.cons_append, spread_cons, placed_cons]
    by_cases ht : t - d ≤ q + step
    · -- the point has been moved
      rw [max_eq_right ht, ih]
      constructor
      · rintro ⟨-, hrest⟩ i hi
        cases i with
        | zero => simpa using ht
        | succ i =>
          have hi := hrest i (by simpa using hi)
          rw [List.getElem_cons_succ]
          push_cast at hi ⊢
          linarith
      · intro hall
        refine ⟨Or.inr ⟨q, rfl, rfl⟩, fun i hi => ?_⟩
        have hi := hall (i + 1) (by simpa using hi)
        rw [List.getElem_cons_succ] at hi
        push_cast at hi ⊢
        linarith
    · rw [max_eq_left (not_le.mp ht).le]
      refine iff_of_false ?_ fun hall => ht ?_
      · rintro ⟨hhead | ⟨q', hq', hhead⟩, -⟩
        · exact hd (by linarith)
        · obtain rfl := Option.some.inj hq'
          exact ht hhead.le
      · have hfirst := hall 0 (by simp)
        rw [List.getElem_cons_zero] at hfirst
        simpa using hfirst

/-- The first point of times that are off by a constant is right only where it is moved. -/
theorem placed_first (hd : d ≠ 0) :
    Placed step none (e :: (ts ++ live))
        (spread step last ((e - d) :: (ts.map (fun t => t - d) ++ live))) ↔
      0 < d ∧ e = last + step ∧ ∀ i (h : i < ts.length), ts[i] - d ≤ e + (i + 1 : ℕ) * step := by
  rw [spread_cons, placed_cons]
  constructor
  · rintro ⟨hhead | ⟨q, hq, -⟩, hrest⟩
    · have hmoved : e = last + step := by
        rcases max_choice (e - d) (last + step) with hmax | hmax
        · rw [hmax] at hhead
          exact absurd (by linarith) hd
        · rw [← hhead, hmax]
      have hle : e - d ≤ e := (le_max_left _ _).trans hhead.le
      have hpos : 0 < d := lt_of_le_of_ne (by linarith) (Ne.symm hd)
      rw [hhead] at hrest
      exact ⟨hpos, hmoved, (placed_shift hd).mp hrest⟩
    · exact absurd hq (by simp)
  · rintro ⟨hpos, hmoved, hrest⟩
    have hmax : max (e - d) (last + step) = e := by
      rw [← hmoved]
      exact max_eq_right (by linarith)
    rw [hmax]
    exact ⟨Or.inl rfl, (placed_shift hd).mpr hrest⟩

end Spaced
