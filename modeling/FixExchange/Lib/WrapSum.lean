/-
# Sums in machine integers

A sum that is accumulated in a signed integer of `w` bits is the balanced residue of the exact
sum (`wrapSum_eq_bmod`).  It is the exact sum when that fits; the totals on the way may leave the
range, but where no addend is negative they do not unless the sum does (`runningFits_iff`).
-/
import Mathlib.Algebra.Order.BigOperators.Group.List
import Mathlib.Tactic

namespace WrapSum

/-- The number is a signed integer of `w` bits. -/
def Fits (w : ℕ) (x : ℤ) : Prop := -2 ^ w ≤ x * 2 ∧ x * 2 < 2 ^ w

/-- Every total on the way is a signed integer of `w` bits. -/
def RunningFits (w : ℕ) (l : List ℤ) : Prop := ∀ l', l' <+: l → Fits w l'.sum

instance (w : ℕ) (x : ℤ) : Decidable (Fits w x) := inferInstanceAs (Decidable (_ ∧ _))

instance (w : ℕ) (l : List ℤ) : Decidable (RunningFits w l) :=
  decidable_of_iff (∀ l' ∈ l.inits, Fits w l'.sum)
    (forall_congr' fun l' => by rw [List.mem_inits])

/-- The sum as it is accumulated in a signed integer of `w` bits, in two's complement. -/
def wrapSum (w : ℕ) (l : List ℤ) : ℤ := l.foldl (fun total x => (total + x).bmod (2 ^ w)) 0

variable {w : ℕ} {x : ℤ} {l l' : List ℤ}

lemma wrapSum_eq_bmod (w : ℕ) (l : List ℤ) : wrapSum w l = l.sum.bmod (2 ^ w) := by
  have hfold : ∀ (l : List ℤ) (t : ℤ), l.foldl (fun total x => (total + x).bmod (2 ^ w))
      (t.bmod (2 ^ w)) = (t + l.sum).bmod (2 ^ w) := by
    intro l
    induction l with
    | nil => intro t; simp
    | cons x l ih =>
      intro t
      rw [List.foldl_cons, Int.bmod_add_bmod, ih, List.sum_cons, add_assoc]
  have hzero := hfold l 0
  rw [Int.zero_bmod, zero_add] at hzero
  exact hzero

lemma Fits.bmod_eq (h : Fits w x) : x.bmod (2 ^ w) = x :=
  Int.bmod_eq_of_le_mul_two (by push_cast; exact h.1) (by push_cast; exact h.2)

lemma wrapSum_of_fits (h : Fits w l.sum) : wrapSum w l = l.sum := by
  rw [wrapSum_eq_bmod, h.bmod_eq]

/-- What is accumulated is a signed integer. -/
lemma fits_wrapSum (hw : 0 < w) (l : List ℤ) : Fits w (wrapSum w l) := by
  obtain ⟨k, rfl⟩ := Nat.exists_eq_succ_of_ne_zero hw.ne'
  have hpos : 0 < 2 ^ (k + 1) := by positivity
  have hle := Int.le_bmod (x := l.sum) hpos
  have hlt := Int.bmod_lt (x := l.sum) hpos
  rw [wrapSum_eq_bmod, Fits]
  push_cast [pow_succ] at *
  omega

/-- A sum that is not negative can only become smaller. -/
lemma wrapSum_le (w : ℕ) (h : 0 ≤ l.sum) : wrapSum w l ≤ l.sum := by
  have hpow : (0 : ℤ) ≤ (2 ^ w : ℕ) := by positivity
  have hmod : l.sum % (2 ^ w : ℕ) ≤ l.sum := by
    rw [Int.emod_def]
    have hnonneg := mul_nonneg hpow (Int.ediv_nonneg h hpow)
    omega
  rw [wrapSum_eq_bmod, Int.bmod_eq_emod]
  split_ifs <;> omega

lemma fits_of_nonneg (hx : 0 ≤ x) (h : x * 2 < 2 ^ w) : Fits w x := by
  have hpow : (0 : ℤ) < 2 ^ w := by positivity
  exact ⟨by omega, h⟩

/-- A prefix of a list of numbers that are not negative has no larger sum. -/
lemma sum_le_of_prefix (hl : ∀ x ∈ l, 0 ≤ x) (h : l' <+: l) : l'.sum ≤ l.sum := by
  obtain ⟨t, rfl⟩ := h
  rw [List.sum_append]
  have ht : 0 ≤ t.sum := List.sum_nonneg fun x hx => hl x (List.mem_append_right _ hx)
  omega

/-- Where no addend is negative, the totals fit when the sum does. -/
lemma runningFits_iff (hl : ∀ x ∈ l, 0 ≤ x) : RunningFits w l ↔ l.sum * 2 < 2 ^ w := by
  refine ⟨fun h => (h l List.prefix_rfl).2, fun h l' hl' => ?_⟩
  have hle := sum_le_of_prefix hl hl'
  refine fits_of_nonneg (List.sum_nonneg fun x hx => hl x (hl'.subset hx)) ?_
  omega

end WrapSum
