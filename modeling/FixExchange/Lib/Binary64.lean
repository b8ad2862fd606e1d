/-
# Double precision

The numbers of IEEE 754 binary64, with round to nearest, ties to even.  The value of a finite one
is a rational number; an operation rounds the exact result to the nearest multiple of the unit in
the last place (`nearest`), and gives an infinity when that is beyond the largest finite number.
Rounding keeps the order (`nearest_mono`) and leaves the integers of at most 53 bits as they are
(`nearest_natCast`).  Zeros have no sign here.
-/
import Mathlib.Data.Int.Log
import Mathlib.Tactic

namespace Binary64

/-- A rational number rounded to an integer, ties to even. -/
def roundHalfEven (x : ℚ) : ℤ :=
  let d := x - ⌊x⌋
  if d < 1 / 2 then ⌊x⌋
  else if d > 1 / 2 then ⌊x⌋ + 1
  else if ⌊x⌋ % 2 = 0 then ⌊x⌋ else ⌊x⌋ + 1

/-- The exponent of the unit in the last place: 52 below that of the leading bit, and no smaller
than that of the subnormal numbers. -/
def ulpExponent (x : ℚ) : ℤ := max (Int.log 2 |x| - 52) (-1074)

/-- The nearest number of 53 bits, as if there were no largest one. -/
def nearest (x : ℚ) : ℚ := roundHalfEven (x / 2 ^ ulpExponent x) * 2 ^ ulpExponent x

section

variable {x y : ℚ}

lemma roundHalfEven_intCast (n : ℤ) : roundHalfEven (n : ℚ) = n := by
  simp [roundHalfEven]

lemma floor_le_roundHalfEven (x : ℚ) : ⌊x⌋ ≤ roundHalfEven x := by
  unfold roundHalfEven
  dsimp only
  split_ifs <;> omega

lemma roundHalfEven_le (x : ℚ) : roundHalfEven x ≤ ⌊x⌋ + 1 := by
  unfold roundHalfEven
  dsimp only
  split_ifs <;> omega

/-- Rounding to integers keeps the order. -/
lemma roundHalfEven_mono (h : x ≤ y) : roundHalfEven x ≤ roundHalfEven y := by
  rcases (Int.floor_le_floor h).lt_or_eq with hlt | heq
  · have hx := roundHalfEven_le x
    have hy := floor_le_roundHalfEven y
    omega
  · -- between two integers that follow each other, the fractions are compared
    have hfrac : x - ⌊x⌋ ≤ y - ⌊y⌋ := by
      rw [heq]
      linarith
    unfold roundHalfEven
    dsimp only
    rw [heq] at hfrac ⊢
    split_ifs <;> first | omega | (exfalso; linarith)

/-- An integer bounds what a number below it is rounded to. -/
lemma roundHalfEven_le_of_le {n : ℤ} (h : x ≤ n) : roundHalfEven x ≤ n := by
  rw [← roundHalfEven_intCast n]
  exact roundHalfEven_mono h

lemma le_roundHalfEven_of_le {n : ℤ} (h : n ≤ x) : n ≤ roundHalfEven x := by
  rw [← roundHalfEven_intCast n]
  exact roundHalfEven_mono h

lemma two_zpow_pos (e : ℤ) : (0 : ℚ) < 2 ^ e := by positivity

/-- A power of two is a multiple of a smaller one. -/
lemma exists_zpow_eq {d e : ℤ} (h : d ≤ e) : ∃ n : ℤ, (2 : ℚ) ^ e = n * 2 ^ d := by
  obtain ⟨k, hk⟩ := Int.eq_ofNat_of_zero_le (sub_nonneg.mpr h)
  refine ⟨2 ^ k, ?_⟩
  push_cast
  rw [← zpow_natCast, ← zpow_add₀ two_ne_zero, ← hk, sub_add_cancel]

/-- A power of two from the unit on bounds what a number below it is rounded to. -/
lemma nearest_le_zpow {e : ℤ} (he : ulpExponent x ≤ e) (h : x ≤ 2 ^ e) : nearest x ≤ 2 ^ e := by
  have hpow := two_zpow_pos (ulpExponent x)
  obtain ⟨n, hn⟩ := exists_zpow_eq he
  have hround : roundHalfEven (x / 2 ^ ulpExponent x) ≤ n :=
    roundHalfEven_le_of_le ((div_le_iff₀ hpow).mpr (hn ▸ h))
  rw [nearest, hn]
  exact mul_le_mul_of_nonneg_right (by exact_mod_cast hround) hpow.le

lemma zpow_le_nearest {e : ℤ} (he : ulpExponent x ≤ e) (h : 2 ^ e ≤ x) : 2 ^ e ≤ nearest x := by
  have hpow := two_zpow_pos (ulpExponent x)
  obtain ⟨n, hn⟩ := exists_zpow_eq he
  have hround : n ≤ roundHalfEven (x / 2 ^ ulpExponent x) :=
    le_roundHalfEven_of_le ((le_div_iff₀ hpow).mpr (hn ▸ h))
  rw [nearest, hn]
  exact mul_le_mul_of_nonneg_right (by exact_mod_cast hround) hpow.le

@[simp] lemma nearest_zero : nearest 0 = 0 := by simp [nearest, roundHalfEven]

lemma nearest_nonneg (h : 0 ≤ x) : 0 ≤ nearest x := by
  have hround : 0 ≤ roundHalfEven (x / 2 ^ ulpExponent x) :=
    le_roundHalfEven_of_le (by rw [Int.cast_zero]; positivity)
  rw [nearest]
  have hpow := two_zpow_pos (ulpExponent x)
  have hcast : (0 : ℚ) ≤ roundHalfEven (x / 2 ^ ulpExponent x) := by exact_mod_cast hround
  positivity

/-- **Rounding keeps the order.** -/
theorem nearest_mono (hx : 0 ≤ x) (h : x ≤ y) : nearest x ≤ nearest y := by
  rcases hx.lt_or_eq with hx | rfl
  · have hy := hx.trans_le h
    have hlog : Int.log 2 x ≤ Int.log 2 y := Int.log_mono_right hx h
    have hulp : ulpExponent x ≤ ulpExponent y := by
      rw [ulpExponent, ulpExponent, abs_of_pos hx, abs_of_pos hy]
      omega
    rcases hulp.lt_or_eq with hlt | heq
    · -- the leading bit of `y` is a power of two between the two numbers
      rw [ulpExponent, ulpExponent, abs_of_pos hx, abs_of_pos hy] at hlt
      have hbetween : x ≤ 2 ^ Int.log 2 y := by
        have hup : x < 2 ^ (Int.log 2 x + 1) := by
          exact_mod_cast Int.lt_zpow_succ_log_self (R := ℚ) (b := 2) one_lt_two x
        refine hup.le.trans (zpow_le_zpow_right₀ one_le_two ?_)
        omega
      have hbelow : (2 : ℚ) ^ Int.log 2 y ≤ y := by
        exact_mod_cast Int.zpow_log_le_self (R := ℚ) (b := 2) one_lt_two hy
      refine (nearest_le_zpow ?_ hbetween).trans (zpow_le_nearest ?_ hbelow)
      · rw [ulpExponent, abs_of_pos hx]
        omega
      · rw [ulpExponent, abs_of_pos hy]
        omega
    · have hpow := two_zpow_pos (ulpExponent y)
      rw [nearest, nearest, heq]
      refine mul_le_mul_of_nonneg_right ?_ hpow.le
      exact_mod_cast roundHalfEven_mono (div_le_div_of_nonneg_right h hpow.le)
  · rw [nearest_zero]
    exact nearest_nonneg h

/-- An integer of at most 53 bits stays as it is. -/
theorem nearest_natCast {n : ℕ} (hn : n < 2 ^ 53) : nearest n = n := by
  have hulp : ulpExponent (n : ℚ) ≤ 0 := by
    rw [ulpExponent, Nat.abs_cast]
    have hlog : Int.log 2 (n : ℚ) < 53 := by
      rw [Int.log_natCast]
      rcases Nat.eq_zero_or_pos n with rfl | hpos
      · simp
      · exact_mod_cast Nat.log_lt_of_lt_pow hpos.ne' hn
    omega
  obtain ⟨k, hk⟩ := exists_zpow_eq hulp
  have hpow := two_zpow_pos (ulpExponent (n : ℚ))
  have heq : (n : ℚ) / 2 ^ ulpExponent (n : ℚ) = ((n * k : ℤ) : ℚ) := by
    rw [div_eq_iff hpow.ne', Int.cast_mul, mul_assoc, ← hk, zpow_zero, mul_one, Int.cast_natCast]
  rw [nearest, heq, roundHalfEven_intCast, ← heq, div_mul_cancel₀ _ hpow.ne']

/-- Rounding has no preferred sign. -/
lemma roundHalfEven_neg (x : ℚ) : roundHalfEven (-x) = -roundHalfEven x := by
  by_cases hx : x = ⌊x⌋
  · rw [hx, ← Int.cast_neg, roundHalfEven_intCast, roundHalfEven_intCast]
  · have hlt : (⌊x⌋ : ℚ) < x := lt_of_le_of_ne (Int.floor_le x) (Ne.symm hx)
    have hup := Int.lt_floor_add_one x
    have hfloor : ⌊-x⌋ = -⌊x⌋ - 1 := by
      rw [Int.floor_eq_iff]
      push_cast
      exact ⟨by linarith, by linarith⟩
    unfold roundHalfEven
    dsimp only
    rw [hfloor]
    push_cast
    -- the fraction of the one is what the fraction of the other lacks
    split_ifs <;> first | omega | (exfalso; linarith)

@[simp] lemma nearest_neg (x : ℚ) : nearest (-x) = -nearest x := by
  have hulp : ulpExponent (-x) = ulpExponent x := by rw [ulpExponent, ulpExponent, abs_neg]
  rw [nearest, nearest, hulp, neg_div, roundHalfEven_neg, Int.cast_neg, neg_mul]

/-- Rounding keeps the order of all numbers. -/
theorem nearest_monotone : Monotone nearest := by
  intro x y h
  rcases le_total 0 x with hx | hx
  · exact nearest_mono hx h
  · have hneg : nearest x = -nearest (-x) := by rw [nearest_neg, neg_neg]
    rcases le_total 0 y with hy | hy
    · have h1 := nearest_nonneg (neg_nonneg.mpr hx)
      have h2 := nearest_nonneg hy
      linarith
    · have hmono := nearest_mono (neg_nonneg.mpr hy) (neg_le_neg h)
      rw [nearest_neg, nearest_neg] at hmono
      exact neg_le_neg_iff.mp hmono

end

end Binary64

/-- A binary64 number. -/
inductive Binary64
  | finite (value : ℚ)
  | infinite (negative : Bool)
  | nan
deriving DecidableEq, Repr

namespace Binary64

/-- The number that an exact result is rounded to. -/
def ofRat (x : ℚ) : Binary64 :=
  if |nearest x| < 2 ^ 1024 then .finite (nearest x) else .infinite (decide (x < 0))

/-- The product. -/
def mul : Binary64 → Binary64 → Binary64
  | .finite x, .finite y => ofRat (x * y)
  | .finite x, .infinite n | .infinite n, .finite x =>
    if x = 0 then .nan else .infinite (n != decide (x < 0))
  | .infinite m, .infinite n => .infinite (m != n)
  | .nan, _ | _, .nan => .nan

/-- The quotient; there is none by zero here. -/
def div : Binary64 → Binary64 → Binary64
  | .finite x, .finite y => if y = 0 then .nan else ofRat (x / y)
  | .finite _, .infinite _ => .finite 0
  | .infinite n, .finite y => if y = 0 then .nan else .infinite (n != decide (y < 0))
  | .infinite _, .infinite _ => .nan
  | .nan, _ | _, .nan => .nan

/-- The sum. -/
def add : Binary64 → Binary64 → Binary64
  | .finite x, .finite y => ofRat (x + y)
  | .finite _, .infinite n | .infinite n, .finite _ => .infinite n
  | .infinite m, .infinite n => if m = n then .infinite m else .nan
  | .nan, _ | _, .nan => .nan

/-- The number with the other sign. -/
def neg : Binary64 → Binary64
  | .finite x => .finite (-x)
  | .infinite n => .infinite !n
  | .nan => .nan

/-- The difference. -/
def sub (x y : Binary64) : Binary64 := x.add y.neg

/-- The comparison `x < y`, false of what is not a number. -/
def lt : Binary64 → Binary64 → Bool
  | .finite x, .finite y => decide (x < y)
  | .finite _, .infinite n => !n
  | .infinite n, .finite _ => n
  | .infinite m, .infinite n => m && !n
  | .nan, _ | _, .nan => false

end Binary64
