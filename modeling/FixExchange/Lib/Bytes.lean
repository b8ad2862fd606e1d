/-
# Numbers in bytes

Numbers that are stored in a fixed number of bytes, least significant byte first, and signed
numbers in two's complement: what fits is read as it was written.
-/
import FixExchange.Lib.WrapSum

namespace Bytes

/-- The lowest `k` bytes of a number. -/
def ofNat : ℕ → ℕ → List UInt8
  | 0, _ => []
  | k + 1, x => UInt8.ofNat x :: ofNat k (x / 256)

/-- The number in some bytes. -/
def toNat : List UInt8 → ℕ
  | [] => 0
  | b :: bs => b.toNat + 256 * toNat bs

/-- The two's complement of a number in `w` bits. -/
def twos (w : ℕ) (x : ℤ) : ℕ := (x % 2 ^ w).toNat

/-- The signed number with a two's complement in `w` bits. -/
def signed (w n : ℕ) : ℤ := (n : ℤ).bmod (2 ^ w)

/-- The `len` bytes from the position `off` on. -/
def slice (bs : List UInt8) (off len : ℕ) : List UInt8 := (bs.drop off).take len

variable {w k x : ℕ} {i : ℤ} {a b : List UInt8}

@[simp] lemma length_ofNat (k x : ℕ) : (ofNat k x).length = k := by
  induction k generalizing x with
  | zero => rfl
  | succ k ih => rw [ofNat, List.length_cons, ih]

/-- **Unsigned numbers** are read as they were written. -/
lemma toNat_ofNat (h : x < 256 ^ k) : toNat (ofNat k x) = x := by
  induction k generalizing x with
  | zero =>
    have hzero : x = 0 := by simpa using h
    rw [hzero]
    rfl
  | succ k ih =>
    have hhigh : x / 256 < 256 ^ k := by
      rw [pow_succ] at h
      omega
    rw [ofNat, toNat, ih hhigh, UInt8.toNat_ofNat']
    omega

lemma twos_lt (w : ℕ) (i : ℤ) : twos w i < 2 ^ w := by
  have hpow : (0 : ℤ) < 2 ^ w := by positivity
  have hlt := Int.emod_lt_of_pos i hpow
  rw [twos, Int.toNat_lt (Int.emod_nonneg i hpow.ne')]
  exact_mod_cast hlt

/-- **Signed numbers** are read as they were written. -/
lemma signed_twos (h : WrapSum.Fits w i) : signed w (twos w i) = i := by
  have hpow : (0 : ℤ) < 2 ^ w := by positivity
  rw [signed, twos, Int.toNat_of_nonneg (Int.emod_nonneg i hpow.ne')]
  have hbmod := Int.emod_bmod (x := i) (n := 2 ^ w)
  push_cast at hbmod
  rw [hbmod, h.bmod_eq]

lemma slice_append_right (h : a.length ≤ k) (len : ℕ) :
    slice (a ++ b) k len = slice b (k - a.length) len := by
  rw [slice, slice, List.drop_append, List.drop_of_length_le h, List.nil_append]

lemma slice_append_left (h : a.length = k) : slice (a ++ b) 0 k = a := by
  rw [slice, List.drop_zero, List.take_left' h]

lemma slice_all (h : a.length = k) : slice a 0 k = a := by
  rw [slice, List.drop_zero, List.take_of_length_le h.le]

end Bytes
