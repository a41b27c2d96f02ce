import Mathlib.Algebra.Ring.Int.Defs
import Mathlib.Algebra.Ring.Nat
import Mathlib.Data.Int.Basic
import Mathlib.Data.Int.ModEq
import Mathlib.Order.Defs.LinearOrder

/-!
# 64-bit words and the integers they stand for

`signed64` and `unsigned64` reduce an integer to what a signed and an unsigned 64-bit word
hold. Each lemma reads one operation on `Int64` or `UInt64` back over the integers.
-/

namespace Word64

/-- What a signed 64-bit word holds of `x`. -/
def signed64 (x : ℤ) : ℤ := x.bmod (2 ^ 64)

/-- What an unsigned 64-bit word holds of `x`. -/
def unsigned64 (x : ℤ) : ℤ := x % 2 ^ 64

/-- A number in the range of a signed word is not reduced. -/
theorem signed64_of_lt {x : ℤ} (hl : -2 ^ 63 ≤ x) (hu : x < 2 ^ 63) : signed64 x = x := by
  unfold signed64
  rw [Int.bmod_def]
  split <;> omega

/-- A number in the range of an unsigned word is not reduced. -/
theorem unsigned64_of_lt {x : ℤ} (hl : 0 ≤ x) (hu : x < 2 ^ 64) : unsigned64 x = x := by
  unfold unsigned64
  omega

/-- A second reduction changes nothing. -/
theorem unsigned64_unsigned64 (x : ℤ) : unsigned64 (unsigned64 x) = unsigned64 x := by
  unfold unsigned64
  omega

/-- Words add up to the word of the sum. -/
theorem unsigned64_add {x x' y y' : ℤ} (hx : unsigned64 x = unsigned64 x')
    (hy : unsigned64 y = unsigned64 y') : unsigned64 (x + y) = unsigned64 (x' + y') :=
  Int.ModEq.add hx hy

/-- Nor does it matter that the number went through a signed word. -/
theorem unsigned64_signed64 (x : ℤ) : unsigned64 (signed64 x) = unsigned64 x := by
  unfold unsigned64 signed64
  rw [Int.bmod_def]
  split <;> omega

/-- A signed word holds `x` itself. -/
def Fits (x : ℤ) : Prop := -2 ^ 63 ≤ x ∧ x < 2 ^ 63

/-- Of two signed numbers taken as unsigned ones the smaller is the smaller of the two, but a
negative number counts for more than one that is not. -/
theorem unsigned64_min {x y : ℤ} (hx : Fits x) (hy : Fits y) :
    unsigned64 (min (unsigned64 x) (unsigned64 y)) =
      unsigned64 (if x < 0 ↔ 0 ≤ y then max x y else min x y) := by
  unfold Fits at hx hy
  unfold unsigned64
  by_cases hone : x < 0 ↔ 0 ≤ y
  · rw [if_pos hone]
    omega
  · rw [if_neg hone]
    omega

theorem toInt_lt (x : Int64) : x.toInt < 2 ^ 63 := Int64.toInt_lt x

theorem le_toInt (x : Int64) : -2 ^ 63 ≤ x.toInt := Int64.le_toInt x

/-- A signed word is in the range of signed words. -/
theorem fits_toInt (x : Int64) : Fits x.toInt := ⟨le_toInt x, toInt_lt x⟩

/-- A cast to an unsigned word. -/
theorem toNat_toUInt64 (x : Int64) : (x.toUInt64.toNat : ℤ) = unsigned64 x.toInt := by
  have hx : x.toInt = signed64 x.toUInt64.toNat := by
    rw [← Int64.toNat_toBitVec, ← Int64.toInt_toBitVec, BitVec.toInt_eq_toNat_bmod]
    rfl
  have hlt := x.toUInt64.toNat_lt
  rw [hx, unsigned64_signed64, unsigned64_of_lt] <;> omega

theorem toInt_sub (x y : Int64) : (x - y).toInt = signed64 (x.toInt - y.toInt) :=
  Int64.toInt_sub x y

theorem toNat_add (x y : UInt64) : ((x + y).toNat : ℤ) = unsigned64 (x.toNat + y.toNat) := by
  rw [UInt64.toNat_add]
  unfold unsigned64
  omega

theorem toNat_sub (x y : UInt64) : ((x - y).toNat : ℤ) = unsigned64 (x.toNat - y.toNat) := by
  have hx := x.toNat_lt
  have hy := y.toNat_lt
  rw [UInt64.toNat_sub]
  unfold unsigned64
  omega

theorem toInt_max (x y : Int64) : (max x y).toInt = max x.toInt y.toInt := by
  have hmax : max x y = if x ≤ y then y else x := rfl
  rw [hmax]
  by_cases hle : x ≤ y
  · rw [if_pos hle]
    rw [Int64.le_iff_toInt_le] at hle
    omega
  · rw [if_neg hle]
    rw [Int64.le_iff_toInt_le] at hle
    omega

theorem toNat_min (x y : UInt64) : (min x y).toNat = min x.toNat y.toNat := by
  have hmin : min x y = if x ≤ y then x else y := rfl
  rw [hmin]
  by_cases hle : x ≤ y
  · rw [if_pos hle]
    rw [UInt64.le_iff_toNat_le] at hle
    omega
  · rw [if_neg hle]
    rw [UInt64.le_iff_toNat_le] at hle
    omega

/-- Division of a word by a positive word rounds towards zero. -/
theorem toInt_div (x y : Int64) (hy : 0 < y.toInt) : (x / y).toInt = x.toInt.tdiv y.toInt := by
  apply Int64.toInt_div_of_ne_right
  rintro rfl
  exact absurd hy (by decide)

end Word64
