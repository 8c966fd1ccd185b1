import Mathlib.Data.BitVec
import Mathlib.Data.Int.Basic

/-!
# Signed values of a width

The integers that words of `w` bits have as signed values. A number put into a
word keeps its value exactly when it is one of them, whether it comes from an
integer, from a wider word, or goes on to a wider word.
-/
namespace SignedWidth

variable {w n : Nat}

def Fits (w : Nat) (i : Int) : Prop := -2 ^ (w - 1) ≤ i ∧ i < 2 ^ (w - 1)

instance (w : Nat) (i : Int) : Decidable (Fits w i) := inferInstanceAs (Decidable (_ ∧ _))

theorem toInt_fits (x : BitVec w) : Fits w x.toInt := by
  have below := BitVec.le_toInt x
  have above := BitVec.toInt_lt (x := x)
  exact ⟨below, above⟩

theorem toInt_ofInt_iff (positive : 0 < w) (i : Int) : (BitVec.ofInt w i).toInt = i ↔ Fits w i := by
  constructor
  · intro same
    rw [← same]
    exact toInt_fits _
  · rintro ⟨below, above⟩
    exact BitVec.toInt_ofInt_eq_self positive below above

/-- Narrowing keeps the value where the narrow word has it. -/
theorem toInt_setWidth_iff (positive : 0 < w) (narrower : w ≤ n) (x : BitVec n) :
    (x.setWidth w).toInt = x.toInt ↔ Fits w x.toInt := by
  have narrowed : x.setWidth w = BitVec.ofInt w x.toInt := by
    apply BitVec.eq_of_toInt_eq
    rw [BitVec.toInt_ofInt, BitVec.toInt_eq_toNat_bmod x, BitVec.toInt_setWidth]
    exact (Int.bmod_bmod_of_dvd (Nat.pow_dvd_pow 2 narrower)).symm
  rw [narrowed, toInt_ofInt_iff positive]

/-- So does a number computed in the narrow word and widened. -/
theorem toInt_signExtend_ofInt_iff (positive : 0 < w) (wider : w ≤ n) (i : Int) :
    ((BitVec.ofInt w i).signExtend n).toInt = i ↔ Fits w i := by
  rw [BitVec.toInt_signExtend_of_le wider, toInt_ofInt_iff positive]

/-- A non-negative number below the sign bit is the same read signed and unsigned. -/
theorem toNat_eq_iff {x : BitVec w} {i : Int} (low : 0 ≤ i) (high : 2 * i < 2 ^ w) :
    (x.toNat : Int) = i ↔ x.toInt = i := by
  have size := x.isLt
  rw [BitVec.toInt_eq_toNat_cond]
  have power : ((2 ^ w : Nat) : Int) = 2 ^ w := by simp
  split <;> omega

end SignedWidth
