import BasiliskII.Library.SignedWidth
import Mathlib.Data.BitVec

/-!
# Intervals of machine words

The words met on the way from one bound up to the other, wrapping around at the
top. Read as signed or as unsigned numbers, they are those between the bounds
where the bounds are in order, and those outside the gap where they are not.
-/
namespace CyclicInterval

variable {w : Nat}

def Mem (lower upper v : BitVec w) : Prop := v - lower ≤ upper - lower

instance (lower upper v : BitVec w) : Decidable (Mem lower upper v) :=
  inferInstanceAs (Decidable (_ ≤ _))

/-- Between bounds in order, or not strictly between bounds out of order. -/
def Between (lower upper v : Int) : Prop :=
  if lower ≤ upper then lower ≤ v ∧ v ≤ upper else lower ≤ v ∨ v ≤ upper

/-- A way to read words as numbers: `2 ^ w` consecutive ones, in their order around the circle. -/
structure Reading (value : BitVec w → Int) (least : Int) : Prop where
  above : ∀ x, least ≤ value x
  below : ∀ x, value x < least + (2 ^ w : Nat)
  difference : ∀ x y, ((x - y).toNat : Int) = (value x - value y) % (2 ^ w : Nat)

theorem emod_difference {d m : Int} (above : -m < d) (below : d < m) :
    d % m = if 0 ≤ d then d else d + m := by
  split
  next positive => exact Int.emod_eq_of_lt positive below
  next negative =>
    rw [← Int.add_emod_right]
    exact Int.emod_eq_of_lt (by omega) (by omega)

theorem Reading.mem_iff {value : BitVec w → Int} {least : Int} (reading : Reading value least)
    (lower upper v : BitVec w) : Mem lower upper v ↔ Between (value lower) (value upper) (value v) := by
  have lower_above := reading.above lower
  have lower_below := reading.below lower
  have upper_above := reading.above upper
  have upper_below := reading.below upper
  have v_above := reading.above v
  have v_below := reading.below v
  have to_v := reading.difference v lower
  have to_upper := reading.difference upper lower
  rw [emod_difference (by omega) (by omega)] at to_v to_upper
  rw [Mem, BitVec.le_def, Between]
  split <;> split at to_v <;> split at to_upper <;> omega

theorem sub_toInt (x y : BitVec w) :
    ((x - y).toNat : Int) = (x.toInt - y.toInt) % (2 ^ w : Nat) := by
  have word := (x - y).isLt
  calc
    ((x - y).toNat : Int) = ((x - y).toNat : Int) % (2 ^ w : Nat) :=
      (Int.emod_eq_of_lt (by omega) (by omega)).symm
    _ = (x - y).toInt % (2 ^ w : Nat) := by
      rw [BitVec.toInt_eq_toNat_bmod, Int.bmod_emod]
    _ = (x.toInt - y.toInt) % (2 ^ w : Nat) := by
      rw [BitVec.toInt_sub, Int.bmod_emod]

theorem reading_toInt : Reading (w := w) BitVec.toInt (-((2 ^ w / 2 : Nat) : Int)) where
  above x := by
    have x_lt := x.isLt
    rw [BitVec.toInt_eq_toNat_cond]
    generalize 2 ^ w = size at *
    split <;> omega
  below x := by
    have x_lt := x.isLt
    rw [BitVec.toInt_eq_toNat_cond]
    generalize 2 ^ w = size at *
    split <;> omega
  difference := sub_toInt

theorem mem_iff_toInt (lower upper v : BitVec w) :
    Mem lower upper v ↔ Between lower.toInt upper.toInt v.toInt :=
  reading_toInt.mem_iff lower upper v

/-- Sign extension keeps words on their side of the bounds. -/
theorem mem_signExtend_iff {n : Nat} (wider : w ≤ n) (lower upper v : BitVec w) :
    Mem (lower.signExtend n) (upper.signExtend n) (v.signExtend n) ↔ Mem lower upper v := by
  rw [mem_iff_toInt, mem_iff_toInt, BitVec.toInt_signExtend_of_le wider,
    BitVec.toInt_signExtend_of_le wider, BitVec.toInt_signExtend_of_le wider]

end CyclicInterval
