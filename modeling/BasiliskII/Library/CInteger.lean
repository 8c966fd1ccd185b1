import Mathlib.Data.BitVec
import Mathlib.Data.Int.Basic

/-!
# Signed division in C

Two's complement division truncates towards zero. Besides division by zero the
quotient of the most negative value by -1 is undefined, in `%` as in `/`.
-/
namespace CInteger

variable {w : Nat}

def Undefined (a b : BitVec w) : Prop := b = 0#w ∨ a = BitVec.intMin w ∧ b = -1#w

instance (a b : BitVec w) : Decidable (Undefined a b) :=
  inferInstanceAs (Decidable (_ ∨ _))

/-- `a / b` and `a % b`; `none` where the program has no meaning. -/
def divide (a b : BitVec w) : Option (BitVec w × BitVec w) :=
  if Undefined a b then none else some (a.sdiv b, a.srem b)

theorem divide_eq_none_iff (a b : BitVec w) : divide a b = none ↔ Undefined a b := by
  simp [divide]

/-- A defined division is the one of the integers. -/
theorem divide_toInt {a b quot rem : BitVec w} (defined : divide a b = some (quot, rem)) :
    quot.toInt = a.toInt.tdiv b.toInt ∧ rem.toInt = a.toInt.tmod b.toInt := by
  simp only [divide] at defined
  split at defined
  · contradiction
  next meaning =>
    obtain ⟨rfl, rfl⟩ := Prod.mk.inj (Option.some.inj defined)
    constructor
    · apply BitVec.toInt_sdiv_of_ne_or_ne
      by_cases lowest : a = BitVec.intMin w
      · exact .inr fun minus_one => meaning (.inr ⟨lowest, minus_one⟩)
      · exact .inl lowest
    · exact BitVec.toInt_srem a b

theorem divide_total {a b : BitVec w} (meaning : ¬ Undefined a b) :
    divide a b = some (a.sdiv b, a.srem b) :=
  if_neg meaning

end CInteger
