import Mathlib.Tactic.Ring

/-!
# Rounding to a number of binary digits

Exact numbers are integers, counted in the smallest unit there is. A number that is rounded has at
most `digits` binary digits, and the last of them is no finer than that of a number of `least`
digits.
-/
namespace BinaryRounding

inductive RoundingMode
  | nearestEven | down | up | toZero
  deriving DecidableEq, Repr

/-- `x / unit`, rounded. -/
def quotient (mode : RoundingMode) (x : Int) (unit : Nat) : Int :=
  let q := x / unit
  let rest := x % unit
  match mode with
  | .nearestEven => if 2 * rest < unit ∨ 2 * rest = unit ∧ q % 2 = 0 then q else q + 1
  | .down => q
  | .up => if rest = 0 then q else q + 1
  | .toZero => if rest = 0 ∨ 0 ≤ x then q else q + 1

/-- What the last digit of a number around `x` counts. -/
def lastDigit (digits least : Nat) (x : Int) : Nat :=
  2 ^ (max (x.natAbs.log2 + 1) least - digits)

def round (mode : RoundingMode) (digits least : Nat) (x : Int) : Int :=
  quotient mode x (lastDigit digits least x) * lastDigit digits least x

/-- A number out of range becomes infinite and not the largest one. -/
def RoundingMode.away (mode : RoundingMode) (negative : Bool) : Bool :=
  match mode with
  | .nearestEven => true
  | .down => negative
  | .up => !negative
  | .toZero => false

variable (mode : RoundingMode) (x : Int)

theorem lastDigit_pos (digits least : Nat) : 0 < lastDigit digits least x :=
  Nat.pow_pos (by decide)

theorem quotient_bounds (unit : Nat) : x / unit ≤ quotient mode x unit ∧
    quotient mode x unit ≤ x / unit + 1 := by
  cases mode with
  | down =>
    dsimp only [quotient]
    omega
  | nearestEven | up | toZero =>
    dsimp only [quotient]
    split <;> omega

theorem quotient_of_dvd {unit : Nat} (some_unit : 0 < unit) (multiple : x % unit = 0) :
    quotient mode x unit = x / unit := by
  cases mode with
  | down => rfl
  | nearestEven =>
    dsimp only [quotient]
    rw [multiple, if_pos (.inl (by omega))]
  | up =>
    dsimp only [quotient]
    rw [if_pos multiple]
  | toZero =>
    dsimp only [quotient]
    rw [if_pos (.inl multiple)]

/-- The sign stays, or the number becomes zero. -/
theorem round_nonneg (digits least : Nat) (nonneg : 0 ≤ x) : 0 ≤ round mode digits least x := by
  have low := (quotient_bounds mode x (lastDigit digits least x)).1
  have floor : 0 ≤ x / lastDigit digits least x := Int.ediv_nonneg nonneg (Int.natCast_nonneg _)
  exact Int.mul_nonneg (Int.le_trans floor low) (Int.natCast_nonneg _)

theorem quotient_nonpos {unit : Nat} (some_unit : 0 < unit) (nonpos : x ≤ 0) :
    quotient mode x unit ≤ 0 := by
  have parts := Int.emod_add_mul_ediv x unit
  have rest_nonneg : 0 ≤ x % unit := Int.emod_nonneg x (by omega)
  by_cases multiple : x % unit = 0
  · rw [quotient_of_dvd mode x some_unit multiple]
    exact Int.ediv_nonpos_of_nonpos_of_neg nonpos (by omega)
  · have high := (quotient_bounds mode x unit).2
    have floor : x / unit < 0 := by
      by_contra not_negative
      have product : 0 ≤ (unit : Int) * (x / unit) :=
        Int.mul_nonneg (Int.natCast_nonneg _) (Int.not_lt.mp not_negative)
      omega
    omega

theorem round_nonpos (digits least : Nat) (nonpos : x ≤ 0) : round mode digits least x ≤ 0 :=
  Int.mul_nonpos_of_nonpos_of_nonneg (quotient_nonpos mode x (lastDigit_pos x digits least) nonpos)
    (Int.natCast_nonneg _)

end BinaryRounding
