import Mathlib.Algebra.Group.Nat.Defs
import Mathlib.Data.Nat.Log

/-!
# Extended precision operands

`make_extended` and `extract_extended` of fpu_soft.cpp, which take an extended
precision number from its three longs in memory and put it there, and the
helpers of softfloat they use.
-/
namespace BasiliskII.Fpu

structure Floatx80 where
  high : BitVec 16
  low : BitVec 64
  deriving DecidableEq, Repr

def packFloatx80 (zSign : BitVec 8) (zExp : Int) (zSig : BitVec 64) : Floatx80 where
  low := zSig
  high := (zSign.setWidth 16 <<< 15) + BitVec.ofInt 16 zExp

def floatx80DefaultNanHigh : BitVec 16 := 0xffff

def floatx80DefaultNanLow : BitVec 64 := 0xffffffffffffffff

/-- The entry for a byte in the table of `countLeadingZeros32`. -/
def countLeadingZerosHigh (a : BitVec 32) : Nat := if a = 0 then 8 else 7 - a.toNat.log2

def countLeadingZeros32 (a : BitVec 32) : Nat :=
  let (shiftCount, a) := if a < 0x10000 then (16, a <<< 16) else (0, a)
  let (shiftCount, a) := if a < 0x1000000 then (shiftCount + 8, a <<< 8) else (shiftCount, a)
  shiftCount + countLeadingZerosHigh (a >>> 24)

def countLeadingZeros64 (a : BitVec 64) : Nat :=
  if a < 1 <<< 32 then 32 + countLeadingZeros32 (a.setWidth 32)
  else countLeadingZeros32 ((a >>> 32).setWidth 32)

def makeExtended (wrd1 wrd2 wrd3 : BitVec 32) : Floatx80 :=
  if wrd1 &&& 0x7fff0000 = 0 ∧ wrd2 = 0 ∧ wrd3 = 0 then packFloatx80 0 0 0
  else if wrd1 &&& 0x7fff0000 = 0x7fff0000 ∧ (wrd2 ≠ 0 ∨ wrd3 ≠ 0) then
    packFloatx80 ((floatx80DefaultNanHigh >>> 15).setWidth 8)
      (floatx80DefaultNanHigh &&& 0x7fff).toNat floatx80DefaultNanLow
  else
    -- normalize
    let zSign := (wrd1 >>> 16 >>> 15).setWidth 8
    let zExp : Int := (wrd1 >>> 16 &&& 0x7fff).toNat
    let zSig0 := wrd2.setWidth 64 <<< 32 ||| wrd3.setWidth 64
    let shiftCount := countLeadingZeros64 zSig0
    if shiftCount ≠ 0 then packFloatx80 zSign (zExp - shiftCount) (zSig0 <<< shiftCount)
    else packFloatx80 zSign zExp zSig0

def extractExtended (src : Floatx80) : BitVec 32 × BitVec 32 × BitVec 32 :=
  if src.high &&& 0x7fff = 0 ∧ src.low = 0 then (0, 0, 0)
  else (src.high.setWidth 32 <<< 16, (src.low >>> 32).setWidth 32, src.low.setWidth 32)

def defaultNan : Floatx80 := ⟨floatx80DefaultNanHigh, floatx80DefaultNanLow⟩

/-- Positive zero, the default NaN, and what has the integer bit set and is neither infinite nor
a NaN. -/
def Exact (src : Floatx80) : Prop :=
  src = ⟨0, 0⟩ ∨ src = defaultNan ∨ src.high &&& 0x7fff ≠ 0x7fff ∧ src.low.msb = true

instance (src : Floatx80) : Decidable (Exact src) := inferInstanceAs (Decidable (_ ∨ _ ∨ _ ∧ _))

/-- The number read back from where `src` has been stored. -/
def reload (src : Floatx80) : Floatx80 :=
  let (wrd1, wrd2, wrd3) := extractExtended src
  makeExtended wrd1 wrd2 wrd3

theorem countLeadingZerosHigh_eq_zero_iff {a : BitVec 32} (byte : a.toNat < 256) :
    countLeadingZerosHigh a = 0 ↔ 128 ≤ a.toNat := by
  unfold countLeadingZerosHigh
  split
  next zero =>
    subst zero
    decide
  next positive =>
    have nonzero : a.toNat ≠ 0 := fun zero => positive (BitVec.eq_of_toNat_eq zero)
    have top : 7 ≤ a.toNat.log2 ↔ 2 ^ 7 ≤ a.toNat := Nat.le_log2 nonzero
    have bound : a.toNat.log2 < 8 := (Nat.log2_lt nonzero).mpr byte
    omega

theorem countLeadingZeros32_eq_zero_iff (a : BitVec 32) :
    countLeadingZeros32 a = 0 ↔ 2 ^ 31 ≤ a.toNat := by
  have bound := a.isLt
  by_cases short : a < 0x10000
  · have positive : countLeadingZeros32 a ≠ 0 := by
      simp only [countLeadingZeros32, if_pos short]
      split <;> omega
    have small : a.toNat < 0x10000 := short
    simp only [positive, false_iff]
    omega
  · by_cases middle : a < 0x1000000
    · have positive : countLeadingZeros32 a ≠ 0 := by
        simp only [countLeadingZeros32, if_neg short, if_pos middle]
        omega
      have small : a.toNat < 0x1000000 := middle
      simp only [positive, false_iff]
      omega
    · have top : (a >>> 24).toNat = a.toNat / 2 ^ 24 := by
        rw [BitVec.toNat_ushiftRight, Nat.shiftRight_eq_div_pow]
      have byte : (a >>> 24).toNat < 256 := by omega
      simp only [countLeadingZeros32, if_neg short, if_neg middle, Nat.zero_add,
        countLeadingZerosHigh_eq_zero_iff byte]
      omega

theorem countLeadingZeros64_eq_zero_iff (a : BitVec 64) :
    countLeadingZeros64 a = 0 ↔ a.msb = true := by
  have bound := a.isLt
  have top : (a >>> 32).toNat = a.toNat / 2 ^ 32 := by
    rw [BitVec.toNat_ushiftRight, Nat.shiftRight_eq_div_pow]
  rw [BitVec.msb_eq_decide, decide_eq_true_iff, countLeadingZeros64]
  split
  next short =>
    have small : a.toNat < 2 ^ 32 := short
    omega
  · rw [countLeadingZeros32_eq_zero_iff, BitVec.toNat_setWidth, top]
    omega

theorem shiftLeft_eq_self {w : Nat} {a : BitVec w} {k : Nat} (same : a <<< k = a) (moves : k ≠ 0) :
    a = 0 := by
  apply BitVec.eq_of_getLsbD_eq
  intro i
  induction i using Nat.strongRecOn with
  | ind i ih =>
    intro inside
    have bit := congrArg (BitVec.getLsbD · i) same
    simp only [BitVec.getLsbD_shiftLeft] at bit
    by_cases low : i < k
    · rw [← bit]
      simp [low]
    · have earlier := ih (i - k) (by omega) (by omega)
      rw [← bit, earlier]
      simp

-- The words of a number that is not zero.

theorem high_word_exponent (high : BitVec 16) :
    high.setWidth 32 <<< 16 &&& (0x7fff0000 : BitVec 32) =
      (high &&& 0x7fff).setWidth 32 <<< 16 := by
  rw [BitVec.setWidth_and, BitVec.shiftLeft_and_distrib]
  rfl

theorem high_word_shifted (high : BitVec 16) :
    (high.setWidth 32 <<< 16) >>> 16 = high.setWidth 32 := by
  have bound := high.isLt
  apply BitVec.eq_of_toNat_eq
  rw [BitVec.toNat_ushiftRight, BitVec.toNat_shiftLeft, BitVec.toNat_setWidth,
    Nat.shiftRight_eq_div_pow, Nat.shiftLeft_eq]
  omega

theorem exponent_shifted_inj {x y : BitVec 16} :
    x.setWidth 32 <<< 16 = y.setWidth 32 <<< 16 ↔ x = y := by
  constructor
  · intro equal
    have shifted := congrArg (fun word : BitVec 32 => word >>> 16) equal
    simp only [high_word_shifted] at shifted
    apply BitVec.eq_of_toNat_eq
    have value := congrArg BitVec.toNat shifted
    rw [BitVec.toNat_setWidth, BitVec.toNat_setWidth] at value
    omega
  · rintro rfl
    rfl

theorem words_joined (low : BitVec 64) :
    ((low >>> 32).setWidth 32).setWidth 64 <<< 32 ||| (low.setWidth 32).setWidth 64 = low := by
  apply BitVec.eq_of_getLsbD_eq
  intro i inside
  simp only [BitVec.getLsbD_or, BitVec.getLsbD_shiftLeft, BitVec.getLsbD_setWidth,
    BitVec.getLsbD_ushiftRight]
  by_cases upper : i < 32
  · simp [upper, inside]
  · simp [upper, inside, show i - 32 < 32 by omega, show i - 32 < 64 by omega,
      show 32 + (i - 32) = i by omega]

theorem words_eq_zero_iff (low : BitVec 64) :
    (low >>> 32).setWidth 32 = 0 ∧ low.setWidth 32 = 0 ↔ low = 0 := by
  constructor
  · rintro ⟨upper, lower⟩
    rw [← words_joined low, upper, lower]
    rfl
  · rintro rfl
    exact ⟨rfl, rfl⟩

theorem sign_exponent_joined (high : BitVec 16) :
    (high >>> 15) <<< 15 + (high &&& 0x7fff) = high := by
  have bound := high.isLt
  have low : (high &&& 0x7fff).toNat = high.toNat % 2 ^ 15 := by
    rw [BitVec.toNat_and]
    exact Nat.and_two_pow_sub_one_eq_mod high.toNat 15
  apply BitVec.eq_of_toNat_eq
  rw [BitVec.toNat_add, low, BitVec.toNat_shiftLeft, BitVec.toNat_ushiftRight,
    Nat.shiftRight_eq_div_pow, Nat.shiftLeft_eq]
  omega

/-- The branch that normalizes: the exponent goes down by the number of leading zeros. -/
theorem packed_words (high : BitVec 16) (shift : Nat) (sig : BitVec 64) :
    packFloatx80 ((high.setWidth 32 <<< 16 >>> 16 >>> 15).setWidth 8)
        ((high.setWidth 32 <<< 16 >>> 16 &&& 0x7fff).toNat - shift : Int) sig =
      ⟨high - BitVec.ofNat 16 shift, sig⟩ := by
  have bound := high.isLt
  have sign : ((high.setWidth 32 >>> 15).setWidth 8).setWidth 16 = high >>> 15 := by
    apply BitVec.eq_of_toNat_eq
    simp only [BitVec.toNat_setWidth, BitVec.toNat_ushiftRight, Nat.shiftRight_eq_div_pow]
    omega
  have exponent : (high.setWidth 32 &&& 0x7fff).toNat = (high &&& 0x7fff).toNat := by
    rw [BitVec.toNat_and, BitVec.toNat_and, BitVec.toNat_setWidth, Nat.mod_eq_of_lt (by omega)]
    rfl
  have difference : BitVec.ofInt 16 ((high &&& 0x7fff).toNat - shift : Int) =
      (high &&& 0x7fff) - BitVec.ofNat 16 shift := by
    rw [Int.sub_eq_add_neg, BitVec.ofInt_add, BitVec.ofInt_neg, BitVec.ofInt_natCast,
      BitVec.ofInt_natCast, BitVec.ofNat_toNat, BitVec.setWidth_eq, BitVec.sub_eq_add_neg]
  have word : (high >>> 15) <<< 15 + ((high &&& 0x7fff) - BitVec.ofNat 16 shift) =
      high - BitVec.ofNat 16 shift := by
    calc (high >>> 15) <<< 15 + ((high &&& 0x7fff) - BitVec.ofNat 16 shift)
        = (high >>> 15) <<< 15 + (high &&& 0x7fff) - BitVec.ofNat 16 shift := by grind
      _ = high - BitVec.ofNat 16 shift := by rw [sign_exponent_joined]
  rw [packFloatx80, high_word_shifted, sign, exponent, difference, word]

/-- What `make_extended` makes of the words `extract_extended` gives. -/
theorem reload_eq (src : Floatx80) :
    reload src =
      if src.high &&& 0x7fff = 0 ∧ src.low = 0 then ⟨0, 0⟩
      else if src.high &&& 0x7fff = 0x7fff ∧ src.low ≠ 0 then defaultNan
      else ⟨src.high - BitVec.ofNat 16 (countLeadingZeros64 src.low),
        src.low <<< countLeadingZeros64 src.low⟩ := by
  unfold reload extractExtended
  by_cases zero : src.high &&& 0x7fff = 0 ∧ src.low = 0
  · simp only [if_pos zero]
    rfl
  · have exponent_zero : src.high.setWidth 32 <<< 16 &&& 0x7fff0000 = 0 ↔
        src.high &&& 0x7fff = 0 := by
      rw [high_word_exponent]
      exact exponent_shifted_inj (y := 0)
    have exponent_max : src.high.setWidth 32 <<< 16 &&& 0x7fff0000 = 0x7fff0000 ↔
        src.high &&& 0x7fff = 0x7fff := by
      rw [high_word_exponent]
      exact exponent_shifted_inj (y := 0x7fff)
    have some_word : (src.low >>> 32).setWidth 32 ≠ 0 ∨ src.low.setWidth 32 ≠ 0 ↔ src.low ≠ 0 := by
      show ¬ _ ∨ ¬ _ ↔ ¬ _
      rw [← words_eq_zero_iff]
      exact Decidable.not_and_iff_not_or_not.symm
    simp only [if_neg zero, makeExtended, exponent_zero, words_eq_zero_iff, exponent_max,
      some_word, words_joined]
    split
    next nan => rfl
    next number =>
      split
      next normalized => exact packed_words _ _ _
      next normal =>
        have none_leading : countLeadingZeros64 src.low = 0 := Decidable.of_not_not normal
        have packed := packed_words src.high 0 src.low
        rw [none_leading]
        simpa using packed

theorem normalized_ne {src : Floatx80} (leading : countLeadingZeros64 src.low ≠ 0) :
    (⟨src.high - BitVec.ofNat 16 (countLeadingZeros64 src.low),
      src.low <<< countLeadingZeros64 src.low⟩ : Floatx80) ≠ src := by
  intro same
  have low := shiftLeft_eq_self (congrArg Floatx80.low same) leading
  have high := congrArg Floatx80.high same
  dsimp only at high
  rw [low, show countLeadingZeros64 0 = 64 by decide] at high
  bv_omega

theorem reload_eq_self_iff (src : Floatx80) : reload src = src ↔ Exact src := by
  rw [reload_eq, Exact]
  by_cases zero : src.high &&& 0x7fff = 0 ∧ src.low = 0
  · have not_nan : src ≠ defaultNan := by
      rintro rfl
      exact absurd zero.2 (by decide)
    have no_integer_bit : src.low.msb = false := by
      rw [zero.2]
      rfl
    simp only [if_pos zero, not_nan, no_integer_bit, Bool.false_eq_true, and_false, or_false]
    exact eq_comm
  · have not_zero : src ≠ ⟨0, 0⟩ := by
      rintro rfl
      exact zero (by decide)
    by_cases nan : src.high &&& 0x7fff = 0x7fff ∧ src.low ≠ 0
    · rw [if_neg zero, if_pos nan]
      simp only [not_zero, nan.1, ne_eq, not_true, false_and, or_false, false_or]
      exact eq_comm
    · simp only [if_neg zero, if_neg nan, not_zero, false_or]
      by_cases leading : countLeadingZeros64 src.low = 0
      · have integer_bit := (countLeadingZeros64_eq_zero_iff src.low).mp leading
        have finite : src.high &&& 0x7fff ≠ 0x7fff := by
          intro infinite
          apply nan ⟨infinite, ?_⟩
          intro low
          rw [low] at integer_bit
          cases integer_bit
        refine iff_of_true ?_ (.inr ⟨finite, integer_bit⟩)
        simp [leading]
      · have no_integer_bit : src.low.msb = false := by
          rw [← Bool.not_eq_true, ← countLeadingZeros64_eq_zero_iff]
          exact leading
        have not_nan : src ≠ defaultNan := by
          rintro rfl
          exact nan (by decide)
        simp only [normalized_ne leading, not_nan, no_integer_bit, Bool.false_eq_true, and_false,
          or_false]

end BasiliskII.Fpu
