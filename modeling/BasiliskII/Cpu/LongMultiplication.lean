import BasiliskII.Cpu.LongDivision
import Mathlib.Tactic.Ring

/-!
# MULL with and without 64-bit integers

`mul_unsigned` and the two branches of `m68k_mull` in newcpu.cpp. The portable
one multiplies magnitudes half-word by half-word, carries by hand between the
two words of the product and negates them afterwards. The sign change of the
most negative long wraps, as on every host.
-/
namespace BasiliskII.Cpu

/-- `*dst_hi` and `*dst_lo`. -/
def mulUnsigned (src1 src2 : BitVec 32) : BitVec 32 × BitVec 32 :=
  let r0 := (src1 &&& 0xffff) * (src2 &&& 0xffff)
  let r1 := (src1 >>> 16 &&& 0xffff) * (src2 &&& 0xffff)
  let r2 := (src1 &&& 0xffff) * (src2 >>> 16 &&& 0xffff)
  let r3 := (src1 >>> 16 &&& 0xffff) * (src2 >>> 16 &&& 0xffff)
  let lo := r0 + (r1 <<< 16 &&& 0xffff0000#32)
  -- A wrapped sum is below its summand.
  let r3 := if lo < r0 then r3 + 1 else r3
  let r0 := lo
  let lo := r0 + (r2 <<< 16 &&& 0xffff0000#32)
  let r3 := if lo < r0 then r3 + 1 else r3
  let r3 := r3 + ((r1 >>> 16 &&& 0xffff) + (r2 >>> 16 &&& 0xffff))
  (r3, lo)

/-- The flags and the result registers; V is only ever set where the high word is dropped. -/
def Regs.mulStore (regs : Regs) (extra : BitVec 16) (zero negative overflow : Bool)
    (hi lo : BitVec 32) : Regs :=
  let regs :=
    { regs with flags := { regs.flags with v := false, c := false, z := zero, n := negative } }
  let regs :=
    if extraQuad extra then regs.setDreg (extraDr extra) hi
    else if overflow then { regs with flags := { regs.flags with v := true } }
    else regs
  regs.setDreg (extraDq extra) lo

/-- The branch with 64-bit integers. -/
def m68kMull (regs : Regs) (src : BitVec 32) (extra : BitVec 16) : Regs :=
  if extraSigned extra then
    -- signed variant
    let a := (regs.dreg (extraDq extra)).signExtend 64
    let a := a * src.signExtend 64
    regs.mulStore extra (a = 0) (a.slt 0) (divlQuadOverflows a) ((a.sshiftRight 32).setWidth 32)
      (a.setWidth 32)
  else
    -- unsigned
    let a := (regs.dreg (extraDq extra)).zeroExtend 64
    let a := a * src.zeroExtend 64
    regs.mulStore extra (a = 0) (a.slt 0) (a &&& 0xffffffff00000000#64 ≠ 0)
      ((a >>> 32).setWidth 32) (a.setWidth 32)

/-- The two's complement of a product in two words. -/
def negateWords (hi lo : BitVec 32) : BitVec 32 × BitVec 32 :=
  let hi := ~~~hi
  let lo := -lo
  (if lo = 0 then hi + 1 else hi, lo)

/-- The branch without. -/
def m68kMullPortable (regs : Regs) (src : BitVec 32) (extra : BitVec 16) : Regs :=
  if extraSigned extra then
    -- signed variant
    let src1 := src
    let src2 := regs.dreg (extraDq extra)
    let sign := src1 ^^^ src2
    let src1 := if src1.slt 0 then -src1 else src1
    let src2 := if src2.slt 0 then -src2 else src2
    let (hi, lo) := mulUnsigned src1 src2
    -- The magnitudes are multiplied; the signs differ where the top bit of `sign` is set.
    let (hi, lo) := if sign &&& 0x80000000 ≠ 0 then negateWords hi lo else (hi, lo)
    regs.mulStore extra (hi = 0 ∧ lo = 0) (hi.slt 0)
      ((hi ≠ 0 ∨ lo &&& 0x80000000 ≠ 0) ∧
        (hi &&& 0xffffffff ≠ 0xffffffff ∨ lo &&& 0x80000000 ≠ 0x80000000)) hi lo
  else
    -- unsigned
    let (hi, lo) := mulUnsigned src (regs.dreg (extraDq extra))
    regs.mulStore extra (hi = 0 ∧ lo = 0) (hi.slt 0) (hi ≠ 0) hi lo

-- The half-words of a long, and the parts of a product of two of them.

variable (x : BitVec 32)

theorem toNat_low_half : (x &&& 0xffff).toNat = x.toNat % 2 ^ 16 := by
  rw [BitVec.toNat_and]
  exact Nat.and_two_pow_sub_one_eq_mod x.toNat 16

theorem toNat_high_half : (x >>> 16 &&& 0xffff).toNat = x.toNat / 2 ^ 16 := by
  have x_lt := x.isLt
  rw [toNat_low_half, BitVec.toNat_ushiftRight, Nat.shiftRight_eq_div_pow]
  omega

theorem toNat_raised_half : (x <<< 16 &&& 0xffff0000#32).toNat = x.toNat % 2 ^ 16 * 2 ^ 16 := by
  rw [toNat_and_high (x <<< 16) 0xffff0000#32 16 (by decide), BitVec.toNat_shiftLeft, Nat.shiftLeft_eq]
  omega

/-- A long moved up by half a word has its high half in the high word and its low half below. -/
theorem toNat_moved :
    x.toNat * 2 ^ 16 =
      (x >>> 16 &&& 0xffff).toNat * 2 ^ 32 + (x <<< 16 &&& 0xffff0000#32).toNat := by
  rw [toNat_high_half, toNat_raised_half]
  omega

theorem toNat_mul_halves {x y : BitVec 32} (x_half : x.toNat < 2 ^ 16) (y_half : y.toNat < 2 ^ 16) :
    (x * y).toNat = x.toNat * y.toNat ∧ x.toNat * y.toNat ≤ (2 ^ 16 - 1) * (2 ^ 16 - 1) := by
  have bound : x.toNat * y.toNat ≤ (2 ^ 16 - 1) * (2 ^ 16 - 1) :=
    Nat.mul_le_mul (by omega) (by omega)
  refine ⟨?_, bound⟩
  rw [BitVec.toNat_mul]
  exact Nat.mod_eq_of_lt (by omega)

/-- The test `lo < r0` of a wrapped sum is its carry. -/
theorem carry_eq (y : BitVec 32) :
    (x + y).toNat + (if x + y < x then 1 else 0) * 2 ^ 32 = x.toNat + y.toNat := by
  have x_lt := x.isLt
  have y_lt := y.isLt
  have sum : (x + y).toNat = (x.toNat + y.toNat) % 2 ^ 32 := BitVec.toNat_add x y
  split
  next wrapped =>
    rw [BitVec.lt_def] at wrapped
    omega
  next exact_sum =>
    rw [BitVec.lt_def] at exact_sum
    omega

/-- A long is added to two words, as long as the high word does not wrap itself. -/
theorem toNat_carried (hi lo x : BitVec 32) (room : hi.toNat < 2 ^ 32 - 1) :
    (if lo + x < lo then hi + 1 else hi).toNat * 2 ^ 32 + (lo + x).toNat =
      hi.toNat * 2 ^ 32 + (lo.toNat + x.toNat) := by
  have carry := carry_eq lo x
  have next : (hi + 1).toNat = hi.toNat + 1 := by
    rw [BitVec.toNat_add]
    exact Nat.mod_eq_of_lt (by simp; omega)
  split
  next wrapped =>
    rw [if_pos wrapped] at carry
    rw [next]
    omega
  next exact_sum =>
    rw [if_neg exact_sum] at carry
    omega

/-- The product of two sums of half-words is the sum of the four products. -/
theorem mul_halves (x y : Nat) :
    x * y = x / 2 ^ 16 * (y / 2 ^ 16) * 2 ^ 32 +
      (x / 2 ^ 16 * (y % 2 ^ 16) + x % 2 ^ 16 * (y / 2 ^ 16)) * 2 ^ 16 +
        x % 2 ^ 16 * (y % 2 ^ 16) := by
  conv_lhs => rw [← Nat.div_add_mod x (2 ^ 16), ← Nat.div_add_mod y (2 ^ 16)]
  ring

/-- `mul_unsigned` returns the exact product. -/
theorem mulUnsigned_value (src1 src2 : BitVec 32) :
    (mulUnsigned src1 src2).1.toNat * 2 ^ 32 + (mulUnsigned src1 src2).2.toNat =
      src1.toNat * src2.toNat := by
  have low1 := toNat_low_half src1
  have low2 := toNat_low_half src2
  have high1 := toNat_high_half src1
  have high2 := toNat_high_half src2
  have src1_lt := src1.isLt
  have src2_lt := src2.isLt
  obtain ⟨r0_value, r0_le⟩ := toNat_mul_halves (x := src1 &&& 0xffff) (y := src2 &&& 0xffff)
    (by omega) (by omega)
  obtain ⟨r1_value, r1_le⟩ := toNat_mul_halves (x := src1 >>> 16 &&& 0xffff) (y := src2 &&& 0xffff)
    (by omega) (by omega)
  obtain ⟨r2_value, r2_le⟩ := toNat_mul_halves (x := src1 &&& 0xffff) (y := src2 >>> 16 &&& 0xffff)
    (by omega) (by omega)
  obtain ⟨r3_value, r3_le⟩ := toNat_mul_halves (x := src1 >>> 16 &&& 0xffff)
    (y := src2 >>> 16 &&& 0xffff) (by omega) (by omega)
  rw [mul_halves src1.toNat src2.toNat, ← low1, ← low2, ← high1, ← high2,
    ← r0_value, ← r1_value, ← r2_value, ← r3_value]
  rw [← r0_value] at r0_le
  rw [← r1_value] at r1_le
  rw [← r2_value] at r2_le
  rw [← r3_value] at r3_le
  simp only [mulUnsigned]
  clear r0_value r1_value r2_value r3_value
  generalize (src1 &&& 0xffff) * (src2 &&& 0xffff) = r0 at *
  generalize (src1 >>> 16 &&& 0xffff) * (src2 &&& 0xffff) = r1 at *
  generalize (src1 &&& 0xffff) * (src2 >>> 16 &&& 0xffff) = r2 at *
  generalize (src1 >>> 16 &&& 0xffff) * (src2 >>> 16 &&& 0xffff) = r3 at *
  have moved1 := toNat_moved r1
  have moved2 := toNat_moved r2
  generalize r1 >>> 16 &&& 0xffff = top_half1 at *
  generalize r2 >>> 16 &&& 0xffff = top_half2 at *
  generalize r1 <<< 16 &&& 0xffff0000#32 = shifted1 at *
  generalize r2 <<< 16 &&& 0xffff0000#32 = shifted2 at *
  -- The low halves of the middle products are added to the low word, one after the other,
  have first := toNat_carried r3 r0 shifted1 (by omega)
  generalize (if r0 + shifted1 < r0 then r3 + 1 else r3) = r3' at *
  have second := toNat_carried r3' (r0 + shifted1) shifted2 (by omega)
  generalize (if r0 + shifted1 + shifted2 < r0 + shifted1 then r3' + 1 else r3') = r3'' at *
  -- and the high halves to the high word.
  have hi : (r3'' + (top_half1 + top_half2)).toNat =
      r3''.toNat + (top_half1.toNat + top_half2.toNat) := by
    rw [BitVec.toNat_add, BitVec.toNat_add]
    omega
  calc
    (r3'' + (top_half1 + top_half2)).toNat * 2 ^ 32 + (r0 + shifted1 + shifted2).toNat =
        r3''.toNat * 2 ^ 32 + (r0 + shifted1 + shifted2).toNat +
          (top_half1.toNat + top_half2.toNat) * 2 ^ 32 := by
      rw [hi]
      ring
    _ = r3'.toNat * 2 ^ 32 + (r0 + shifted1).toNat + shifted2.toNat +
          (top_half1.toNat + top_half2.toNat) * 2 ^ 32 := by
      rw [second, ← Nat.add_assoc]
    _ = r3.toNat * 2 ^ 32 + (top_half1.toNat * 2 ^ 32 + shifted1.toNat +
          (top_half2.toNat * 2 ^ 32 + shifted2.toNat)) + r0.toNat := by
      rw [first]
      ring
    _ = r3.toNat * 2 ^ 32 + (r1.toNat + r2.toNat) * 2 ^ 16 + r0.toNat := by
      rw [← moved1, ← moved2, Nat.add_mul]

-- A 64-bit product and the two words the portable branch holds it in.

theorem append_high (hi lo : BitVec 32) : ((hi ++ lo) >>> 32).setWidth 32 = hi := by
  apply BitVec.eq_of_toNat_eq
  have hi_lt := hi.isLt
  have lo_lt := lo.isLt
  rw [BitVec.toNat_setWidth, BitVec.toNat_ushiftRight, Nat.shiftRight_eq_div_pow, append_toNat]
  omega

/-- The bits an arithmetic shift brings in are not among those kept. -/
theorem sshiftRight_high (a : BitVec 64) :
    (a.sshiftRight 32).setWidth 32 = (a >>> 32).setWidth 32 := by
  apply BitVec.eq_of_getLsbD_eq
  intro i inside
  have below : 32 + i < 64 := by omega
  simp [BitVec.getLsbD_sshiftRight, inside, below]
  omega

theorem append_eq_zero_iff (hi lo : BitVec 32) : hi ++ lo = (0 : BitVec 64) ↔ hi = 0 ∧ lo = 0 := by
  rw [← BitVec.toNat_inj, ← BitVec.toNat_inj, ← BitVec.toNat_inj, append_toNat]
  simp

theorem append_slt_zero (hi lo : BitVec 32) : (hi ++ lo).slt 0 = hi.slt 0 := by
  have words := append_negative_iff hi lo
  rw [Bool.eq_iff_iff, words]
  exact BitVec.slt_iff_toInt_lt

variable (regs : Regs)

/-- What a product in one 64-bit value stores, from its two words. -/
theorem mulStore_words (extra : BitVec 16) (overflow : Bool) (hi lo : BitVec 32) :
    regs.mulStore extra ((hi ++ lo : BitVec 64) = 0) ((hi ++ lo : BitVec 64).slt 0) overflow
        (((hi ++ lo) >>> 32).setWidth 32) ((hi ++ lo).setWidth 32) =
      regs.mulStore extra (hi = 0 ∧ lo = 0) (hi.slt 0) overflow hi lo := by
  rw [append_high, BitVec.setWidth_append_eq_right, append_slt_zero]
  simp only [append_eq_zero_iff]

theorem high_word_bits (a : BitVec 64) :
    (a &&& 0xffffffff00000000#64).toNat = a.toNat / 2 ^ 32 * 2 ^ 32 :=
  toNat_and_high a 0xffffffff00000000#64 32 (by decide)

theorem high_word_ne_zero_iff (hi lo : BitVec 32) :
    (hi ++ lo) &&& 0xffffffff00000000#64 ≠ 0 ↔ hi ≠ 0 := by
  have bits := high_word_bits (hi ++ lo)
  have lo_lt := lo.isLt
  rw [append_toNat] at bits
  rw [ne_eq, ne_eq, ← BitVec.toNat_inj, ← BitVec.toNat_inj, bits]
  simp
  omega

theorem and_signBit_eq_iff : x &&& 0x80000000 = 0x80000000 ↔ 2 ^ 31 ≤ x.toNat := by
  have bit : (x &&& 0x80000000).toNat = (x.toNat.testBit 31).toNat * 2 ^ 31 := by
    rw [BitVec.toNat_and]
    exact Nat.and_two_pow x.toNat 31
  have nonzero := and_signBit_ne_zero x
  rw [← nonzero, ne_eq, ← BitVec.toNat_inj, ← BitVec.toNat_inj, bit]
  cases x.toNat.testBit 31 <;> simp

/-- The signed one, on 64 bits and on two words. -/
theorem signed_overflow_words (hi lo : BitVec 32) :
    divlQuadOverflows (hi ++ lo) = true ↔
      (hi ≠ 0 ∨ lo &&& 0x80000000 ≠ 0) ∧
        (hi &&& 0xffffffff ≠ 0xffffffff ∨ lo &&& 0x80000000 ≠ 0x80000000) := by
  have hi_lt := hi.isLt
  have lo_lt := lo.isLt
  have all_ones : hi &&& 0xffffffff = hi := BitVec.and_allOnes
  have hi_zero : hi = 0 ↔ hi.toNat = 0 := by
    rw [← BitVec.toNat_inj]
    rfl
  have hi_ones : hi = 0xffffffff ↔ hi.toNat = 2 ^ 32 - 1 := by
    rw [← BitVec.toNat_inj]
    rfl
  rw [divlQuadOverflows_iff, all_ones, and_signBit_ne_zero, ne_eq, ne_eq, ne_eq, hi_zero,
    hi_ones, and_signBit_eq_iff, BitVec.toInt_append, if_neg (by decide), toInt_cases]
  simp only [slt_zero_iff]
  split <;> omega

/-- `mul_unsigned` as one 64-bit value. -/
theorem mulUnsigned_append (src1 src2 : BitVec 32) :
    (mulUnsigned src1 src2).1 ++ (mulUnsigned src1 src2).2 =
      BitVec.ofNat 64 (src1.toNat * src2.toNat) := by
  have fits : (mulUnsigned src1 src2).1.toNat * 2 ^ 32 + (mulUnsigned src1 src2).2.toNat < 2 ^ 64 := by
    have := (mulUnsigned src1 src2).1.isLt
    have := (mulUnsigned src1 src2).2.isLt
    omega
  apply BitVec.eq_of_toNat_eq
  rw [append_toNat, BitVec.toNat_ofNat, ← mulUnsigned_value, Nat.mod_eq_of_lt fits]

theorem negateWords_append (hi lo : BitVec 32) :
    (negateWords hi lo).1 ++ (negateWords hi lo).2 = -(hi ++ lo) := negate_append hi lo

theorem mul_magnitudes (x y : Int) :
    x * y = if (x < 0 ↔ y < 0) then ((x.natAbs * y.natAbs : Nat) : Int)
      else -((x.natAbs * y.natAbs : Nat) : Int) := by
  have x_eq : x = if x < 0 then -(x.natAbs : Int) else (x.natAbs : Int) := by
    split <;> omega
  have y_eq : y = if y < 0 then -(y.natAbs : Int) else (y.natAbs : Int) := by
    split <;> omega
  rw [Int.natCast_mul]
  by_cases x_neg : x < 0
  · rw [if_pos x_neg] at x_eq
    by_cases y_neg : y < 0
    · rw [if_pos y_neg] at y_eq
      rw [if_pos (by simp [x_neg, y_neg])]
      conv_lhs => rw [x_eq, y_eq, Int.neg_mul_neg]
    · rw [if_neg y_neg] at y_eq
      rw [if_neg (by simp [x_neg, y_neg])]
      conv_lhs => rw [x_eq, y_eq, Int.neg_mul]
  · rw [if_neg x_neg] at x_eq
    by_cases y_neg : y < 0
    · rw [if_pos y_neg] at y_eq
      rw [if_neg (by simp [x_neg, y_neg])]
      conv_lhs => rw [x_eq, y_eq, Int.mul_neg]
    · rw [if_neg y_neg] at y_eq
      rw [if_pos (by simp [x_neg, y_neg])]
      conv_lhs => rw [x_eq, y_eq]

/-- The magnitudes multiplied and signed again give the signed product. -/
theorem signed_product (src1 src2 : BitVec 32) :
    (if (src1 ^^^ src2) &&& 0x80000000 ≠ 0 then
        -BitVec.ofNat 64 (src1.toInt.natAbs * src2.toInt.natAbs)
      else BitVec.ofNat 64 (src1.toInt.natAbs * src2.toInt.natAbs)) =
      BitVec.ofInt 64 (src1.toInt * src2.toInt) := by
  have sign := xor_negative_iff src1 src2
  rw [negative_iff, negative_iff] at sign
  rw [mul_magnitudes]
  split
  next differ => rw [if_neg (sign.mp differ), BitVec.ofInt_neg, BitVec.ofInt_natCast]
  next same => rw [if_pos (Classical.not_not.mp (sign.not.mp same)), BitVec.ofInt_natCast]

/-- The product of the operands as a number. -/
def mullProduct (regs : Regs) (src : BitVec 32) (extra : BitVec 16) : Int :=
  if extraSigned extra then (regs.dreg (extraDq extra)).toInt * src.toInt
  else (regs.dreg (extraDq extra)).toNat * src.toNat

def mullFits (regs : Regs) (src : BitVec 32) (extra : BitVec 16) : Prop :=
  if extraSigned extra then
    -2 ^ 31 ≤ mullProduct regs src extra ∧ mullProduct regs src extra < 2 ^ 31
  else mullProduct regs src extra < 2 ^ 32

instance (regs : Regs) (src : BitVec 32) (extra : BitVec 16) :
    Decidable (mullFits regs src extra) := by
  unfold mullFits
  infer_instance

/-- What both branches do, from the product. -/
def Regs.mulProduct (regs : Regs) (extra : BitVec 16) (a : BitVec 64) (fits : Prop) [Decidable fits] :
    Regs :=
  regs.mulStore extra (a = 0) (a.slt 0) (¬ fits) ((a >>> 32).setWidth 32) (a.setWidth 32)

theorem signed_product_bounded (y : BitVec 32) :
    -2 ^ 63 ≤ x.toInt * y.toInt ∧ x.toInt * y.toInt < 2 ^ 63 := by
  have x_le := @BitVec.toInt_lt 32 x
  have x_ge := @BitVec.le_toInt 32 x
  have y_le := @BitVec.toInt_lt 32 y
  have y_ge := @BitVec.le_toInt 32 y
  have product : x.toInt.natAbs * y.toInt.natAbs ≤ 2 ^ 31 * 2 ^ 31 :=
    Nat.mul_le_mul (by omega) (by omega)
  rw [← Int.natAbs_mul] at product
  omega

theorem unsigned_product_bounded (y : BitVec 32) : x.toNat * y.toNat < 2 ^ 64 :=
  calc
    x.toNat * y.toNat < 2 ^ 32 * 2 ^ 32 := Nat.mul_lt_mul'' x.isLt y.isLt
    _ = 2 ^ 64 := by decide

theorem signExtend_mul (y : BitVec 32) :
    x.signExtend 64 * y.signExtend 64 = BitVec.ofInt 64 (x.toInt * y.toInt) :=
  (BitVec.ofInt_mul _ _).symm

theorem zeroExtend_mul (y : BitVec 32) :
    x.zeroExtend 64 * y.zeroExtend 64 = BitVec.ofNat 64 (x.toNat * y.toNat) := by
  apply BitVec.eq_of_toNat_eq
  rw [BitVec.toNat_mul, toNat_zeroExtend_word, toNat_zeroExtend_word, BitVec.toNat_ofNat]

theorem signed_overflow_iff (y : BitVec 32) :
    divlQuadOverflows (BitVec.ofInt 64 (x.toInt * y.toInt)) = true ↔
      ¬ (-2 ^ 31 ≤ x.toInt * y.toInt ∧ x.toInt * y.toInt < 2 ^ 31) := by
  obtain ⟨above, below⟩ := signed_product_bounded x y
  rw [divlQuadOverflows_iff, BitVec.toInt_ofInt_eq_self (by decide) above below]

theorem unsigned_overflow_iff (y : BitVec 32) :
    BitVec.ofNat 64 (x.toNat * y.toNat) &&& 0xffffffff00000000#64 ≠ 0 ↔
      ¬ (x.toNat : Int) * (y.toNat : Int) < 2 ^ 32 := by
  have bits := high_word_bits (BitVec.ofNat 64 (x.toNat * y.toNat))
  have bound := unsigned_product_bounded x y
  rw [BitVec.toNat_ofNat, Nat.mod_eq_of_lt bound] at bits
  rw [← Int.natCast_mul, ne_eq, ← BitVec.toNat_inj, bits]
  generalize x.toNat * y.toNat = p at bound
  constructor
  · intro nonzero small
    have : p / 2 ^ 32 = 0 := by omega
    rw [this] at nonzero
    exact nonzero rfl
  · intro large zero
    have : p / 2 ^ 32 * 2 ^ 32 = 0 := zero
    omega

theorem mulStore_congr (extra : BitVec 16) (zero negative : Bool) (hi lo : BitVec 32) {p q : Prop}
    [Decidable p] [Decidable q] (same : p ↔ q) :
    regs.mulStore extra zero negative (decide p) hi lo =
      regs.mulStore extra zero negative (decide q) hi lo := by
  rw [decide_eq_decide.mpr same]

theorem m68kMull_eq (src : BitVec 32) (extra : BitVec 16) :
    m68kMull regs src extra =
      regs.mulProduct extra (BitVec.ofInt 64 (mullProduct regs src extra))
        (mullFits regs src extra) := by
  by_cases signed : extraSigned extra = true
  · simp only [m68kMull, mullProduct, mullFits, if_pos signed, Regs.mulProduct, sshiftRight_high,
      signExtend_mul]
    congr 1
    rw [Bool.eq_iff_iff, signed_overflow_iff, decide_eq_true_iff]
  · simp only [m68kMull, mullProduct, mullFits, if_neg signed, Regs.mulProduct, zeroExtend_mul]
    rw [← Int.natCast_mul, BitVec.ofInt_natCast]
    apply mulStore_congr
    rw [unsigned_overflow_iff, Int.natCast_mul]

theorem m68kMullPortable_eq (src : BitVec 32) (extra : BitVec 16) :
    m68kMullPortable regs src extra =
      regs.mulProduct extra (BitVec.ofInt 64 (mullProduct regs src extra))
        (mullFits regs src extra) := by
  by_cases signed : extraSigned extra = true
  · simp only [m68kMullPortable, mullProduct, mullFits, if_pos signed, Regs.mulProduct]
    -- The words after the sign change are those of the signed product.
    have product := signed_product src (regs.dreg (extraDq extra))
    rw [← toNat_magnitude, ← toNat_magnitude, ← mulUnsigned_append, ← negateWords_append] at product
    have overflow := signed_overflow_iff src (regs.dreg (extraDq extra))
    rw [Int.mul_comm] at product overflow
    generalize mulUnsigned _ _ = magnitude at product ⊢
    obtain ⟨hi, lo⟩ := magnitude
    simp only at product ⊢
    split at product
    next differ =>
      rw [if_pos differ]
      generalize negateWords hi lo = words at product ⊢
      rw [← product, signed_overflow_words] at overflow
      rw [← product, mulStore_words]
      exact mulStore_congr _ _ _ _ _ _ overflow
    next same =>
      rw [if_neg same]
      rw [← product, signed_overflow_words] at overflow
      rw [← product, mulStore_words]
      exact mulStore_congr _ _ _ _ _ _ overflow
  · simp only [m68kMullPortable, mullProduct, mullFits, if_neg signed, Regs.mulProduct]
    have product := mulUnsigned_append src (regs.dreg (extraDq extra))
    have overflow := unsigned_overflow_iff src (regs.dreg (extraDq extra))
    rw [← product, high_word_ne_zero_iff] at overflow
    rw [Int.mul_comm, ← Int.natCast_mul, BitVec.ofInt_natCast, ← product, mulStore_words]
    apply mulStore_congr
    rw [overflow, Int.natCast_mul]

theorem divUnsigned_isSome_iff (hi lo div : BitVec 32) :
    (divUnsigned hi lo div).isSome = true ↔ div > hi := by
  rw [divUnsigned_eq, gt_iff_lt, BitVec.lt_def]
  split
  next small => simp [Nat.not_lt.mpr small]
  next large => simp [Nat.lt_of_not_le large]

theorem divUnsigned_divides {hi lo div quot rem : BitVec 32}
    (divided : divUnsigned hi lo div = some (quot, rem)) :
    quot.toNat * div.toNat + rem.toNat = hi.toNat * 2 ^ 32 + lo.toNat ∧ rem < div ∧
      quot.toNat < 2 ^ 32 := by
  have div_lt := div.isLt
  have lo_lt := lo.isLt
  rw [divUnsigned_eq] at divided
  split at divided
  · contradiction
  next large =>
    obtain ⟨rfl, rfl⟩ := Prod.mk.inj (Option.some.inj divided)
    have rem_lt : (hi.toNat * 2 ^ 32 + lo.toNat) % div.toNat < div.toNat := Nat.mod_lt _ (by omega)
    have quot_lt : (hi.toNat * 2 ^ 32 + lo.toNat) / div.toNat < 2 ^ 32 := by
      apply Nat.div_lt_of_lt_mul
      have : (hi.toNat + 1) * 2 ^ 32 ≤ div.toNat * 2 ^ 32 := Nat.mul_le_mul_right _ (by omega)
      omega
    have rem_word : (hi.toNat * 2 ^ 32 + lo.toNat) % div.toNat < 2 ^ 32 := by omega
    rw [BitVec.lt_def, BitVec.toNat_ofNat, BitVec.toNat_ofNat, Nat.mod_eq_of_lt rem_word,
      Nat.mod_eq_of_lt quot_lt]
    exact ⟨Nat.div_add_mod' _ _, rem_lt, quot_lt⟩

/-- The primitives of the portable branches: `div_unsigned` divides whenever the quotient fits,
`mul_unsigned` is exact, and MULL does the same with and without 64-bit integers. -/
theorem portable_primitives_exact :
    (∀ hi lo div : BitVec 32, ((divUnsigned hi lo div).isSome = true ↔ div > hi) ∧
      ∀ quot rem, divUnsigned hi lo div = some (quot, rem) →
        quot.toNat * div.toNat + rem.toNat = hi.toNat * 2 ^ 32 + lo.toNat ∧ rem < div ∧
          quot.toNat < 2 ^ 32) ∧
    (∀ src1 src2 : BitVec 32,
      (mulUnsigned src1 src2).1.toNat * 2 ^ 32 + (mulUnsigned src1 src2).2.toNat =
        src1.toNat * src2.toNat) ∧
    ∀ (regs : Regs) (src : BitVec 32) (extra : BitVec 16),
      m68kMullPortable regs src extra = m68kMull regs src extra := by
  refine ⟨fun hi lo div => ⟨divUnsigned_isSome_iff hi lo div, fun quot rem => divUnsigned_divides⟩,
    mulUnsigned_value, fun regs src extra => ?_⟩
  rw [m68kMullPortable_eq, m68kMull_eq]

-- The flags of MULL and the value it stores.

theorem mulProduct_flags (extra : BitVec 16) (a : BitVec 64) (fits : Prop) [Decidable fits] :
    (regs.mulProduct extra a fits).flags =
      ⟨regs.flags.x, a.slt 0, a = 0, !extraQuad extra && !decide fits, false⟩ := by
  simp only [Regs.mulProduct, Regs.mulStore, Regs.setDreg]
  cases extraQuad extra <;> by_cases fits <;> simp_all

theorem mulProduct_low (extra : BitVec 16) (a : BitVec 64) (fits : Prop) [Decidable fits] :
    (regs.mulProduct extra a fits).dreg (extraDq extra) = a.setWidth 32 := by
  simp only [Regs.mulProduct, Regs.mulStore, Regs.setDreg_same]

/-- N, Z and V describe the 64-bit product or, where one long is stored, that long. -/
def MullFlagsDescribe (regs : Regs) (src : BitVec 32) (extra : BitVec 16) : Prop :=
  let after := m68kMull regs src extra
  if extraQuad extra then
    after.flags.n = (BitVec.ofInt 64 (mullProduct regs src extra)).msb ∧
      (after.flags.z = true ↔ mullProduct regs src extra = 0) ∧ after.flags.v = false
  else
    let dl := after.dreg (extraDq extra)
    after.flags.n = dl.msb ∧ (after.flags.z = true ↔ dl = 0) ∧
      (after.flags.v = true ↔ ¬ mullFits regs src extra)

theorem ofInt_msb_iff (p : Int) :
    ((BitVec.ofInt 64 p).msb = true ↔ 2 ^ 63 ≤ p % 2 ^ 64) ∧
      (((BitVec.ofInt 64 p).setWidth 32).msb = true ↔ 2 ^ 31 ≤ p % 2 ^ 32) := by
  have wide : (BitVec.ofInt 64 p).toNat = (p % 2 ^ 64).toNat := rfl
  rw [BitVec.msb_eq_decide, BitVec.msb_eq_decide, BitVec.toNat_setWidth, wide]
  simp only [decide_eq_true_iff]
  omega

theorem ofInt_low_zero_iff (p : Int) : (BitVec.ofInt 64 p).setWidth 32 = 0 ↔ p % 2 ^ 32 = 0 := by
  have wide : (BitVec.ofInt 64 p).toNat = (p % 2 ^ 64).toNat := rfl
  rw [← BitVec.toNat_inj, BitVec.toNat_setWidth, wide]
  simp
  omega

theorem mullProduct_bounded (src : BitVec 32) (extra : BitVec 16) :
    -2 ^ 63 ≤ mullProduct regs src extra ∧ mullProduct regs src extra < 2 ^ 64 := by
  simp only [mullProduct]
  split
  · have bounds := signed_product_bounded (regs.dreg (extraDq extra)) src
    omega
  · have bound := unsigned_product_bounded (regs.dreg (extraDq extra)) src
    rw [← Int.natCast_mul]
    omega

theorem ofInt_product_zero_iff (src : BitVec 32) (extra : BitVec 16) :
    BitVec.ofInt 64 (mullProduct regs src extra) = 0 ↔ mullProduct regs src extra = 0 := by
  have bounds := mullProduct_bounded regs src extra
  have wide : (BitVec.ofInt 64 (mullProduct regs src extra)).toNat =
      (mullProduct regs src extra % 2 ^ 64).toNat := rfl
  rw [← BitVec.toNat_inj, wide]
  simp
  omega

/-- MULL computes N and Z from the whole product in both forms, so that with one long stored
they describe it just when the two sign bits agree and only a zero product has a zero low long. -/
theorem mull_flags_describe_iff (regs : Regs) (src : BitVec 32) (extra : BitVec 16) :
    MullFlagsDescribe regs src extra ↔
      extraQuad extra = true ∨
        (2 ^ 63 ≤ mullProduct regs src extra % 2 ^ 64 ↔
          2 ^ 31 ≤ mullProduct regs src extra % 2 ^ 32) ∧
        (mullProduct regs src extra % 2 ^ 32 = 0 → mullProduct regs src extra = 0) := by
  obtain ⟨wide_sign, low_sign⟩ := ofInt_msb_iff (mullProduct regs src extra)
  have negative : (BitVec.ofInt 64 (mullProduct regs src extra)).slt 0 =
      (BitVec.ofInt 64 (mullProduct regs src extra)).msb := BitVec.slt_zero_eq_msb
  have zero := ofInt_product_zero_iff regs src extra
  have low_zero := ofInt_low_zero_iff (mullProduct regs src extra)
  simp only [MullFlagsDescribe, m68kMull_eq, mulProduct_flags, mulProduct_low, negative]
  by_cases quad : extraQuad extra = true
  · simp [quad]
    exact zero
  · simp only [quad, Bool.false_eq_true, if_false, false_or, Bool.not_false, Bool.true_and,
      Bool.not_eq_true', decide_eq_false_iff_not, and_true, decide_eq_true_iff]
    rw [Bool.eq_iff_iff, wide_sign, low_sign, zero, low_zero]
    constructor
    · rintro ⟨sign, zeros⟩
      exact ⟨sign, zeros.mpr⟩
    · rintro ⟨sign, zeros⟩
      refine ⟨sign, fun none => ?_, zeros⟩
      rw [none]
      decide

/-- `MULU.L` of `0x80000000` by 1 stores a negative long and clears N. -/
theorem mulu_long_flags_wrong :
    ¬ ∀ (regs : Regs) (src : BitVec 32) (extra : BitVec 16), MullFlagsDescribe regs src extra := by
  intro describe
  have flags := describe { zeroRegs with dreg := fun _ => 0x80000000 } 1 0
  rw [MullFlagsDescribe, if_neg (by decide)] at flags
  exact absurd flags.1 (by decide)

end BasiliskII.Cpu
