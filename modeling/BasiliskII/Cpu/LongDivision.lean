import BasiliskII.Cpu.Registers
import BasiliskII.Library.RestoringDivision
import Mathlib.Data.Int.Basic
import Mathlib.Data.Nat.Bitwise

/-!
# DIVL with and without 64-bit integers

The two branches of `m68k_divl` in newcpu.cpp. The portable one negates the
dividend word by word, divides magnitudes with `div_unsigned` and signs the
results again. Where `div_unsigned` overflows it leaves `quot` and `rem`
unset, so their first contents are parameters here.
-/
namespace BasiliskII.Cpu

/-- The locals of the loop of `div_unsigned`. -/
structure DivState where
  srcHi : BitVec 32
  srcLo : BitVec 32
  q : BitVec 32

def divStep (div : BitVec 32) (s : DivState) : DivState :=
  let cbit := s.srcHi &&& 0x80000000
  let srcHi := s.srcHi <<< 1
  let srcHi := if s.srcLo &&& 0x80000000 ≠ 0 then srcHi + 1 else srcHi
  let srcLo := s.srcLo <<< 1
  let q := s.q <<< 1
  if cbit ≠ 0 ∨ div ≤ srcHi then ⟨srcHi - div, srcLo, q ||| 1⟩ else ⟨srcHi, srcLo, q⟩

/-- Quotient and remainder; `none` is the overflow return, which sets neither. -/
def divUnsigned (srcHi srcLo div : BitVec 32) : Option (BitVec 32 × BitVec 32) :=
  if div ≤ srcHi then none
  else
    let s := (divStep div)^[32] ⟨srcHi, srcLo, 0⟩
    some (s.q, s.srcHi)

-- The fields of the extension word.

def extraDq (extra : BitVec 16) : BitVec 3 := extra.extractLsb' 12 3

def extraDr (extra : BitVec 16) : BitVec 3 := extra.extractLsb' 0 3

def extraSigned (extra : BitVec 16) : Bool := extra &&& 0x800 ≠ 0

/-- The dividend is 64 bits wide. -/
def extraQuad (extra : BitVec 16) : Bool := extra &&& 0x400 ≠ 0

/-- Overflow leaves the registers and Z alone. -/
def Regs.divOverflow (regs : Regs) : Regs :=
  { regs with flags := { regs.flags with v := true, n := true, c := false } }

def Regs.divStore (regs : Regs) (extra : BitVec 16) (quot rem : BitVec 32) : Regs :=
  let flags := { regs.flags with v := false, c := false, z := quot = 0, n := quot.slt 0 }
  ({ regs with flags }.setDreg (extraDr extra) rem).setDreg (extraDq extra) quot

/-- The vector of a division by zero. -/
def divideByZero : Nat := 5

def divlQuadOverflows (quot : BitVec 64) : Bool :=
  quot &&& 0xffffffff80000000 ≠ 0 ∧ quot &&& 0xffffffff80000000 ≠ 0xffffffff80000000

/-- The dividend of the 64-bit branch, from the extended Dq. -/
def divlDividend (regs : Regs) (extra : BitVec 16) (a : BitVec 64) : BitVec 64 :=
  if extraQuad extra then
    (a &&& 0xffffffff) ||| ((regs.dreg (extraDr extra)).zeroExtend 64 <<< 32)
  else a

/-- The branch with 64-bit integers. -/
def m68kDivl (regs : Regs) (src : BitVec 32) (extra : BitVec 16) : Except Nat Regs :=
  if src = 0 then .error divideByZero
  else if extraSigned extra then
    -- signed variant
    let a := divlDividend regs extra ((regs.dreg (extraDq extra)).signExtend 64)
    let rem := a.srem (src.signExtend 64)
    let quot := a.sdiv (src.signExtend 64)
    if divlQuadOverflows quot then .ok regs.divOverflow
    else
      let rem := if (rem.setWidth 32).slt 0 ≠ a.slt 0 then -rem else rem
      .ok (regs.divStore extra (quot.setWidth 32) (rem.setWidth 32))
  else
    -- unsigned
    let a := divlDividend regs extra ((regs.dreg (extraDq extra)).zeroExtend 64)
    let rem := a.umod (src.zeroExtend 64)
    let quot := a.udiv (src.zeroExtend 64)
    if quot > 0xffffffff then .ok regs.divOverflow
    else .ok (regs.divStore extra (quot.setWidth 32) (rem.setWidth 32))

/-- The two words of the absolute value of a dividend. -/
def negateNegative (hi lo : BitVec 32) : BitVec 32 × BitVec 32 :=
  if hi.slt 0 then
    let hi := ~~~hi
    let lo := -lo
    (if lo = 0 then hi + 1 else hi, lo)
  else (hi, lo)

/-- The branch without, where `quot₀` and `rem₀` are what the locals happen to hold. -/
def m68kDivlPortable (quot₀ rem₀ : BitVec 32) (regs : Regs) (src : BitVec 32)
    (extra : BitVec 16) : Except Nat Regs :=
  if src = 0 then .error divideByZero
  else if extraSigned extra then
    -- signed variant
    let lo := regs.dreg (extraDq extra)
    let hi := if lo.slt 0 then -1 else 0
    let hi := if extraQuad extra then regs.dreg (extraDr extra) else hi
    let saveHigh := hi
    let sign := hi ^^^ src
    let (hi, lo) := negateNegative hi lo
    let src := if src.slt 0 then -src else src
    let overflow := (divUnsigned hi lo src).isNone
    let (quot, rem) := (divUnsigned hi lo src).getD (quot₀, rem₀)
    -- `a || b ? c : d` of the source groups as `(a || b) ? c : d`.
    if (if overflow ∨ sign &&& 0x80000000 ≠ 0 then quot > 0x80000000 else quot > 0x7fffffff) then
      .ok regs.divOverflow
    else
      let quot := if sign &&& 0x80000000 ≠ 0 then -quot else quot
      let rem := if rem.slt 0 ≠ saveHigh.slt 0 then -rem else rem
      .ok (regs.divStore extra quot rem)
  else
    -- unsigned
    let lo := regs.dreg (extraDq extra)
    let hi := if extraQuad extra then regs.dreg (extraDr extra) else 0
    match divUnsigned hi lo src with
    | none => .ok regs.divOverflow
    | some (quot, rem) => .ok (regs.divStore extra quot rem)

-- The loop of `div_unsigned` is restoring division on the values of its words.

def DivState.values (s : DivState) : RestoringDivision.State :=
  ⟨s.srcHi.toNat, s.srcLo.toNat, s.q.toNat⟩

variable (x : BitVec 32)

theorem and_signBit_ne_zero : x &&& 0x80000000 ≠ 0 ↔ 2 ^ 31 ≤ x.toNat := by
  have bit : (x &&& 0x80000000).toNat = (x.toNat.testBit 31).toNat * 2 ^ 31 := by
    rw [BitVec.toNat_and]
    exact Nat.and_two_pow x.toNat 31
  rw [ne_eq, ← BitVec.toNat_inj, bit, Nat.testBit_eq_decide_div_mod_eq]
  have := x.isLt
  by_cases set : x.toNat / 2 ^ 31 % 2 = 1
  · simp only [set, decide_true, Bool.toNat_true]
    simp
    omega
  · simp only [set, decide_false, Bool.toNat_false]
    simp
    omega

theorem toNat_shiftLeft_one : (x <<< 1).toNat = 2 * x.toNat % 2 ^ 32 := by
  rw [BitVec.toNat_shiftLeft, Nat.shiftLeft_eq, Nat.mul_comm]

theorem toNat_shiftLeft_or_one {x : BitVec 32} (room : x.toNat < 2 ^ 31) :
    (x <<< 1 ||| 1).toNat = 2 * x.toNat + 1 := by
  rw [BitVec.toNat_or, toNat_shiftLeft_one, Nat.mod_eq_of_lt (by omega)]
  exact (Nat.two_pow_add_eq_or_of_lt (i := 1) (b := 1) (by decide) x.toNat).symm

theorem divStep_values {div : BitVec 32} {s : DivState} (reduced : s.srcHi.toNat < div.toNat)
    (room : s.q.toNat < 2 ^ 31) :
    (divStep div s).values = RestoringDivision.step 32 div.toNat s.values := by
  have div_lt := div.isLt
  have lo_lt := s.srcLo.isLt
  -- The shifted partial remainder, whose 33rd bit is `cbit`.
  obtain ⟨srcHi, hi_def⟩ : ∃ h, h = if s.srcLo &&& 0x80000000 ≠ 0 then s.srcHi <<< 1 + 1
      else s.srcHi <<< 1 := ⟨_, rfl⟩
  have hi_value : srcHi.toNat = (2 * s.srcHi.toNat + s.srcLo.toNat / 2 ^ 31) % 2 ^ 32 := by
    rw [hi_def]
    split
    next set =>
      rw [and_signBit_ne_zero] at set
      rw [BitVec.toNat_add, toNat_shiftLeft_one]
      simp
      omega
    next clear =>
      rw [and_signBit_ne_zero] at clear
      rw [toNat_shiftLeft_one]
      omega
  have fits : (s.srcHi &&& 0x80000000 ≠ 0 ∨ div ≤ srcHi) ↔
      div.toNat ≤ 2 * s.srcHi.toNat + s.srcLo.toNat / 2 ^ 31 := by
    rw [and_signBit_ne_zero, BitVec.le_def]
    omega
  simp only [divStep, ← hi_def, DivState.values, RestoringDivision.step, fits]
  split
  next fit =>
    have subtracted : (srcHi - div).toNat =
        2 * s.srcHi.toNat + s.srcLo.toNat / 2 ^ 31 - div.toNat := by
      rw [BitVec.toNat_sub]
      omega
    simp only [subtracted, toNat_shiftLeft_one, toNat_shiftLeft_or_one room]
    exact (if_pos fit).symm
  next small =>
    have unchanged : srcHi.toNat = 2 * s.srcHi.toNat + s.srcLo.toNat / 2 ^ 31 := by omega
    have quot : 2 * s.q.toNat < 2 ^ 32 := by omega
    simp only [unchanged, toNat_shiftLeft_one, Nat.mod_eq_of_lt quot]
    exact (if_neg small).symm

theorem divStep_iterate {hi lo div : BitVec 32} (above : hi < div) {n : Nat} (steps : n ≤ 32) :
    ((divStep div)^[n] ⟨hi, lo, 0⟩).values =
      (RestoringDivision.step 32 div.toNat)^[n] ⟨hi.toNat, lo.toNat, 0⟩ := by
  induction n with
  | zero => rfl
  | succ n ih =>
    have before := ih (by omega)
    obtain ⟨reduced, _, quot⟩ := RestoringDivision.iterate_invariant (w := 32) (by decide)
      (s := ⟨hi.toNat, lo.toNat, 0⟩) ⟨above, lo.isLt⟩ rfl n
    rw [← before] at reduced quot
    have room : 2 ^ n ≤ 2 ^ 31 := Nat.pow_le_pow_right (by decide) (by omega)
    rw [Function.iterate_succ_apply', Function.iterate_succ_apply', ← before]
    exact divStep_values reduced.rem_lt (Nat.lt_of_lt_of_le quot room)

theorem divUnsigned_eq (hi lo div : BitVec 32) :
    divUnsigned hi lo div =
      if div.toNat ≤ hi.toNat then none
      else some (BitVec.ofNat 32 ((hi.toNat * 2 ^ 32 + lo.toNat) / div.toNat),
        BitVec.ofNat 32 ((hi.toNat * 2 ^ 32 + lo.toNat) % div.toNat)) := by
  simp only [divUnsigned, BitVec.le_def]
  split
  · rfl
  next above =>
    have below : hi < div := Nat.lt_of_not_le above
    obtain ⟨quot, rem⟩ := RestoringDivision.iterate_divides (w := 32) (by decide) below lo.isLt
    rw [← divStep_iterate below (Nat.le_refl 32)] at quot rem
    simp only [DivState.values] at quot rem
    rw [← quot, ← rem, BitVec.ofNat_toNat, BitVec.ofNat_toNat, BitVec.setWidth_eq,
      BitVec.setWidth_eq]

-- The signed dividend as a number, and as the two words the portable branch takes apart.

def signedDividend (regs : Regs) (extra : BitVec 16) : BitVec 64 :=
  divlDividend regs extra ((regs.dreg (extraDq extra)).signExtend 64)

def signedHigh (regs : Regs) (extra : BitVec 16) : BitVec 32 :=
  if extraQuad extra then regs.dreg (extraDr extra)
  else if (regs.dreg (extraDq extra)).slt 0 then -1 else 0

theorem slt_zero_iff : x.slt 0 = true ↔ 2 ^ 31 ≤ x.toNat := by
  have sign : x.slt 0 = x.msb := BitVec.slt_zero_eq_msb
  rw [sign, BitVec.msb_eq_decide, decide_eq_true_iff]

theorem toInt_cases :
    x.toInt = if x.slt 0 = true then (x.toNat : Int) - 2 ^ 32 else (x.toNat : Int) := by
  have x_lt := x.isLt
  rw [BitVec.toInt_eq_toNat_cond]
  simp only [slt_zero_iff]
  split <;> split <;> omega

theorem low_word_replaced (a : BitVec 64) (hi : BitVec 32) :
    ((a &&& 0xffffffff#64) ||| (hi.zeroExtend 64 <<< 32)) = hi ++ a.setWidth 32 := by
  have mask : ∀ i < 64, (0xffffffff#64).getLsbD i = decide (i < 32) := by decide
  apply BitVec.eq_of_getLsbD_eq
  intro i inside
  rw [BitVec.getLsbD_or, BitVec.getLsbD_and, mask i inside, BitVec.getLsbD_append]
  by_cases low : i < 32
  · simp [low, inside]
  · have in_high : i - 32 < 32 := by omega
    simp [low, inside]

theorem signExtend_words (lo : BitVec 32) :
    lo.signExtend 64 = (if lo.slt 0 then -1 else 0 : BitVec 32) ++ lo := by
  apply BitVec.eq_of_toInt_eq
  rw [BitVec.toInt_signExtend_of_le (by decide), BitVec.toInt_append, if_neg (by decide),
    toInt_cases]
  split
  · have ones : (-1 : BitVec 32).toInt = -1 := by decide
    rw [ones]
    omega
  · have zero : (0 : BitVec 32).toInt = 0 := by decide
    rw [zero]
    omega

theorem signedDividend_words (regs : Regs) (extra : BitVec 16) :
    signedDividend regs extra = signedHigh regs extra ++ regs.dreg (extraDq extra) := by
  simp only [signedDividend, divlDividend, signedHigh]
  split
  · refine (low_word_replaced _ _).trans ?_
    congr 1
    apply BitVec.eq_of_getLsbD_eq
    intro i inside
    rw [BitVec.getLsbD_setWidth, BitVec.getLsbD_signExtend]
    simp [inside, show i < 64 by omega]
  · exact signExtend_words _

theorem append_toNat (hi lo : BitVec 32) : (hi ++ lo).toNat = hi.toNat * 2 ^ 32 + lo.toNat := by
  rw [BitVec.toNat_append, ← Nat.shiftLeft_add_eq_or_of_lt lo.isLt, Nat.shiftLeft_eq]

theorem append_negative_iff (hi lo : BitVec 32) : hi.slt 0 = true ↔ (hi ++ lo).toInt < 0 := by
  have hi_lt := hi.isLt
  have lo_lt := lo.isLt
  rw [BitVec.toInt_append, if_neg (by decide), toInt_cases]
  simp only [slt_zero_iff]
  split <;> omega

theorem negate_append (hi lo : BitVec 32) :
    (if -lo = 0 then ~~~hi + 1 else ~~~hi) ++ -lo = -(hi ++ lo) := by
  have hi_lt := hi.isLt
  have lo_lt := lo.isLt
  have lo_neg : (-lo).toNat = (2 ^ 32 - lo.toNat) % 2 ^ 32 := BitVec.toNat_neg lo
  have carry : -lo = 0 ↔ lo.toNat = 0 := by
    rw [← BitVec.toNat_inj, lo_neg]
    simp
    omega
  apply BitVec.eq_of_toNat_eq
  rw [append_toNat, BitVec.toNat_neg (hi ++ lo), append_toNat]
  by_cases zero : lo.toNat = 0
  · have advanced : ~~~hi + 1 = -hi := (BitVec.neg_eq_not_add hi).symm
    rw [if_pos (carry.mpr zero), advanced, BitVec.toNat_neg, lo_neg]
    omega
  · rw [if_neg (mt carry.mp zero), BitVec.toNat_not, lo_neg]
    omega

theorem negateNegative_value (hi lo : BitVec 32) :
    (negateNegative hi lo).1.toNat * 2 ^ 32 + (negateNegative hi lo).2.toNat =
      (hi ++ lo).toInt.natAbs := by
  have below := (hi ++ lo).isLt
  have sign := append_negative_iff hi lo
  rw [BitVec.toInt_eq_toNat_cond] at sign ⊢
  simp only [negateNegative]
  by_cases negative : hi.slt 0 = true
  · have value := sign.mp negative
    rw [if_pos negative, ← append_toNat, negate_append, BitVec.toNat_neg]
    split at value <;> omega
  · have value := mt sign.mpr negative
    rw [if_neg negative]
    simp only [← append_toNat]
    split at value <;> omega

theorem toNat_magnitude : (if x.slt 0 = true then -x else x).toNat = x.toInt.natAbs := by
  have x_lt := x.isLt
  rw [toInt_cases]
  split
  next negative =>
    rw [slt_zero_iff] at negative
    rw [BitVec.toNat_neg]
    omega
  · omega

/-- A mask of the bits from `k` on clears those below. -/
theorem toNat_and_high {w : Nat} (x mask : BitVec w) (k : Nat)
    (bits : ∀ i < w, mask.getLsbD i = decide (k ≤ i)) :
    (x &&& mask).toNat = x.toNat / 2 ^ k * 2 ^ k := by
  have shifted : x &&& mask = (x >>> k) <<< k := by
    apply BitVec.eq_of_getLsbD_eq
    intro i inside
    rw [BitVec.getLsbD_and, bits i inside, BitVec.getLsbD_shiftLeft, BitVec.getLsbD_ushiftRight]
    by_cases high : k ≤ i
    · simp [high, inside, show ¬ i < k by omega, show k + (i - k) = i by omega]
    · simp [high, show i < k by omega]
  have kept : x.toNat / 2 ^ k * 2 ^ k ≤ x.toNat := Nat.div_mul_le_self _ _
  rw [shifted, BitVec.toNat_shiftLeft, BitVec.toNat_ushiftRight, Nat.shiftRight_eq_div_pow,
    Nat.shiftLeft_eq, Nat.mod_eq_of_lt (Nat.lt_of_le_of_lt kept x.isLt)]

theorem divlQuadOverflows_iff (quot : BitVec 64) :
    divlQuadOverflows quot = true ↔ ¬ (-2 ^ 31 ≤ quot.toInt ∧ quot.toInt < 2 ^ 31) := by
  have quot_lt := quot.isLt
  have bits := toNat_and_high quot 0xffffffff80000000#64 31 (by decide)
  have zero : quot &&& 0xffffffff80000000#64 = 0 ↔ quot.toNat / 2 ^ 31 * 2 ^ 31 = 0 := by
    rw [← bits, ← BitVec.toNat_inj]
    rfl
  have ones : quot &&& 0xffffffff80000000#64 = 0xffffffff80000000 ↔
      quot.toNat / 2 ^ 31 * 2 ^ 31 = 0xffffffff80000000 := by
    rw [← bits, ← BitVec.toNat_inj]
    rfl
  have unfolded : divlQuadOverflows quot = true ↔
      quot &&& 0xffffffff80000000#64 ≠ 0 ∧
        quot &&& 0xffffffff80000000#64 ≠ 0xffffffff80000000 := by
    simp only [divlQuadOverflows, decide_eq_true_iff]
    rfl
  rw [unfolded, ne_eq, ne_eq, zero, ones, BitVec.toInt_eq_toNat_cond]
  split <;> omega

-- Truncated division by way of the magnitudes.

theorem tdiv_magnitude (a s : Int) :
    a.tdiv s = if a < 0 ↔ s < 0 then ((a.natAbs / s.natAbs : Nat) : Int)
      else -((a.natAbs / s.natAbs : Nat) : Int) := by
  have magnitudes := Int.ofNat_tdiv a.natAbs s.natAbs
  by_cases negative : a < 0
  · have a_eq : a = -(a.natAbs : Int) := by omega
    by_cases divisor : s < 0
    · have s_eq : s = -(s.natAbs : Int) := by omega
      rw [if_pos (by simp [negative, divisor]), magnitudes, ← Int.neg_tdiv_neg (a.natAbs : Int),
        ← a_eq, ← s_eq]
    · have s_eq : s = (s.natAbs : Int) := by omega
      rw [if_neg (by simp [negative, divisor]), magnitudes, ← Int.neg_tdiv, ← a_eq, ← s_eq]
  · have a_eq : a = (a.natAbs : Int) := by omega
    by_cases divisor : s < 0
    · have s_eq : s = -(s.natAbs : Int) := by omega
      rw [if_neg (by simp [negative, divisor]), magnitudes, ← Int.tdiv_neg, ← a_eq, ← s_eq]
    · have s_eq : s = (s.natAbs : Int) := by omega
      rw [if_pos (by simp [negative, divisor]), magnitudes, ← a_eq, ← s_eq]

theorem tmod_magnitude (a s : Int) :
    a.tmod s = if a < 0 then -((a.natAbs % s.natAbs : Nat) : Int)
      else ((a.natAbs % s.natAbs : Nat) : Int) := by
  have magnitudes := Int.ofNat_tmod a.natAbs s.natAbs
  have s_eq : ∀ x : Int, x.tmod s = x.tmod s.natAbs := by
    intro x
    obtain same | negated := Int.natAbs_eq s
    · rw [← same]
    · conv_lhs => rw [negated, Int.tmod_neg]
  by_cases negative : a < 0
  · have a_eq : a = -(a.natAbs : Int) := by omega
    rw [if_pos negative, magnitudes, ← Int.neg_tmod, ← a_eq, s_eq]
  · have a_eq : a = (a.natAbs : Int) := by omega
    rw [if_neg negative, magnitudes, ← a_eq, s_eq]

/-- The quotient and the remainder the signed variant stores, or its overflow. -/
def Regs.divSigned (regs : Regs) (extra : BitVec 16) (a s : Int) : Regs :=
  if -2 ^ 31 ≤ a.tdiv s ∧ a.tdiv s < 2 ^ 31 then
    regs.divStore extra (BitVec.ofInt 32 (a.tdiv s)) (BitVec.ofInt 32 (a.tmod s))
  else regs.divOverflow

theorem setWidth_eq_ofInt (x : BitVec 64) : x.setWidth 32 = BitVec.ofInt 32 x.toInt := by
  have x_lt := x.isLt
  apply BitVec.eq_of_toNat_eq
  rw [BitVec.toNat_setWidth, BitVec.toNat_ofInt, BitVec.toInt_eq_toNat_cond]
  split <;> omega

/-- The remainder has the sign of the dividend already, so signing it again changes nothing. -/
theorem signed_remainder {a rem : BitVec 64} {s : Int} (value : rem.toInt = a.toInt.tmod s)
    (small : s.natAbs ≤ 2 ^ 31) (nonzero : s ≠ 0) :
    (if (rem.setWidth 32).slt 0 ≠ a.slt 0 then -rem else rem) = rem := by
  have rem_lt := rem.isLt
  have magnitude := tmod_magnitude a.toInt s
  have below : a.toInt.natAbs % s.natAbs < s.natAbs := Nat.mod_lt _ (by omega)
  have negative : a.slt 0 = true ↔ a.toInt < 0 := BitVec.slt_iff_toInt_lt
  split
  next differ =>
    have unsigned := BitVec.toInt_eq_toNat_cond rem
    have low : (rem.setWidth 32).slt 0 = true ↔ rem.toInt < 0 := by
      rw [slt_zero_iff, BitVec.toNat_setWidth]
      split at magnitude <;> split at unsigned <;> omega
    have zero : rem.toNat = 0 := by
      rw [ne_eq, Bool.eq_iff_iff, low, negative] at differ
      split at magnitude <;> split at unsigned <;> omega
    have rem_zero : rem = 0 := BitVec.eq_of_toNat_eq zero
    rw [rem_zero]
    decide
  · rfl

theorem m68kDivl_signed (regs : Regs) {src : BitVec 32} {extra : BitVec 16} (nonzero : src ≠ 0)
    (signed : extraSigned extra = true) :
    m68kDivl regs src extra =
      .ok (regs.divSigned extra (signedDividend regs extra).toInt src.toInt) := by
  simp only [m68kDivl, if_neg nonzero, if_pos signed]
  rw [← signedDividend]
  generalize signedDividend regs extra = a
  have extended : (src.signExtend 64).toInt = src.toInt := BitVec.toInt_signExtend_of_le (by decide)
  obtain ⟨quot, quot_def⟩ : ∃ quot, quot = a.sdiv (src.signExtend 64) := ⟨_, rfl⟩
  obtain ⟨rem, rem_def⟩ : ∃ rem, rem = a.srem (src.signExtend 64) := ⟨_, rfl⟩
  have quot_value : quot.toInt = (a.toInt.tdiv src.toInt).bmod (2 ^ 64) := by
    rw [quot_def, BitVec.toInt_sdiv, extended]
  have rem_value : rem.toInt = a.toInt.tmod src.toInt := by
    rw [rem_def, BitVec.toInt_srem, extended]
  have src_nonzero : src.toInt ≠ 0 := fun zero => nonzero (BitVec.eq_of_toInt_eq zero)
  have src_small : src.toInt.natAbs ≤ 2 ^ 31 := by
    have := @BitVec.toInt_lt 32 src
    have := @BitVec.le_toInt 32 src
    omega
  have quot_small : (a.toInt.tdiv src.toInt).natAbs ≤ 2 ^ 63 := by
    have := @BitVec.toInt_lt 64 a
    have := @BitVec.le_toInt 64 a
    have := Int.natAbs_tdiv_le_natAbs a.toInt src.toInt
    omega
  -- Only `2 ^ 63` wraps, and it wraps out of range.
  have in_range : (-2 ^ 31 ≤ quot.toInt ∧ quot.toInt < 2 ^ 31) ↔
      (-2 ^ 31 ≤ a.toInt.tdiv src.toInt ∧ a.toInt.tdiv src.toInt < 2 ^ 31) := by
    rw [quot_value, Int.bmod_def]
    split <;> omega
  rw [← quot_def, ← rem_def, signed_remainder rem_value src_small src_nonzero,
    setWidth_eq_ofInt, setWidth_eq_ofInt, rem_value, Regs.divSigned]
  by_cases fits : -2 ^ 31 ≤ a.toInt.tdiv src.toInt ∧ a.toInt.tdiv src.toInt < 2 ^ 31
  · have exact_quot : quot.toInt = a.toInt.tdiv src.toInt := by
      rw [quot_value, Int.bmod_def]
      split <;> omega
    have no_overflow : ¬ divlQuadOverflows quot = true := by
      rw [divlQuadOverflows_iff, in_range]
      exact not_not_intro fits
    rw [if_neg no_overflow, if_pos fits, exact_quot]
  · have overflow : divlQuadOverflows quot = true := by
      rw [divlQuadOverflows_iff, in_range]
      exact fits
    rw [if_pos overflow, if_neg fits]

theorem xor_negative_iff (y : BitVec 32) :
    (x ^^^ y) &&& 0x80000000 ≠ 0 ↔ ¬ (x.slt 0 = true ↔ y.slt 0 = true) := by
  have msb_x : x.slt 0 = x.msb := BitVec.slt_zero_eq_msb
  have msb_y : y.slt 0 = y.msb := BitVec.slt_zero_eq_msb
  have sign := slt_zero_iff (x ^^^ y)
  have msb_xor : (x ^^^ y).slt 0 = (x ^^^ y).msb := BitVec.slt_zero_eq_msb
  rw [and_signBit_ne_zero, ← sign, msb_xor, msb_x, msb_y, BitVec.msb_xor]
  cases x.msb <;> cases y.msb <;> decide

/-- `div_unsigned` of the portable signed variant works on the magnitudes. -/
theorem divUnsigned_magnitudes (hi lo src : BitVec 32) :
    divUnsigned (negateNegative hi lo).1 (negateNegative hi lo).2
        (if src.slt 0 = true then -src else src) =
      if src.toInt.natAbs ≤ (hi ++ lo).toInt.natAbs / 2 ^ 32 then none
      else some (BitVec.ofNat 32 ((hi ++ lo).toInt.natAbs / src.toInt.natAbs),
        BitVec.ofNat 32 ((hi ++ lo).toInt.natAbs % src.toInt.natAbs)) := by
  have value := negateNegative_value hi lo
  have low := (negateNegative hi lo).2.isLt
  have high : (negateNegative hi lo).1.toNat = (hi ++ lo).toInt.natAbs / 2 ^ 32 := by omega
  rw [divUnsigned_eq, toNat_magnitude, value, high]

theorem negative_iff : x.slt 0 = true ↔ x.toInt < 0 :=
  BitVec.slt_iff_toInt_lt

/-- Where `div_unsigned` does not overflow, the range test is the test of the signed quotient. -/
theorem portable_overflow_iff {q : Nat} (word : q < 2 ^ 32) (same : Prop) [Decidable same]
    (sign : BitVec 32) (differ : sign &&& 0x80000000 ≠ 0 ↔ ¬ same) :
    (if false = true ∨ sign &&& 0x80000000 ≠ 0 then BitVec.ofNat 32 q > 0x80000000
      else BitVec.ofNat 32 q > 0x7fffffff) ↔
      ¬ (-2 ^ 31 ≤ (if same then (q : Int) else -q) ∧ (if same then (q : Int) else -q) < 2 ^ 31) := by
  have value : (BitVec.ofNat 32 q).toNat = q := by
    rw [BitVec.toNat_ofNat, Nat.mod_eq_of_lt word]
  have limit : (0x80000000 : BitVec 32).toNat = 2 ^ 31 := by decide
  have limit' : (0x7fffffff : BitVec 32).toNat = 2 ^ 31 - 1 := by decide
  simp only [Bool.false_eq_true, false_or, differ, gt_iff_lt, BitVec.lt_def, value, limit, limit']
  by_cases holds : same
  · simp only [holds, not_true, if_true, if_false]
    omega
  · simp only [holds, not_false_eq_true, if_true, if_false]
    omega

theorem m68kDivlPortable_signed (quot₀ rem₀ : BitVec 32) (regs : Regs) {src : BitVec 32}
    {extra : BitVec 16} (nonzero : src ≠ 0) (signed : extraSigned extra = true)
    (fits : ¬ src.toInt.natAbs ≤ (signedDividend regs extra).toInt.natAbs / 2 ^ 32) :
    m68kDivlPortable quot₀ rem₀ regs src extra =
      .ok (regs.divSigned extra (signedDividend regs extra).toInt src.toInt) := by
  rw [signedDividend_words] at fits ⊢
  have divided := divUnsigned_magnitudes (signedHigh regs extra) (regs.dreg (extraDq extra)) src
  rw [if_neg fits] at divided
  simp only [m68kDivlPortable, if_neg nonzero, if_pos signed]
  rw [← signedHigh]
  simp only [divided, Option.isNone_some, Option.getD_some]
  have negative := append_negative_iff (signedHigh regs extra) (regs.dreg (extraDq extra))
  have sign := xor_negative_iff (signedHigh regs extra) src
  rw [negative, negative_iff] at sign
  have quotient :=
    tdiv_magnitude (signedHigh regs extra ++ regs.dreg (extraDq extra)).toInt src.toInt
  have remainder :=
    tmod_magnitude (signedHigh regs extra ++ regs.dreg (extraDq extra)).toInt src.toInt
  generalize (signedHigh regs extra ++ regs.dreg (extraDq extra)).toInt = a at *
  obtain ⟨q, q_def⟩ : ∃ q, q = a.natAbs / src.toInt.natAbs := ⟨_, rfl⟩
  obtain ⟨r, r_def⟩ : ∃ r, r = a.natAbs % src.toInt.natAbs := ⟨_, rfl⟩
  rw [← q_def] at quotient ⊢
  rw [← r_def] at remainder ⊢
  have src_nonzero : src.toInt ≠ 0 := fun zero => nonzero (BitVec.eq_of_toInt_eq zero)
  have q_word : q < 2 ^ 32 := by
    rw [q_def]
    apply Nat.div_lt_of_lt_mul
    omega
  have r_small : r < 2 ^ 31 := by
    have := @BitVec.toInt_lt 32 src
    have := @BitVec.le_toInt 32 src
    have : r < src.toInt.natAbs := r_def ▸ Nat.mod_lt _ (by omega)
    omega
  have overflow := portable_overflow_iff q_word _ _ sign
  rw [← quotient] at overflow
  have quot_eq : (if (signedHigh regs extra ^^^ src) &&& 0x80000000 ≠ 0 then -BitVec.ofNat 32 q
      else BitVec.ofNat 32 q) = BitVec.ofInt 32 (a.tdiv src.toInt) := by
    rw [quotient]
    by_cases same : a < 0 ↔ src.toInt < 0
    · rw [if_pos same, if_neg (fun differ => sign.mp differ same)]
      exact (BitVec.ofInt_natCast 32 q).symm
    · rw [if_neg same, if_pos (sign.mpr same), BitVec.ofInt_neg, BitVec.ofInt_natCast]
  have rem_eq : (if (BitVec.ofNat 32 r).slt 0 ≠ (signedHigh regs extra).slt 0
      then -BitVec.ofNat 32 r else BitVec.ofNat 32 r) = BitVec.ofInt 32 (a.tmod src.toInt) := by
    have positive : (BitVec.ofNat 32 r).slt 0 = false := by
      rw [← Bool.not_eq_true, slt_zero_iff, BitVec.toNat_ofNat]
      omega
    rw [remainder, positive]
    by_cases below : a < 0
    · rw [if_pos below, if_pos (by rw [negative.mpr below]; decide), BitVec.ofInt_neg,
        BitVec.ofInt_natCast]
    · have nonnegative : (signedHigh regs extra).slt 0 = false := by
        rw [← Bool.not_eq_true, negative]
        exact below
      rw [if_neg below, if_neg (by rw [nonnegative]; decide), BitVec.ofInt_natCast]
  rw [quot_eq, rem_eq, Regs.divSigned]
  by_cases range : -2 ^ 31 ≤ a.tdiv src.toInt ∧ a.tdiv src.toInt < 2 ^ 31
  · rw [if_pos range, if_neg (fun wraps => overflow.mp wraps range)]
  · rw [if_neg range, if_pos (overflow.mpr range)]

-- The unsigned variant.

def unsignedDividend (regs : Regs) (extra : BitVec 16) : BitVec 64 :=
  divlDividend regs extra ((regs.dreg (extraDq extra)).zeroExtend 64)

theorem toNat_zeroExtend_word : (x.zeroExtend 64).toNat = x.toNat := by
  have word := x.isLt
  rw [BitVec.zeroExtend, BitVec.toNat_setWidth, Nat.mod_eq_of_lt (by omega)]

theorem unsignedDividend_words (regs : Regs) (extra : BitVec 16) :
    unsignedDividend regs extra =
      (if extraQuad extra then regs.dreg (extraDr extra) else 0) ++ regs.dreg (extraDq extra) := by
  simp only [unsignedDividend, divlDividend]
  split
  · refine (low_word_replaced _ _).trans ?_
    simp
  · apply BitVec.eq_of_toNat_eq
    rw [append_toNat, toNat_zeroExtend_word]
    simp

theorem divl_unsigned_agrees (quot₀ rem₀ : BitVec 32) (regs : Regs) {src : BitVec 32}
    {extra : BitVec 16} (nonzero : src ≠ 0) (unsigned : ¬ extraSigned extra = true) :
    m68kDivlPortable quot₀ rem₀ regs src extra = m68kDivl regs src extra := by
  simp only [m68kDivlPortable, m68kDivl, if_neg nonzero, if_neg unsigned]
  rw [← unsignedDividend, unsignedDividend_words]
  generalize (if extraQuad extra = true then regs.dreg (extraDr extra) else 0) = hi
  generalize regs.dreg (extraDq extra) = lo
  have src_lt := src.isLt
  have lo_lt := lo.isLt
  have src_positive : 0 < src.toNat :=
    Nat.pos_of_ne_zero fun zero => nonzero (BitVec.eq_of_toNat_eq zero)
  have quot_value : ((hi ++ lo).udiv (src.zeroExtend 64)).toNat =
      (hi.toNat * 2 ^ 32 + lo.toNat) / src.toNat := by
    rw [BitVec.udiv_eq, BitVec.toNat_udiv, toNat_zeroExtend_word, append_toNat]
  have rem_value : ((hi ++ lo).umod (src.zeroExtend 64)).toNat =
      (hi.toNat * 2 ^ 32 + lo.toNat) % src.toNat := by
    rw [BitVec.umod_eq, BitVec.toNat_umod, toNat_zeroExtend_word, append_toNat]
  have overflow : (hi ++ lo).udiv (src.zeroExtend 64) > 0xffffffff ↔ src.toNat ≤ hi.toNat := by
    have limit : (0xffffffff : BitVec 64).toNat = 2 ^ 32 - 1 := by decide
    rw [gt_iff_lt, BitVec.lt_def, quot_value, limit]
    constructor
    · intro large
      by_contra above
      have : (hi.toNat * 2 ^ 32 + lo.toNat) / src.toNat < 2 ^ 32 := by
        apply Nat.div_lt_of_lt_mul
        have : (hi.toNat + 1) * 2 ^ 32 ≤ src.toNat * 2 ^ 32 := Nat.mul_le_mul_right _ (by omega)
        omega
      omega
    · intro above
      have : 2 ^ 32 ≤ (hi.toNat * 2 ^ 32 + lo.toNat) / src.toNat := by
        rw [Nat.le_div_iff_mul_le src_positive]
        omega
      omega
  rw [divUnsigned_eq]
  by_cases above : src.toNat ≤ hi.toNat
  · rw [if_pos above, if_pos (overflow.mpr above)]
  · rw [if_neg above, if_neg (fun large => above (overflow.mp large))]
    simp only [← quot_value, ← rem_value, BitVec.ofNat_toNat]

/-- The two branches agree, whatever the locals hold, unless the signed variant is in use and
the divisor's magnitude does not exceed the high word of the dividend's. -/
theorem divl_branches_agree_iff (regs : Regs) (src : BitVec 32) (extra : BitVec 16)
    (nonzero : src ≠ 0) :
    (∀ quot₀ rem₀, m68kDivlPortable quot₀ rem₀ regs src extra = m68kDivl regs src extra) ↔
      ¬ (extraSigned extra = true ∧
        src.toInt.natAbs ≤ (signedDividend regs extra).toInt.natAbs / 2 ^ 32) := by
  by_cases signed : extraSigned extra = true
  · by_cases high : src.toInt.natAbs ≤ (signedDividend regs extra).toInt.natAbs / 2 ^ 32
    · refine iff_of_false (fun agree => ?_) (fun fits => fits ⟨signed, high⟩)
      have src_nonzero : src.toInt ≠ 0 := fun zero => nonzero (BitVec.eq_of_toInt_eq zero)
      -- The quotient needs more than 32 bits.
      have large : ¬ (-2 ^ 31 ≤ (signedDividend regs extra).toInt.tdiv src.toInt ∧
          (signedDividend regs extra).toInt.tdiv src.toInt < 2 ^ 31) := by
        have : 2 ^ 32 ≤ (signedDividend regs extra).toInt.natAbs / src.toInt.natAbs := by
          rw [Nat.le_div_iff_mul_le (by omega)]
          omega
        rw [tdiv_magnitude]
        split <;> omega
      have wide := m68kDivl_signed regs nonzero signed
      rw [Regs.divSigned, if_neg large] at wide
      -- With zero in `quot` the portable branch stores it.
      have stored : ∃ quot rem, m68kDivlPortable 0 0 regs src extra =
          .ok (regs.divStore extra quot rem) := by
        rw [signedDividend_words] at high
        have divided :=
          divUnsigned_magnitudes (signedHigh regs extra) (regs.dreg (extraDq extra)) src
        rw [if_pos high] at divided
        simp only [m68kDivlPortable, if_neg nonzero, if_pos signed]
        rw [← signedHigh]
        simp only [divided, Option.isNone_none, Option.getD_none, true_or, if_true]
        exact ⟨_, _, if_neg (by decide)⟩
      obtain ⟨quot, rem, stored⟩ := stored
      have same := (stored.symm.trans (agree 0 0)).trans wide
      have overflow_flag := congrArg (fun r => r.map fun regs : Regs => regs.flags.v) same
      cases overflow_flag
    · refine iff_of_true (fun quot₀ rem₀ => ?_) (fun fails => high fails.2)
      rw [m68kDivl_signed regs nonzero signed,
        m68kDivlPortable_signed quot₀ rem₀ regs nonzero signed high]
  · exact iff_of_true (fun quot₀ rem₀ => divl_unsigned_agrees quot₀ rem₀ regs nonzero signed)
      (fun fails => signed fails.1)

def zeroRegs : Regs :=
  ⟨fun _ => 0, fun _ => 0, 0, 0, 0, 0, 0, 0, 0, false, false, false, false,
    ⟨false, false, false, false, false⟩⟩

/-- `-7` divided by 2, with junk in the locals. -/
theorem divl_agree_minus_seven :
    m68kDivlPortable 0xdeadbeef 0xdeadbeef
      { zeroRegs with dreg := fun k => if k = 0 then -7 else -1 } 2 0x0c01 =
        m68kDivl { zeroRegs with dreg := fun k => if k = 0 then -7 else -1 } 2 0x0c01 :=
  (divl_branches_agree_iff _ 2 0x0c01 (by decide)).mpr (by decide) _ _

/-- `DIVS.L` of `1:0` by 1: the portable branch decides on what `quot` happened to hold. -/
theorem divl_branches_differ :
    ¬ ∀ (quot₀ rem₀ : BitVec 32) (regs : Regs) (src : BitVec 32) (extra : BitVec 16), src ≠ 0 →
      m68kDivlPortable quot₀ rem₀ regs src extra = m68kDivl regs src extra := by
  intro agree
  have same := agree 0 0 { zeroRegs with dreg := fun k => if k = 1 then 1 else 0 } 1 0x0c01
    (by decide)
  have overflow_flag := congrArg (fun r => r.map fun regs : Regs => regs.flags.v) same
  exact absurd overflow_flag (by decide)

end BasiliskII.Cpu
