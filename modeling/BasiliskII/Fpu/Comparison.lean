import Mathlib
import BasiliskII.Fpu.Arithmetic

/-!
# FCMP and the classes of numbers

FCMP subtracts, and the condition codes classify the difference. softfloat's own infinity has the
integer bit set, and fpu_soft.cpp takes it for a NaN; what `make_extended` makes of an infinity it
takes for a number. The subtraction of softfloat is assumed to be correct.
-/
namespace BasiliskII.Fpu

open BinaryRounding Cpu

def signOf (x : Floatx80) : Bool := x.high &&& 0x8000 ≠ 0

def exponentOf (x : Floatx80) : BitVec 16 := x.high &&& 0x7fff

/-- Zero, a denormal or a normal number. -/
def FiniteNumber (x : Floatx80) : Prop :=
  exponentOf x = 0 ∧ x.low.msb = false ∨
    exponentOf x ≠ 0 ∧ exponentOf x ≠ 0x7fff ∧ x.low.msb = true

instance FiniteNumber.decidable (x : Floatx80) : Decidable (FiniteNumber x) :=
  inferInstanceAs (Decidable (_ ∧ _ ∨ _ ∧ _ ∧ _))

/-- A finite number, counted in the smallest denormal. -/
def finiteValue (x : Floatx80) : Int :=
  let magnitude : Int := x.low.toNat * 2 ^ ((exponentOf x).toNat - 1)
  if signOf x then -magnitude else magnitude

/-- Where infinities come from: an operation of softfloat, an operand of extended precision, and
the infinity code in `set_fpccr`. -/
inductive InfinityKind
  | softfloat | loaded | code
  deriving DecidableEq, Repr

def InfinityKind.number (kind : InfinityKind) (negative : Bool) : Floatx80 :=
  match kind with
  | .softfloat => packFloatx80 (if negative then 1 else 0) 0x7fff 0x8000000000000000
  | .loaded => makeExtended (if negative then 0xffff0000 else 0x7fff0000) 0 0
  | .code => packFloatx80 (if negative then 1 else 0) 0x7fff 0

def infinities : List Floatx80 :=
  [InfinityKind.softfloat, .loaded, .code].flatMap fun kind => [kind.number false, kind.number true]

/-- The numbers that can be in a register and are no NaNs. -/
def RegisterNumber (x : Floatx80) : Prop := FiniteNumber x ∨ x ∈ infinities

def valueOf (x : Floatx80) : WithBot (WithTop Int) :=
  if x ∈ infinities then (if signOf x then ⊥ else ((⊤ : WithTop Int) : WithBot (WithTop Int)))
  else ((finiteValue x : WithTop Int) : WithBot (WithTop Int))

/-! ### What has to be told -/

/-- The bit in the number of a condition that makes it true: 3 would be for unordered. -/
def orderBit : Ordering → Nat
  | .eq => 0
  | .gt => 1
  | .lt => 2

/-- Conditions and condition codes tell how two numbers are ordered. -/
structure Tells (order : Ordering) (fpu : FpuState) : Prop where
  conditions : ∀ condition < 0x20,
    fppCond fpu.result condition = ((condition % 16).testBit (orderBit order)).toInt
  codes : getFpccr fpu &&& (fpsrCcbNan ||| fpsrCcbZero) = if order = .eq then fpsrCcbZero else 0
  sign : order ≠ .eq → (getFpccr fpu &&& fpsrCcbNegative ≠ 0 ↔ order = .lt)

/-- An infinity is taken for one and not for a NaN; FGETEXP and FGETMAN signal an operand error. -/
structure Classified (x : Floatx80) : Prop where
  codes : ∀ fpu, getFpccr (makeFpsr x fpu) &&& (fpsrCcbNan ||| fpsrCcbInfinity) = fpsrCcbInfinity
  ordered : fppCond x 0x08 = 0
  exponent : ∀ status : FloatStatus, fgetexp x status =
    (defaultNan, { status with exceptionFlags := status.exceptionFlags ||| floatFlagInvalid })
  mantissa : ∀ status : FloatStatus, fgetman x status =
    (defaultNan, { status with exceptionFlags := status.exceptionFlags ||| floatFlagInvalid })

/-- The extension word of FCMP. -/
def fcmpWord (src dst : BitVec 3) : BitVec 16 :=
  src.setWidth 16 <<< 10 ||| dst.setWidth 16 <<< 7 ||| 0x38

/-- FCMP of two registers tells their order, and what is infinite of them is classified so. -/
structure ComparedRight (sf : Softfloat) (c : CLibrary) (is_integral : Bool) (opcode : BitVec 16)
    (src dst : BitVec 3) (m : FpuMachine) : Prop where
  order : ∃ m', fpuopArithmetic sf c is_integral opcode (fcmpWord src dst) m = .done m' ∧
    Tells (cmp (valueOf (m.fpu.registers dst)) (valueOf (m.fpu.registers src))) m'.fpu
  classes : ∀ reg, reg = src ∨ reg = dst → m.fpu.registers reg ∈ infinities →
    Classified (m.fpu.registers reg)

/-! ### What softfloat does -/

/-- The digits of a number of this precision. -/
def FloatStatus.digits (s : FloatStatus) : Nat :=
  match s.roundingPrecision with
  | 32 => 24
  | 64 => 53
  | _ => 64

/-- The exponent of the largest numbers, with that of the integer bit of a denormal as 0. -/
@[irreducible] def largestExponent : Nat := 0x7ffd

/-- The values from here on need a larger one. -/
def outOfRange : Nat := 2 ^ (64 + largestExponent)

/-- The largest finite value with this many digits. -/
def largest (digits : Nat) : Int := (2 ^ digits - 1) * 2 ^ (64 - digits + largestExponent)

/-- `x` is rounded to a finite number or to an infinity. -/
def Rounded (s : FloatStatus) (x : Int) (r : Floatx80) : Prop :=
  let rounded := round s.roundingMode s.digits 64 x
  if rounded.natAbs < outOfRange then FiniteNumber r ∧ finiteValue r = rounded
  else if s.roundingMode.away (x < 0) then r = InfinityKind.softfloat.number (x < 0)
  else FiniteNumber r ∧ finiteValue r = if x < 0 then -largest s.digits else largest s.digits

/-- An operand softfloat takes for infinite. -/
def SoftInfinite (x : Floatx80) : Prop := exponentOf x = 0x7fff ∧ x.low <<< 1 = 0

/-- `r` is what `floatx80_sub` should return for `a` and `b`. -/
structure CorrectDifference (s : FloatStatus) (a b r : Floatx80) : Prop where
  finite : FiniteNumber a → FiniteNumber b → Rounded s (finiteValue a - finiteValue b) r
  minuend : SoftInfinite a → FiniteNumber b ∨ SoftInfinite b ∧ signOf a ≠ signOf b → r = a
  subtrahend : FiniteNumber a → SoftInfinite b → r = InfinityKind.softfloat.number (!signOf b)
  invalid : SoftInfinite a → SoftInfinite b → signOf a = signOf b →
    exponentOf r = 0x7fff ∧ r.low <<< 1 ≠ 0

/-! ### When FCMP is right -/

/-- The difference of two finite numbers keeps its sign: it is zero, or it is not rounded to zero
or to an infinity. -/
def DifferenceTold (s : FloatStatus) (x : Int) : Prop :=
  let rounded := round s.roundingMode s.digits 64 x
  x = 0 ∨ rounded ≠ 0 ∧ (rounded.natAbs < outOfRange ∨ s.roundingMode.away (x < 0) = false)

def CodeInfinity (x : Floatx80) : Prop := ∃ negative, x = InfinityKind.code.number negative

def Comparable (s : FloatStatus) (a b : Floatx80) : Prop :=
  FiniteNumber a ∧ FiniteNumber b ∧ DifferenceTold s (finiteValue a - finiteValue b) ∨
    CodeInfinity a ∧ (FiniteNumber b ∨ CodeInfinity b ∧ signOf a ≠ signOf b)

/-! ### Classes -/

def isNan (x : Floatx80) : Bool := x.high &&& 0x7fff = 0x7fff ∧ x.low ≠ 0
def isZero (x : Floatx80) : Bool := x.high &&& 0x7fff = 0 ∧ x.low = 0

def isInfinite (x : Floatx80) : Bool := x.high &&& 0x7fff = 0x7fff ∧ x.low = 0

theorem signOf_eq (x : Floatx80) : signOf x = decide (x.high &&& 0x8000 = 0x8000) := by
  have single : (0x8000 : BitVec 16) = BitVec.twoPow 16 15 := by decide
  unfold signOf
  rw [single, BitVec.and_twoPow]
  split <;> rfl

/-- The codes `get_fpccr` makes of a class and a sign. -/
def codesOf (nan zero infinite sign : Bool) : BitVec 32 :=
  if nan then fpsrCcbNan
  else
    let fpccr := if zero then fpsrCcbZero else if infinite then fpsrCcbInfinity else 0
    if sign then fpccr ||| fpsrCcbNegative else fpccr

theorem getFpccr_eq (fpu : FpuState) : getFpccr fpu =
    codesOf (isNan fpu.result) (isZero fpu.result) (isInfinite fpu.result) (signOf fpu.result) := by
  simp only [getFpccr, codesOf, isNan, isZero, isInfinite, signOf, decide_eq_true_eq, ne_eq]

theorem fppCond_eq (x : Floatx80) (condition : Nat) : fppCond x condition =
    conditionOf (isNan x) (!isNan x && signOf x) (!isNan x && isZero x) condition := by
  rw [signOf_eq]
  rfl

/-- The order is told by the class and the sign of the last result. -/
theorem tells_iff (order : Ordering) (fpu : FpuState) :
    Tells order fpu ↔ isNan fpu.result = false ∧ (isZero fpu.result = true ↔ order = .eq) ∧
      (order ≠ .eq → (signOf fpu.result = true ↔ order = .lt)) := by
  constructor
  · rintro ⟨-, codes, sign⟩
    rw [getFpccr_eq] at codes sign
    generalize isNan fpu.result = nan at *
    generalize isZero fpu.result = zero at *
    generalize isInfinite fpu.result = infinite at *
    generalize signOf fpu.result = negative at *
    revert nan zero infinite negative
    cases order <;> decide
  · rintro ⟨nan, zero, negative⟩
    -- The conditions of the three orders.
    have equal : ∀ sign : Bool, ∀ condition < 0x20,
        conditionOf false sign true condition = ((condition % 16).testBit 0).toInt := by decide
    have greater : ∀ condition < 0x20,
        conditionOf false false false condition = ((condition % 16).testBit 1).toInt := by decide
    have less : ∀ condition < 0x20,
        conditionOf false true false condition = ((condition % 16).testBit 2).toInt := by decide
    cases order with
    | eq =>
      have is_zero := zero.mpr rfl
      refine ⟨fun condition defined => ?_, ?_, fun different => absurd rfl different⟩
      · rw [fppCond_eq, nan, is_zero]
        exact equal _ condition defined
      · rw [getFpccr_eq, nan, is_zero]
        cases isInfinite fpu.result <;> cases signOf fpu.result <;> rfl
    | gt =>
      have not_zero : isZero fpu.result = false := Bool.eq_false_iff.mpr fun is_zero => nomatch zero.mp is_zero
      have positive : signOf fpu.result = false :=
        Bool.eq_false_iff.mpr fun sign => nomatch (negative nofun).mp sign
      refine ⟨fun condition defined => ?_, ?_, fun _ => ?_⟩
      · rw [fppCond_eq, nan, not_zero, positive]
        exact greater condition defined
      · rw [getFpccr_eq, nan, not_zero, positive]
        cases isInfinite fpu.result <;> rfl
      · rw [getFpccr_eq, nan, not_zero, positive]
        cases isInfinite fpu.result <;> decide
    | lt =>
      have not_zero : isZero fpu.result = false := Bool.eq_false_iff.mpr fun is_zero => nomatch zero.mp is_zero
      have sign := (negative nofun).mpr rfl
      refine ⟨fun condition defined => ?_, ?_, fun _ => ?_⟩
      · rw [fppCond_eq, nan, not_zero, sign]
        exact less condition defined
      · rw [getFpccr_eq, nan, not_zero, sign]
        cases isInfinite fpu.result <;> rfl
      · rw [getFpccr_eq, nan, not_zero, sign]
        cases isInfinite fpu.result <;> decide

/-! ### Numbers -/

variable {x : Floatx80}

theorem FiniteNumber.exponent_ne (finite : FiniteNumber x) : exponentOf x ≠ 0x7fff := by
  obtain ⟨exponent, -⟩ | ⟨-, exponent, -⟩ := finite
  · rw [exponent]
    decide
  · exact exponent

theorem FiniteNumber.not_nan (finite : FiniteNumber x) : isNan x = false :=
  decide_eq_false fun nan => finite.exponent_ne nan.1

theorem FiniteNumber.not_infinite (finite : FiniteNumber x) : x ∉ infinities := by
  have none_finite : ∀ x ∈ infinities, ¬FiniteNumber x := by decide
  exact fun infinite => none_finite x infinite finite

theorem FiniteNumber.isZero_iff (finite : FiniteNumber x) :
    isZero x = true ↔ finiteValue x = 0 := by
  have power : (2 : Int) ^ ((exponentOf x).toNat - 1) ≠ 0 := pow_ne_zero _ (by decide)
  have magnitude : finiteValue x = 0 ↔ x.low = 0 := by
    have product : (x.low.toNat : Int) * 2 ^ ((exponentOf x).toNat - 1) = 0 ↔ x.low = 0 := by
      rw [mul_eq_zero, or_iff_left power, Int.natCast_eq_zero]
      exact BitVec.toNat_inj (y := 0#64)
    unfold finiteValue
    dsimp only
    split
    · rw [neg_eq_zero, product]
    · exact product
  rw [magnitude, isZero, decide_eq_true_iff]
  constructor
  · exact And.right
  · intro low
    obtain ⟨exponent, -⟩ | ⟨-, -, normal⟩ := finite
    · exact ⟨exponent, low⟩
    · rw [low] at normal
      contradiction

theorem signOf_iff (nonzero : finiteValue x ≠ 0) : signOf x = true ↔ finiteValue x < 0 := by
  have power : (0 : Int) ≤ x.low.toNat * 2 ^ ((exponentOf x).toNat - 1) :=
    mul_nonneg (Int.natCast_nonneg _) (pow_nonneg (by decide) _)
  unfold finiteValue at *
  dsimp only at *
  split at nonzero
  next negative =>
    rw [if_pos negative]
    exact iff_of_true negative (by omega)
  next positive =>
    rw [if_neg positive]
    exact iff_of_false positive (by omega)

theorem tells_finite {r : Floatx80} (finite : FiniteNumber r) (order : Ordering) (fpu : FpuState) :
    Tells order { fpu with result := r } ↔ order = cmp (finiteValue r) 0 := by
  rw [tells_iff]
  dsimp only
  rw [and_iff_right finite.not_nan, finite.isZero_iff]
  obtain negative | zero | positive := lt_trichotomy (finiteValue r) 0
  · rw [cmp_eq_lt_iff _ _ |>.mpr negative, (signOf_iff negative.ne).mpr negative]
    have nonzero := negative.ne
    cases order <;> simp [nonzero]
  · rw [cmp_eq_eq_iff _ _ |>.mpr zero]
    cases order <;> simp [zero]
  · have sign : signOf r = false :=
      Bool.eq_false_iff.mpr fun sign => positive.not_gt ((signOf_iff positive.ne').mp sign)
    have nonzero := positive.ne'
    rw [cmp_eq_gt_iff _ _ |>.mpr positive, sign]
    cases order <;> simp [nonzero]

theorem not_tells_nan {r : Floatx80} (nan : isNan r = true) (order : Ordering) (fpu : FpuState) :
    ¬Tells order { fpu with result := r } := by
  rw [tells_iff]
  rintro ⟨number, -⟩
  exact absurd (nan.symm.trans number) (by decide)

theorem softfloat_isNan : ∀ negative, isNan (InfinityKind.softfloat.number negative) = true := by
  decide

variable (negative : Bool)

theorem tells_code (order : Ordering) (fpu : FpuState) :
    Tells order { fpu with result := InfinityKind.code.number negative } ↔
      order = if negative then .lt else .gt := by
  rw [tells_iff]
  dsimp only
  revert negative
  cases order <;> decide

/-! ### Differences -/

theorem cmp_valueOf {a b : Floatx80} (finite_a : FiniteNumber a) (finite_b : FiniteNumber b) :
    cmp (valueOf a) (valueOf b) = cmp (finiteValue a - finiteValue b) 0 := by
  rw [valueOf, valueOf, if_neg finite_a.not_infinite, if_neg finite_b.not_infinite, cmp_sub_zero]
  unfold cmp cmpUsing
  simp only [WithBot.coe_lt_coe, WithTop.coe_lt_coe]

theorem digits_pos (s : FloatStatus) : 0 < s.digits := by
  unfold FloatStatus.digits
  split <;> decide

theorem outOfRange_pos : 0 < outOfRange := Nat.two_pow_pos _

theorem largest_pos (s : FloatStatus) : 0 < largest s.digits := by
  have digits : (1 : Int) < 2 ^ s.digits := one_lt_pow₀ (by decide) (digits_pos s).ne'
  exact mul_pos (by omega) (pow_pos (by decide) _)

/-- A correctly rounded difference tells the order of two finite numbers unless it is lost. -/
theorem rounded_tells_iff {s : FloatStatus} {x : Int} {r : Floatx80} (correct : Rounded s x r)
    (fpu : FpuState) : Tells (cmp x 0) { fpu with result := r } ↔ DifferenceTold s x := by
  have nonneg := round_nonneg s.roundingMode x s.digits 64
  have nonpos := round_nonpos s.roundingMode x s.digits 64
  unfold Rounded at correct
  unfold DifferenceTold
  dsimp only at *
  generalize round s.roundingMode s.digits 64 x = rounded at *
  split at correct
  next inside =>
    obtain ⟨finite, value⟩ := correct
    rw [tells_finite finite, value]
    simp only [inside, true_or, and_true]
    obtain negative | zero | positive := lt_trichotomy x 0
    · have below := nonpos negative.le
      rw [(cmp_eq_lt_iff x 0).mpr negative, eq_comm, cmp_eq_lt_iff]
      omega
    · have same : rounded = 0 := le_antisymm (nonpos zero.le) (nonneg zero.ge)
      rw [zero, same]
      exact iff_of_true rfl (.inl rfl)
    · have above := nonneg positive.le
      rw [(cmp_eq_gt_iff x 0).mpr positive, eq_comm, cmp_eq_gt_iff]
      omega
  next outside =>
    have nonzero : rounded ≠ 0 := by
      intro zero
      rw [zero] at outside
      exact outside outOfRange_pos
    have x_nonzero : x ≠ 0 := by
      intro zero
      exact nonzero (le_antisymm (nonpos zero.le) (nonneg zero.ge))
    simp only [outside, x_nonzero, ne_eq, nonzero, not_false_eq_true, false_or, true_and]
    split at correct
    next away =>
      rw [away, correct]
      exact iff_of_false (not_tells_nan (softfloat_isNan _) _ fpu) (by decide)
    next not_away =>
      obtain ⟨finite, value⟩ := correct
      have some_number := largest_pos s
      rw [tells_finite finite, value, Bool.not_eq_true _ |>.mp not_away, iff_true_right rfl]
      split
      next negative => rw [(cmp_eq_lt_iff x 0).mpr negative, (cmp_eq_lt_iff _ 0).mpr (by omega)]
      next not_negative =>
        rw [(cmp_eq_gt_iff x 0).mpr (by omega), (cmp_eq_gt_iff _ 0).mpr some_number]

/-! ### Infinities -/

theorem mem_infinities (infinite : x ∈ infinities) :
    ∃ (kind : InfinityKind) (negative : Bool), x = kind.number negative := by
  obtain ⟨kind, -, number⟩ := List.mem_flatMap.mp infinite
  simp only [List.mem_cons, List.not_mem_nil, or_false] at number
  obtain number | number := number
  · exact ⟨kind, false, number⟩
  · exact ⟨kind, true, number⟩

theorem InfinityKind.number_mem (kind : InfinityKind) (negative : Bool) :
    kind.number negative ∈ infinities := by
  revert negative
  cases kind <;> decide

theorem code_sign : ∀ negative, signOf (InfinityKind.code.number negative) = negative := by decide

theorem code_softInfinite : SoftInfinite (InfinityKind.code.number negative) := by
  cases negative <;> exact ⟨by decide, by decide⟩

theorem valueOf_code : valueOf (InfinityKind.code.number negative) =
    if negative then ⊥ else ((⊤ : WithTop Int) : WithBot (WithTop Int)) := by
  rw [valueOf, if_pos (InfinityKind.number_mem _ _), code_sign]

theorem cmp_code {b : Floatx80} (other : FiniteNumber b ∨ b = InfinityKind.code.number (!negative)) :
    cmp (valueOf (InfinityKind.code.number negative)) (valueOf b) =
      if negative then .lt else .gt := by
  obtain finite | rfl := other
  · rw [valueOf_code, valueOf, if_neg finite.not_infinite]
    cases negative with
    | true => exact (cmp_eq_lt_iff _ _).mpr (WithBot.bot_lt_coe _)
    | false => exact (cmp_eq_gt_iff _ _).mpr (WithBot.coe_lt_coe.mpr (WithTop.coe_lt_top _))
  · rw [valueOf_code, valueOf_code]
    cases negative with
    | true => exact (cmp_eq_lt_iff _ _).mpr (WithBot.bot_lt_coe _)
    | false => exact (cmp_eq_gt_iff _ _).mpr (WithBot.bot_lt_coe _)

/-- Only the infinities with a fraction of zero are classified as such. -/
theorem classified_code : Classified (InfinityKind.code.number negative) where
  codes fpu := by
    rw [getFpccr_eq]
    dsimp only [makeFpsr]
    revert negative
    decide
  ordered := by cases negative <;> decide
  exponent status := by cases negative <;> rfl
  mantissa status := by cases negative <;> rfl

theorem not_classified {kind : InfinityKind} (other : kind ≠ .code) (negative : Bool)
    (fpu : FpuState) : ¬Classified (kind.number negative) := by
  intro classified
  have codes := classified.codes fpu
  rw [getFpccr_eq] at codes
  dsimp only [makeFpsr] at codes
  revert codes
  cases kind with
  | softfloat | loaded => cases negative <;> decide
  | code => contradiction

theorem codeInfinity_kind {kind : InfinityKind} {negative : Bool}
    (code : CodeInfinity (kind.number negative)) : kind = .code := by
  obtain ⟨sign, same⟩ := code
  have low := congrArg Floatx80.low same
  have high := congrArg Floatx80.high same
  cases kind with
  | softfloat => cases negative <;> cases sign <;> exact absurd low (by decide)
  | loaded => cases negative <;> cases sign <;> exact absurd high (by decide)
  | code => rfl

/-! ### FCMP -/

/-- `fp_status` when FCMP subtracts. -/
def fcmpStatus (fpu : FpuState) : FloatStatus := hostStatus (setExceptionStatus 0 fpu)

section

variable (sf : Softfloat) (c : CLibrary) (is_integral : Bool) (opcode : BitVec 16)
  (src dst : BitVec 3) (m : FpuMachine)

/-- What FCMP gets of `floatx80_sub`. -/
def difference : Floatx80 :=
  (sf.floatx80Sub (m.fpu.registers dst) (m.fpu.registers src) (fcmpStatus m.fpu)).1

theorem fcmp_run : ∃ fpu, fpuopArithmetic sf c is_integral opcode (fcmpWord src dst) m =
    .done { m with fpu } ∧ fpu.result = difference sf src dst m := by
  have fields : ∀ src dst : BitVec 3, (fcmpWord src dst).extractLsb' 13 3 = 0 ∧
      fcmpWord src dst &&& 0xfc00 ≠ 0x5c00 ∧ fcmpWord src dst &&& 0x4000 = 0 ∧
      (fcmpWord src dst).extractLsb' 10 3 = src ∧ (fcmpWord src dst).extractLsb' 7 3 = dst ∧
      (fcmpWord src dst).setWidth 7 = 0x38 := by decide
  obtain ⟨class_, not_constant, register, source, target, code⟩ := fields src dst
  have decoded : decodeOperation is_integral 0x38 = some .fcmp := by cases is_integral <;> rfl
  have fetched : getFpValue sf c opcode (fcmpWord src dst) m = (some (m.fpu.registers src), m) := by
    rw [getFpValue, if_pos register, operandSize, source]
  refine ⟨Operation.fcmp.execute sf c dst (m.fpu.registers src) m.fpu, ?_, rfl⟩
  have run : fpuopArithmetic sf c is_integral opcode (fcmpWord src dst) m =
      operationCase sf c is_integral opcode (fcmpWord src dst) m := by
    simp only [fpuopArithmetic, class_]
    rfl
  rw [run, operationCase, if_neg not_constant, fetched, code, decoded, target]

theorem order_told_iff : (∃ m', fpuopArithmetic sf c is_integral opcode (fcmpWord src dst) m = .done m' ∧
      Tells (cmp (valueOf (m.fpu.registers dst)) (valueOf (m.fpu.registers src))) m'.fpu) ↔
    Tells (cmp (valueOf (m.fpu.registers dst)) (valueOf (m.fpu.registers src)))
      { m.fpu with result := difference sf src dst m } := by
  obtain ⟨fpu, run, result⟩ := fcmp_run sf c is_integral opcode src dst m
  rw [run]
  constructor
  · rintro ⟨m', done, tells⟩
    obtain rfl := FpuOutcome.done.inj done
    rw [tells_iff] at tells ⊢
    rwa [result] at tells
  · intro tells
    refine ⟨_, rfl, ?_⟩
    rw [tells_iff] at tells ⊢
    rwa [result]

variable {sf src dst m}

theorem invalid_isNan {r : Floatx80} (invalid : exponentOf r = 0x7fff ∧ r.low <<< 1 ≠ 0) :
    isNan r = true := by
  refine decide_eq_true ⟨invalid.1, fun low => invalid.2 ?_⟩
  rw [low]
  rfl

/-- Both numbers are finite or infinities with a fraction of zero. -/
theorem Comparable.kinds {s : FloatStatus} {a b : Floatx80} (comparable : Comparable s a b) :
    (FiniteNumber a ∨ CodeInfinity a) ∧ (FiniteNumber b ∨ CodeInfinity b) := by
  obtain ⟨finite_a, finite_b, -⟩ | ⟨code_a, finite_b | ⟨code_b, -⟩⟩ := comparable
  · exact ⟨.inl finite_a, .inl finite_b⟩
  · exact ⟨.inr code_a, .inl finite_b⟩
  · exact ⟨.inr code_a, .inr code_b⟩

/-- FCMP is right about two numbers just when their difference keeps its sign, or the register is
an infinity with a fraction of zero and the source is finite or the other such infinity. -/
theorem compared_right_iff (source : RegisterNumber (m.fpu.registers src))
    (target : RegisterNumber (m.fpu.registers dst))
    (correct : CorrectDifference (fcmpStatus m.fpu) (m.fpu.registers dst) (m.fpu.registers src)
      (difference sf src dst m)) :
    ComparedRight sf c is_integral opcode src dst m ↔
      Comparable (fcmpStatus m.fpu) (m.fpu.registers dst) (m.fpu.registers src) := by
  constructor
  · rintro ⟨order, classes⟩
    rw [order_told_iff] at order
    have code {reg : BitVec 3} (operand : reg = src ∨ reg = dst)
        (infinite : m.fpu.registers reg ∈ infinities) : CodeInfinity (m.fpu.registers reg) := by
      obtain ⟨kind, negative, number⟩ := mem_infinities infinite
      have classified := classes reg operand infinite
      rw [number] at classified ⊢
      obtain rfl : kind = .code := by
        by_contra other
        exact not_classified other negative m.fpu classified
      exact ⟨negative, rfl⟩
    obtain finite_dst | infinite_dst := target
    · obtain finite_src | infinite_src := source
      · rw [cmp_valueOf finite_dst finite_src] at order
        exact .inl ⟨finite_dst, finite_src,
          (rounded_tells_iff (correct.finite finite_dst finite_src) _).mp order⟩
      · obtain ⟨negative, number⟩ := code (.inl rfl) infinite_src
        rw [correct.subtrahend finite_dst (number ▸ code_softInfinite negative)] at order
        exact absurd order (not_tells_nan (softfloat_isNan _) _ _)
    · have code_dst := code (.inr rfl) infinite_dst
      obtain finite_src | infinite_src := source
      · exact .inr ⟨code_dst, .inl finite_src⟩
      · have code_src := code (.inl rfl) infinite_src
        refine .inr ⟨code_dst, .inr ⟨code_src, fun same => ?_⟩⟩
        obtain ⟨n, dst_number⟩ := code_dst
        obtain ⟨n', src_number⟩ := code_src
        have nan := correct.invalid (dst_number ▸ code_softInfinite n)
          (src_number ▸ code_softInfinite n') same
        exact not_tells_nan (invalid_isNan nan) _ _ order
  · intro comparable
    obtain ⟨kind_dst, kind_src⟩ := comparable.kinds
    refine ⟨(order_told_iff ..).mpr ?_, ?_⟩
    · obtain ⟨finite_dst, finite_src, told⟩ | ⟨⟨negative, number⟩, other⟩ := comparable
      · rw [cmp_valueOf finite_dst finite_src]
        exact (rounded_tells_iff (correct.finite finite_dst finite_src) _).mpr told
      · have opposite : FiniteNumber (m.fpu.registers src) ∨
            m.fpu.registers src = InfinityKind.code.number (!negative) := by
          obtain finite | ⟨⟨sign, src_number⟩, different⟩ := other
          · exact .inl finite
          · rw [number, src_number, code_sign, code_sign] at different
            rw [src_number, Bool.eq_not.mpr different.symm]
            exact .inr rfl
        have minuend : difference sf src dst m = m.fpu.registers dst := by
          apply correct.minuend (number ▸ code_softInfinite negative)
          obtain finite | ⟨⟨sign, src_number⟩, different⟩ := other
          · exact .inl finite
          · exact .inr ⟨src_number ▸ code_softInfinite sign, different⟩
        rw [minuend, number, cmp_code negative opposite, tells_code]
    · intro reg operand infinite
      have kind : FiniteNumber (m.fpu.registers reg) ∨ CodeInfinity (m.fpu.registers reg) := by
        obtain rfl | rfl := operand
        · exact kind_src
        · exact kind_dst
      obtain finite | ⟨negative, number⟩ := kind
      · exact absurd infinite finite.not_infinite
      · rw [number]
        exact classified_code negative

end

/-! Denormals and infinities in FP0 and FP1. -/
namespace Compared

/-- A softfloat whose subtractions return `r`. -/
def subtracting (r : Floatx80) : Softfloat :=
  ⟨fun _ => pure ⟨0, 0⟩, fun _ => pure ⟨0, 0⟩, fun _ => pure 0, fun _ => pure 0, fun _ => pure 0,
    fun _ => pure 0, pure, pure, fun a _ => pure a, fun _ _ => pure r, fun a _ => pure a,
    fun a _ => pure a, fun a _ => pure a⟩

def library : CLibrary :=
  ⟨fun _ d => (d, none), fun d _ => (d, none), fun d _ => d, fun d _ => d, fun d _ => d, fun _ => 0,
    fun _ => []⟩

def machine (fp0 fp1 : Floatx80) : FpuMachine where
  regs := ⟨fun _ => 0, fun _ => 0, 0, 0, 0, 0, 0, 0, 0, false, false, true, false,
    ⟨false, false, false, false, false⟩⟩
  fpu := ⟨fun reg => if reg = 0 then fp0 else fp1, ⟨0, 0⟩, quotientOf 0, 0, 0, 0, 0, 0, 0, 0⟩
  mem _ := 0

end Compared

/-- FCMP of the two smallest denormals. -/
theorem denormals_compared :
    ComparedRight (Compared.subtracting ⟨0, 1⟩) Compared.library true 0xf200 0 1
        (Compared.machine ⟨0, 1⟩ ⟨0, 2⟩) ↔
      Comparable (fcmpStatus (Compared.machine ⟨0, 1⟩ ⟨0, 2⟩).fpu) ⟨0, 2⟩ ⟨0, 1⟩ := by
  have inside : (1 : Nat) < outOfRange := Nat.one_lt_two_pow (by omega)
  have finite : FiniteNumber ⟨0, 1⟩ := by decide
  exact compared_right_iff _ _ _ (.inl finite) (.inl (by decide))
    { finite := fun _ _ => (if_pos inside).mpr ⟨finite, by decide⟩
      minuend := fun infinite => absurd infinite.1 (by decide)
      subtrahend := fun _ infinite => absurd infinite.1 (by decide)
      invalid := fun infinite => absurd infinite.1 (by decide) }

/-- The infinity of an overflow is unordered. -/
theorem overflow_unordered :
    ¬∀ sf c is_integral opcode src dst m, RegisterNumber (m.fpu.registers src) →
      RegisterNumber (m.fpu.registers dst) →
      CorrectDifference (fcmpStatus m.fpu) (m.fpu.registers dst) (m.fpu.registers src)
        (difference sf src dst m) →
      ComparedRight sf c is_integral opcode src dst m := by
  intro claim
  let infinity := InfinityKind.softfloat.number false
  have source : RegisterNumber ((Compared.machine ⟨0, 1⟩ infinity).fpu.registers 0) := .inl (by decide)
  have target : RegisterNumber ((Compared.machine ⟨0, 1⟩ infinity).fpu.registers 1) :=
    .inr (InfinityKind.number_mem .softfloat false)
  have correct : CorrectDifference (fcmpStatus (Compared.machine ⟨0, 1⟩ infinity).fpu) infinity ⟨0, 1⟩
      (difference (Compared.subtracting infinity) 0 1 (Compared.machine ⟨0, 1⟩ infinity)) :=
    { finite := fun finite => absurd finite (by decide)
      minuend := fun _ _ => rfl
      subtrahend := fun finite => absurd finite (by decide)
      invalid := fun _ infinite => absurd infinite.1 (by decide) }
  have right := claim _ Compared.library true 0xf200 0 1 _ source target correct
  obtain ⟨finite | code, -⟩ := ((compared_right_iff _ _ _ source target correct).mp right).kinds
  · exact absurd finite (by decide)
  · exact absurd (@codeInfinity_kind .softfloat false code) (by decide)

end BasiliskII.Fpu
