import BasiliskII.Fpu.StatusRegister
import BasiliskII.Fpu.Fmovem
import BasiliskII.Library.BinaryRounding

/-!
# Operations of the FPU

What the operation codes of `fpuop_arithmetic` in fpu_soft.cpp do with a source operand and a
register. softfloat and the C library are parameters.
-/
namespace BasiliskII.Fpu

open BinaryRounding (RoundingMode)

inductive Errno
  | none | edom | erange
  deriving DecidableEq, Repr

/-- `fp_status`, and `errno`. -/
structure FloatStatus where
  roundingMode : RoundingMode
  roundingPrecision : Nat
  exceptionFlags : BitVec 32
  errno : Errno

/-- A function that reads the status and leaves flags in it. -/
abbrev Soft (α : Type) : Type := StateM FloatStatus α

structure Softfloat where
  float32ToFloatx80 : BitVec 32 → Soft Floatx80
  float64ToFloatx80 : BitVec 64 → Soft Floatx80
  floatx80ToFloat32 : Floatx80 → Soft (BitVec 32)
  floatx80ToFloat64 : Floatx80 → Soft (BitVec 64)
  floatx80ToInt32 : Floatx80 → Soft (BitVec 32)
  floatx80ToInt64 : Floatx80 → Soft (BitVec 64)
  floatx80RoundToInt : Floatx80 → Soft Floatx80
  floatx80Sqrt : Floatx80 → Soft Floatx80
  floatx80Add : Floatx80 → Floatx80 → Soft Floatx80
  floatx80Sub : Floatx80 → Floatx80 → Soft Floatx80
  floatx80Mul : Floatx80 → Floatx80 → Soft Floatx80
  floatx80Div : Floatx80 → Floatx80 → Soft Floatx80
  floatx80Scalbn : Floatx80 → BitVec 32 → Soft Floatx80

inductive MathFunction
  | sinh | log | exp | tanh | atan | asin | atanh | sin | tan | log10 | cosh | acos | cos
  deriving DecidableEq, Repr

/-- Functions of the C library return the value `errno` is set to, if it is. -/
structure CLibrary where
  libm : MathFunction → BitVec 64 → BitVec 64 × Option Errno
  pow : BitVec 64 → BitVec 64 → BitVec 64 × Option Errno
  add : BitVec 64 → BitVec 64 → BitVec 64
  sub : BitVec 64 → BitVec 64 → BitVec 64
  div : BitVec 64 → BitVec 64 → BitVec 64
  /-- `sscanf(str, "%le", &d)` -/
  sscanf : List Char → BitVec 64
  /-- `sprintf(str, "%.16e", d)` -/
  sprintf : BitVec 64 → List Char

def floatFlagInvalid : BitVec 32 := 1
def floatFlagOverflow : BitVec 32 := 8
def floatFlagUnderflow : BitVec 32 := 16

/-- `set_float_exception_flags(get_float_exception_flags(&fp_status) | flags, &fp_status)` -/
def addFlags (flags : BitVec 32) : Soft Unit :=
  modify fun status => { status with exceptionFlags := status.exceptionFlags ||| flags }

/-- `CHKERR(d)` -/
def chkerr (d : BitVec 64 × Option Errno) : Soft (BitVec 64) := do
  modify fun status => { status with errno := d.2.getD status.errno }
  let errno := (← get).errno
  let zero : Bool := d.1 &&& 0x7fffffffffffffff = 0
  if errno = .edom then addFlags floatFlagInvalid
  if errno = .erange ∧ zero then addFlags floatFlagUnderflow
  else if errno = .erange then addFlags floatFlagOverflow
  return d.1

/-- `set_float_rounding_mode(mode)`, until `set_host_control_word` restores it. -/
def withRounding {α : Type} (mode : RoundingMode) (f : Soft α) : Soft α := do
  let restored := (← get).roundingMode
  modify ({ · with roundingMode := mode })
  let value ← f
  modify ({ · with roundingMode := restored })
  return value

def floatx80Abs (a : Floatx80) : Floatx80 := { a with high := a.high &&& 0x7fff }

def extractFloatx80Sign (a : Floatx80) : Bool := a.high.msb
def extractFloatx80Exp (a : Floatx80) : BitVec 16 := a.high &&& 0x7fff

def fpExtendedExpBias : Int := 0x3fff

inductive Precision
  | single | double
  deriving DecidableEq, Repr

/-- The operations whose result goes to the register. -/
inductive Computation
  | fmove | fint | fintrz | fsqrt | flognp1 | fetoxm1 | fetox | ftwotox | ftentox | flog2 | fabs | fneg
  | fgetexp | fgetman | fdiv | fadd | fmul | fsgldiv | fscale | fsglmul | fsub
  | libm (f : MathFunction)
  /-- The operations of the 68040, with a result of this precision. -/
  | rounded (precision : Precision) (op : Computation)
  deriving DecidableEq, Repr

inductive Operation
  | compute (op : Computation)
  | fmod | frem
  | fsincos (cosine : BitVec 3)
  | fcmp | ftst
  deriving DecidableEq, Repr

/-- The 68040-specific operations. -/
def decode68040 (code : BitVec 7) : Option Operation :=
  match code.toNat with
  | 0x40 => some (.compute (.rounded .single .fmove))
  | 0x41 => some (.compute (.rounded .single .fsqrt))
  | 0x44 => some (.compute (.rounded .double .fmove))
  | 0x45 => some (.compute (.rounded .double .fsqrt))
  | 0x58 => some (.compute (.rounded .single .fabs))
  | 0x5a => some (.compute (.rounded .single .fneg))
  | 0x5c => some (.compute (.rounded .double .fabs))
  | 0x5e => some (.compute (.rounded .double .fneg))
  | 0x60 => some (.compute (.rounded .single .fdiv))
  | 0x62 => some (.compute (.rounded .single .fadd))
  | 0x63 => some (.compute (.rounded .single .fmul))
  | 0x64 => some (.compute (.rounded .double .fdiv))
  | 0x66 => some (.compute (.rounded .double .fadd))
  | 0x67 => some (.compute (.rounded .double .fmul))
  | 0x68 => some (.compute (.rounded .single .fsub))
  | 0x6c => some (.compute (.rounded .double .fsub))
  | _ => none

/-- The 6888x operations. -/
def decode6888x (code : BitVec 7) : Option Operation :=
  match code.toNat with
  | 0x00 => some (.compute .fmove)
  | 0x01 => some (.compute .fint)
  | 0x02 => some (.compute (.libm .sinh))
  | 0x03 => some (.compute .fintrz)
  | 0x04 => some (.compute .fsqrt)
  | 0x06 => some (.compute .flognp1)
  | 0x08 => some (.compute .fetoxm1)
  | 0x09 => some (.compute (.libm .tanh))
  | 0x0a => some (.compute (.libm .atan))
  | 0x0c => some (.compute (.libm .asin))
  | 0x0d => some (.compute (.libm .atanh))
  | 0x0e => some (.compute (.libm .sin))
  | 0x0f => some (.compute (.libm .tan))
  | 0x10 => some (.compute .fetox)
  | 0x11 => some (.compute .ftwotox)
  | 0x12 => some (.compute .ftentox)
  | 0x14 => some (.compute (.libm .log))
  | 0x15 => some (.compute (.libm .log10))
  | 0x16 => some (.compute .flog2)
  | 0x18 => some (.compute .fabs)
  | 0x19 => some (.compute (.libm .cosh))
  | 0x1a => some (.compute .fneg)
  | 0x1c => some (.compute (.libm .acos))
  | 0x1d => some (.compute (.libm .cos))
  | 0x1e => some (.compute .fgetexp)
  | 0x1f => some (.compute .fgetman)
  | 0x20 => some (.compute .fdiv)
  | 0x21 => some .fmod
  | 0x22 => some (.compute .fadd)
  | 0x23 => some (.compute .fmul)
  | 0x24 => some (.compute .fsgldiv)
  | 0x25 => some .frem
  | 0x26 => some (.compute .fscale)
  | 0x27 => some (.compute .fsglmul)
  | 0x28 => some (.compute .fsub)
  | 0x30 | 0x31 | 0x32 | 0x33 | 0x34 | 0x35 | 0x36 | 0x37 => some (.fsincos (code.setWidth 3))
  | 0x38 => some .fcmp
  | 0x3a => some .ftst
  | _ => none

/-- The two `switch` statements; `none` for an unsupported operation. -/
def decodeOperation (is_integral : Bool) (code : BitVec 7) : Option Operation :=
  if is_integral then (decode68040 code).or (decode6888x code) else decode6888x code

/-- FGETEXP -/
def fgetexp (src : Floatx80) : Soft Floatx80 :=
  if src.high &&& 0x7fff = 0 ∧ src.low = 0 then
    return src
  else if src.high &&& 0x7fff = 0x7fff ∧ src.low = 0 then do
    addFlags floatFlagInvalid
    return defaultNan
  else if src.high &&& 0x7fff = 0x7fff ∧ src.low ≠ 0 then
    return defaultNan
  else return int32ToFloatx80 (BitVec.ofInt 32 ((extractFloatx80Exp src).toNat - fpExtendedExpBias))

/-- FGETMAN -/
def fgetman (src : Floatx80) : Soft Floatx80 :=
  if src.high &&& 0x7fff = 0 ∧ src.low = 0 then
    return src
  else if src.high &&& 0x7fff = 0x7fff ∧ src.low = 0 then do
    addFlags floatFlagInvalid
    return defaultNan
  else if src.high &&& 0x7fff = 0x7fff ∧ src.low ≠ 0 then
    return defaultNan
  else return packFloatx80 (if extractFloatx80Sign src then 1 else 0) fpExtendedExpBias src.low

section

variable (sf : Softfloat) (c : CLibrary)

/-- To the precision and back. -/
def roundTo (precision : Precision) (value : Floatx80) : Soft Floatx80 := do
  match precision with
  | .single => sf.float32ToFloatx80 (← sf.floatx80ToFloat32 value)
  | .double => sf.float64ToFloatx80 (← sf.floatx80ToFloat64 value)

/-- Constants of type `double`. -/
def doubleOne : BitVec 64 := 0x3ff0000000000000
def doubleTwo : BitVec 64 := 0x4000000000000000
def doubleTen : BitVec 64 := 0x4024000000000000

/-- The number an operation gives for the register `dst` and the source. -/
def Computation.result (dst src : Floatx80) : Computation → Soft Floatx80
  | .fmove => return src
  | .fint => sf.floatx80RoundToInt src
  | .fintrz => withRounding .toZero (sf.floatx80RoundToInt src)
  | .fsqrt => sf.floatx80Sqrt src
  | .flognp1 => do
    let d ← sf.floatx80ToFloat64 src
    sf.float64ToFloatx80 (← chkerr (c.libm .log (c.add d doubleOne)))
  | .fetoxm1 => do
    let d ← sf.floatx80ToFloat64 src
    sf.float64ToFloatx80 (c.sub (← chkerr (c.libm .exp d)) doubleOne)
  | .fetox => do
    let d ← sf.floatx80ToFloat64 src
    sf.float64ToFloatx80 (← chkerr (c.libm .exp d))
  | .ftwotox => do
    let d ← sf.floatx80ToFloat64 src
    sf.float64ToFloatx80 (← chkerr (c.pow doubleTwo d))
  | .ftentox => do
    let d ← sf.floatx80ToFloat64 src
    sf.float64ToFloatx80 (← chkerr (c.pow doubleTen d))
  | .flog2 => do
    let d ← sf.floatx80ToFloat64 src
    let (log, errno) := c.libm .log d
    sf.float64ToFloatx80 (← chkerr (c.div log (c.libm .log doubleTwo).1, errno))
  | .fabs => return floatx80Abs src
  | .fneg => return floatx80Chs src
  | .fgetexp => Fpu.fgetexp src
  | .fgetman => Fpu.fgetman src
  | .fdiv => sf.floatx80Div dst src
  | .fadd => sf.floatx80Add dst src
  | .fmul => sf.floatx80Mul dst src
  | .fsgldiv => do roundTo sf .single (← sf.floatx80Div dst src)
  | .fscale => do
    let temp ← withRounding .toZero (sf.floatx80ToInt32 src)
    sf.floatx80Scalbn dst temp
  | .fsglmul => do roundTo sf .single (← sf.floatx80Mul dst src)
  | .fsub => sf.floatx80Sub dst src
  | .libm f => do
    let d ← sf.floatx80ToFloat64 src
    sf.float64ToFloatx80 (← chkerr (c.libm f d))
  | .rounded precision op => do roundTo sf precision (← op.result dst src)

/-- What FPCR makes of `fp_status`; `errno` is cleared before an operation. -/
def hostStatus (fpu : FpuState) : FloatStatus where
  roundingMode :=
    match (fpu.roundingMode &&& 0x30).toNat with
    | 0x00 => .nearestEven
    | 0x10 => .toZero
    | 0x20 => .down
    | _ => .up
  roundingPrecision :=
    match (fpu.roundingPrecision &&& 0xc0).toNat with
    | 0x40 => 32
    | 0x80 => 64
    | _ => 80
  exceptionFlags := fpu.floatExceptionFlags
  errno := .none

/-- Runs a function on `fp_status`. -/
def withStatus {α : Type} (f : Soft α) (fpu : FpuState) : α × FpuState :=
  let (value, status) := f (hostStatus fpu)
  (value, { fpu with floatExceptionFlags := status.exceptionFlags })

def makeFpsr (r : Floatx80) (fpu : FpuState) : FpuState :=
  { fpu with
    result := r
    currentExceptionFlags := fpu.floatExceptionFlags
    accruedExceptionFlags := fpu.accruedExceptionFlags ||| fpu.floatExceptionFlags
    floatExceptionFlags := 0 }

def fpsrQuotientSign : BitVec 32 := 0x00800000

/-- The sign and seven bits: they lie in the byte. -/
def makeQuotient (quotient : Floatx80) (sign : BitVec 32) (fpu : FpuState) : FpuState :=
  let (value, fpu) := withStatus (sf.floatx80ToInt64 (floatx80Abs quotient)) fpu
  let lsb := value.setWidth 32 &&& 0x7f
  { fpu with quotient := quotientOf (sign ||| lsb <<< 16), floatExceptionFlags := 0 }

/-- `FPU registers[reg] = value; make_fpsr(FPU registers[reg])` -/
def storeResult (reg : BitVec 3) (value : Floatx80) (fpu : FpuState) : FpuState :=
  makeFpsr value { fpu with registers := setFp fpu.registers reg value }

/-- FMOD and FREM, which differ in how the quotient is rounded. -/
def remainder (mode : RoundingMode) (reg : BitVec 3) (src : Floatx80) (fpu : FpuState) : FpuState :=
  let dst := fpu.registers reg
  let (quot, fpu) := withStatus (withRounding mode do
    sf.floatx80RoundToInt (← sf.floatx80Div dst src)) fpu
  let sign := if extractFloatx80Sign dst ^^ extractFloatx80Sign src then fpsrQuotientSign else 0
  let (value, fpu) := withStatus (do sf.floatx80Sub dst (← sf.floatx80Mul quot src)) fpu
  makeQuotient sf quot sign (storeResult reg value fpu)

def Operation.execute (reg : BitVec 3) (src : Floatx80) (fpu : FpuState) : Operation → FpuState
  | .compute op =>
    let (value, fpu) := withStatus (op.result sf c (fpu.registers reg) src) fpu
    storeResult reg value fpu
  | .fmod => remainder sf .toZero reg src fpu
  | .frem => remainder sf .nearestEven reg src fpu
  | .fsincos cosine =>
    -- Cosine must be calculated first if same register
    let ((cos, sin), fpu) := withStatus (do
      let cos ← Computation.result sf c src src (.libm .cos)
      return (cos, ← Computation.result sf c src src (.libm .sin))) fpu
    storeResult reg sin { fpu with registers := setFp fpu.registers cosine cos }
  | .fcmp =>
    let fpu := setExceptionStatus 0 fpu
    let (difference, fpu) := withStatus (sf.floatx80Sub (fpu.registers reg) src) fpu
    makeFpsr difference fpu
  | .ftst => makeFpsr src (setExceptionStatus 0 fpu)

end

end BasiliskII.Fpu
