import BasiliskII.Fpu.Extended
import BasiliskII.Library.FlagWord

/-!
# The status register of the FPU

`get_fpsr` and `set_fpsr` of fpu/impl.h with the functions of fpu_soft.cpp they call. The
condition codes are not kept: they are what the last result is, and setting them
makes up a result. The exceptions are kept as flags of softfloat.
-/
namespace BasiliskII.Fpu

open FlagWord

def fpsrCcb : BitVec 32 := 0xff000000
def fpsrCcbNegative : BitVec 32 := 0x08000000
def fpsrCcbZero : BitVec 32 := 0x04000000
def fpsrCcbInfinity : BitVec 32 := 0x02000000
def fpsrCcbNan : BitVec 32 := 0x01000000
def fpsrQuotient : BitVec 32 := 0x00ff0000
def fpsrExceptionStatus : BitVec 32 := 0x0000ff00
def fpsrAccruedException : BitVec 32 := 0x000000ff

/-- `fpsr.quotient`: the quotient byte in its place. -/
structure Quotient where
  word : BitVec 32
  inside : word &&& fpsrQuotient = word

def quotientOf (fpsr : BitVec 32) : Quotient where
  word := fpsr &&& fpsrQuotient
  inside := by rw [BitVec.and_assoc, BitVec.and_self]

/-- The part of `fpu` and of `fp_status` that the control registers are made of. -/
structure FpuState where
  registers : BitVec 3 → Floatx80
  result : Floatx80
  quotient : Quotient
  instructionAddress : BitVec 32
  roundingMode : BitVec 32
  roundingPrecision : BitVec 32
  exceptionEnable : BitVec 32
  currentExceptionFlags : BitVec 32
  accruedExceptionFlags : BitVec 32
  floatExceptionFlags : BitVec 32

/-- The exceptions of the status byte and their flags of softfloat: OPERR, DZ, OVFL, UNFL
and INEX2. -/
def exceptionFlags : List (BitVec 32 × BitVec 32) :=
  [(0x2000, 1), (0x400, 4), (0x1000, 8), (0x800, 16), (0x200, 32)]

/-- The same for the accrued byte: IOP, DZ, OVFL, UNFL and INEX. -/
def accruedFlags : List (BitVec 32 × BitVec 32) :=
  [(0x80, 1), (0x10, 4), (0x40, 8), (0x20, 16), (0x08, 32)]

def floatx80Chs (a : Floatx80) : Floatx80 := { a with high := a.high ^^^ 0x8000 }

def int32ToFloatx80 (a : BitVec 32) : Floatx80 :=
  if a = 0 then packFloatx80 0 0 0
  else
    let absA := if a.msb then -a else a
    let shiftCount := countLeadingZeros32 absA + 32
    packFloatx80 (if a.msb then 1 else 0) (0x403e - shiftCount) (absA.setWidth 64 <<< shiftCount)

def getFpccr (st : FpuState) : BitVec 32 :=
  if st.result.high &&& 0x7fff = 0x7fff ∧ st.result.low ≠ 0 then fpsrCcbNan
  else
    let fpccr :=
      if st.result.high &&& 0x7fff = 0 ∧ st.result.low = 0 then fpsrCcbZero
      else if st.result.high &&& 0x7fff = 0x7fff ∧ st.result.low = 0 then fpsrCcbInfinity
      else 0
    if st.result.high &&& 0x8000 ≠ 0 then fpccr ||| fpsrCcbNegative else fpccr

def setFpccr (new_fpcond : BitVec 32) (st : FpuState) : FpuState :=
  if Meets new_fpcond fpsrCcbNan then { st with result := defaultNan }
  else
    let st :=
      if Meets new_fpcond fpsrCcbZero then { st with result := packFloatx80 0 0 0 }
      else if Meets new_fpcond fpsrCcbInfinity then { st with result := packFloatx80 0 0x7fff 0 }
      else { st with result := int32ToFloatx80 1 }
    if Meets new_fpcond fpsrCcbNegative then
      -- `floatx80_chs` returns the number with the other sign, and nothing takes it.
      let _ := floatx80Chs st.result
      st
    else st

def getExceptionStatus (st : FpuState) : BitVec 32 :=
  translate (exceptionFlags.map Prod.swap) st.currentExceptionFlags

def setExceptionStatus (new_status : BitVec 32) (st : FpuState) : FpuState :=
  if new_status = 0 then { st with currentExceptionFlags := 0, floatExceptionFlags := 0 }
  else
    { st with
      currentExceptionFlags := translate exceptionFlags new_status
      floatExceptionFlags := 0 }

def getAccruedException (st : FpuState) : BitVec 32 :=
  translate (accruedFlags.map Prod.swap) st.accruedExceptionFlags

def setAccruedException (new_status : BitVec 32) (st : FpuState) : FpuState :=
  if new_status = 0 then { st with accruedExceptionFlags := 0, floatExceptionFlags := 0 }
  else
    { st with
      accruedExceptionFlags := translate accruedFlags new_status
      floatExceptionFlags := 0 }

def getFpsr (st : FpuState) : BitVec 32 :=
  getFpccr st ||| st.quotient.word ||| getExceptionStatus st ||| getAccruedException st

def setFpsr (new_fpsr : BitVec 32) (st : FpuState) : FpuState :=
  let st := setFpccr (new_fpsr &&& fpsrCcb) st
  let st := setExceptionStatus (new_fpsr &&& fpsrExceptionStatus) st
  let st := setAccruedException (new_fpsr &&& fpsrAccruedException) st
  { st with quotient := quotientOf new_fpsr }

/-! ### The exception bytes -/

theorem exceptionFlags_apart : Apart (exceptionFlags.map Prod.snd) :=
  ⟨by decide, by simp [exceptionFlags]⟩

theorem accruedFlags_apart : Apart (accruedFlags.map Prod.snd) :=
  ⟨by decide, by simp [accruedFlags]⟩

theorem exceptionFlags_single :
    ∀ entry ∈ exceptionFlags, ∃ i < 32, entry.1 = BitVec.twoPow 32 i := by
  simp only [exceptionFlags, List.mem_cons, List.not_mem_nil, or_false, forall_eq_or_imp, forall_eq]
  exact ⟨⟨13, by decide, rfl⟩, ⟨10, by decide, rfl⟩, ⟨12, by decide, rfl⟩, ⟨11, by decide, rfl⟩,
    ⟨9, by decide, rfl⟩⟩

theorem accruedFlags_single :
    ∀ entry ∈ accruedFlags, ∃ i < 32, entry.1 = BitVec.twoPow 32 i := by
  simp only [accruedFlags, List.mem_cons, List.not_mem_nil, or_false, forall_eq_or_imp, forall_eq]
  exact ⟨⟨7, by decide, rfl⟩, ⟨4, by decide, rfl⟩, ⟨6, by decide, rfl⟩, ⟨5, by decide, rfl⟩,
    ⟨3, by decide, rfl⟩⟩

/-- The quick way to clear does what the long way does with no exception at all. -/
theorem setExceptionStatus_eq (new_status : BitVec 32) (st : FpuState) :
    setExceptionStatus new_status st = { st with
      currentExceptionFlags := translate exceptionFlags new_status
      floatExceptionFlags := 0 } := by
  unfold setExceptionStatus
  split
  next none => rw [none]; rfl
  next => rfl

theorem setAccruedException_eq (new_status : BitVec 32) (st : FpuState) :
    setAccruedException new_status st = { st with
      accruedExceptionFlags := translate accruedFlags new_status
      floatExceptionFlags := 0 } := by
  unfold setAccruedException
  split
  next none => rw [none]; rfl
  next => rfl

/-! ### The condition codes -/

/-- The condition codes that come back: never N. -/
def keptCodes (v : BitVec 32) : BitVec 32 :=
  if Meets v fpsrCcbNan then fpsrCcbNan
  else if Meets v fpsrCcbZero then fpsrCcbZero
  else if Meets v fpsrCcbInfinity then fpsrCcbInfinity
  else 0

/-- The result that is made up for condition codes. -/
def codesResult (fpcond : BitVec 32) : Floatx80 :=
  if Meets fpcond fpsrCcbNan then defaultNan
  else if Meets fpcond fpsrCcbZero then packFloatx80 0 0 0
  else if Meets fpcond fpsrCcbInfinity then packFloatx80 0 0x7fff 0
  else int32ToFloatx80 1

theorem setFpccr_eq (new_fpcond : BitVec 32) (st : FpuState) :
    setFpccr new_fpcond st = { st with result := codesResult new_fpcond } := by
  unfold setFpccr codesResult
  dsimp only
  rw [ite_self]
  split
  · rfl
  · split
    · rfl
    · split <;> rfl

theorem codes_round_trip (new_fpcond : BitVec 32) (st : FpuState) :
    getFpccr (setFpccr new_fpcond st) = keptCodes new_fpcond := by
  rw [setFpccr_eq]
  unfold getFpccr keptCodes codesResult
  dsimp only
  split
  · decide
  · split
    · decide
    · split <;> decide

/-! ### The whole register -/

variable (v : BitVec 32) (st : FpuState)

/-- What `set_fpsr` changes; all other fields stay. -/
theorem setFpsr_eq :
    setFpsr v st = { st with
      result := codesResult (v &&& fpsrCcb)
      quotient := quotientOf v
      currentExceptionFlags := translate exceptionFlags (v &&& fpsrExceptionStatus)
      accruedExceptionFlags := translate accruedFlags (v &&& fpsrAccruedException)
      floatExceptionFlags := 0 } := by
  rw [setFpsr, setAccruedException_eq, setExceptionStatus_eq, setFpccr_eq]

theorem setFpsr_codes : getFpccr (setFpsr v st) = keptCodes (v &&& fpsrCcb) := by
  rw [← codes_round_trip _ st, setFpsr_eq, setFpccr_eq]
  rfl

theorem setFpsr_exceptions :
    getExceptionStatus (setFpsr v st) =
      v &&& fpsrExceptionStatus &&& allOf (exceptionFlags.map Prod.fst) := by
  rw [setFpsr_eq]
  exact translate_back exceptionFlags_apart exceptionFlags_single _

theorem setFpsr_accrued :
    getAccruedException (setFpsr v st) =
      v &&& fpsrAccruedException &&& allOf (accruedFlags.map Prod.fst) := by
  rw [setFpsr_eq]
  exact translate_back accruedFlags_apart accruedFlags_single _

/-- The bits of the other bytes that are kept. -/
def keptBits : BitVec 32 :=
  fpsrQuotient ||| fpsrExceptionStatus &&& allOf (exceptionFlags.map Prod.fst) |||
    fpsrAccruedException &&& allOf (accruedFlags.map Prod.fst)

theorem get_setFpsr : getFpsr (setFpsr v st) = keptCodes (v &&& fpsrCcb) ||| (v &&& keptBits) := by
  have quotient : (setFpsr v st).quotient.word = v &&& fpsrQuotient := by
    rw [setFpsr_eq]
    rfl
  rw [getFpsr, setFpsr_codes, setFpsr_exceptions, setFpsr_accrued, quotient, keptBits,
    BitVec.and_or_distrib_left, BitVec.and_or_distrib_left, BitVec.and_assoc, BitVec.and_assoc,
    BitVec.or_assoc, BitVec.or_assoc, BitVec.or_assoc]

theorem keptCodes_mem : keptCodes v ∈ [fpsrCcbNan, fpsrCcbZero, fpsrCcbInfinity, 0] := by
  unfold keptCodes
  split
  · simp
  · split
    · simp
    · split <;> simp

theorem keptCodes_and (mask : BitVec 32) (other : fpsrCcb &&& mask = 0#32) :
    keptCodes v &&& mask = 0#32 := by
  have inside : keptCodes v = keptCodes v &&& fpsrCcb := by
    have kept := keptCodes_mem v
    simp only [List.mem_cons, List.not_mem_nil, or_false] at kept
    obtain codes | codes | codes | codes := kept <;> rw [codes] <;> rfl
  rw [inside, BitVec.and_assoc, other]
  exact BitVec.and_zero

theorem get_setFpsr_and (mask : BitVec 32) (st : FpuState) (other : fpsrCcb &&& mask = 0#32) :
    getFpsr (setFpsr v st) &&& mask = v &&& (keptBits &&& mask) := by
  rw [get_setFpsr, BitVec.and_or_distrib_right, keptCodes_and _ _ other, BitVec.zero_or,
    BitVec.and_assoc]

/-! ### Which codes come back -/

/-- The four condition codes: N, zero, infinity and NaN. -/
def conditionCodes : BitVec 32 :=
  allOf [fpsrCcbNegative, fpsrCcbZero, fpsrCcbInfinity, fpsrCcbNan]

/-- Codes that `get_fpccr` can return. -/
def Returnable (codes : BitVec 32) : Prop := ∃ st, getFpccr st = codes

theorem getFpccr_cases :
    getFpccr st ∈ [fpsrCcbNan, fpsrCcbZero, fpsrCcbInfinity, 0, fpsrCcbZero ||| fpsrCcbNegative,
      fpsrCcbInfinity ||| fpsrCcbNegative, 0 ||| fpsrCcbNegative] := by
  unfold getFpccr
  split
  · simp
  · dsimp only
    split
    · split
      · simp
      · split <;> simp
    · split
      · simp
      · split <;> simp

theorem keptCodes_nibble : keptCodes (v &&& fpsrCcb) = keptCodes (v &&& conditionCodes) := by
  have same : ∀ flag ∈ [fpsrCcbNan, fpsrCcbZero, fpsrCcbInfinity],
      Meets (v &&& fpsrCcb) flag ↔ Meets (v &&& conditionCodes) flag := by
    intro flag member
    have inside : fpsrCcb &&& flag = conditionCodes &&& flag := by
      simp only [List.mem_cons, List.not_mem_nil, or_false] at member
      obtain rfl | rfl | rfl := member <;> rfl
    rw [Meets, Meets, BitVec.and_assoc, BitVec.and_assoc, inside]
  simp only [keptCodes, same fpsrCcbNan (by simp), same fpsrCcbZero (by simp),
    same fpsrCcbInfinity (by simp)]

/-- What the register promises to keep of a word, and the data registers. -/
structure FpsrRoundTrip (v : BitVec 32) (st : FpuState) : Prop where
  quotient : getFpsr (setFpsr v st) &&& fpsrQuotient = v &&& fpsrQuotient
  exceptions : getFpsr (setFpsr v st) &&& fpsrExceptionStatus =
    v &&& allOf (exceptionFlags.map Prod.fst)
  accrued : getFpsr (setFpsr v st) &&& fpsrAccruedException = v &&& allOf (accruedFlags.map Prod.fst)
  codes : Returnable (v &&& conditionCodes) →
    getFpsr (setFpsr v st) &&& conditionCodes = v &&& conditionCodes
  registers : (setFpsr v st).registers = st.registers

/-- The codes that are lost: N, alone or with zero or infinity. -/
def lostCodes : List (BitVec 32) :=
  [fpsrCcbNegative, fpsrCcbZero ||| fpsrCcbNegative, fpsrCcbInfinity ||| fpsrCcbNegative]

theorem lostCodes_returnable : ∀ codes ∈ lostCodes, Returnable codes := by
  let state (result : Floatx80) : FpuState := ⟨fun _ => result, result, quotientOf 0, 0, 0, 0, 0, 0, 0, 0⟩
  simp only [lostCodes, List.mem_cons, List.not_mem_nil, or_false, forall_eq_or_imp, forall_eq]
  exact ⟨⟨state ⟨0xbfff, 0x8000000000000000⟩, by decide⟩, ⟨state ⟨0x8000, 0⟩, by decide⟩,
    ⟨state ⟨0xffff, 0⟩, by decide⟩⟩

theorem codes_read_back :
    getFpsr (setFpsr v st) &&& conditionCodes = keptCodes (v &&& conditionCodes) := by
  have inside : keptCodes (v &&& fpsrCcb) &&& conditionCodes = keptCodes (v &&& fpsrCcb) := by
    have kept := keptCodes_mem (v &&& fpsrCcb)
    simp only [List.mem_cons, List.not_mem_nil, or_false] at kept
    obtain codes | codes | codes | codes := kept <;> rw [codes] <;> rfl
  have outside : keptBits &&& conditionCodes = 0#32 := by decide
  rw [get_setFpsr, BitVec.and_or_distrib_right, inside, BitVec.and_assoc, outside, BitVec.and_zero,
    BitVec.or_zero, keptCodes_nibble]

/-- Of the codes that can be returned, those with N are lost and the others kept. -/
theorem codes_kept_iff :
    (Returnable (v &&& conditionCodes) →
      getFpsr (setFpsr v st) &&& conditionCodes = v &&& conditionCodes) ↔
    v &&& conditionCodes ∉ lostCodes := by
  rw [codes_read_back]
  constructor
  · intro kept lost
    have same := kept (lostCodes_returnable _ lost)
    have without_n := keptCodes_mem (v &&& conditionCodes)
    rw [same] at without_n
    simp only [lostCodes, List.mem_cons, List.not_mem_nil, or_false] at lost without_n
    obtain codes | codes | codes := lost <;> rw [codes] at without_n <;> revert without_n <;> decide
  · rintro not_lost ⟨st', returned⟩
    have seven := getFpccr_cases st'
    rw [returned] at seven
    simp only [lostCodes, List.mem_cons, List.not_mem_nil, or_false, not_or] at seven not_lost
    obtain ⟨not_n, not_zero_n, not_infinity_n⟩ := not_lost
    obtain codes | codes | codes | codes | codes | codes | codes := seven
    · rw [codes]; rfl
    · rw [codes]; rfl
    · rw [codes]; rfl
    · rw [codes]; rfl
    · exact absurd codes not_zero_n
    · exact absurd codes not_infinity_n
    · exact absurd codes not_n

/-- The register keeps what it promises, in every state, except for the words whose codes have N. -/
theorem fpsr_round_trip_iff (v : BitVec 32) (st : FpuState) :
    FpsrRoundTrip v st ↔ v &&& conditionCodes ∉ lostCodes := by
  constructor
  · intro kept
    exact (codes_kept_iff v st).mp kept.codes
  · intro codes
    refine ⟨?_, ?_, ?_, (codes_kept_iff v st).mpr codes, ?_⟩
    · exact get_setFpsr_and v fpsrQuotient st (by decide)
    · exact get_setFpsr_and v fpsrExceptionStatus st (by decide)
    · exact get_setFpsr_and v fpsrAccruedException st (by decide)
    · rw [setFpsr_eq]

/-- N alone is read back as no code at all. -/
theorem fpsr_n_lost : ¬∀ v st, FpsrRoundTrip v st := by
  intro claim
  let result : Floatx80 := ⟨0, 0⟩
  have kept := (claim fpsrCcbNegative ⟨fun _ => result, result, quotientOf 0, 0, 0, 0, 0, 0, 0, 0⟩).codes
    (lostCodes_returnable _ (by decide))
  exact absurd kept (by decide)

end BasiliskII.Fpu
