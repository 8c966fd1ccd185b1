import BasiliskII.Fpu.StateFrames

/-!
# FMOVEM of the control registers

Cases 4 and 5 of `fpuop_arithmetic` in fpu_soft.cpp: FPCR, FPSR and FPIAR go to a register or to
memory, in this order from the lowest address on, and come back. What memory keeps of FPSR comes
back without N.
-/
namespace BasiliskII.Fpu

open ByteMemory Cpu

def fpcrExceptionEnable : BitVec 32 := 0x0000ff00
def fpcrRoundingPrecision : BitVec 32 := 0x000000c0
def fpcrRoundingMode : BitVec 32 := 0x00000030

def getFpcr (fpu : FpuState) : BitVec 32 :=
  fpu.exceptionEnable ||| fpu.roundingPrecision ||| fpu.roundingMode

/-- `set_host_control_word` hands the rounding on to softfloat. -/
def setFpcr (new_fpcr : BitVec 32) (fpu : FpuState) : FpuState :=
  { fpu with
    roundingPrecision := new_fpcr &&& fpcrRoundingPrecision
    roundingMode := new_fpcr &&& fpcrRoundingMode
    exceptionEnable := new_fpcr &&& fpcrExceptionEnable }

/-- The three registers of the list in `extra`. -/
def Instruction.fpcr (i : Instruction) : Bool := i.extra &&& 0x1000 ≠ 0
def Instruction.fpsr (i : Instruction) : Bool := i.extra &&& 0x0800 ≠ 0
def Instruction.fpiar (i : Instruction) : Bool := i.extra &&& 0x0400 ≠ 0

/-- What is stored for each of them: the upper bits of FPCR are always zero. -/
def storedFpcr (fpu : FpuState) : BitVec 32 := getFpcr fpu &&& 0xffff

def setFpiar (value : BitVec 32) (fpu : FpuState) : FpuState := { fpu with instructionAddress := value }

/-- To a data or address register: the last one of the list stays in it. -/
def controlToReg (i : Instruction) (fpu : FpuState) (value : BitVec 32) : BitVec 32 :=
  let value := if i.fpcr then storedFpcr fpu else value
  let value := if i.fpsr then getFpsr fpu else value
  if i.fpiar then fpu.instructionAddress else value

/-- From a data or address register. -/
def controlFromReg (i : Instruction) (value : BitVec 32) (fpu : FpuState) : FpuState :=
  let fpu := if i.fpcr then setFpcr value fpu else fpu
  let fpu := if i.fpsr then setFpsr value fpu else fpu
  if i.fpiar then setFpiar value fpu else fpu

/-- From the instruction stream; what `next_ilong` gives is a function of how many were read. -/
def controlFromStream (i : Instruction) (next_ilong : Nat → BitVec 32) (fpu : FpuState) : FpuState :=
  let (n, fpu) := if i.fpcr then (1, setFpcr (next_ilong 0) fpu) else (0, fpu)
  let (n, fpu) := if i.fpsr then (n + 1, setFpsr (next_ilong n) fpu) else (n, fpu)
  if i.fpiar then setFpiar (next_ilong n) fpu else fpu

def controlSize (i : Instruction) : BitVec 32 :=
  let incr := if i.fpcr then 4 else 0
  let incr := if i.fpsr then incr + 4 else incr
  if i.fpiar then incr + 4 else incr

/-- `put_long(ad, value); ad += 4`, if the register is in the list. -/
def storeNext (inList : Bool) (value : BitVec 32) (at_ad : BitVec 32 × Memory 32) :
    BitVec 32 × Memory 32 :=
  if inList then (at_ad.1 + 4, putLong at_ad.2 at_ad.1 value) else at_ad

def storeControl (i : Instruction) (fpu : FpuState) (at_ad : BitVec 32 × Memory 32) :
    BitVec 32 × Memory 32 :=
  let at_ad := storeNext i.fpcr (storedFpcr fpu) at_ad
  let at_ad := storeNext i.fpsr (getFpsr fpu) at_ad
  storeNext i.fpiar fpu.instructionAddress at_ad

/-- The same for `set(get_long(ad)); ad += 4`. -/
def loadNext (inList : Bool) (set : BitVec 32 → FpuState → FpuState) (mem : Memory 32)
    (at_ad : BitVec 32 × FpuState) : BitVec 32 × FpuState :=
  if inList then (at_ad.1 + 4, set (getLong mem at_ad.1) at_ad.2) else at_ad

def loadControl (i : Instruction) (mem : Memory 32) (at_ad : BitVec 32 × FpuState) :
    BitVec 32 × FpuState :=
  let at_ad := loadNext i.fpcr setFpcr mem at_ad
  let at_ad := loadNext i.fpsr setFpsr mem at_ad
  loadNext i.fpiar setFpiar mem at_ad

/-- FMOVEM of control registers; `none` when it is illegal. -/
def fmovemControl (i : Instruction) (next_ilong : Nat → BitVec 32) (m : FpuMachine) :
    Option FpuMachine :=
  let store : Bool := i.extra &&& 0x2000 ≠ 0
  if i.opcode &&& 0x38 = 0 then
    if store then
      some { m with regs := m.regs.setDreg i.reg (controlToReg i m.fpu (m.regs.dreg i.reg)) }
    else some { m with fpu := controlFromReg i (m.regs.dreg i.reg) m.fpu }
  else if i.opcode &&& 0x38 = 8 then
    if store then
      some { m with regs := m.regs.setAreg i.reg (controlToReg i m.fpu (m.regs.areg i.reg)) }
    else some { m with fpu := controlFromReg i (m.regs.areg i.reg) m.fpu }
  else if i.opcode &&& 0x3f = 0x3c then
    if store then some m else some { m with fpu := controlFromStream i next_ilong m.fpu }
  else if store then do
    let ad ← getFpAd i m.regs
    let incr := if i.predecrement then controlSize i else 0
    let (ad, mem) := storeControl i m.fpu (ad - incr, m.mem)
    some { m with regs := updateAreg i m.regs (ad - incr), mem }
  else do
    let ad ← getFpAd i m.regs
    let incr := if i.predecrement then controlSize i else 0
    let (ad, fpu) := loadControl i m.mem (ad - incr, m.fpu)
    some { m with regs := updateAreg i m.regs (ad - incr), fpu }

/-! ### The list as a block of longs -/

def longIf (inList : Bool) (value : BitVec 32) : List (BitVec 32) := if inList then [value] else []

/-- The longs that are stored. -/
def controlLongs (i : Instruction) (fpu : FpuState) : List (BitVec 32) :=
  longIf i.fpcr (storedFpcr fpu) ++ longIf i.fpsr (getFpsr fpu) ++ longIf i.fpiar fpu.instructionAddress

theorem longsSize_append (vs ws : List (BitVec 32)) :
    longsSize (vs ++ ws) = longsSize vs + longsSize ws := by
  rw [longsSize, longsSize, longsSize, ofNat_add_ofNat, List.length_append, Nat.mul_add]

theorem longsSize_longIf (inList : Bool) (value : BitVec 32) :
    longsSize (longIf inList value) = if inList then 4 else 0 := by
  cases inList <;> rfl

variable (i : Instruction)

theorem controlSize_eq (fpu : FpuState) : controlSize i = longsSize (controlLongs i fpu) := by
  rw [controlLongs, longsSize_append, longsSize_append, longsSize_longIf, longsSize_longIf,
    longsSize_longIf, controlSize]
  cases i.fpcr <;> cases i.fpsr <;> cases i.fpiar <;> rfl

theorem storeNext_eq (inList : Bool) (value ad : BitVec 32) (mem : Memory 32)
    (vs : List (BitVec 32)) :
    storeNext inList value (ad + longsSize vs, putLongs mem ad vs) =
      (ad + longsSize (vs ++ longIf inList value), putLongs mem ad (vs ++ longIf inList value)) := by
  cases inList with
  | false => rw [longIf, if_neg Bool.false_ne_true, List.append_nil]; rfl
  | true =>
    rw [longIf, if_pos rfl, putLongs_concat, longsSize_append, ← BitVec.add_assoc]
    rfl

theorem storeControl_eq (fpu : FpuState) (ad : BitVec 32) (mem : Memory 32) :
    storeControl i fpu (ad, mem) =
      (ad + longsSize (controlLongs i fpu), putLongs mem ad (controlLongs i fpu)) := by
  have start : ad + longsSize [] = ad := BitVec.add_zero ad
  have first := storeNext_eq i.fpcr (storedFpcr fpu) ad mem []
  rw [start] at first
  have stored : storeNext i.fpcr (storedFpcr fpu) (ad, mem) = _ := first
  rw [storeControl, stored, storeNext_eq, storeNext_eq]
  rfl

theorem loadNext_eq (inList : Bool) (value : BitVec 32) (set : BitVec 32 → FpuState → FpuState)
    {all vs ws : List (BitVec 32)} (parts : all = vs ++ longIf inList value ++ ws)
    (few : all.length ≤ 3) (ad : BitVec 32) (mem : Memory 32) (fpu : FpuState) :
    loadNext inList set (putLongs mem ad all) (ad + longsSize vs, fpu) =
      (ad + longsSize (vs ++ longIf inList value), if inList then set value fpu else fpu) := by
  cases inList with
  | false => rw [longIf, if_neg Bool.false_ne_true, List.append_nil]; rfl
  | true =>
    have inside : vs.length < all.length := by simp [parts, longIf]
    have long := getLong_putLongs (by decide) mem ad all (by omega) inside
    have element : all[vs.length] = value := by simp [parts, longIf]
    rw [element, longAt, ← longsSize] at long
    rw [loadNext, if_pos rfl, if_pos rfl, long, longsSize_append, ← BitVec.add_assoc]
    rfl

/-- The control registers of `src` that are in the list, loaded into `fpu`. -/
def reloaded (i : Instruction) (src fpu : FpuState) : FpuState :=
  let fpu := if i.fpcr then setFpcr (storedFpcr src) fpu else fpu
  let fpu := if i.fpsr then setFpsr (getFpsr src) fpu else fpu
  if i.fpiar then setFpiar src.instructionAddress fpu else fpu

theorem controlLongs_length (fpu : FpuState) : (controlLongs i fpu).length ≤ 3 := by
  unfold controlLongs
  cases i.fpcr <;> cases i.fpsr <;> cases i.fpiar <;> simp [longIf]

theorem loadControl_eq (src fpu : FpuState) (ad : BitVec 32) (mem : Memory 32) :
    loadControl i (putLongs mem ad (controlLongs i src)) (ad, fpu) =
      (ad + longsSize (controlLongs i src), reloaded i src fpu) := by
  have few := controlLongs_length i src
  have behind_none : controlLongs i src = [] ++ longIf i.fpcr (storedFpcr src) ++
      (longIf i.fpsr (getFpsr src) ++ longIf i.fpiar src.instructionAddress) :=
    List.append_assoc ..
  have behind_one : controlLongs i src = longIf i.fpcr (storedFpcr src) ++
      longIf i.fpsr (getFpsr src) ++ longIf i.fpiar src.instructionAddress := rfl
  have behind_all : controlLongs i src = longIf i.fpcr (storedFpcr src) ++
      longIf i.fpsr (getFpsr src) ++ longIf i.fpiar src.instructionAddress ++ [] :=
    (List.append_nil _).symm
  have start : ad + longsSize [] = ad := BitVec.add_zero ad
  have first := loadNext_eq i.fpcr (storedFpcr src) setFpcr behind_none few ad mem fpu
  rw [start, List.nil_append] at first
  rw [loadControl, first, loadNext_eq i.fpsr (getFpsr src) setFpsr behind_one few,
    loadNext_eq i.fpiar src.instructionAddress setFpiar behind_all few]
  rfl

/-! ### What comes back -/

/-- The implemented bits. -/
def fpcrBits : BitVec 32 := fpcrExceptionEnable ||| fpcrRoundingPrecision ||| fpcrRoundingMode

def fpsrBits : BitVec 32 := conditionCodes ||| keptBits

/-- The selected registers have their implemented bits, and the others are as they were. -/
structure ControlRestored (i : Instruction) (before after : FpuState) : Prop where
  fpcr : if i.fpcr then getFpcr after &&& fpcrBits = getFpcr before &&& fpcrBits
    else getFpcr after = getFpcr before
  fpsr : if i.fpsr then getFpsr after &&& fpsrBits = getFpsr before &&& fpsrBits
    else getFpsr after = getFpsr before
  fpiar : after.instructionAddress = before.instructionAddress

theorem getFpcr_reload (src fpu : FpuState) :
    getFpcr (setFpcr (storedFpcr src) fpu) &&& fpcrBits = getFpcr src &&& fpcrBits := by
  have back : getFpcr (setFpcr (storedFpcr src) fpu) = storedFpcr src &&& fpcrBits := by
    rw [getFpcr, setFpcr, fpcrBits, BitVec.and_or_distrib_left, BitVec.and_or_distrib_left]
  have low : 0xffff#32 &&& (fpcrBits &&& fpcrBits) = fpcrBits := by decide
  rw [back, storedFpcr, BitVec.and_assoc, BitVec.and_assoc]
  exact congrArg (getFpcr src &&& ·) low

theorem exceptionFlags_below :
    ∀ entry ∈ exceptionFlags.map Prod.swap, conditionCodes &&& entry.2 = 0#32 := by
  intro entry member
  simp only [exceptionFlags, List.map_cons, List.map_nil, List.mem_cons, List.not_mem_nil,
    or_false] at member
  obtain rfl | rfl | rfl | rfl | rfl := member <;> rfl

theorem accruedFlags_below :
    ∀ entry ∈ accruedFlags.map Prod.swap, conditionCodes &&& entry.2 = 0#32 := by
  intro entry member
  simp only [accruedFlags, List.map_cons, List.map_nil, List.mem_cons, List.not_mem_nil,
    or_false] at member
  obtain rfl | rfl | rfl | rfl | rfl := member <;> rfl

theorem getFpsr_codes (fpu : FpuState) : getFpsr fpu &&& conditionCodes = getFpccr fpu := by
  have codes : getFpccr fpu &&& conditionCodes = getFpccr fpu := by
    have cases := getFpccr_cases fpu
    simp only [List.mem_cons, List.not_mem_nil, or_false] at cases
    obtain codes | codes | codes | codes | codes | codes | codes := cases <;> rw [codes] <;> rfl
  have quotient : fpu.quotient.word &&& conditionCodes = 0#32 := by
    rw [← fpu.quotient.inside, BitVec.and_assoc, show fpsrQuotient &&& conditionCodes = 0#32 by decide,
      BitVec.and_zero]
  have exceptions : getExceptionStatus fpu &&& conditionCodes = 0#32 :=
    FlagWord.translate_and_eq_zero exceptionFlags_below _
  have accrued : getAccruedException fpu &&& conditionCodes = 0#32 :=
    FlagWord.translate_and_eq_zero accruedFlags_below _
  rw [getFpsr, BitVec.and_or_distrib_right, BitVec.and_or_distrib_right, BitVec.and_or_distrib_right,
    codes, quotient, exceptions, accrued, BitVec.or_zero, BitVec.or_zero, BitVec.or_zero]

theorem getFpsr_reload_iff (src fpu : FpuState) :
    getFpsr (setFpsr (getFpsr src) fpu) &&& fpsrBits = getFpsr src &&& fpsrBits ↔
      getFpsr src &&& fpsrCcbNegative = 0 := by
  have codes := getFpsr_codes src
  have negative : getFpsr src &&& fpsrCcbNegative = getFpccr src &&& fpsrCcbNegative := by
    rw [← codes, BitVec.and_assoc]
    rfl
  have others : getFpsr (setFpsr (getFpsr src) fpu) &&& keptBits = getFpsr src &&& keptBits := by
    rw [get_setFpsr_and _ _ _ (by decide), BitVec.and_self]
  have whole : getFpsr (setFpsr (getFpsr src) fpu) &&& fpsrBits = getFpsr src &&& fpsrBits ↔
      getFpsr (setFpsr (getFpsr src) fpu) &&& conditionCodes = getFpsr src &&& conditionCodes := by
    have inside : fpsrBits &&& conditionCodes = conditionCodes := by decide
    constructor
    · intro same
      rw [← inside, ← BitVec.and_assoc, same, BitVec.and_assoc]
    · intro same
      rw [fpsrBits, BitVec.and_or_distrib_left, BitVec.and_or_distrib_left, same, others]
  -- What was stored had been read, so its codes can be read back unless N is lost.
  have returnable : Returnable (getFpsr src &&& conditionCodes) := ⟨src, codes.symm⟩
  have lost := codes_kept_iff (getFpsr src) fpu
  rw [forall_prop_of_true returnable] at lost
  rw [whole, lost, codes, negative]
  have seven := getFpccr_cases src
  simp only [List.mem_cons, List.not_mem_nil, or_false] at seven
  obtain codes | codes | codes | codes | codes | codes | codes := seven <;> rw [codes] <;> decide

theorem reloaded_registers (src : FpuState) :
    getFpcr (reloaded i src src) =
        (if i.fpcr then getFpcr (setFpcr (storedFpcr src) src) else getFpcr src) ∧
      getFpsr (reloaded i src src) =
        (if i.fpsr then getFpsr (setFpsr (getFpsr src) src) else getFpsr src) ∧
      (reloaded i src src).instructionAddress = src.instructionAddress := by
  simp only [reloaded, setFpsr_eq]
  cases i.fpcr <;> cases i.fpsr <;> cases i.fpiar <;> exact ⟨rfl, rfl, rfl⟩

theorem reloaded_restored_iff (src : FpuState) :
    ControlRestored i src (reloaded i src src) ↔
      (i.fpsr = true → getFpsr src &&& fpsrCcbNegative = 0) := by
  obtain ⟨fpcr, fpsr, fpiar⟩ := reloaded_registers i src
  have kept : (if i.fpcr then getFpcr (reloaded i src src) &&& fpcrBits = getFpcr src &&& fpcrBits
      else getFpcr (reloaded i src src) = getFpcr src) := by
    rw [fpcr]
    split
    · exact getFpcr_reload src src
    · rfl
  constructor
  · intro restored listed
    have same := restored.fpsr
    rw [fpsr, if_pos listed, if_pos listed] at same
    exact (getFpsr_reload_iff src src).mp same
  · intro not_negative
    refine ⟨kept, ?_, fpiar⟩
    rw [fpsr]
    split
    next listed => exact (getFpsr_reload_iff src src).mpr (not_negative listed)
    next => rfl

/-! ### FMOVEM to `-(An)` and from `(An)+` -/

/-- The same list of control registers, to the stack and back. -/
structure ControlPair (store load : Instruction) : Prop extends StackPair store load where
  to_memory : store.extra &&& 0x2000 ≠ 0
  from_memory : load.extra &&& 0x2000 = 0
  fpcr : load.fpcr = store.fpcr
  fpsr : load.fpsr = store.fpsr
  fpiar : load.fpiar = store.fpiar

theorem memory_mode {i : Instruction} (mode : i.mode = 3 ∨ i.mode = 4) :
    i.opcode &&& 0x38 ≠ 0 ∧ i.opcode &&& 0x38 ≠ 8 ∧ i.opcode &&& 0x3f ≠ 0x3c := by
  have bits : i.opcode &&& 0x38 = i.mode.setWidth 16 <<< 3 := mode_bits i.opcode
  have modes : ∀ mode : BitVec 3, mode = 3 ∨ mode = 4 →
      mode.setWidth 16 <<< 3 ≠ (0 : BitVec 16) ∧ mode.setWidth 16 <<< 3 ≠ (8 : BitVec 16) ∧
        mode.setWidth 16 <<< 3 ≠ (0x38 : BitVec 16) := by decide
  obtain ⟨not_data, not_address, not_seven⟩ := modes i.mode mode
  refine ⟨bits ▸ not_data, bits ▸ not_address, fun immediate => not_seven ?_⟩
  -- Immediate is mode 7.
  have whole : i.opcode &&& 0x38 = 0x38 :=
    calc
      i.opcode &&& 0x38 = (i.opcode &&& 0x3f) &&& 0x38 := by rw [BitVec.and_assoc]; rfl
      _ = 0x3c &&& 0x38 := by rw [immediate]
      _ = 0x38 := rfl
  exact bits.symm.trans whole

variable {store load : Instruction}

theorem ControlPair.longs (pair : ControlPair store load) (fpu : FpuState) :
    controlLongs load fpu = controlLongs store fpu := by
  rw [controlLongs, pair.fpcr, pair.fpsr, pair.fpiar]
  rfl

theorem fmovem_control_store (pair : ControlPair store load) (next_ilong : Nat → BitVec 32)
    (m : FpuMachine) :
    fmovemControl store next_ilong m = some { m with
      regs := m.regs.setAreg store.reg (m.regs.areg store.reg - longsSize (controlLongs store m.fpu))
      mem := putLongs m.mem (m.regs.areg store.reg - longsSize (controlLongs store m.fpu))
        (controlLongs store m.fpu) } := by
  obtain ⟨not_data, not_address, not_immediate⟩ := memory_mode (.inr pair.predecrement)
  have back := BitVec.sub_add_cancel (m.regs.areg store.reg) (longsSize (controlLongs store m.fpu))
  simp only [fmovemControl, if_neg not_data, if_neg not_address, if_neg not_immediate,
    pair.to_memory, (pair.address m.regs).1, pair.toStackPair.directions.1, storeControl_eq,
    controlSize_eq store m.fpu, (pair.update _ _).1, back, ne_eq, not_false_eq_true, decide_true,
    if_true, Option.bind_eq_bind, Option.bind_some]

theorem fmovem_control_load (pair : ControlPair store load) (next_ilong : Nat → BitVec 32)
    (m : FpuMachine) (src : FpuState) (mem : Memory 32)
    (stored : m.mem = putLongs mem (m.regs.areg store.reg) (controlLongs store src)) :
    fmovemControl load next_ilong m = some { m with
      regs := m.regs.setAreg store.reg (m.regs.areg store.reg + longsSize (controlLongs store src))
      fpu := reloaded store src m.fpu } := by
  obtain ⟨not_data, not_address, not_immediate⟩ := memory_mode (.inl pair.postincrement)
  have same : reloaded load src m.fpu = reloaded store src m.fpu := by
    rw [reloaded, pair.fpcr, pair.fpsr, pair.fpiar]
    rfl
  have read := loadControl_eq load src m.fpu (m.regs.areg store.reg) mem
  rw [pair.longs, ← stored, same] at read
  -- Upward, the address is not lowered first.
  have no_step (ad : BitVec 32) : ad - 0 = ad := BitVec.sub_zero ad
  simp only [fmovemControl, if_neg not_data, if_neg not_address, if_neg not_immediate,
    pair.from_memory, (pair.address m.regs).2, pair.toStackPair.directions.2, (pair.update _ _).2,
    ne_eq, not_true_eq_false, decide_false, Bool.false_eq_true, if_false, Option.bind_eq_bind,
    Option.bind_some, no_step, read]

/-- `An` and the registers of the list come back. -/
structure ControlRoundTrip (store load : Instruction) (next_ilong : Nat → BitVec 32)
    (m stored loaded : FpuMachine) : Prop where
  to_memory : fmovemControl store next_ilong m = some stored
  from_memory : fmovemControl load next_ilong stored = some loaded
  regs : loaded.regs = m.regs
  restored : ControlRestored store m.fpu loaded.fpu

theorem control_round_trip_iff (pair : ControlPair store load) (next_ilong : Nat → BitVec 32)
    (m : FpuMachine) :
    (∃ stored loaded, ControlRoundTrip store load next_ilong m stored loaded) ↔
      (store.fpsr = true → getFpsr m.fpu &&& fpsrCcbNegative = 0) := by
  let bottom := m.regs.areg store.reg - longsSize (controlLongs store m.fpu)
  let stored : FpuMachine := { m with
    regs := m.regs.setAreg store.reg bottom
    mem := putLongs m.mem bottom (controlLongs store m.fpu) }
  have to_memory : fmovemControl store next_ilong m = some stored :=
    fmovem_control_store pair next_ilong m
  have at_bottom : stored.regs.areg store.reg = bottom := Regs.setAreg_same ..
  have from_memory := fmovem_control_load pair next_ilong stored m.fpu m.mem (at_bottom ▸ rfl)
  -- An goes down and up by the same size.
  have back : stored.regs.setAreg store.reg (stored.regs.areg store.reg +
      longsSize (controlLongs store m.fpu)) = m.regs := by
    rw [at_bottom, BitVec.sub_add_cancel, Regs.setAreg_setAreg, Regs.setAreg_self]
  rw [back] at from_memory
  constructor
  · rintro ⟨stored', loaded, trip⟩
    obtain rfl := Option.some.inj (to_memory.symm.trans trip.to_memory)
    obtain rfl := Option.some.inj (from_memory.symm.trans trip.from_memory)
    exact (reloaded_restored_iff store m.fpu).mp trip.restored
  · intro not_negative
    exact ⟨stored, _, to_memory, from_memory, rfl,
      (reloaded_restored_iff store m.fpu).mpr not_negative⟩

/-- Frames always come back, and control registers do unless FPSR is among them and has N. -/
theorem state_and_control_round_trip_iff {save restore : Instruction}
    (frames : StackPair save restore) (pair : ControlPair store load) (cpuType : Nat)
    (next_ilong : Nat → BitVec 32) (m : FpuMachine) :
    (∃ saved restored, FrameRoundTrip cpuType save restore m saved restored) ∧
      (∃ stored loaded, ControlRoundTrip store load next_ilong m stored loaded) ↔
    (store.fpsr = true → getFpsr m.fpu &&& fpsrCcbNegative = 0) := by
  rw [control_round_trip_iff pair]
  exact and_iff_right (frame_round_trip frames cpuType m)

/-! FPSR alone on the stack. -/
namespace ControlStack

/-- FSAVE -(A0) and FRESTORE (A0)+. -/
def fsave : Instruction := ⟨0xf320, 0, noStream⟩
def frestore : Instruction := ⟨0xf358, 0, noStream⟩

/-- FMOVE FPSR,-(A0) and FMOVE (A0)+,FPSR. -/
def pushFpsr : Instruction := ⟨0xf220, 0xa800, noStream⟩
def popFpsr : Instruction := ⟨0xf218, 0x8800, noStream⟩

/-- All zero but for the last result. -/
def after (result : Floatx80) : FpuMachine where
  regs := (stateWith fun _ => ⟨0, 0⟩).regs
  fpu := ⟨fun _ => ⟨0, 0⟩, result, quotientOf 0, 0, 0, 0, 0, 0, 0, 0⟩
  mem _ := 0

theorem frames : StackPair fsave frestore where
  predecrement := rfl
  postincrement := rfl
  same_reg := rfl

theorem pair : ControlPair pushFpsr popFpsr where
  predecrement := rfl
  postincrement := rfl
  same_reg := rfl
  to_memory := by decide
  from_memory := rfl
  fpcr := rfl
  fpsr := rfl
  fpiar := rfl

def one : Floatx80 := ⟨0x3fff, 0x8000000000000000⟩

theorem one_round_trip :
    (∃ saved restored, FrameRoundTrip 4 fsave frestore (after one) saved restored) ∧
      ∃ stored loaded, ControlRoundTrip pushFpsr popFpsr (fun _ => 0) (after one) stored loaded :=
  (state_and_control_round_trip_iff frames pair 4 (fun _ => 0) (after one)).mpr fun _ => by decide

/-- After a negative result FPSR does not come back. -/
theorem negative_lost :
    ¬∀ cpuType next_ilong m,
      (∃ saved restored, FrameRoundTrip cpuType fsave frestore m saved restored) ∧
        ∃ stored loaded, ControlRoundTrip pushFpsr popFpsr next_ilong m stored loaded := by
  intro claim
  obtain ⟨_, round_trip⟩ := claim 4 (fun _ => 0) (after (floatx80Chs one))
  have not_negative := (control_round_trip_iff pair (fun _ => 0) _).mp round_trip rfl
  exact absurd not_negative (by decide)

end ControlStack

end BasiliskII.Fpu
