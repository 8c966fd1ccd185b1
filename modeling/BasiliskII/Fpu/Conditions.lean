import BasiliskII.Cpu.Traps
import BasiliskII.Fpu.StatusRegister

/-!
# Conditional instructions of the FPU

`fpp_cond` of fpu_soft.cpp and its four users, with the handlers gencpu.c emits around them.
A condition from 0x20 on is undefined: FDBcc and FScc then raise the F-line exception at the
instruction, FBcc behind its opcode, and FTRAPcc goes on to trap.
-/
namespace BasiliskII.Fpu

open ByteMemory Cpu

/-- The `switch` of `fpp_cond`. -/
def conditionOf (nan n z : Bool) (condition : Nat) : Int :=
  -- From 0x10 on the conditions signal; what they are is the same.
  match condition with
  | 0x00 | 0x10 => 0
  | 0x01 | 0x11 => z.toInt
  | 0x02 | 0x12 => (!(nan || z || n)).toInt
  | 0x03 | 0x13 => (z || !(nan || n)).toInt
  | 0x04 | 0x14 => (n && !(nan || z)).toInt
  | 0x05 | 0x15 => (z || (n && !nan)).toInt
  | 0x06 | 0x16 => (!(nan || z)).toInt
  | 0x07 | 0x17 => (!nan).toInt
  | 0x08 | 0x18 => nan.toInt
  | 0x09 | 0x19 => (nan || z).toInt
  | 0x0a | 0x1a => (nan || !(n || z)).toInt
  | 0x0b | 0x1b => (nan || z || !n).toInt
  | 0x0c | 0x1c => (nan || (n && !z)).toInt
  | 0x0d | 0x1d => (nan || z || n).toInt
  | 0x0e | 0x1e => (!z).toInt
  | 0x0f | 0x1f => 1
  | _ => -1

def fppCond (result : Floatx80) (condition : Nat) : Int :=
  let nan : Bool := result.high &&& 0x7fff = 0x7fff ∧ result.low ≠ 0
  let sign : Bool := result.high &&& 0x8000 = 0x8000
  let zero : Bool := result.high &&& 0x7fff = 0 ∧ result.low = 0
  conditionOf nan (!nan && sign) (!nan && zero) condition

def m68kSetpc (newpc : BitVec 32) (st : Machine) : Machine :=
  { st with regs := { st.regs with pc := newpc } }

/-- A call of `Exception(nr, oldpc)` with the machine it finds. -/
structure ExceptionCall where
  nr : Nat
  oldpc : BitVec 32
  found : Machine

/-- The machine after an instruction, with the exceptions raised on the way. -/
structure Executed where
  st : Machine
  calls : List ExceptionCall

def Executed.exception (cpu : CPUType) (fault : Fault) (nr : Nat) (oldpc : BitVec 32)
    (e : Executed) : Executed :=
  ⟨Cpu.exception cpu fault nr oldpc e.st, e.calls ++ [⟨nr, oldpc, e.st⟩]⟩

section

variable (cpu : CPUType) (fault : Fault)

def opIllg (opcode : BitVec 16) (st : Machine) : Executed :=
  if opcode &&& 0xf000 = 0xa000 then Executed.exception cpu fault 0xa 0 ⟨st, []⟩
  else if opcode &&& 0xf000 = 0xf000 then Executed.exception cpu fault 0xb 0 ⟨st, []⟩
  else Executed.exception cpu fault 4 0 ⟨st, []⟩

def fpuopDbcc (result : Floatx80) (opcode extra : BitVec 16) (st : Machine) : Executed :=
  let pc := st.regs.pc
  let (disp, st) := st.nextIword
  let cc := fppCond result (extra &&& 0x3f).toNat
  if cc = -1 then opIllg cpu fault opcode (m68kSetpc (pc - 4) st)
  else if cc = 0 then
    let reg := opcode.setWidth 3
    let d := st.regs.dreg reg
    let d := (d &&& 0xffff0000) ||| (((d &&& 0xffff) - 1) &&& 0xffff)
    let st := { st with regs := st.regs.setDreg reg d }
    if d &&& 0xffff ≠ 0xffff then ⟨m68kSetpc (pc + disp.signExtend 32) st, []⟩ else ⟨st, []⟩
  else ⟨st, []⟩

/-- `get_fp_ad`, reading from the instruction stream; `none` for an illegal mode. -/
def fetchFpAd (opcode : BitVec 16) (st : Machine) : Option (BitVec 32 × Machine) :=
  let reg := opcode.setWidth 3
  match opcode.extractLsb' 3 3 with
  | 0 | 1 => none
  | 2 | 3 | 4 => some (st.regs.areg reg, st)
  | 5 => some (st.regs.areg reg + st.nextIword.1.signExtend 32, st.nextIword.2)
  | 6 => some (getDispEa020 (st.regs.areg reg) st.nextIword.1 st.nextIword.2)
  | _ =>
    match reg with
    | 0 => some (st.nextIword.1.signExtend 32, st.nextIword.2)
    | 1 => some st.nextIlong
    | 2 => some (st.regs.pc + st.nextIword.1.signExtend 32, st.nextIword.2)
    | 3 => some (getDispEa020 st.regs.pc st.nextIword.1 st.nextIword.2)
    | _ => none

def fpuopScc (result : Floatx80) (opcode extra : BitVec 16) (st : Machine) : Executed :=
  let cc := fppCond result (extra &&& 0x3f).toNat
  let value : BitVec 8 := if cc = 0 then 0 else 0xff
  if cc = -1 then opIllg cpu fault opcode (m68kSetpc (st.regs.pc - 4) st)
  else if opcode &&& 0x38 = 0 then
    let reg := opcode.setWidth 3
    let d := st.regs.dreg reg &&& ~~~0xff ||| value.setWidth 32
    ⟨{ st with regs := st.regs.setDreg reg d }, []⟩
  else
    match fetchFpAd opcode st with
    | none => opIllg cpu fault opcode (m68kSetpc (st.regs.pc - 4) st)
    | some (ad, st) => ⟨{ st with mem := ByteMemory.put st.mem ad value }, []⟩

def fpuopTrapcc (result : Floatx80) (opcode : BitVec 16) (oldpc : BitVec 32) (st : Machine) :
    Executed :=
  let cc := fppCond result (opcode &&& 0x3f).toNat
  let e := if cc = -1 then opIllg cpu fault opcode (m68kSetpc oldpc st) else ⟨st, []⟩
  -- An undefined condition gets here, too.
  if cc ≠ 0 then e.exception cpu fault 7 (oldpc - 2) else e

def fpuopBcc (result : Floatx80) (opcode : BitVec 16) (pc extra : BitVec 32) (st : Machine) :
    Executed :=
  let cc := fppCond result (opcode &&& 0x3f).toNat
  if cc = -1 then opIllg cpu fault opcode (m68kSetpc pc st)
  else if cc ≠ 0 then
    let extra := if opcode &&& 0x40 = 0 then (extra.setWidth 16).signExtend 32 else extra
    ⟨m68kSetpc (pc + extra) st, []⟩
  else ⟨st, []⟩

end

/-- The conditional instructions. FScc is decoded for some of the modes only. -/
inductive ConditionalInstr
  | fdbcc (reg : BitVec 3)
  | fscc (mode reg : BitVec 3)
  | ftrapcc (operand : TrapOperand)
  | fbcc (long : Bool) (cc : BitVec 6)

def ConditionalInstr.opcode : ConditionalInstr → BitVec 16
  | .fdbcc reg => 0xf248 ||| reg.setWidth 16
  | .fscc mode reg => 0xf240 ||| mode.setWidth 16 <<< 3 ||| reg.setWidth 16
  | .ftrapcc .imm1 => 0xf27a
  | .ftrapcc .imm2 => 0xf27b
  | .ftrapcc .none => 0xf27c
  | .fbcc long cc => 0xf280 ||| (if long then 0x40 else 0) ||| cc.setWidth 16

/-- The handler, with the operands it fetches. -/
def ConditionalInstr.execute (cpu : CPUType) (fault : Fault) (result : Floatx80) (st : Machine)
    (i : ConditionalInstr) : Executed :=
  match i with
  | .fdbcc _ =>
    let (extra, h) := st.begin.nextIword
    fpuopDbcc cpu fault result i.opcode extra h.syncPc.st
  | .fscc .. =>
    let (extra, h) := st.begin.nextIword
    fpuopScc cpu fault result i.opcode extra h.syncPc.st
  | .ftrapcc operand =>
    let h := st.begin.syncPc
    let oldpc := h.st.regs.pc
    let h := operand.fetch cpu h
    fpuopTrapcc cpu fault result i.opcode oldpc h.syncPc.st
  | .fbcc long _ =>
    let h := st.begin.syncPc
    let pc := h.st.regs.pc
    let (extra, h) := genamode cpu (if long then .imm2 else .imm1) 0 .long h
    fpuopBcc cpu fault result i.opcode pc extra h.syncPc.st

/-! ### Defined and undefined conditions -/

theorem conditionOf_undefined (nan n z : Bool) {condition : Nat} (undefined : 0x20 ≤ condition) :
    conditionOf nan n z condition = -1 := by
  unfold conditionOf
  -- Only the default is that large.
  split <;> omega

theorem conditionOf_truth : ∀ nan n z : Bool, ∀ condition < 0x20,
    conditionOf nan n z condition = 0 ∨ conditionOf nan n z condition = 1 := by
  decide

theorem fppCond_undefined_iff (result : Floatx80) (condition : Nat) :
    fppCond result condition = -1 ↔ 0x20 ≤ condition := by
  constructor
  · intro undefined
    by_contra defined
    have truth : fppCond result condition = 0 ∨ fppCond result condition = 1 :=
      conditionOf_truth _ _ _ condition (Nat.lt_of_not_le defined)
    omega
  · exact conditionOf_undefined _ _ _

/-! ### The exceptions of an undefined condition -/

/-- The instruction is backed up to and has raised the F-line exception; nothing else was done. -/
def SignalsOnce (cpu : CPUType) (fault : Fault) (st : Machine) (e : Executed) : Prop :=
  e = Executed.exception cpu fault 0xb 0 ⟨st, []⟩

/-- The instructions with the condition in a word of its own. -/
def ConditionalInstr.extended : ConditionalInstr → Bool
  | .fdbcc _ | .fscc .. => true
  | .ftrapcc _ | .fbcc .. => false

def ConditionalInstr.condition (st : Machine) (i : ConditionalInstr) : Nat :=
  if i.extended then (getWord st.mem (st.regs.pc + 2) &&& 0x3f).toNat else (i.opcode &&& 0x3f).toNat

theorem ConditionalInstr.opcode_fline (i : ConditionalInstr) : i.opcode &&& 0xf000 = 0xf000 := by
  cases i with
  | fdbcc reg => revert reg; decide
  | fscc mode reg => revert mode reg; decide
  | ftrapcc operand => cases operand <;> rfl
  | fbcc long cc => revert long cc; decide

theorem opIllg_of_fline (cpu : CPUType) (fault : Fault) {opcode : BitVec 16}
    (fline : opcode &&& 0xf000 = 0xf000) (st : Machine) :
    opIllg cpu fault opcode st = Executed.exception cpu fault 0xb 0 ⟨st, []⟩ := by
  have not_aline : opcode &&& 0xf000 ≠ 0xa000 := by
    rw [fline]
    decide
  rw [opIllg, if_neg not_aline, if_pos fline]

theorem opIllg_fline (cpu : CPUType) (fault : Fault) (i : ConditionalInstr) (st : Machine) :
    opIllg cpu fault i.opcode st = Executed.exception cpu fault 0xb 0 ⟨st, []⟩ :=
  opIllg_of_fline cpu fault i.opcode_fline st

section

variable (cpu : CPUType) (fault : Fault) (result : Floatx80) (st : Machine)

theorem backed_up : m68kSetpc (st.begin.nextIword.2.syncPc.st.regs.pc - 4)
    st.begin.nextIword.2.syncPc.st = st := by
  have back : st.regs.pc + (2 + 2) - 4 = st.regs.pc := by bv_omega
  exact congrArg (fun pc => (⟨{ st.regs with pc }, st.mem⟩ : Machine)) back

/-- FDBcc and FScc find out before they do anything. -/
theorem extended_once (i : ConditionalInstr) (extended : i.extended = true)
    (undefined : fppCond result (i.condition st) = -1) :
    SignalsOnce cpu fault st (i.execute cpu fault result st) := by
  rw [ConditionalInstr.condition, if_pos extended] at undefined
  have cc : fppCond result (st.begin.nextIword.1 &&& 0x3f).toNat = -1 := undefined
  have signalled (i : ConditionalInstr) : opIllg cpu fault i.opcode
      (m68kSetpc (st.begin.nextIword.2.syncPc.st.regs.pc - 4) st.begin.nextIword.2.syncPc.st) =
        Executed.exception cpu fault 0xb 0 ⟨st, []⟩ := by
    rw [backed_up, opIllg_fline]
  cases i with
  | fdbcc reg =>
    have run : (ConditionalInstr.fdbcc reg).execute cpu fault result st = opIllg cpu fault _ _ :=
      if_pos cc
    exact run.trans (signalled (.fdbcc reg))
  | fscc mode reg =>
    have run : (ConditionalInstr.fscc mode reg).execute cpu fault result st = opIllg cpu fault _ _ :=
      if_pos cc
    exact run.trans (signalled (.fscc mode reg))
  | ftrapcc | fbcc => contradiction

/-- FTRAPcc raises the exception of a true condition, too. -/
theorem ftrapcc_twice (operand : TrapOperand)
    (undefined : fppCond result ((ConditionalInstr.ftrapcc operand).condition st) = -1) :
    ((ConditionalInstr.ftrapcc operand).execute cpu fault result st).calls.map (·.nr) = [0xb, 7] := by
  have cc : fppCond result ((ConditionalInstr.ftrapcc operand).opcode &&& 0x3f).toNat = -1 :=
    undefined
  have not_false : fppCond result ((ConditionalInstr.ftrapcc operand).opcode &&& 0x3f).toNat ≠ 0 := by
    rw [cc]
    decide
  simp only [ConditionalInstr.execute, fpuopTrapcc, if_pos cc, if_pos not_false, opIllg_fline]
  rfl

/-- FBcc raises it with the PC behind the opcode. -/
theorem fbcc_found (long : Bool) (cc : BitVec 6)
    (undefined : fppCond result ((ConditionalInstr.fbcc long cc).condition st) = -1) :
    ((ConditionalInstr.fbcc long cc).execute cpu fault result st).calls.map (·.found.regs.pc) =
      [st.regs.pc + 2] := by
  have undefined : fppCond result ((ConditionalInstr.fbcc long cc).opcode &&& 0x3f).toNat = -1 :=
    undefined
  simp only [ConditionalInstr.execute, fpuopBcc, if_pos undefined, opIllg_fline]
  rfl

/-- An undefined condition is signalled as it should be where it stands in an extension word. -/
theorem undefined_signals_once_iff (i : ConditionalInstr) :
    (fppCond result (i.condition st) = -1 →
      SignalsOnce cpu fault st (i.execute cpu fault result st)) ↔
    i.extended = true ∨ i.condition st < 0x20 := by
  constructor
  · intro once
    by_contra outside
    obtain ⟨not_extended, not_defined⟩ := not_or.mp outside
    have undefined := (fppCond_undefined_iff result _).mpr (Nat.le_of_not_lt not_defined)
    have calls := congrArg Executed.calls (once undefined)
    cases i with
    | fdbcc | fscc => exact not_extended rfl
    | ftrapcc operand =>
      have two := ftrapcc_twice cpu fault result st operand undefined
      rw [calls] at two
      cases two
    | fbcc long cc =>
      have behind := fbcc_found cpu fault result st long cc undefined
      rw [calls] at behind
      have moved : st.regs.pc = st.regs.pc + 2 := (List.cons.inj behind).1
      bv_omega
  · rintro (extended | defined) undefined
    · exact extended_once cpu fault result st i extended undefined
    · exact absurd ((fppCond_undefined_iff result _).mp undefined) (Nat.not_le_of_lt defined)

end

/-- FTRAPcc without operand raises the F-line exception and then traps. -/
theorem ftrapcc_signals_twice :
    ¬∀ cpu fault result st i, fppCond result (ConditionalInstr.condition st i) = -1 →
      SignalsOnce cpu fault st (i.execute cpu fault result st) := by
  intro claim
  let regs : Regs := ⟨fun _ => 0, fun _ => 0, 0, 0, 0, 0, 0, 0, 0, false, false, true, false,
    ⟨false, false, false, false, false⟩⟩
  have once := claim .mc68040 ⟨0, 0, 0⟩ ⟨0, 0⟩ ⟨regs, fun _ => 0⟩ (.ftrapcc .none)
  have outside := (undefined_signals_once_iff _ _ _ _ _).mp once
  exact absurd outside (by decide)

end BasiliskII.Fpu
