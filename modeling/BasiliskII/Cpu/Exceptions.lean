import BasiliskII.Cpu.Registers
import BasiliskII.Library.ByteMemory
import Mathlib.Logic.Function.Iterate

/-!
# Exceptions and RTE

`MakeSR`, `MakeFromSR` and `Exception` of newcpu.cpp, and RTE as gencpu.c emits
it. A7 stands for one of USP, ISP and MSP; the other two are in their fields.
Memory is RAM throughout.
-/
namespace BasiliskII.Cpu

open ByteMemory

/-- The CPU types `InitAll` sets. -/
inductive CPUType where
  | mc68000 | mc68020 | mc68030 | mc68040
  deriving DecidableEq, Repr

/-- The value of the variable `CPUType`. -/
def CPUType.level : CPUType → Nat
  | .mc68000 => 0
  | .mc68020 => 2
  | .mc68030 => 3
  | .mc68040 => 4

structure Machine where
  regs : Regs
  mem : Memory 32

def sp : BitVec 3 := 7

def Regs.a7 (regs : Regs) : BitVec 32 := regs.areg sp

def Regs.setA7 (regs : Regs) (value : BitVec 32) : Regs := regs.setAreg sp value

def srBit (b : Bool) (position : Nat) : BitVec 16 := (BitVec.ofBool b).setWidth 16 <<< position

def Regs.srValue (regs : Regs) : BitVec 16 :=
  srBit regs.t1 15 ||| srBit regs.t0 14 ||| srBit regs.s 13 ||| srBit regs.m 12 |||
    (regs.intmask.setWidth 16 <<< 8) ||| srBit regs.flags.x 4 ||| srBit regs.flags.n 3 |||
    srBit regs.flags.z 2 ||| srBit regs.flags.v 1 ||| srBit regs.flags.c 0

def makeSR (regs : Regs) : Regs := { regs with sr := regs.srValue }

/-- The fields `MakeFromSR` takes apart from the SR. -/
def Regs.fromSR (regs : Regs) : Regs :=
  { regs with
    t1 := regs.sr.getLsbD 15
    t0 := regs.sr.getLsbD 14
    s := regs.sr.getLsbD 13
    m := regs.sr.getLsbD 12
    intmask := regs.sr.extractLsb' 8 3
    flags := ⟨regs.sr.getLsbD 4, regs.sr.getLsbD 3, regs.sr.getLsbD 2, regs.sr.getLsbD 1,
      regs.sr.getLsbD 0⟩ }

def makeFromSR (cpu : CPUType) (regs : Regs) : Regs :=
  let oldm := regs.m
  let olds := regs.s
  let regs := regs.fromSR
  if cpu.level ≥ 2 then
    if olds ≠ regs.s then
      if olds then
        let regs := if oldm then { regs with msp := regs.a7 } else { regs with isp := regs.a7 }
        regs.setA7 regs.usp
      else
        let regs := { regs with usp := regs.a7 }
        regs.setA7 (if regs.m then regs.msp else regs.isp)
    else if olds ∧ oldm ≠ regs.m then
      if oldm then { regs with msp := regs.a7 }.setA7 regs.isp
      else { regs with isp := regs.a7 }.setA7 regs.msp
    else regs
  else if olds ≠ regs.s then
    if olds then { regs with isp := regs.a7 }.setA7 regs.usp
    else { regs with usp := regs.a7 }.setA7 regs.isp
  else regs

/-- `m68k_areg(regs, 7) -= 2; put_word(m68k_areg(regs, 7), value)` -/
def Machine.pushWord (st : Machine) (value : BitVec 16) : Machine :=
  let a7 := st.regs.a7 - 2
  ⟨st.regs.setA7 a7, putWord st.mem a7 value⟩

def Machine.pushLong (st : Machine) (value : BitVec 32) : Machine :=
  let a7 := st.regs.a7 - 4
  ⟨st.regs.setA7 a7, putLong st.mem a7 value⟩

/-- What an address error leaves for its frame on the 68000. -/
structure Fault where
  lastFault : BitVec 32
  lastOp : BitVec 16
  lastAddr : BitVec 32

/-- Switch to the supervisor stack. -/
def enterSupervisor (cpu : CPUType) (regs : Regs) : Regs :=
  if regs.s then regs
  else
    let regs := { regs with usp := regs.a7 }
    let regs :=
      regs.setA7 (if cpu.level ≥ 2 then (if regs.m then regs.msp else regs.isp) else regs.isp)
    { regs with s := true }

def isInterrupt (nr : Nat) : Bool := 24 ≤ nr && nr < 32

/-- The vector offset, as frames hold it. -/
def vectorOffset (nr : Nat) : BitVec 16 := BitVec.ofNat 16 (nr * 4)

/-- From the master stack, whose pointer is saved, to the interrupt stack. -/
def toInterruptStack (regs : Regs) : Regs :=
  { regs with sr := regs.sr ||| 1#16 <<< 13, msp := regs.a7 }.setA7 regs.isp

/-- What stands above PC and SR in the frame of a 68010 or later. -/
def pushFormat (nr : Nat) (oldpc currpc : BitVec 32) (st : Machine) : Machine :=
  if nr = 2 ∨ nr = 3 then ((Machine.pushWord · 0)^[12] st).pushWord (0xa000 + vectorOffset nr)
  else if nr = 5 ∨ nr = 6 ∨ nr = 7 ∨ nr = 9 then
    (st.pushLong oldpc).pushWord (0x2000 + vectorOffset nr)
  else if st.regs.m ∧ isInterrupt nr then
    let st := ((st.pushWord (vectorOffset nr)).pushLong currpc).pushWord st.regs.sr
    -- Throwaway frame on the interrupt stack
    { st with regs := toInterruptStack st.regs }.pushWord (0x1000 + vectorOffset nr)
  else st.pushWord (vectorOffset nr)

/-- The words an address error on the 68000 leaves below the stack pointer. -/
def pushFault (fault : Fault) (nr : Nat) (st : Machine) : Machine :=
  let a7 := st.regs.a7 - 12
  let mem :=
    if nr = 3 then
      putLong (putWord (putLong st.mem a7 fault.lastFault) (a7 + 4) fault.lastOp) (a7 + 8)
        fault.lastAddr
    else st.mem
  ⟨st.regs.setA7 a7, mem⟩

/-- Jump through the vector; `regs.t1 = regs.t0 = regs.m = 0`. -/
def enterHandler (nr : Nat) (st : Machine) : Machine :=
  { st with
    regs := { st.regs with
      pc := getLong st.mem (st.regs.vbr + 4 * BitVec.ofNat 32 nr)
      t1 := false
      t0 := false
      m := false } }

def exception (cpu : CPUType) (fault : Fault) (nr : Nat) (oldpc : BitVec 32) (st : Machine) :
    Machine :=
  let currpc := st.regs.pc
  let st := { st with regs := enterSupervisor cpu (makeSR st.regs) }
  let st :=
    if cpu.level > 0 then (pushFormat nr oldpc currpc st).pushLong currpc
    else if nr = 2 ∨ nr = 3 then pushFault fault nr st
    else st.pushLong currpc
  enterHandler nr (st.pushWord st.regs.sr)

/-- `Interrupt(nr)` -/
def interrupt (cpu : CPUType) (fault : Fault) (nr : BitVec 3) (st : Machine) : Machine :=
  let st := exception cpu fault (nr.toNat + 24) 0 st
  { st with regs := { st.regs with intmask := nr } }

def Machine.popWord (st : Machine) : BitVec 16 × Machine :=
  (getWord st.mem st.regs.a7, { st with regs := st.regs.setA7 (st.regs.a7 + 2) })

def Machine.popLong (st : Machine) : BitVec 32 × Machine :=
  (getLong st.mem st.regs.a7, { st with regs := st.regs.setA7 (st.regs.a7 + 4) })

/-- `regs.sr = newsr; MakeFromSR()` -/
def Machine.setSR (cpu : CPUType) (st : Machine) (newsr : BitVec 16) : Machine :=
  { st with regs := makeFromSR cpu { st.regs with sr := newsr } }

/-- The bytes of a frame above its format word, for the formats that end RTE. -/
def frameRest (format : BitVec 16) : Option (BitVec 32) :=
  match format &&& 0xf000 with
  | 0x0000 => some 0
  | 0x2000 => some 4
  | 0x3000 => some 4
  | 0x7000 => some 52
  | 0x8000 => some 50
  | 0x9000 => some 12
  | 0xa000 => some 24
  | 0xb000 => some 84
  | _ => none

/-- The loop of RTE on the 68010 and later, for at most `fuel` frames. -/
def rteLoop (cpu : CPUType) (fault : Fault) : Nat → Machine → Option Machine
  | 0, _ => none
  | fuel + 1, st =>
    let (newsr, st) := st.popWord
    let (newpc, st) := st.popLong
    let (format, st) := st.popWord
    if format &&& 0xf000 = 0x1000 then rteLoop cpu fault fuel (st.setSR cpu newsr)
    else
      match frameRest format with
      | none => some (exception cpu fault 14 0 st)
      | some rest =>
        let st := { st with regs := st.regs.setA7 (st.regs.a7 + rest) }.setSR cpu newsr
        some { st with regs := { st.regs with pc := newpc } }

def rte (cpu : CPUType) (fault : Fault) (fuel : Nat) (st : Machine) : Option Machine :=
  if !st.regs.s then some (exception cpu fault 8 0 st)
  else if cpu.level = 0 then
    let (newsr, st) := st.popWord
    let (newpc, st) := st.popLong
    some ({ st with regs := { st.regs with pc := newpc } }.setSR cpu newsr)
  else rteLoop cpu fault fuel st

end BasiliskII.Cpu
