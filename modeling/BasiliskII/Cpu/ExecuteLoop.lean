import BasiliskII.Cpu.Exceptions
import BasiliskII.Interrupts.CpuLoop

/-!
# The execution loop and calls into guest code

`m68k_execute`, `m68k_do_execute`, `m68k_do_specialties` and `m68k_emulop` of
newcpu.cpp, `Execute68k` and `Execute68kTrap` of basilisk_glue.cpp. The
generated instruction handlers and `EmulOp` are parameters; an `EmulOp` is a
tree of what it does to the Mac and of its calls into guest code. `BRK` and
`quit_program` stand apart from the rest of the emulator's state.
-/
namespace BasiliskII.Cpu

open ByteMemory

/-- `struct M68kRegisters` -/
structure M68kRegisters where
  d : BitVec 3 → BitVec 32
  a : BitVec 3 → BitVec 32
  sr : BitVec 16

/-- Registers, memory, `InterruptFlags` and the special flags other than `SPCFLAG_BRK`. -/
structure Core where
  machine : Machine
  interruptFlags : BitVec 32
  stop : Bool
  int : Bool
  doint : Bool
  trace : Bool
  dotrace : Bool
  lastTraceAd : BitVec 32
  /-- How often the devices had a chance to interrupt. -/
  time : Nat

abbrev Core.regs (c : Core) : Regs := c.machine.regs

/-- The state with `SPCFLAG_BRK` and `quit_program`. -/
structure Emulator where
  core : Core
  brk : Bool
  quitProgram : Bool

/-- What host code reads and writes besides its register record. -/
structure Host where
  mem : Memory 32
  interruptFlags : BitVec 32
  int : Bool

def Core.host (c : Core) : Host := ⟨c.machine.mem, c.interruptFlags, c.int⟩

def Core.setHost (c : Core) (host : Host) : Core :=
  { c with
    machine := { c.machine with mem := host.mem }
    interruptFlags := host.interruptFlags
    int := host.int }

/-- The guest code host code asks for. -/
inductive Call where
  /-- `Execute68k(addr, r)` -/
  | subroutine (addr : BitVec 32)
  /-- `Execute68kTrap(opcode, r)` -/
  | trap (opcode : BitVec 16)
  deriving DecidableEq, Repr

/-- The run of an `EmulOp`. -/
inductive Native where
  | done (r : M68kRegisters)
  | access (step : Host → Host) (next : Host → Native)
  | execute (call : Call) (r : M68kRegisters) (next : M68kRegisters → Native)

structure Env where
  cpu : CPUType
  fault : Fault
  /-- The handlers of `cpufunctbl` other than the two of emulator opcodes. -/
  instruction : BitVec 16 → Core → Core
  emulOp : BitVec 16 → M68kRegisters → Native
  /-- The flags a device raises at a time, before it calls `TriggerInterrupt`. -/
  devices : Nat → Option (BitVec 32)
  /-- How long a stopped CPU is watched. -/
  patience : Nat

def m68kExecReturn : BitVec 16 := 0x7100

/-- `0111 0001 EEEE EEEE` of table68k, less `EMULOP_RETURN`. -/
def isEmulop (opcode : BitVec 16) : Bool :=
  opcode &&& 0xff00 = 0x7100 && opcode ≠ m68kExecReturn

/-! ### Special flags -/

/-- A device may interrupt: `SetInterruptFlag` and `TriggerInterrupt`. -/
def poll (env : Env) (c : Core) : Core :=
  match env.devices c.time with
  | none => { c with time := c.time + 1 }
  | some flags =>
    { c with interruptFlags := c.interruptFlags ||| flags, int := true, time := c.time + 1 }

def Core.exception (env : Env) (nr : Nat) (oldpc : BitVec 32) (c : Core) : Core :=
  { c with
    machine := Cpu.exception env.cpu env.fault nr oldpc c.machine
    trace := false
    dotrace := false }

def Core.intlev (c : Core) : Nat := Interrupts.intlev c.interruptFlags

/-- `intr > regs.intmask` -/
def Core.Accepts (c : Core) : Prop := c.regs.intmask.toNat < c.intlev

instance (c : Core) : Decidable c.Accepts := inferInstanceAs (Decidable (_ < _))

def Core.interrupt (env : Env) (c : Core) : Core :=
  { c with
    machine := Cpu.interrupt env.cpu env.fault (BitVec.ofNat 3 c.intlev) c.machine
    trace := false
    dotrace := false
    int := true }

/-- The opcodes `do_trace` takes for a change of flow. -/
def changesFlow (regs : Regs) (opcode : BitVec 16) : Bool :=
  let cc := opcode.extractLsb' 8 4
  opcode = 0x4e72 || opcode = 0x4e74 || opcode = 0x4e75 || opcode = 0x4e77 || opcode = 0x4e76 ||
    opcode &&& 0xffc0 = 0x4e80 || opcode &&& 0xffc0 = 0x4ec0 || opcode &&& 0xff00 = 0x6100 ||
    (opcode &&& 0xf000 = 0x6000 && cctrue regs.flags cc) ||
    (opcode &&& 0xf0f0 = 0x5050 && !cctrue regs.flags cc &&
      (regs.dreg (opcode.extractLsb' 0 3)).setWidth 16 ≠ 0)

def doTrace (env : Env) (c : Core) : Core :=
  if c.regs.t0 && env.cpu.level ≥ 2 then
    if changesFlow c.regs (getWord c.machine.mem c.regs.pc) then
      { c with lastTraceAd := c.regs.pc, trace := false, dotrace := true }
    else c
  else if c.regs.t1 then { c with lastTraceAd := c.regs.pc, trace := false, dotrace := true }
  else c

/-- `while (SPCFLAGS_TEST( SPCFLAG_STOP ))`, for at most the given number of rounds. -/
def waitStopped (env : Env) : Nat → Core → Option Core
  | 0, c => if c.stop then none else some c
  | rounds + 1, c =>
    if c.stop then
      if c.int || c.doint then
        let c := { c with int := false, doint := false }
        if c.Accepts then waitStopped env rounds { c.interrupt env with stop := false }
        else waitStopped env rounds (poll env c)
      else waitStopped env rounds (poll env c)
    else some c

/-- `m68k_do_specialties` up to its test of `SPCFLAG_BRK`. -/
def serviceFlags (env : Env) (c : Core) : Option Core :=
  let c := if c.dotrace then c.exception env 9 c.lastTraceAd else c
  (waitStopped env env.patience c).map fun c =>
    let c := if c.trace then doTrace env c else c
    let c :=
      if c.doint then
        let c := { c with doint := false }
        if c.Accepts then c.interrupt env else c
      else c
    if c.int then { c with int := false, doint := true } else c

/-- `m68k_do_specialties`, with the value it returns. -/
def m68kDoSpecialties (env : Env) (st : Emulator) : Option (Bool × Emulator) :=
  (serviceFlags env st.core).map fun c => (st.brk, { st with core := c, brk := false })

/-- `SPCFLAGS_TEST(SPCFLAG_ALL_BUT_EXEC_RETURN)` -/
def Emulator.special (st : Emulator) : Bool :=
  st.core.stop || st.core.int || st.brk || st.core.trace || st.core.dotrace || st.core.doint

/-! ### Calls into guest code -/

/-- The registers the call's record sets: all but A7. -/
def Regs.load (regs : Regs) (r : M68kRegisters) : Regs :=
  { regs with dreg := r.d, areg := fun k => if k = sp then regs.areg k else r.a k }

/-- The record after the call: A7 and SR are unused. -/
def M68kRegisters.store (r : M68kRegisters) (regs : Regs) : M68kRegisters :=
  { r with d := regs.dreg, a := fun k => if k = sp then r.a k else regs.areg k }

def Core.setPc (c : Core) (pc : BitVec 32) : Core :=
  { c with machine := { c.machine with regs := { c.regs with pc := pc } } }

/-- What `Execute68k` and `Execute68kTrap` do before `m68k_execute`. -/
def Call.enter (call : Call) (r : M68kRegisters) (c : Core) : Core :=
  let st := { c.machine with regs := c.regs.load r }.pushWord m68kExecReturn
  match call with
  | .subroutine addr =>
    -- The faked return address points to EXEC_RETURN
    { c with machine := st.pushLong st.regs.a7 }.setPc addr
  | .trap opcode =>
    let st := st.pushWord opcode
    { c with machine := st }.setPc st.regs.a7

/-- What is added to A7 to clean up the stack. -/
def Call.cleanUp : Call → BitVec 32
  | .subroutine _ => 2
  | .trap _ => 4

/-- `Execute68k` and `Execute68kTrap`, with `m68k_execute` as `loop`. -/
def execute68k (loop : Emulator → Option Emulator) (call : Call) (r : M68kRegisters)
    (st : Emulator) : Option (M68kRegisters × Emulator) :=
  let oldpc := st.core.regs.pc
  (loop { st with core := call.enter r st.core, quitProgram := false }).map fun st =>
    let regs := st.core.regs.setA7 (st.core.regs.a7 + call.cleanUp)
    let c := { st.core with machine := { st.core.machine with regs := regs } }.setPc oldpc
    (r.store c.regs, { st with core := c, quitProgram := false })

def runNative (loop : Emulator → Option Emulator) :
    Native → Emulator → Option (M68kRegisters × Emulator)
  | .done r, st => some (r, st)
  | .access step next, st =>
    let host := step st.core.host
    runNative loop (next host) { st with core := st.core.setHost host }
  | .execute call r next, st =>
    (execute68k loop call r st).bind fun (r, st) => runNative loop (next r) st

/-- `MakeSR()` and the record `m68k_emulop` hands to `EmulOp`. -/
def Regs.record (regs : Regs) : M68kRegisters := ⟨regs.dreg, regs.areg, regs.srValue⟩

/-- The registers and flags after `EmulOp`: all of the record is written back. -/
def Core.writeBack (env : Env) (r : M68kRegisters) (c : Core) : Core :=
  let regs := makeFromSR env.cpu { c.regs with dreg := r.d, areg := r.a, sr := r.sr }
  { c with
    machine := { c.machine with regs := regs }
    int := true
    trace := regs.t1 || regs.t0 }

def m68kEmulop (env : Env) (loop : Emulator → Option Emulator) (opcode : BitVec 16)
    (st : Emulator) : Option Emulator :=
  let core := { st.core with machine := { st.core.machine with regs := makeSR st.core.regs } }
  (runNative loop (env.emulOp opcode st.core.regs.record) { st with core := core }).map
    fun (r, st) => { st with core := st.core.writeBack env r }

def m68kEmulopReturn (st : Emulator) : Emulator := { st with brk := true, quitProgram := true }

/-- `(*cpufunctbl[opcode])(opcode)`. EMULOP advances the PC, EMULOP_RETURN does not. -/
def dispatch (env : Env) (loop : Emulator → Option Emulator) (st : Emulator) : Option Emulator :=
  let opcode := getWord st.core.machine.mem st.core.regs.pc
  if opcode = m68kExecReturn then some (m68kEmulopReturn st)
  else if isEmulop opcode then
    (m68kEmulop env loop opcode st).map fun st =>
      { st with core := st.core.setPc (st.core.regs.pc + 2) }
  else some { st with core := env.instruction opcode st.core }

/-! ### The loops -/

/-- `m68k_execute`, for at most the given number of rounds. -/
def m68kExecute (doExecute : Emulator → Option Emulator) : Nat → Emulator → Option Emulator
  | 0, _ => none
  | rounds + 1, st =>
    if st.quitProgram then some st else (doExecute st).bind (m68kExecute doExecute rounds)

/-- `m68k_do_execute`, for at most `fuel` instructions here and in each loop inside. -/
def m68kDoExecute (env : Env) : Nat → Emulator → Option Emulator
  | 0, _ => none
  | fuel + 1, st =>
    (dispatch env (m68kExecute (m68kDoExecute env fuel) (fuel + 2)) st).bind fun st =>
      let st := { st with core := poll env st.core }
      if st.special then
        (m68kDoSpecialties env st).bind fun (leave, st) =>
          if leave then some st else m68kDoExecute env fuel st
      else m68kDoExecute env fuel st

end BasiliskII.Cpu
