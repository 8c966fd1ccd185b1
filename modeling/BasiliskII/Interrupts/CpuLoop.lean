import BasiliskII.Interrupts.IrqHandler
import BasiliskII.Library.StepSystem
import Mathlib.Logic.Function.Basic

/-!
# The CPU loop and the special flag word

`m68k_do_execute`, `m68k_do_specialties`, `MakeFromSR`, `Exception` and
`Interrupt` of newcpu.cpp as far as they touch `regs.spcflags` and
`regs.intmask`, in any interleaving with device threads in `SetInterruptFlag`
and `TriggerInterrupt`. `SPCFLAGS_SET` and `SPCFLAGS_CLEAR` are a read and a
write. What the CPU thread has still to do is a list of operations, and
`EmulOp`s that execute guest code put a further loop in front of it.
-/
namespace BasiliskII.Interrupts

open StepSystem

def spcflagStop : BitVec 32 := 0x01
def spcflagInt : BitVec 32 := 0x02
def spcflagBrk : BitVec 32 := 0x04
def spcflagTrace : BitVec 32 := 0x08
def spcflagDotrace : BitVec 32 := 0x10
def spcflagDoint : BitVec 32 := 0x20

/-- `SPCFLAG_ALL_BUT_EXEC_RETURN`; the two JIT flags are zero in a build without the JIT. -/
def spcflagAll : BitVec 32 :=
  spcflagStop ||| spcflagInt ||| spcflagBrk ||| spcflagTrace ||| spcflagDotrace ||| spcflagDoint

/-- One access of the CPU thread to the shared words, or one of the tests on its way. -/
inductive Op where
  /-- `SPCFLAGS_SET(mask)` and, once the word is read, its write. -/
  | set (mask : BitVec 32)
  | storeSet (mask loaded : BitVec 32)
  | clear (mask : BitVec 32)
  | storeClear (mask loaded : BitVec 32)
  /-- The status register is taken apart at the head of `MakeFromSR`. -/
  | loadSR (sr : BitVec 16)
  | setIntmask (nr : Nat)
  | clearTraceBits
  | clearStopped
  | setStopped
  | quit
  /-- Back in `Execute68k` after `m68k_execute`. -/
  | returned
  /-- `ClearInterruptFlag(flag)` in an `EmulOp`, and its write. -/
  | clearFlag (flag : IntFlag)
  | storeFlag (flag : IntFlag) (loaded : BitVec 32)
  /-- The head of the loop of `m68k_do_execute`. -/
  | boundary
  /-- An `EmulOp` runs. -/
  | emulOp
  -- the tests of `m68k_do_execute` and `m68k_do_specialties`, in their order
  | testAll
  | testDotrace
  | testStop
  | testStopInt
  | checkStopInt
  | testTrace
  | testDoint
  | checkDoint
  | testInt
  | testBrk
  /-- `m68k_do_execute` returns. -/
  | leave
  deriving DecidableEq, Repr

def makeFromSR (sr : BitVec 16) : List Op :=
  [.loadSR sr, .set spcflagInt,
    if sr.getLsbD 15 || sr.getLsbD 14 then .set spcflagTrace else .clear spcflagTrace]

/-- The flag accesses of `Exception`; the first one sets `SPCFLAG_JIT_END_COMPILE`, which is 0. -/
def exception : List Op :=
  [.set 0, .clearTraceBits, .clear (spcflagTrace ||| spcflagDotrace)]

def interrupt (nr : Nat) : List Op := exception ++ [.setIntmask nr, .set spcflagInt]

/-- What an instruction may do to the flags, the mask and the loop. -/
inductive Effect where
  | makeFromSR (sr : BitVec 16)
  | exception
  /-- `m68k_setstopped(1)` of a STOP instruction. -/
  | stop
  /-- `m68k_emulop_return`. -/
  | execReturn
  /-- `m68k_emulop` up to its `MakeFromSR`. -/
  | emulOp
  deriving DecidableEq, Repr

def Effect.ops : Effect → List Op
  | .makeFromSR sr => Interrupts.makeFromSR sr
  | .exception => Interrupts.exception
  | .stop => [.setStopped]
  | .execReturn => [.set spcflagBrk, .quit]
  | .emulOp => [.emulOp]

/-- The tests of `m68k_do_specialties`. -/
def doSpecialties : List Op :=
  [.testDotrace, .testStop, .testTrace, .testDoint, .testInt, .testBrk]

/-- A device thread in `SetInterruptFlag` or in the `TriggerInterrupt` after it. -/
inductive Device where
  | idle
  | setting (flag : IntFlag) (loaded : BitVec 32)
  | triggering
  | latching (loaded : BitVec 32)
  deriving DecidableEq, Repr

/-- `announced`, `passBegan` and `passesWaited` record the history; no step of the code
reads them. -/
structure Machine (Thread : Type) where
  interruptFlags : BitVec 32
  spcflags : BitVec 32
  intmask : Nat
  t1 : Bool
  t0 : Bool
  stopped : Bool
  quitProgram : Bool
  todo : List Op
  devices : Thread → Device
  /-- The interrupt flags that have been up since a `TriggerInterrupt`. -/
  announced : BitVec 32
  /-- A pass of `m68k_do_specialties` began and an interrupt has been waiting since. -/
  passBegan : Bool
  /-- The whole passes the waiting interrupt has been waiting for. -/
  passesWaited : Nat

inductive Event (Thread : Type) where
  | setInterruptFlag (thread : Thread) (flag : IntFlag)
  | deviceStep (thread : Thread)
  /-- An instruction is executed. -/
  | instruction (effects : List Effect)
  /-- An `EmulOp` calls `Execute68k` or `Execute68kTrap`, clears a flag or ends. -/
  | execute68k
  | clearInterruptFlag (flag : IntFlag)
  | emulOpEnds (sr : BitVec 16)
  /-- The CPU thread goes on; `traced` is what `do_trace` finds out about the opcode. -/
  | cpuStep (traced : Bool)
  deriving DecidableEq, Repr

def intlev (interruptFlags : BitVec 32) : Nat := if interruptFlags ≠ 0 then 1 else 0

/-- `SPCFLAGS_TEST(mask)`. -/
def spcflagsTest (spcflags mask : BitVec 32) : Bool := spcflags &&& mask ≠ 0

/-- What `do_trace` has to do: only a change of flow is traced when T0 alone is set. -/
def doTrace (cpuType : Nat) (t1 t0 traced : Bool) : List Op :=
  if (if t0 && cpuType ≥ 2 then traced else t1) then
    [.clear spcflagTrace, .set spcflagDotrace]
  else []

variable {Thread : Type} [DecidableEq Thread]

/-- An interrupt waits: its trigger is over and the mask lets it through. -/
def Machine.Waiting (s : Machine Thread) : Prop := s.announced ≠ 0 ∧ s.intmask < 1

instance (s : Machine Thread) : Decidable s.Waiting := inferInstanceAs (Decidable (_ ∧ _))

/-- The history starts again whenever no interrupt waits. -/
def Machine.observe (s : Machine Thread) : Machine Thread :=
  if s.Waiting then s else { s with passBegan := false, passesWaited := 0 }

/-- A write to `InterruptFlags`. -/
def Machine.writeFlags (s : Machine Thread) (word : BitVec 32) : Machine Thread :=
  { s with interruptFlags := word, announced := s.announced &&& word }

def setInterrupt (s : Machine Thread) (thread : Thread) (flag : IntFlag) :
    Option (Machine Thread) :=
  if s.devices thread = .idle then
    some
      { s with
        devices := Function.update s.devices thread (.setting flag s.interruptFlags) }
  else none

def deviceGoesOn (s : Machine Thread) (thread : Thread) : Option (Machine Thread) :=
  match s.devices thread with
  | .idle => none
  | .setting flag loaded =>
    some
      { s.writeFlags (setFlag loaded flag) with
        devices := Function.update s.devices thread .triggering }
  | .triggering =>
    some { s with devices := Function.update s.devices thread (.latching s.spcflags) }
  | .latching loaded =>
    some
      { s with
        spcflags := loaded ||| spcflagInt
        announced := s.interruptFlags
        devices := Function.update s.devices thread .idle }

/-- The operation `op` of the CPU thread, with `rest` still to do after it. -/
def Machine.perform (cpuType : Nat) (traced : Bool) (s : Machine Thread) (rest : List Op) :
    Op → Option (Machine Thread)
  | .set mask => some { s with todo := .storeSet mask s.spcflags :: rest }
  | .storeSet mask loaded => some { s with spcflags := loaded ||| mask, todo := rest }
  | .clear mask => some { s with todo := .storeClear mask s.spcflags :: rest }
  | .storeClear mask loaded => some { s with spcflags := loaded &&& ~~~mask, todo := rest }
  | .loadSR sr =>
    some
      { s with
        t1 := sr.getLsbD 15
        t0 := sr.getLsbD 14
        intmask := (sr >>> 8 &&& 7#16).toNat
        todo := rest }
  | .setIntmask nr => some { s with intmask := nr, todo := rest }
  | .clearTraceBits => some { s with t1 := false, t0 := false, todo := rest }
  | .clearStopped => some { s with stopped := false, todo := rest }
  | .setStopped =>
    -- a traced STOP drops through
    let stopping := if spcflagsTest s.spcflags spcflagDotrace then [] else [.set spcflagStop]
    some { s with stopped := true, todo := stopping ++ rest }
  | .quit => some { s with quitProgram := true, todo := rest }
  | .returned => some { s with quitProgram := false, todo := rest }
  | .clearFlag flag => some { s with todo := .storeFlag flag s.interruptFlags :: rest }
  | .storeFlag flag loaded => some { s.writeFlags (clearFlag loaded flag) with todo := rest }
  | .boundary | .emulOp => none
  | .testAll =>
    if spcflagsTest s.spcflags spcflagAll then
      some { s with passBegan := true, todo := doSpecialties ++ rest }
    else some { s with todo := rest }
  | .testDotrace =>
    let traceException := if spcflagsTest s.spcflags spcflagDotrace then exception else []
    some { s with todo := traceException ++ rest }
  | .testStop =>
    let again := if spcflagsTest s.spcflags spcflagStop then [.testStopInt, .testStop] else []
    some { s with todo := again ++ rest }
  | .testStopInt =>
    let look :=
      if spcflagsTest s.spcflags (spcflagInt ||| spcflagDoint) then
        [.clear (spcflagInt ||| spcflagDoint), .checkStopInt]
      else []
    some { s with todo := look ++ rest }
  | .checkStopInt =>
    let intr := intlev s.interruptFlags
    let accept :=
      if intr > s.intmask then interrupt intr ++ [.clearStopped, .clear spcflagStop] else []
    some { s with todo := accept ++ rest }
  | .testTrace =>
    let trace :=
      if spcflagsTest s.spcflags spcflagTrace then doTrace cpuType s.t1 s.t0 traced else []
    some { s with todo := trace ++ rest }
  | .testDoint =>
    let look :=
      if spcflagsTest s.spcflags spcflagDoint then [.clear spcflagDoint, .checkDoint] else []
    some { s with todo := look ++ rest }
  | .checkDoint =>
    let intr := intlev s.interruptFlags
    let accept := if intr > s.intmask then interrupt intr ++ [.clearStopped] else []
    some { s with todo := accept ++ rest }
  | .testInt =>
    let convert :=
      if spcflagsTest s.spcflags spcflagInt then [.clear spcflagInt, .set spcflagDoint] else []
    some { s with todo := convert ++ rest }
  | .testBrk =>
    -- the last test: the pass is over
    let return1 :=
      if spcflagsTest s.spcflags spcflagBrk then [.clear spcflagBrk, .leave] else []
    some
      { s with
        passBegan := false
        passesWaited := s.passesWaited + (if s.passBegan then 1 else 0)
        todo := return1 ++ rest }
  | .leave =>
    match rest with
    | .boundary :: outer =>
      -- the loop of `m68k_execute` ends or enters `m68k_do_execute` again
      some { s with todo := if s.quitProgram then outer else rest }
    | _ => none

/-- What the CPU thread is told to do at the head of its list. -/
def Machine.begin (s : Machine Thread) (head : Op) (ops : List Op) : Option (Machine Thread) :=
  match s.todo with
  | op :: rest => if op = head then some { s with todo := ops ++ rest } else none
  | [] => none

def act (cpuType : Nat) (s : Machine Thread) : Event Thread → Option (Machine Thread)
  | .setInterruptFlag thread flag => setInterrupt s thread flag
  | .deviceStep thread => deviceGoesOn s thread
  | .instruction effects =>
    s.begin .boundary (effects.flatMap Effect.ops ++ [.testAll, .boundary])
  | .execute68k =>
    ({ s with quitProgram := false } : Machine Thread).begin .emulOp
      [.boundary, .returned, .emulOp]
  | .clearInterruptFlag flag => s.begin .emulOp [.clearFlag flag, .emulOp]
  | .emulOpEnds sr => s.begin .emulOp (makeFromSR sr)
  | .cpuStep traced =>
    match s.todo with
    | op :: rest => s.perform cpuType traced rest op
    | [] => none

def cpuLoopStep (cpuType : Nat) (s : Machine Thread) (e : Event Thread) :
    Option (Machine Thread) :=
  (act cpuType s e).map Machine.observe

/-- After `m68k_reset`, whatever flags the devices have raised before. -/
def reset (interruptFlags : BitVec 32) : Machine Thread where
  interruptFlags := interruptFlags
  spcflags := 0
  intmask := 7
  t1 := false
  t0 := false
  stopped := false
  quitProgram := false
  todo := [.boundary]
  devices := fun _ => .idle
  announced := interruptFlags
  passBegan := false
  passesWaited := 0

/-- `SPCFLAG_INT` or `SPCFLAG_DOINT` is set. -/
def Latched (spcflags : BitVec 32) : Prop :=
  spcflagsTest spcflags (spcflagInt ||| spcflagDoint)

instance (spcflags : BitVec 32) : Decidable (Latched spcflags) :=
  inferInstanceAs (Decidable (_ = true))

/-- No waiting interrupt is stranded: at an instruction boundary it is latched, and the
second pass of `m68k_do_specialties` that begins while it waits delivers it. -/
structure Machine.NotStranded (s : Machine Thread) : Prop where
  latched : s.todo.head? = some .boundary → s.Waiting → Latched s.spcflags
  delivered : s.passesWaited ≤ 1

/-- Every latch flag of the current word that is not written anyway is in the word read. -/
def LatchKept (loaded current mask : BitVec 32) : Prop :=
  current &&& ~~~loaded &&& ~~~mask &&& (spcflagInt ||| spcflagDoint) = 0

/-- While an interrupt waits, no write to `regs.spcflags` undoes another thread's. -/
def LatchSafe (s : Machine Thread) : Event Thread → Prop
  | .deviceStep thread =>
    match s.devices thread with
    | .latching loaded => s.Waiting → LatchKept loaded s.spcflags spcflagInt
    | _ => True
  | .cpuStep _ =>
    match s.todo with
    | .storeSet mask loaded :: _ | .storeClear mask loaded :: _ =>
      s.Waiting → LatchKept loaded s.spcflags mask
    | _ => True
  | _ => True

end BasiliskII.Interrupts
