import BasiliskII.Library.FlagWord
import BasiliskII.Library.StepSystem
import Mathlib.Logic.Function.Basic

/-!
# The interrupt flags and their handler

## The flag word

`InterruptFlags` of main_psp.cpp and the two functions that read, change and
write it. The flag of one source is one bit of the word.
-/
namespace BasiliskII.Interrupts

/-- The flags of main.h that some device raises or some handler tests. -/
inductive IntFlag where
  | sixtyHz | oneHz | serial | ether | audio | adb | nmi
  deriving DecidableEq, Repr

def IntFlag.mask : IntFlag → BitVec 32
  | .sixtyHz => 1
  | .oneHz => 2
  | .serial => 4
  | .ether => 8
  | .audio => 16
  | .adb => 64
  | .nmi => 128

/-- What `SetInterruptFlag(flag)` writes back when it has read `word`. -/
def setFlag (word : BitVec 32) (flag : IntFlag) : BitVec 32 := word ||| flag.mask

/-- What `ClearInterruptFlag(flag)` writes back when it has read `word`. -/
def clearFlag (word : BitVec 32) (flag : IntFlag) : BitVec 32 := word &&& ~~~flag.mask

/-- `InterruptFlags & flag`. -/
def Raised (word : BitVec 32) (flag : IntFlag) : Prop := word &&& flag.mask ≠ 0

instance (word : BitVec 32) (flag : IntFlag) : Decidable (Raised word flag) :=
  inferInstanceAs (Decidable (_ ≠ _))

def IntFlag.bit : IntFlag → Nat
  | .sixtyHz => 0
  | .oneHz => 1
  | .serial => 2
  | .ether => 3
  | .audio => 4
  | .adb => 6
  | .nmi => 7

theorem mask_eq_twoPow (flag : IntFlag) : flag.mask = BitVec.twoPow 32 flag.bit := by
  cases flag <;> rfl

theorem bit_lt (flag : IntFlag) : flag.bit < 32 := by
  cases flag <;> decide

theorem bit_injective {f g : IntFlag} (same : f.bit = g.bit) : f = g := by
  cases f <;> cases g <;> simp_all [IntFlag.bit]

theorem raised_iff (word : BitVec 32) (flag : IntFlag) :
    Raised word flag ↔ word.getLsbD flag.bit = true := by
  rw [← FlagWord.meets_twoPow (bit_lt flag), ← mask_eq_twoPow]
  rfl

@[simp] theorem raised_setFlag {word : BitVec 32} {f g : IntFlag} :
    Raised (setFlag word f) g ↔ Raised word g ∨ g = f := by
  have inside := bit_lt f
  simp only [raised_iff, setFlag, mask_eq_twoPow, BitVec.getLsbD_or, BitVec.getLsbD_twoPow,
    Bool.or_eq_true, Bool.and_eq_true, decide_eq_true_eq]
  constructor
  · rintro (old | ⟨_, same⟩)
    · exact .inl old
    · exact .inr (bit_injective same).symm
  · rintro (old | rfl)
    · exact .inl old
    · exact .inr ⟨inside, rfl⟩

@[simp] theorem raised_clearFlag {word : BitVec 32} {f g : IntFlag} :
    Raised (clearFlag word f) g ↔ Raised word g ∧ g ≠ f := by
  have inside := bit_lt g
  simp only [raised_iff, clearFlag, mask_eq_twoPow, BitVec.getLsbD_and, BitVec.getLsbD_not,
    BitVec.getLsbD_twoPow, Bool.and_eq_true]
  constructor
  · rintro ⟨old, other⟩
    refine ⟨old, ?_⟩
    rintro rfl
    simp [inside] at other
  · rintro ⟨old, other⟩
    have apart : f.bit ≠ g.bit := fun same => other (bit_injective same).symm
    exact ⟨old, by simp [inside, apart]⟩

end BasiliskII.Interrupts

/-!
## The level 1 interrupt handler and the device threads

`M68K_EMUL_OP_IRQ` of emul_op.cpp in any interleaving with threads that call
`SetInterruptFlag` and `TriggerInterrupt`. A step is one access to
`InterruptFlags` or one call the handler makes. The guest code such a call runs
may be interrupted, and then a further pass over the flags starts inside it.
-/
namespace BasiliskII.Interrupts

open StepSystem

/-- The functions `M68K_EMUL_OP_IRQ` calls. -/
inductive HandlerCall where
  | incrementTicks | timerInterrupt | videoInterrupt | doVBLTask
  | sonyInterrupt | diskInterrupt | cdromInterrupt
  | serialInterrupt | etherInterrupt | audioInterrupt | adbInterrupt | triggerNMI
  deriving DecidableEq, Repr

/-- The handler of a flag: what is called when the flag was found raised. -/
def handler (macStarted romVersion32 : Bool) : IntFlag → List HandlerCall
  | .sixtyHz =>
    .incrementTicks ::
      if macStarted then
        [.timerInterrupt, .videoInterrupt] ++ if romVersion32 then [.doVBLTask] else []
      else []
  | .oneHz => if macStarted then [.sonyInterrupt, .diskInterrupt, .cdromInterrupt] else []
  | .serial => [.serialInterrupt]
  | .ether => [.etherInterrupt]
  | .audio => [.audioInterrupt]
  | .adb => if macStarted then [.adbInterrupt] else []
  | .nmi => if macStarted then [.triggerNMI] else []

/-- The flags in the order of the tests. -/
def testOrder : List IntFlag := [.sixtyHz, .oneHz, .serial, .ether, .audio, .adb, .nmi]

/-- What a running pass does between two flag tests. -/
inductive Stage where
  | testing
  | running (flag : IntFlag) (calls : List HandlerCall)
  /-- In `ClearInterruptFlag`, before the word is read. -/
  | loading (flag : IntFlag)
  /-- In `ClearInterruptFlag`, before the word is written. -/
  | clearing (flag : IntFlag) (loaded : BitVec 32)
  deriving DecidableEq, Repr

/-- A run of `M68K_EMUL_OP_IRQ`. `raisedBefore` records how often each flag had been set
when it began; no step reads it. -/
structure Pass where
  d0 : BitVec 32
  untested : List IntFlag
  stage : Stage
  raisedBefore : IntFlag → Nat

/-- A device thread in `SetInterruptFlag`, between its read and its write. -/
inductive DeviceCall where
  | idle
  | setting (flag : IntFlag) (loaded : BitVec 32)
  deriving DecidableEq, Repr

/-- `raised` counts the calls of `SetInterruptFlag` that took effect; `served` is the count
when a run of the handler last began that calls anything. Both record the history; no step reads
them. -/
structure System (Thread : Type) where
  interruptFlags : BitVec 32
  devices : Thread → DeviceCall
  /-- The runs of `M68K_EMUL_OP_IRQ`, the innermost first. -/
  passes : List Pass
  raised : IntFlag → Nat
  served : IntFlag → Nat

inductive Action (Thread : Type) where
  | setInterruptFlag (thread : Thread) (flag : IntFlag)
  | deviceStep (thread : Thread)
  /-- Guest code runs into the interrupt: `TriggerInterrupt` asked for it. -/
  | irq
  /-- The innermost pass goes on; the arguments are what it finds if it begins a handler. -/
  | passStep (macStarted romVersion32 : Bool)
  deriving DecidableEq, Repr

variable {Thread : Type} [DecidableEq Thread]

def setInterruptFlag (s : System Thread) (thread : Thread) (flag : IntFlag) :
    Option (System Thread) :=
  if s.devices thread = .idle then
    some
      { s with
        devices := Function.update s.devices thread (.setting flag s.interruptFlags) }
  else none

def deviceStep (s : System Thread) (thread : Thread) : Option (System Thread) :=
  match s.devices thread with
  | .idle => none
  | .setting flag loaded =>
    some
      { s with
        interruptFlags := setFlag loaded flag
        devices := Function.update s.devices thread .idle
        raised := Function.update s.raised flag (s.raised flag + 1) }

/-- Guest code runs: no pass under way, or the innermost one is in a call of its handler. -/
def guestRuns : List Pass → Bool
  | [] => true
  | pass :: _ =>
    match pass.stage with
    | .running _ (_ :: _) => true
    | _ => false

def irq (s : System Thread) : Option (System Thread) :=
  if guestRuns s.passes then
    some { s with passes := ⟨0, testOrder, .testing, s.raised⟩ :: s.passes }
  else none

/-- A run of the flag's handler begins. Before the Mac has started it may call nothing, and
serves nothing then. -/
def System.begin (s : System Thread) (flag : IntFlag) (pass : Pass) (outer : List Pass)
    (macStarted romVersion32 : Bool) : System Thread :=
  { s with
    passes :=
      { pass with
        -- the 60Hz handler tells the guest that it has run the VBL tasks
        d0 := if flag = .sixtyHz ∧ macStarted then 1 else pass.d0
        stage := .running flag (handler macStarted romVersion32 flag) } :: outer
    served :=
      if handler macStarted romVersion32 flag = [] then s.served
      else Function.update s.served flag (s.raised flag) }

def passStep (s : System Thread) (macStarted romVersion32 : Bool) : Option (System Thread) :=
  match s.passes with
  | [] => none
  | pass :: outer =>
    match pass.stage, pass.untested with
    | .testing, [] => some { s with passes := outer }
    | .testing, flag :: untested =>
      let tested := { pass with untested := untested }
      if Raised s.interruptFlags flag then
        -- the audio flag is cleared before its handler, all others after theirs
        if flag = .audio then
          some { s with passes := { tested with stage := .loading flag } :: outer }
        else some (s.begin flag tested outer macStarted romVersion32)
      else some { s with passes := tested :: outer }
    | .running flag [], _ =>
      let stage := if flag = .audio then .testing else .loading flag
      some { s with passes := { pass with stage := stage } :: outer }
    | .running flag (_ :: calls), _ =>
      some { s with passes := { pass with stage := .running flag calls } :: outer }
    | .loading flag, _ =>
      some
        { s with passes := { pass with stage := .clearing flag s.interruptFlags } :: outer }
    | .clearing flag loaded, _ =>
      let cleared := { s with interruptFlags := clearFlag loaded flag }
      if flag = .audio then some (cleared.begin flag pass outer macStarted romVersion32)
      else some { cleared with passes := { pass with stage := .testing } :: outer }

def step (s : System Thread) : Action Thread → Option (System Thread)
  | .setInterruptFlag thread flag => setInterruptFlag s thread flag
  | .deviceStep thread => deviceStep s thread
  | .irq => irq s
  | .passStep macStarted romVersion32 => passStep s macStarted romVersion32

def start : System Thread where
  interruptFlags := 0
  devices := fun _ => .idle
  passes := []
  raised := fun _ => 0
  served := fun _ => 0

/-- The flag was set, and no run of its handler has begun since. -/
def System.Unserved (s : System Thread) (flag : IntFlag) : Prop := s.served flag < s.raised flag

/-- An event whose handler is still to run is in the flag word, where the next pass finds
it; a pass that ends leaves none behind that was raised before it began. -/
structure System.NothingLost (s : System Thread) : Prop where
  pending : ∀ flag, s.Unserved flag → Raised s.interruptFlags flag
  passed : ∀ pass ∈ s.passes, pass.stage = .testing → pass.untested = [] →
    ∀ flag, pass.raisedBefore flag ≤ s.served flag

/-- A write to `InterruptFlags` loses no flag: every other flag whose handler is still to
run was there when the word was read, and a flag that is cleared after its handler was not
set again since the handler began. -/
def Undisturbed (s : System Thread) : Action Thread → Prop
  | .deviceStep thread =>
    match s.devices thread with
    | .idle => True
    | .setting flag loaded =>
      ∀ other, other ≠ flag → s.Unserved other → Raised loaded other
  | .passStep _ _ =>
    match s.passes.head?.map Pass.stage with
    | some (.clearing flag loaded) =>
      (∀ other, other ≠ flag → s.Unserved other → Raised loaded other) ∧
        (flag ≠ .audio → ¬ s.Unserved flag)
    | _ => True
  | _ => True

end BasiliskII.Interrupts
