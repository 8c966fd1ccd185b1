import BasiliskII.Timer.Conversions
import BasiliskII.Library.StepSystem
import Mathlib.Data.List.FinRange

/-!
# The Time Manager

`InsTime`, `RmvTime`, `PrimeTime` and `TimerInterrupt` of timer.cpp. A TMTask
is the record at its Mac address; the records of different tasks do not
overlap. The TMQueue management is off in the source and left out, and so are
the results of the calls, which are 0. A callback is the list of calls it
makes, each with the time its host clock shows.
-/
namespace BasiliskII.Timer

/-- The fields of a TMTask. -/
structure TMTask where
  qType : BitVec 16
  tmAddr : BitVec 32
  tmCount : BitVec 32
  tmWakeUp : BitVec 32
  deriving DecidableEq, Repr

/-- The bit of `qType` that says the task is active. -/
def TMTask.active (t : TMTask) : Bool := t.qType &&& 0x8000 ≠ 0

def TMTask.extended (t : TMTask) : Bool := t.qType &&& 0x4000 ≠ 0

structure TMDesc where
  task : BitVec 32
  wakeup : TmTime
  inUse : Bool
  deriving DecidableEq, Repr

def NUM_DESCS : Nat := 64

abbrev Slot := Fin NUM_DESCS

/-- `armed` records the wakeup time of the last `PrimeTime` of a task that has been neither
removed nor fired since; no step of the code reads it. -/
structure Manager where
  desc : Slot → TMDesc
  tasks : BitVec 32 → TMTask
  armed : BitVec 32 → Option TmTime

def Manager.setDesc (st : Manager) (i : Slot) (d : TMDesc) : Manager :=
  { st with desc := fun j => if j = i then d else st.desc j }

def Manager.setTask (st : Manager) (tm : BitVec 32) (t : TMTask) : Manager :=
  { st with tasks := fun other => if other = tm then t else st.tasks other }

def Manager.setArmed (st : Manager) (tm : BitVec 32) (wakeup : Option TmTime) : Manager :=
  { st with armed := fun other => if other = tm then wakeup else st.armed other }

/-- The first free slot, as `alloc_desc` looks for it. -/
def freeDesc (st : Manager) : Option Slot :=
  (List.finRange NUM_DESCS).find? fun i => !(st.desc i).inUse

/-- `alloc_desc(tm)`; nothing happens when all descriptors are in use. -/
def allocDesc (st : Manager) (tm : BitVec 32) : Manager :=
  match freeDesc st with
  | some i => st.setDesc i { st.desc i with task := tm, inUse := true }
  | none => st

def freeDescAt (st : Manager) (i : Slot) : Manager :=
  st.setDesc i { st.desc i with inUse := false }

def findDesc (st : Manager) (tm : BitVec 32) : Option Slot :=
  (List.finRange NUM_DESCS).find? fun i => (st.desc i).inUse && (st.desc i).task = tm

def insTime (st : Manager) (tm : BitVec 32) (trap : BitVec 16) : Manager :=
  let t := st.tasks tm
  let st := st.setTask tm { t with qType := t.qType &&& 0x1fff ||| trap <<< 4 &&& 0x6000 }
  match findDesc st tm with
  -- Task re-inserted
  | some _ => st
  | none => allocDesc st tm

def rmvTime (st : Manager) (tm : BitVec 32) (current : TmTime) : Manager :=
  match findDesc st tm with
  | none => st
  | some i =>
    let t := st.tasks tm
    let t :=
      if t.active then
        { t with
          qType := t.qType &&& 0x7fff
          tmCount := timerHost2macTime (timerSubTime (st.desc i).wakeup current) }
      else { t with tmCount := 0 }
    (freeDescAt (st.setTask tm t) i).setArmed tm none

/-- The wakeup time `PrimeTime` computes for the task in slot `i`. -/
def nextWakeup (st : Manager) (i : Slot) (t : TMTask) (time : BitVec 32) (now : TmTime) :
    TmTime :=
  let delay := timerMac2hostTime time
  if t.extended && t.tmWakeUp ≠ 0 then timerAddTime (st.desc i).wakeup delay
  else timerAddTime now delay

def primeTime (st : Manager) (tm : BitVec 32) (time : BitVec 32) (now : TmTime) : Manager :=
  match findDesc st tm with
  | none => st
  | some i =>
    let t := st.tasks tm
    let wakeup := nextWakeup st i t time now
    let st := st.setDesc i { st.desc i with wakeup := wakeup }
    let t := if t.extended then { t with tmWakeUp := 0x12345678 } else t
    (st.setTask tm { t with qType := t.qType ||| 0x8000 }).setArmed tm (some wakeup)

/-- A call of the guest, with the time of the host clock where it is read. -/
inductive Action where
  | insTime (tm : BitVec 32) (trap : BitVec 16)
  | rmvTime (tm : BitVec 32) (current : TmTime)
  | primeTime (tm : BitVec 32) (time : BitVec 32) (now : TmTime)
  deriving DecidableEq, Repr

def Action.task : Action → BitVec 32
  | .insTime tm _ => tm
  | .rmvTime tm _ => tm
  | .primeTime tm _ _ => tm

def Action.apply (st : Manager) : Action → Manager
  | .insTime tm trap => Timer.insTime st tm trap
  | .rmvTime tm current => Timer.rmvTime st tm current
  | .primeTime tm time now => Timer.primeTime st tm time now

/-- What happens in a pass of `TimerInterrupt`, in order. -/
inductive PassEvent where
  | called (tm : BitVec 32)
  | guest (action : Action)
  deriving DecidableEq, Repr

/-- The calls the timer function at an address makes for a task. -/
abbrev Callbacks := Manager → BitVec 32 → BitVec 32 → List Action

/-- The body of the loop of `TimerInterrupt`. -/
def visit (now : TmTime) (callbacks : Callbacks) (st : Manager) (i : Slot) :
    Manager × List PassEvent :=
  let tm := (st.desc i).task
  if (st.desc i).inUse && (st.tasks tm).active && timerCmpTime (st.desc i).wakeup now < 0 then
    -- Found one, mark as inactive
    let t := st.tasks tm
    let st := (st.setTask tm { t with qType := t.qType &&& 0x7fff }).setArmed tm none
    let addr := (st.tasks tm).tmAddr
    if addr = 0 then (st, [])
    else
      let actions := callbacks st addr tm
      (actions.foldl Action.apply st, .called tm :: actions.map .guest)
  else (st, [])

/-- The loop over the slots still to come. -/
def pass (now : TmTime) (callbacks : Callbacks) :
    List Slot → Manager → Manager × List PassEvent
  | [], st => (st, [])
  | i :: rest, st =>
    let (st, first) := visit now callbacks st i
    let (st, later) := pass now callbacks rest st
    (st, first ++ later)

def timerInterrupt (now : TmTime) (callbacks : Callbacks) (st : Manager) :
    Manager × List PassEvent :=
  pass now callbacks (List.finRange NUM_DESCS) st

/-- `TimerInit` or `TimerReset`, over what memory holds. -/
def timerInit (desc : Slot → TMDesc) (tasks : BitVec 32 → TMTask) : Manager where
  desc i := { desc i with inUse := false }
  tasks := tasks
  armed _ := none

inductive Event where
  | action (action : Action)
  | interrupt (now : TmTime) (callbacks : Callbacks)

def step (st : Manager) : Event → Option Manager
  | .action action => some (action.apply st)
  | .interrupt now callbacks => some (timerInterrupt now callbacks st).1

end BasiliskII.Timer
