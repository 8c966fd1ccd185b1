import BasiliskII.ADB.Mouse
import BasiliskII.Library.StepSystem

/-!
# Calls for the mouse in any interleaving

`ADBSetRelMouseMode`, `ADBMouseMoved` and the mouse part of `ADBInterrupt`, a
step for each access to the variables they share. The last two take
`mouse_lock`; `ADBSetRelMouseMode` does not, and `ADBInterrupt` tests the mode
once more after it has released the lock. The guest code `ADBInterrupt` calls
may be interrupted, and then runs `ADBInterrupt` once more.
-/
namespace BasiliskII.ADB

open StepSystem

abbrev Pair := BitVec 32 × BitVec 32

/-- The call of `ADBSetRelMouseMode` under way. -/
inductive Setting where
  | idle
  | storing (relative : Bool)
  | clearingY
  | clearingX
  deriving DecidableEq, Repr

/-- The call of `ADBMouseMoved` that holds the lock, and the mode it has found. -/
inductive Moving where
  | idle
  | testing (x y : BitVec 32)
  | movingX (relative : Bool) (x y : BitVec 32)
  | movingY (relative : Bool) (x y : BitVec 32)
  deriving DecidableEq, Repr

/-- A mouse state that has been read, with the motion passed in since the last one and the last
position passed in. -/
structure Taken where
  state : MouseState
  deltas : List Pair
  last : Option Pair

/-- Where a running `ADBInterrupt` is. -/
inductive MousePoint where
  | locking
  | readingX
  | readingY (mx : BitVec 32)
  | testing (mx my : BitVec 32)
  | takingY (mx my : BitVec 32)
  | takingX (mx my : BitVec 32)
  | readingButtons (mx my : BitVec 32)
  | unlocked (taken : Taken)
  | handler (mb : Button → Bool)

/-- What the guest was given, the mode in which, and the state it comes from. -/
structure Sent where
  output : MouseOutput
  relative : Bool
  taken : Taken

/-- `deltas` is the motion passed in relative mode and not taken yet, `last` the last position
passed in absolute mode, and `supplied` says whether there has been one since the mode was set.
No step reads them or `sent`. -/
structure MouseSystem where
  mouse : Mouse
  setting : Setting
  moving : Moving
  interrupts : List MousePoint
  deltas : List Pair
  last : Option Pair
  supplied : Bool
  sent : List Sent

inductive MouseAction where
  | setMode (relative : Bool)
  | setStep
  | moved (x y : BitVec 32)
  | movedStep
  | button (button : Button) (down : Bool)
  | listen (reg3 : BitVec 8 × BitVec 8)
  | interrupt (adbBase : BitVec 32)
  | interruptStep

def MouseSystem.start : MouseSystem := ⟨.initial, .idle, .idle, [], [], none, false, []⟩

def MousePoint.holdsLock : MousePoint → Bool
  | .locking | .unlocked _ | .handler _ => false
  | _ => true

/-- The innermost `ADBInterrupt` is in its locked section. -/
def MouseSystem.readerHolds (s : MouseSystem) : Bool :=
  match s.interrupts with
  | [] => false
  | point :: _ => point.holdsLock

def MouseSystem.lockFree (s : MouseSystem) : Bool := s.moving = .idle && !s.readerHolds

def setMode (s : MouseSystem) (relative : Bool) : Option MouseSystem :=
  if s.setting ≠ .idle then none
  else if s.mouse.relativeMouse ≠ relative then some { s with setting := .storing relative }
  else some s

/-- The assignments of `ADBSetRelMouseMode`, which has no lock. -/
def setStep (s : MouseSystem) : Option MouseSystem :=
  match s.setting with
  | .idle => none
  | .storing relative =>
    some
      { s with
        mouse := { s.mouse with relativeMouse := relative }
        setting := .clearingY
        deltas := []
        supplied := false }
  -- `mouse_x = mouse_y = 0` stores to `mouse_y` first.
  | .clearingY => some { s with mouse := { s.mouse with mouseY := 0 }, setting := .clearingX }
  | .clearingX => some { s with mouse := { s.mouse with mouseX := 0 }, setting := .idle }

def moved (s : MouseSystem) (x y : BitVec 32) : Option MouseSystem :=
  if s.lockFree then some { s with moving := .testing x y } else none

/-- The locked section of `ADBMouseMoved`. -/
def movedStep (s : MouseSystem) : Option MouseSystem :=
  match s.moving with
  | .idle => none
  | .testing x y => some { s with moving := .movingX s.mouse.relativeMouse x y }
  | .movingX relative x y =>
    some
      { s with
        mouse := { s.mouse with mouseX := if relative then s.mouse.mouseX + x else x }
        moving := .movingY relative x y }
  | .movingY true x y =>
    -- The lock is released with both coordinates moved.
    some
      { s with
        mouse := { s.mouse with mouseY := s.mouse.mouseY + y }
        moving := .idle
        deltas := s.deltas ++ [(x, y)] }
  | .movingY false x y =>
    some
      { s with
        mouse := { s.mouse with mouseY := y }
        moving := .idle
        last := some (x, y)
        supplied := true }

/-- Guest code runs: no `ADBInterrupt` is under way, or the innermost one has called it. -/
def MouseSystem.guestRuns (s : MouseSystem) : Bool :=
  match s.interrupts with
  | [] | .handler _ :: _ => true
  | _ => false

def interruptCall (s : MouseSystem) (adbBase : BitVec 32) : Option MouseSystem :=
  if !s.guestRuns then none
  else if adbBase = 0 || adbBase = 0xffffffff then some s
  else some { s with interrupts := .locking :: s.interrupts }

/-- The mode is tested again, and the guest is given what has been taken. The buttons are noted
after its handler has returned. -/
def give (s : MouseSystem) (taken : Taken) (outer : List MousePoint) : MouseSystem :=
  -- The mode may be another one than in the locked section.
  if s.mouse.relativeMouse then
    let packets := (sendRelative s.mouse taken.state).2
    { s with
      interrupts := if packets.isEmpty then outer else .handler taken.state.mb :: outer
      sent := s.sent ++ packets.map fun output => ⟨output, true, taken⟩ }
  else
    let (mouse, positions) := updatePosition s.mouse taken.state
    let packets := (sendButtons mouse taken.state).2
    { s with
      mouse
      interrupts := if packets.isEmpty then outer else .handler taken.state.mb :: outer
      sent := s.sent ++ (positions ++ packets).map fun output => ⟨output, false, taken⟩ }

def readStep (s : MouseSystem) : Option MouseSystem :=
  match s.interrupts with
  | [] => none
  | .locking :: outer =>
    -- It waits for the lock.
    if s.lockFree then some { s with interrupts := .readingX :: outer } else none
  | .readingX :: outer => some { s with interrupts := .readingY s.mouse.mouseX :: outer }
  | .readingY mx :: outer => some { s with interrupts := .testing mx s.mouse.mouseY :: outer }
  | .testing mx my :: outer =>
    if s.mouse.relativeMouse then some { s with interrupts := .takingY mx my :: outer }
    else some { s with interrupts := .readingButtons mx my :: outer }
  | .takingY mx my :: outer =>
    some
      { s with mouse := { s.mouse with mouseY := 0 }, interrupts := .takingX mx my :: outer }
  | .takingX mx my :: outer =>
    some
      { s with mouse := { s.mouse with mouseX := 0 }, interrupts := .readingButtons mx my :: outer }
  | .readingButtons mx my :: outer =>
    let taken : Taken := ⟨⟨mx, my, s.mouse.mouseButton⟩, s.deltas, s.last⟩
    some
      { s with
        interrupts := .unlocked taken :: outer
        deltas := if s.mouse.relativeMouse then [] else s.deltas }
  | .unlocked taken :: outer => some (give s taken outer)
  | .handler mb :: outer =>
    some { s with mouse := { s.mouse with oldMouseButton := mb }, interrupts := outer }

def mouseStep (s : MouseSystem) : MouseAction → Option MouseSystem
  | .setMode relative => setMode s relative
  | .setStep => setStep s
  | .moved x y => moved s x y
  | .movedStep => movedStep s
  | .button button down => some { s with mouse := s.mouse.setButton button down }
  | .listen reg3 => some { s with mouse := { s.mouse with mouseReg3 := reg3 } }
  | .interrupt adbBase => interruptCall s adbBase
  | .interruptStep => readStep s

/-! ### Calls without anything in between -/

theorem moved_alone {s : MouseSystem} (free : s.lockFree = true) (x y : BitVec 32) :
    ∃ t, exec mouseStep s [.moved x y, .movedStep, .movedStep, .movedStep] = some t ∧
      t.mouse = adbMouseMoved s.mouse x y := by
  simp only [exec, mouseStep, moved, if_pos free, movedStep, Option.bind_some]
  cases mode : s.mouse.relativeMouse with
  | true | false => exact ⟨_, rfl, by simp [adbMouseMoved, mode]⟩

theorem setMode_alone {s : MouseSystem} (idle : s.setting = .idle) (relative : Bool) :
    ∃ n t, exec mouseStep s (.setMode relative :: List.replicate n .setStep) = some t ∧
      t.mouse = adbSetRelMouseMode s.mouse relative := by
  -- Setting the mode it has already leaves the variables alone.
  by_cases other : s.mouse.relativeMouse ≠ relative
  · refine ⟨3, ?_⟩
    simp only [List.replicate, exec, mouseStep, setMode, idle, other, setStep, Option.bind_some, not_true, if_false,
      ne_eq, not_false_eq_true, if_true]
    exact ⟨_, rfl, by simp [adbSetRelMouseMode, other]⟩
  · refine ⟨0, s, ?_, ?_⟩
    · simp [exec, mouseStep, setMode, idle, other]
    · rw [adbSetRelMouseMode, if_neg other]

/-- The locked section reads the mouse state, and takes the motion in relative mode. -/
theorem locked_section {s : MouseSystem} {outer : List MousePoint} (free : s.lockFree = true)
    (points : s.interrupts = .locking :: outer) :
    ∃ n deltas, exec mouseStep s (List.replicate n .interruptStep) =
      some
        { s with
          mouse := s.mouse.getState.2
          interrupts := .unlocked ⟨s.mouse.getState.1, s.deltas, s.last⟩ :: outer
          deltas } := by
  cases mode : s.mouse.relativeMouse with
  | true =>
    refine ⟨7, [], ?_⟩
    simp [exec, mouseStep, readStep, points, free, mode, Mouse.getState]
  | false =>
    refine ⟨5, s.deltas, ?_⟩
    simp [exec, mouseStep, readStep, points, free, mode, Mouse.getState]

/-- What `ADBInterrupt` does with the mouse state it has read. -/
def afterLock (m : Mouse) (st : MouseState) : Mouse × List MouseOutput :=
  if m.relativeMouse then sendRelative m st
  else
    let (m, moved) := updatePosition m st
    let (m, pressed) := sendButtons m st
    (m, moved ++ pressed)

theorem mouseInterrupt_eq (m : Mouse) {adbBase : BitVec 32}
    (on : ¬ (adbBase = 0 || adbBase = 0xffffffff) = true) :
    mouseInterrupt m adbBase = afterLock m.getState.2 m.getState.1 := by
  rw [mouseInterrupt, if_neg on]
  rfl

theorem sendRelative_cases (m : Mouse) (st : MouseState) :
    sendRelative m st = (m, []) ∨
      sendRelative m st =
        ({ m with oldMouseButton := st.mb }, [.packet (relativePacket m st)]) := by
  rw [sendRelative]
  split
  · exact .inr rfl
  · exact .inl rfl

theorem sendButtons_cases (m : Mouse) (st : MouseState) :
    sendButtons m st = (m, []) ∨
      sendButtons m st = ({ m with oldMouseButton := st.mb }, [.packet (buttonPacket m st)]) := by
  rw [sendButtons]
  split
  · exact .inr rfl
  · exact .inl rfl

/-- What the guest is given, and the mouse once its handler has returned. -/
theorem given_alone {s : MouseSystem} {taken : Taken} {outer : List MousePoint}
    (points : s.interrupts = .unlocked taken :: outer) :
    ∃ n t, exec mouseStep s (List.replicate n .interruptStep) = some t ∧
      t.mouse = (afterLock s.mouse taken.state).1 ∧
      t.sent.map Sent.output = s.sent.map Sent.output ++ (afterLock s.mouse taken.state).2 := by
  cases mode : s.mouse.relativeMouse with
  | true =>
    -- A second step notes the buttons if the handler has been called.
    rcases sendRelative_cases s.mouse taken.state with sent | sent
    · refine ⟨1, ?_⟩
      simp [exec, mouseStep, readStep, points, give, mode, afterLock, sent]
    · refine ⟨2, ?_⟩
      simp [exec, mouseStep, readStep, points, give, mode, afterLock, sent]
  | false =>
    generalize position : updatePosition s.mouse taken.state = updated
    have outputs : (updated.2.map fun output => (⟨output, false, taken⟩ : Sent)).map Sent.output =
        updated.2 := by
      rw [List.map_map]
      exact List.map_id updated.2
    rcases sendButtons_cases updated.1 taken.state with sent | sent
    · refine ⟨1, ?_⟩
      simp [exec, mouseStep, readStep, points, give, mode, afterLock, position, sent, outputs,
        -List.map_map]
    · refine ⟨2, ?_⟩
      simp [exec, mouseStep, readStep, points, give, mode, afterLock, position, sent, outputs,
        -List.map_map]

theorem interrupt_alone {s : MouseSystem} (still : s.moving = .idle) (guest : s.guestRuns = true)
    (adbBase : BitVec 32) :
    ∃ n t, exec mouseStep s (.interrupt adbBase :: List.replicate n .interruptStep) = some t ∧
      t.mouse = (mouseInterrupt s.mouse adbBase).1 ∧
      t.sent.map Sent.output = s.sent.map Sent.output ++ (mouseInterrupt s.mouse adbBase).2 := by
  by_cases off : (adbBase = 0 || adbBase = 0xffffffff) = true
  · have stays : mouseStep s (.interrupt adbBase) = some s := by
      rw [mouseStep, interruptCall, guest, Bool.not_true, if_neg Bool.false_ne_true, if_pos off]
    have quiet : mouseInterrupt s.mouse adbBase = (s.mouse, []) := by
      rw [mouseInterrupt, if_pos off]
    exact ⟨0, s, by rw [exec, stays]; rfl, by rw [quiet], by rw [quiet, List.append_nil]⟩
  · let called : MouseSystem := { s with interrupts := .locking :: s.interrupts }
    have free : called.lockFree = true := by
      simp [MouseSystem.lockFree, MouseSystem.readerHolds, MousePoint.holdsLock, called, still]
    obtain ⟨first, deltas, read⟩ := locked_section free rfl
    let unlocked : MouseSystem :=
      { called with
        mouse := s.mouse.getState.2
        interrupts := .unlocked ⟨s.mouse.getState.1, s.deltas, s.last⟩ :: s.interrupts
        deltas }
    obtain ⟨second, t, given, result⟩ := given_alone (s := unlocked) rfl
    have entered : mouseStep s (.interrupt adbBase) = some called := by
      rw [mouseStep, interruptCall, guest, Bool.not_true, if_neg Bool.false_ne_true, if_neg off]
    refine ⟨first + second, t, ?_, ?_⟩
    · rw [exec, entered, Option.bind_some, List.replicate_add, exec_append, read]
      exact given
    · rw [mouseInterrupt_eq s.mouse off]
      exact result

theorem interrupt_alone_start :
    ∃ n t, exec mouseStep .start (.interrupt 0x100 :: List.replicate n .interruptStep) = some t ∧
      t.mouse = (mouseInterrupt .initial 0x100).1 ∧
      t.sent.map Sent.output = (mouseInterrupt .initial 0x100).2 :=
  interrupt_alone (s := .start) rfl rfl 0x100

end BasiliskII.ADB
