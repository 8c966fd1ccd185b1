import BasiliskII.Library.PressLog
import Mathlib.Data.List.FinRange
import Mathlib.Data.List.Count
import Mathlib.Logic.Function.Basic

/-!
# Touch gestures

`psp2ProcessFingerDown`, `psp2ProcessFingerUp`, `psp2ProcessFingerMotion` and
`psp2FinishSimulatedMouseClicks` of psp2_touch.cpp, as far as they press and
release mouse buttons. A short tap of the first finger is a left click and one
of the second finger a right click; two fingers drag with the left button and
three with the right one. Times are in milliseconds. The code keeps them as
`int` and compares them with the 64-bit times of the events.
-/
namespace BasiliskII.Input

open PressLog

/-- `SCE_TOUCH_PORT_FRONT` and `SCE_TOUCH_PORT_BACK`. -/
inductive Port where
  | front
  | back
  deriving DecidableEq, Repr

/-- `SDL_BUTTON_LEFT` and `SDL_BUTTON_RIGHT`. -/
inductive Button where
  | left
  | right
  deriving DecidableEq, Repr

/-- `Touch`; its `id` is -1 while there is no touch. -/
structure Finger where
  id : Option Nat
  timeLastDown : BitVec 32
  deriving DecidableEq, Repr

/-- `DraggingType` -/
inductive Dragging where
  | none
  | twoFinger
  | threeFinger
  deriving DecidableEq, Repr

/-- The button a drag holds. -/
def Dragging.button : Dragging → Option Button
  | .none => Option.none
  | .twoFinger => some .left
  | .threeFinger => some .right

abbrev FingerIndex := Fin 3

/-- What is kept for each panel: `_finger`, `_multiFingerDragging` and
`_simulatedClickStartTime`, which is 0 when there is no click. -/
structure Panel where
  fingers : FingerIndex → Finger
  dragging : Dragging
  clickStart : Button → BitVec 32

abbrev Time := BitVec 64

def maxTapTime : Time := 250

def simulatedClickDuration : Time := 50

/-- `now` is the time of the last event, and `clicks` are the times of the clicks that no call of
`psp2FinishSimulatedMouseClicks` has come late enough to end; no step of the code reads them. -/
structure Touch where
  panels : Port → Panel
  calls : List (Event Button)
  now : Time
  clicks : Port → Button → Option Time

/-- After `psp2InitTouch`. -/
def Touch.initial : Touch where
  panels := fun _ => ⟨fun _ => ⟨none, 0⟩, .none, fun _ => 0⟩
  calls := []
  now := 0
  clicks := fun _ _ => none

def Touch.setPanel (st : Touch) (port : Port) (p : Panel) : Touch :=
  { st with panels := Function.update st.panels port p }

def Touch.adbMouseDown (st : Touch) (button : Button) : Touch :=
  { st with calls := st.calls ++ [.press button] }

def Touch.adbMouseUp (st : Touch) (button : Button) : Touch :=
  { st with calls := st.calls ++ [.release button] }

def Touch.setClick (st : Touch) (port : Port) (button : Button) (click : Option Time) : Touch :=
  { st with
    clicks := Function.update st.clicks port (Function.update (st.clicks port) button click) }

/-- The time since one that was stored as an `int`. -/
def since (time : Time) (stored : BitVec 32) : Time := time - stored.signExtend 64

def numFingersDown (p : Panel) : Nat :=
  (List.finRange 3).countP fun i => (p.fingers i).id.isSome

/-! ### Finger events -/

/-- Make sure each finger is not reported down multiple times. -/
def forgetFinger (fingers : FingerIndex → Finger) (id : Nat) : FingerIndex → Finger :=
  fun i => if (fingers i).id = some id then { fingers i with id := none } else fingers i

/-- A fourth finger is not tracked. -/
def processFingerDown (st : Touch) (port : Port) (id : Nat) (time : Time) : Touch :=
  let p := st.panels port
  let fingers := forgetFinger p.fingers id
  match (List.finRange 3).find? fun i => (fingers i).id = none with
  | none => st.setPanel port { p with fingers := fingers }
  | some i =>
    st.setPanel port
      { p with fingers := Function.update fingers i ⟨some id, time.truncate 32⟩ }

/-- A simulated click, to be ended by `psp2FinishSimulatedMouseClicks`. -/
def startClick (st : Touch) (port : Port) (button : Button) (time : Time) : Touch :=
  let p := st.panels port
  let p := { p with clickStart := Function.update p.clickStart button (time.truncate 32) }
  ((st.setPanel port p).adbMouseDown button).setClick port button (some time)

/-- One turn of the loop over the fingers in `psp2ProcessFingerUp`. `near` is the outcome of the
distance test and `numDown` the number of fingers that were down before the event. -/
def liftFinger (port : Port) (id : Nat) (time : Time) (near : Bool) (numDown : Nat) (st : Touch)
    (i : FingerIndex) : Touch :=
  let p := st.panels port
  let finger := p.fingers i
  if finger.id = some id then
    let p := { p with fingers := Function.update p.fingers i { finger with id := none } }
    match p.dragging.button with
    | none =>
      if since time finger.timeLastDown ≤ maxTapTime && near then
        if numDown = 2 then startClick (st.setPanel port p) port .right time
        else if numDown = 1 then startClick (st.setPanel port p) port .left time
        else st.setPanel port p
      else st.setPanel port p
    | some button =>
      if numDown = 1 then  -- the drag is over
        (st.setPanel port { p with dragging := .none }).adbMouseUp button
      else st.setPanel port p
  else st

def processFingerUp (st : Touch) (port : Port) (id : Nat) (time : Time) (near : Bool) : Touch :=
  (List.finRange 3).foldl (liftFinger port id time near (numFingersDown (st.panels port))) st

/-- The fingers that have been down long enough for a drag. -/
def numFingersDownLong (p : Panel) (time : Time) : Nat :=
  (List.finRange 3).countP fun i =>
    (p.fingers i).id.isSome && maxTapTime < since time (p.fingers i).timeLastDown

def startDrag (st : Touch) (port : Port) (dragging : Dragging) (button : Button) : Touch :=
  (st.setPanel port { st.panels port with dragging := dragging }).adbMouseDown button

/-- The motion of the pointer is left out, and with it the finger that moved. -/
def processFingerMotion (st : Touch) (port : Port) (time : Time) : Touch :=
  let p := st.panels port
  if 2 ≤ numFingersDown p ∧ p.dragging = .none ∧ 2 ≤ numFingersDownLong p time then
    if numFingersDownLong p time = 2 then startDrag st port .twoFinger .left
    else startDrag st port .threeFinger .right
  else st

/-! ### The end of clicks -/

/-- The test of `psp2FinishSimulatedMouseClicks`. -/
def clickElapsed (stored : BitVec 32) (time : Time) : Bool :=
  stored ≠ 0 && simulatedClickDuration ≤ since time stored

/-- The click has lasted long enough at the given time. -/
def durationElapsed (start time : Time) : Bool := simulatedClickDuration ≤ time - start

/-- One turn of the loop over the buttons. -/
def finishClick (port : Port) (time : Time) (st : Touch) (button : Button) : Touch :=
  let p := st.panels port
  let st := st.setClick port button
    ((st.clicks port button).filter fun start => !durationElapsed start time)
  if clickElapsed (p.clickStart button) time then
    let p := { p with clickStart := Function.update p.clickStart button 0 }
    (st.setPanel port p).adbMouseUp button
  else st

def finishSimulatedMouseClicks (st : Touch) (port : Port) (currentTime : Time) : Touch :=
  [Button.left, Button.right].foldl (finishClick port currentTime) st

/-- The events, and the calls that end clicks. -/
inductive TouchEvent where
  | fingerDown (port : Port) (id : Nat) (time : Time)
  | fingerMotion (port : Port) (time : Time)
  | fingerUp (port : Port) (id : Nat) (time : Time) (near : Bool)
  | finishClicks (port : Port) (time : Time)
  deriving DecidableEq, Repr

def TouchEvent.time : TouchEvent → Time
  | .fingerDown _ _ time => time
  | .fingerMotion _ time => time
  | .fingerUp _ _ time _ => time
  | .finishClicks _ time => time

def TouchEvent.apply (st : Touch) : TouchEvent → Touch
  | .fingerDown port id time => processFingerDown st port id time
  | .fingerMotion port time => processFingerMotion st port time
  | .fingerUp port id time near => processFingerUp st port id time near
  | .finishClicks port time => finishSimulatedMouseClicks st port time

/-- Time does not go back. -/
def touchStep (st : Touch) (event : TouchEvent) : Option Touch :=
  if st.now ≤ event.time then some { event.apply st with now := event.time } else none

def Touch.isDown (st : Touch) (button : Button) : Bool := downAfter button false st.calls

end BasiliskII.Input
