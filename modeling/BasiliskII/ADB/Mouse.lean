import BasiliskII.Library.SignedWidth
import Mathlib.Algebra.GroupWithZero.Nat
import Mathlib.Tactic.IntervalCases

/-!
# The mouse of the ADB emulation

The mouse part of adb.cpp. `mouse_x` and `mouse_y` hold a position in absolute
mode and the motion since the last `ADBInterrupt` in relative mode. The guest
gets positions in its cursor variables and motion in the packets of register 0.
-/
namespace BasiliskII.ADB

open SignedWidth

abbrev Button := Fin 3

instance button_neZero : NeZero 3 := ⟨by decide⟩

structure Mouse where
  mouseX : BitVec 32
  mouseY : BitVec 32
  oldMouseX : BitVec 32
  oldMouseY : BitVec 32
  mouseButton : Button → Bool
  oldMouseButton : Button → Bool
  relativeMouse : Bool
  mouseReg3 : BitVec 8 × BitVec 8

def Mouse.initial : Mouse :=
  ⟨0, 0, 0, 0, fun _ => false, fun _ => false, false, (0x63, 0x01)⟩

def adbMouseMoved (m : Mouse) (x y : BitVec 32) : Mouse :=
  if m.relativeMouse then { m with mouseX := m.mouseX + x, mouseY := m.mouseY + y }
  else { m with mouseX := x, mouseY := y }

def Mouse.setButton (m : Mouse) (button : Button) (down : Bool) : Mouse :=
  { m with mouseButton := fun b => if b = button then down else m.mouseButton b }

def adbMouseDown (m : Mouse) (button : Button) : Mouse := m.setButton button true

def adbMouseUp (m : Mouse) (button : Button) : Mouse := m.setButton button false

def adbSetRelMouseMode (m : Mouse) (relative : Bool) : Mouse :=
  if m.relativeMouse ≠ relative then
    { m with relativeMouse := relative, mouseX := 0, mouseY := 0 }
  else m

/-! ### The interrupt -/

/-- What `ADBInterrupt` copies under the lock. -/
structure MouseState where
  mx : BitVec 32
  my : BitVec 32
  mb : Button → Bool

/-- Get the mouse state, and take the motion in relative mode. -/
def Mouse.getState (m : Mouse) : MouseState × Mouse :=
  (⟨m.mouseX, m.mouseY, m.mouseButton⟩,
    if m.relativeMouse then { m with mouseX := 0, mouseY := 0 } else m)

/-- The data at `tmp_data`, with its length in front, and the command of the call. -/
structure MousePacket where
  data : List (BitVec 8)
  talk : BitVec 32

def Mouse.talk0 (m : Mouse) : BitVec 32 := m.mouseReg3.1.setWidth 32 <<< 4 ||| 0x0c

def Mouse.extended (m : Mouse) : Bool := m.mouseReg3.2 = 4

def upBit (pressed : Bool) : BitVec 32 := if pressed then 0 else 0x80

/-- Motion and buttons in the layout of register 0. -/
def packetData (extended : Bool) (mx my : BitVec 32) (mb : Button → Bool) : List (BitVec 8) :=
  let first := (my &&& 0x7f ||| upBit (mb 0)).setWidth 8
  let second := (mx &&& 0x7f ||| upBit (mb 1)).setWidth 8
  if extended then
    -- Extended mouse protocol
    [3, first, second,
      (my.sshiftRight 3 &&& 0x70 ||| mx.sshiftRight 7 &&& 0x07 |||
        if mb 2 then 0x08 else 0x88).setWidth 8]
  else
    -- 100/200 dpi mode
    [2, first, second]

def relativePacket (m : Mouse) (st : MouseState) : MousePacket :=
  ⟨packetData m.extended st.mx st.my st.mb, m.talk0⟩

/-- The buttons in absolute mode. -/
def buttonPacket (m : Mouse) (st : MouseState) : MousePacket :=
  ⟨packetData m.extended 0 0 st.mb, m.talk0⟩

/-- What the guest gets: a call of its mouse handler, or a position in the cursor variables. -/
inductive MouseOutput where
  | packet (p : MousePacket)
  | position (x y : BitVec 16)

def Mouse.buttonsChanged (m : Mouse) (st : MouseState) : Bool :=
  st.mb 0 ≠ m.oldMouseButton 0 || st.mb 1 ≠ m.oldMouseButton 1 || st.mb 2 ≠ m.oldMouseButton 2

/-- Mouse movement (relative) and buttons. -/
def sendRelative (m : Mouse) (st : MouseState) : Mouse × List MouseOutput :=
  if st.mx ≠ 0 || st.my ≠ 0 || m.buttonsChanged st then
    ({ m with oldMouseButton := st.mb }, [.packet (relativePacket m st)])
  else (m, [])

/-- Update the mouse position (absolute). -/
def updatePosition (m : Mouse) (st : MouseState) : Mouse × List MouseOutput :=
  if st.mx ≠ m.oldMouseX || st.my ≠ m.oldMouseY then
    ({ m with oldMouseX := st.mx, oldMouseY := st.my },
      [.position (st.mx.setWidth 16) (st.my.setWidth 16)])
  else (m, [])

/-- Send mouse button events. -/
def sendButtons (m : Mouse) (st : MouseState) : Mouse × List MouseOutput :=
  if m.buttonsChanged st then
    ({ m with oldMouseButton := st.mb }, [.packet (buttonPacket m st)])
  else (m, [])

/-- The mouse part of `ADBInterrupt`; `adbBase` is what it finds at 0xcf8. -/
def mouseInterrupt (m : Mouse) (adbBase : BitVec 32) : Mouse × List MouseOutput :=
  if adbBase = 0 || adbBase = 0xffffffff then (m, [])
  else
    let (st, m) := m.getState
    if m.relativeMouse then sendRelative m st
    else
      let (m, moved) := updatePosition m st
      let (m, pressed) := sendButtons m st
      (m, moved ++ pressed)

/-! ### The guest's side -/

/-- The motion in a packet, across and down: 7 bits each, and three more in a fourth byte. -/
def motion : List (BitVec 8) → Int × Int
  | [_, first, second] => ((second.setWidth 7).toInt, (first.setWidth 7).toInt)
  | [_, first, second, third] =>
    ((third.extractLsb' 0 3 ++ second.setWidth 7).toInt,
      (third.extractLsb' 4 3 ++ first.setWidth 7).toInt)
  | _ => (0, 0)

def MouseOutput.motion : MouseOutput → Int × Int
  | .packet p => ADB.motion p.data
  | .position _ _ => (0, 0)

/-- The bits of the motion a packet has room for. -/
def motionWidth (extended : Bool) : Nat := if extended then 10 else 7

theorem low_bits (v : BitVec 32) (pressed : Bool) :
    ((v &&& 0x7f ||| upBit pressed).setWidth 8).setWidth 7 = v.setWidth 7 := by
  apply BitVec.eq_of_getLsbD_eq
  intro i inside
  interval_cases i <;> cases pressed <;> simp [upBit]

theorem high_bits_x (mx my : BitVec 32) (pressed : Bool) :
    ((my.sshiftRight 3 &&& 0x70 ||| mx.sshiftRight 7 &&& 0x07 |||
      if pressed then 0x08 else 0x88).setWidth 8).extractLsb' 0 3 = mx.extractLsb' 7 3 := by
  apply BitVec.eq_of_getLsbD_eq
  intro i inside
  interval_cases i <;> cases pressed <;> simp [BitVec.getElem_sshiftRight]

theorem high_bits_y (mx my : BitVec 32) (pressed : Bool) :
    ((my.sshiftRight 3 &&& 0x70 ||| mx.sshiftRight 7 &&& 0x07 |||
      if pressed then 0x08 else 0x88).setWidth 8).extractLsb' 4 3 = my.extractLsb' 7 3 := by
  apply BitVec.eq_of_getLsbD_eq
  intro i inside
  interval_cases i <;> cases pressed <;> simp [BitVec.getElem_sshiftRight]

theorem field_append (v : BitVec 32) : v.extractLsb' 7 3 ++ v.setWidth 7 = v.setWidth 10 := by
  apply BitVec.eq_of_getLsbD_eq
  intro i inside
  rw [BitVec.getLsbD_append]
  by_cases low : i < 7
  · simp [low, inside]
  · simp [low, inside, show i - 7 < 3 by omega, show 7 + (i - 7) = i by omega]

/-- The guest reads the motion narrowed to the width of the packet. -/
theorem motion_packetData (extended : Bool) (mx my : BitVec 32) (mb : Button → Bool) :
    motion (packetData extended mx my mb) =
      ((mx.setWidth (motionWidth extended)).toInt, (my.setWidth (motionWidth extended)).toInt) := by
  cases extended with
  | false =>
    simp only [packetData, motion, low_bits, Bool.false_eq_true, if_false]
    rfl
  | true =>
    simp only [packetData, motion, low_bits, high_bits_x, high_bits_y, if_true, field_append]
    rfl

theorem motion_exact_iff (extended : Bool) (mx my : BitVec 32) (mb : Button → Bool) :
    motion (packetData extended mx my mb) = (mx.toInt, my.toInt) ↔
      Fits (motionWidth extended) mx.toInt ∧ Fits (motionWidth extended) my.toInt := by
  have positive : 0 < motionWidth extended := by cases extended <;> decide
  have narrower : motionWidth extended ≤ 32 := by cases extended <;> decide
  rw [motion_packetData, Prod.mk.injEq, toInt_setWidth_iff positive narrower,
    toInt_setWidth_iff positive narrower]

end BasiliskII.ADB
