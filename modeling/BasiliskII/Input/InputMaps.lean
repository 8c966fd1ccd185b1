import BasiliskII.Library.PressLog
import BasiliskII.Stdio
import Mathlib.Data.List.FinRange
import Mathlib.Logic.Function.Basic

/-!
# Input maps

`parse_imap`, `key_down` and `key_up` of video_psp.cpp, the loop over the maps
in `VideoInterrupt` and the modes that decide when it runs. A map says which
buttons of the pad stand for which keys and mouse buttons of the Mac.
-/
namespace BasiliskII.Input

open PressLog

/-- A row of `button_map`. -/
structure Map where
  pressed : BitVec 32
  notPressed : BitVec 32
  key1 : BitVec 32
  key2 : BitVec 32
  key3 : BitVec 32
  key4 : BitVec 32
  down : Bool
  deriving DecidableEq

abbrev MapIndex := Fin 64

def emptyMap : Map := ⟨0, 0, 0, 0, 0, 0, false⟩

def defaultMaps : List Map :=
  [⟨0x0010, 0x0000, 62, 255, 255, 255, false⟩, ⟨0x0020, 0x0000, 60, 255, 255, 255, false⟩,
    ⟨0x0040, 0x0000, 61, 255, 255, 255, false⟩, ⟨0x0080, 0x0000, 59, 255, 255, 255, false⟩,
    ⟨0x0100, 0x0000, 58, 255, 255, 255, false⟩, ⟨0x0200, 0x0000, 54, 255, 255, 255, false⟩,
    ⟨0x1000, 0x0000, 55, 12, 255, 255, false⟩, ⟨0x2000, 0x0000, 55, 13, 255, 255, false⟩,
    ⟨0x4000, 0x0000, 256, 255, 255, 255, false⟩, ⟨0x8000, 0x0000, 36, 255, 255, 255, false⟩]

/-- The table that starts with the given maps. -/
def tableOf (maps : List Map) : MapIndex → Map := fun i => maps.getD i.val emptyMap

/-! ### Map files -/

/-- The value of a digit, at most 35. -/
def digitValue (c : UInt8) : Nat :=
  if isdigit c then c.toNat - 48
  else if 97 ≤ c && c ≤ 122 then c.toNat - 87
  else if 65 ≤ c && c ≤ 90 then c.toNat - 55
  else 36

def isDigitOf (base : Nat) (c : UInt8) : Bool := digitValue c < base

/-- The digits after the sign: `0x` may stand before those of a hexadecimal number. -/
def skipHex (base : Nat) (s : CString) : CString :=
  match s with
  | 48 :: x :: d :: rest =>
    if base = 16 && (x = 120 || x = 88) && isDigitOf 16 d then d :: rest else s
  | _ => s

/-- What `strtoul` gives back: a number out of range becomes the largest one. -/
def unsignedOf (negative : Bool) (n : Nat) : BitVec 32 :=
  if 0xFFFFFFFF < n then 0xFFFFFFFF
  else if negative then -BitVec.ofNat 32 n else BitVec.ofNat 32 n

/-- `%x` and `%u` of `sscanf`: the number and the text after it. -/
def scanUnsigned (base : Nat) (s : CString) : Option (BitVec 32 × CString) :=
  let s := s.dropWhile isspace
  let negative := s.head? = some 45
  let s := skipHex base (if s.head? = some 45 ∨ s.head? = some 43 then s.tail else s)
  let digits := s.takeWhile (isDigitOf base)
  if digits = [] then none
  else
    some (unsignedOf negative (digits.foldl (fun n c => base * n + digitValue c) 0),
      s.drop digits.length)

/-- `sscanf(temp, "%x %x %u %u %u %u", ...)`, when all six are there. -/
def scanMap (temp : CString) : Option Map := do
  let (j, s) ← scanUnsigned 16 temp
  let (k, s) ← scanUnsigned 16 s
  let (l, s) ← scanUnsigned 10 s
  let (m, s) ← scanUnsigned 10 s
  let (n, s) ← scanUnsigned 10 s
  let (o, _) ← scanUnsigned 10 s
  return ⟨j, k, l, m, n, o, false⟩

/-- The loop of `parse_imap` with room for some more maps; every line takes at least one
character. -/
def parseMaps : Nat → Nat → CString → List Map
  | 0, _, _ => []
  | _ + 1, 0, _ => []
  | fuel + 1, room + 1, stream =>
    match fgets 127 stream with
    | none => []
    | some (line, rest) =>
      let temp := line.takeWhile (· ≠ 0)
      if temp = [] then []
      else if temp.head? = some 35 then parseMaps fuel (room + 1) rest  -- comment line
      else
        match scanMap temp with
        | none => []
        | some m => m :: parseMaps fuel room rest

def parseImap (file : CString) : MapIndex → Map := tableOf (parseMaps file.length 64 file)

/-! ### Keys and buttons -/

inductive Target where
  | key (code : BitVec 32)
  | button (button : BitVec 32)
  deriving DecidableEq

def capsLockKey : Target := .key 57

/-- What the first key of a map stands for. -/
def firstKey (key : BitVec 32) : List Target :=
  if key &&& 0x100 ≠ 0 then [.button (key &&& 7)] else [.key key]

/-- What another key stands for; 255 is no key. -/
def otherKey (key : BitVec 32) : List Target :=
  if key &&& 0x100 ≠ 0 then [.button (key &&& 7)] else if key ≠ 0xFF then [.key key] else []

/-- The map moves the mouse. -/
def Map.moves (m : Map) : Bool := m.key1 &&& 0x200 ≠ 0

/-- The buttons meet the condition of the map. -/
def Map.pressedBy (m : Map) (buttons : BitVec 32) : Bool :=
  buttons &&& m.pressed = m.pressed && ~~~buttons &&& m.notPressed = m.notPressed

/-- The statics of video_psp.cpp, with the calls of `ADBKeyDown` to `ADBMouseUp` and those of
`ADBMouseMoved` made for maps so far. -/
structure Video where
  oldButtons : BitVec 32
  inputMode : Bool
  showMenu : Bool
  capsLock : Bool
  buttonMap : MapIndex → Map
  calls : List (Event Target)
  moved : List (Int × Int)

def Video.initial : Video := ⟨0, false, false, false, tableOf defaultMaps, [], []⟩

def Video.setDown (st : Video) (i : MapIndex) (down : Bool) : Video :=
  { st with buttonMap := Function.update st.buttonMap i { st.buttonMap i with down := down } }

def keyDown (st : Video) (i : MapIndex) : Video :=
  let m := st.buttonMap i
  if m.moves then
    { st with
      moved := st.moved ++
        [(((m.key1 &&& 0x0F0) >>> 4).toInt - 8, (m.key1 &&& 0x00F).toInt - 8)] }
  else if m.down then st  -- already sent key down
  else if m.key1 = 57 then
    { st.setDown i true with
      capsLock := !st.capsLock
      calls := st.calls ++ [if st.capsLock then .release capsLockKey else .press capsLockKey] }
  else
    { st.setDown i true with
      calls := st.calls ++
        (firstKey m.key1 ++ otherKey m.key2 ++ otherKey m.key3 ++ otherKey m.key4).map .press }

def keyUp (st : Video) (i : MapIndex) : Video :=
  let m := st.buttonMap i
  if !m.down then st  -- already sent key up
  else if m.key1 = 57 then st.setDown i false  -- ignore caps lock key up
  else
    { st.setDown i false with
      calls := st.calls ++
        (otherKey m.key4 ++ otherKey m.key3 ++ otherKey m.key2 ++ firstKey m.key1).map .release }

/-- One turn of the loop in `VideoInterrupt`. -/
def visitMap (buttons : BitVec 32) (st : Video) (i : MapIndex) : Video :=
  if (st.buttonMap i).pressedBy buttons then keyDown st i
  else if (st.buttonMap i).down then keyUp st i else st

def mapLoop (buttons : BitVec 32) : List MapIndex → Video → Video
  | [], st => st
  | i :: rest, st =>
    if (st.buttonMap i).pressed = 0 then st else mapLoop buttons rest (visitMap buttons st i)

/-- What an interrupt finds: the buttons of the pad, whether the on-screen keyboard has been
loaded, and the input map that `handle_menu` loads, if the menu is drawn and one is chosen. -/
structure Frame where
  buttons : BitVec 32
  danzeff : Bool
  load : Option CString

def selectButton : BitVec 32 := 0x1

def startButton : BitVec 32 := 0x8

/-- The button has gone down since the interrupt before. -/
def Video.newlyPressed (st : Video) (frame : Frame) (button : BitVec 32) : Bool :=
  (frame.buttons ^^^ st.oldButtons) &&& button ≠ 0 && frame.buttons &&& button ≠ 0

/-- Start shows and hides the on-screen keyboard. -/
def Video.nextInputMode (st : Video) (frame : Frame) : Bool :=
  frame.danzeff && (st.inputMode ^^ st.newlyPressed frame startButton)

/-- Select shows and hides the menu. -/
def Video.nextShowMenu (st : Video) (frame : Frame) : Bool :=
  !st.nextInputMode frame && (st.showMenu ^^ st.newlyPressed frame selectButton)

/-- `VideoInterrupt`, as far as it is about input maps. -/
def videoInterrupt (st : Video) (frame : Frame) : Video :=
  let st' := { st with
    oldButtons := frame.buttons
    inputMode := st.nextInputMode frame
    showMenu := st.nextShowMenu frame }
  if st.nextShowMenu frame then
    match frame.load with
    | none => st'
    | some file => { st' with buttonMap := parseImap file }
  else if st.nextInputMode frame then st'
  else mapLoop frame.buttons (List.finRange 64) st'

/-- Whether a key or mouse button is held down through the maps. -/
def Video.isDown (st : Video) (t : Target) : Bool := downAfter t false st.calls

end BasiliskII.Input
