import BasiliskII.Menu.ParseDir
import BasiliskII.Stdio

/-!
# The menu of input maps and disk images

`handle_menu` of video_psp.cpp, which is called for every frame while the menu is shown. Up
and Down go to the next category that is not empty, Left and Right to the next entry of
the category, and Cross loads the entry. The buffers for texts are taken as long enough.
-/
namespace BasiliskII.Menu

/-- The bits `SCE_CTRL_UP` and so on of psp2/ctrl.h. -/
structure SceCtrl where
  up : BitVec 32
  down : BitVec 32
  left : BitVec 32
  right : BitVec 32
  cross : BitVec 32
  circle : BitVec 32
  triangle : BitVec 32

/-- `p & mask`, as a condition. -/
def isSet (p mask : BitVec 32) : Bool := p &&& mask ≠ 0

def maxMedia : Nat := 64

def aspectratios : List CString := [ascii "4:3", ascii "16:9", ascii "Fit"]

def numaspectratios : BitVec 32 := 3

/-- The static variables of `handle_menu` and the lists it fills; a list is `none` while its
number is -1. -/
structure MenuState where
  cdroms : Option (List FileEntry)
  floppies : Option (List FileEntry)
  imaps : Option (List FileEntry)
  oldButtons : BitVec 32
  sel : BitVec 32
  max : BitVec 32
  idx : BitVec 32

def MenuState.initial : MenuState := ⟨none, none, none, 0, 0, 0, 0⟩

/-- What a call finds. -/
structure MenuCall where
  host : Host
  buttons : BitVec 32
  floppyInserted : Bool
  cdromInserted : Bool

def MenuState.scan (psp_home : CString) (host : Host) (st : MenuState) : MenuState :=
  { st with
    cdroms := some (st.cdroms.getD (parseDir host (psp_home ++ ascii "cdroms") maxMedia))
    floppies := some (st.floppies.getD (parseDir host (psp_home ++ ascii "disks") maxMedia))
    imaps := some (st.imaps.getD (parseDir host (psp_home ++ ascii "imaps") maxMedia)) }

/-- `numimaps`, `numfloppies`, `numcdroms` or `numaspectratios` -/
def MenuState.count (st : MenuState) (idx : BitVec 32) : BitVec 32 :=
  if idx = 0 then BitVec.ofNat 32 (st.imaps.getD []).length
  else if idx = 1 then BitVec.ofNat 32 (st.floppies.getD []).length
  else if idx = 2 then BitVec.ofNat 32 (st.cdroms.getD []).length
  else numaspectratios

def forward (idx : BitVec 32) : BitVec 32 := if idx < 3 then idx + 1 else 0

def backward (idx : BitVec 32) : BitVec 32 := if 0 < idx then idx - 1 else 3

/-- `while (max == 0)`, for at most `fuel` turns. -/
def MenuState.searchLoop (next : BitVec 32 → BitVec 32) : Nat → MenuState → Option MenuState
  | 0, _ => none
  | fuel + 1, st =>
    if st.max = 0 then
      let st := { st with max := st.count st.idx }
      if st.max ≠ 0 then some st else searchLoop next fuel { st with idx := next st.idx }
    else some st

/-- Go to another category. -/
def MenuState.turn (next : BitVec 32 → BitVec 32) (fuel : Nat) (st : MenuState) : Option MenuState :=
  searchLoop next fuel { st with idx := next st.idx, sel := 0, max := 0 }

def MenuState.selectCategory (ctrl : SceCtrl) (fuel : Nat) (buttons pad : BitVec 32)
    (st : MenuState) : Option MenuState :=
  if isSet buttons (ctrl.up ||| ctrl.down) then
    if isSet pad ctrl.up then st.turn backward fuel
    else if isSet pad ctrl.down then st.turn forward fuel
    else some st
  else some st

def MenuState.selectEntry (ctrl : SceCtrl) (buttons pad : BitVec 32) (st : MenuState) : MenuState :=
  let st :=
    if isSet buttons ctrl.left && isSet pad ctrl.left then
      { st with sel := if 0 < st.sel then st.sel - 1 else st.max - 1 }
    else st
  if isSet buttons ctrl.right && isSet pad ctrl.right then
    { st with sel := if st.sel < st.max - 1 then st.sel + 1 else 0 }
  else st

/-- The entry `sel` of `imaps`, `floppies` or `cdroms`; `none` outside of what was read. -/
def MenuState.entry (st : MenuState) (list : Option (List FileEntry)) : Option FileEntry :=
  (list.getD [])[st.sel.toNat]?

/-- The line that is drawn and what Cross would do. -/
def MenuState.text (st : MenuState) : Option (CString × String) :=
  if st.idx = 0 then
    (st.entry st.imaps).map fun e => (ascii "imap: " ++ e.filename, "Press X to load imap")
  else if st.idx = 1 then
    (st.entry st.floppies).map fun e => (ascii "floppy: " ++ e.filename, "Press X to mount floppy")
  else if st.idx = 2 then
    (st.entry st.cdroms).map fun e => (ascii "cdrom: " ++ e.filename, "Press X to mount cdrom")
  else if st.idx = 3 then
    aspectratios[st.sel.toNat]?.map fun name =>
      (ascii "aspect: " ++ name, "Press X to change aspect ratio")
  else none

inductive MenuAction
  | loadImap (name : CString)
  | mountFloppy (name : CString)
  | mountCdrom (name : CString)
  | aspect (sel : BitVec 32)
  deriving DecidableEq, Repr

def FileEntry.fullName (e : FileEntry) : CString := e.path ++ slash :: e.filename

/-- What Cross does; a drive that is not empty is left alone. -/
def MenuState.load (call : MenuCall) (st : MenuState) : Option (Option MenuAction) :=
  if st.idx = 0 then (st.entry st.imaps).map fun e => some (.loadImap e.fullName)
  else if st.idx = 1 then
    if call.floppyInserted then some none
    else (st.entry st.floppies).map fun e => some (.mountFloppy e.fullName)
  else if st.idx = 2 then
    if call.cdromInserted then some none
    else (st.entry st.cdroms).map fun e => some (.mountCdrom e.fullName)
  else if st.idx = 3 then some (some (.aspect st.sel))
  else some none

/-- The state after a call, the line it has drawn and what it has done. -/
structure MenuFrame where
  st : MenuState
  text : CString × String
  action : Option MenuAction

def handleMenu (ctrl : SceCtrl) (psp_home : CString) (fuel : Nat) (call : MenuCall)
    (st : MenuState) : Option MenuFrame := do
  let st := st.scan psp_home call.host
  let st ← st.searchLoop forward fuel
  let buttons := call.buttons ^^^ st.oldButtons
  let st := { st with oldButtons := call.buttons }
  let st ← st.selectCategory ctrl fuel buttons call.buttons
  let st := st.selectEntry ctrl buttons call.buttons
  let text ← st.text
  let action ←
    if isSet buttons ctrl.cross && isSet call.buttons ctrl.cross then st.load call else some none
  some ⟨st, text, action⟩

/-- Frame by frame; `none` once a call does not return. -/
def menuFrames (ctrl : SceCtrl) (psp_home : CString) (fuel : Nat) :
    List MenuCall → MenuState → Option (List MenuFrame)
  | [], _ => some []
  | call :: calls, st => do
    let frame ← handleMenu ctrl psp_home fuel call st
    let frames ← menuFrames ctrl psp_home fuel calls frame.st
    some (frame :: frames)

end BasiliskII.Menu
