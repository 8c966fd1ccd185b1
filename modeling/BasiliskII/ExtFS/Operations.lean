import BasiliskII.ExtFS.Table

/-!
# Lookup, rename and move

`get_item_and_path`, `fs_rename` and `fs_cat_move` of extfs.cpp. The FSM
utility routines run in the guest, so a lookup takes their answers as a
parameter, and so do `access` and `rename` of the host. A function returns
`none` where the source follows a null pointer or has not finished parsing
within the given number of components.
-/
namespace BasiliskII.ExtFS

-- Result codes of macos_util.h.

def noErr : Int := 0

def dskFulErr : Int := -34

def ioErr : Int := -36

def bdNamErr : Int := -37

def tmfoErr : Int := -42

def fnfErr : Int := -43

def wPrErr : Int := -44

def fBsyErr : Int := -47

def dupFNErr : Int := -48

def paramErr : Int := -50

def permErr : Int := -54

def dirNFErr : Int := -120

inductive Errno where
  | zero | noent | isdir | acces | perm | exist | busy | notempty
  | nospc | rofs | mfile | nomem | io | other
  deriving DecidableEq, Repr

def errno2oserr : Errno → Int
  | .zero => noErr
  | .noent | .isdir => fnfErr
  | .acces | .perm => permErr
  | .exist => dupFNErr
  | .busy | .notempty => fBsyErr
  | .nospc => dskFulErr
  | .rofs => wPrErr
  | .mfile => tmfoErr
  | .nomem => -108
  | .io | .other => ioErr

/-- The host file system as a call sees it. -/
structure Host where
  /-- `access(path, F_OK) == 0` -/
  access : CString → Bool
  /-- `rename(old, new)`: `none` is success -/
  rename : CString → CString → Option Errno
  -- The empty path names no file.
  rename_nonempty : ∀ old new, rename old new = none → old ≠ [] ∧ new ≠ []
  -- A call that fails sets `errno`.
  rename_errno : ∀ old new e, rename old new = some e → e ≠ .zero

/-- The fields of the parameter block the lookups read. `ioNewName` lies where `ioMisc` does. -/
structure ParamBlock where
  ioNamePtr : Nat
  ioVRefNum : Int
  ioMisc : Nat
  ioNewDirID : Nat
  ioDirID : Nat
  deriving DecidableEq, Repr

def ParamBlock.ioNewName (pb : ParamBlock) : Nat := pb.ioMisc

structure ParsePathRec where
  ppNamePtr : Nat
  ppStartOffset : Nat
  ppComponentLength : Nat
  ppMoreName : Bool
  ppFoundDelimiter : Bool
  deriving DecidableEq, Repr

/-- `startOffset` is 16 bits wide. -/
def ParsePathRec.advance (parseRec : ParsePathRec) (n : Nat) : ParsePathRec :=
  { parseRec with ppStartOffset := (parseRec.ppStartOffset + n) % 2 ^ 16 }

/-- The answers of the guest's FSM routines during one lookup. Each returns a result code
and its other results. The name parser is called many times, and guest memory may change from
call to call, so both take the number of calls made before. -/
structure FSM where
  determineVol : ParamBlock → Int × Nat
  resolveWDCB : Int → Int × Nat
  getDefaultVol : Int × Nat
  parsePathname : Nat → Int × Nat
  getPathComponentName : Nat → ParsePathRec → Int × ParsePathRec
  memory : Nat → Nat → UInt8

def dtmvFullPathname : Nat := 1

def dtmvVRefNum : Nat := 2

def dtmvWDRefNum : Nat := 3

def dtmvDriveNum : Nat := 4

def dtmvDefault : Nat := 5

def getCurrentDir (fsm : FSM) (pb : ParamBlock) (dirID : Nat) (noVolName : Bool) :
    Except Int Nat :=
  let (result, status) := fsm.determineVol (if noVolName then { pb with ioNamePtr := 0 } else pb)
  if result ≠ noErr then .error result
  else if status = dtmvFullPathname then .ok ROOT_ID
  else if status = dtmvVRefNum ∨ status = dtmvDriveNum then
    .ok (if dirID ≠ 0 then dirID else ROOT_ID)
  else if status = dtmvWDRefNum then
    if dirID ≠ 0 then .ok dirID
    else
      let (result, wdDirID) := fsm.resolveWDCB pb.ioVRefNum
      if result = noErr then .ok wdDirID else .error result
  else if status = dtmvDefault then
    if dirID ≠ 0 then .ok dirID
    else
      let (result, ioWDDirID) := fsm.getDefaultVol
      if result = noErr then .ok ioWDDirID else .error result
  else .error paramErr

/-- The local variables of the parse loop; `calls` counts the calls of
`get_path_component_name`. -/
structure Parse where
  table : FSTable
  p : Nat
  currentDir : Nat
  parseRec : ParsePathRec
  calls : Nat

/-- The component the parse record points at, as a C string. -/
def FSM.component (fsm : FSM) (calls : Nat) (parseRec : ParsePathRec) : CString :=
  strn2cstr <| (List.range parseRec.ppComponentLength).map fun k =>
    fsm.memory calls (parseRec.ppNamePtr + parseRec.ppStartOffset + 1 + k)

/-- The next component of the path, with the result code of the routine. -/
def Parse.nextComponent (fsm : FSM) (s : Parse) : Parse × Int :=
  let (result, parseRec) := fsm.getPathComponentName s.calls s.parseRec
  ({ s with parseRec, calls := s.calls + 1 }, result)

/-- What the loop does with a component it has found. -/
def Parse.enter (fsm : FSM) (s : Parse) : Option (Parse × Int) :=
  if s.parseRec.ppComponentLength = 0 then
    -- Delimiter immediately following another delimiter, get parent
    if s.currentDir = ROOT_ID then some ({ s with parseRec := s.parseRec.advance 1 }, bdNamErr)
    else
      (s.table.item s.p).parent.map fun q =>
        ({ s with
            p := q
            currentDir := (s.table.item q).id
            parseRec := s.parseRec.advance 1 }, noErr)
  else if s.parseRec.ppMoreName then
    -- Component found and isn't the last, so it must be a directory, enter it
    let (p, table) := findFsitemGuest s.table (fsm.component s.calls s.parseRec) s.p
    some ({ s with
      table
      p
      currentDir := (table.item p).id
      parseRec := s.parseRec.advance (s.parseRec.ppComponentLength + 1) }, noErr)
  else some (s, noErr)

/-- The loop, for at most `fuel` components. -/
def Parse.loop (fsm : FSM) : Nat → Parse → Option (Parse × Int)
  | 0, _ => none
  | fuel + 1, s =>
    if s.parseRec.ppMoreName then
      let (s, result) := s.nextComponent fsm
      if result ≠ noErr then some (s, result)
      else
        (s.enter fsm).bind fun (s, result) =>
          if result ≠ noErr then some (s, result) else loop fsm fuel s
    else some (s, noErr)

/-- The object at the end of the path. -/
def Parse.object (fsm : FSM) (s : Parse) : Nat × FSTable :=
  if s.parseRec.ppComponentLength = 0 then (s.p, s.table)
  else findFsitemGuest s.table (fsm.component s.calls s.parseRec) s.p

/-- Parse the whole path name from `start` on; the state behind it and the item. -/
def Parse.run (fsm : FSM) (fuel : Nat) (s : Parse) : Option (FSTable × Except Int Nat) :=
  let (s, result) := s.nextComponent fsm
  if result ≠ noErr then some (s.table, .error result)
  else
    let s :=
      -- Get past initial delimiter
      if s.parseRec.ppComponentLength = 0 ∧ s.parseRec.ppFoundDelimiter then
        { s with parseRec := s.parseRec.advance 1 }
      else s
    (s.loop fsm fuel).map fun (s, result) =>
      if result ≠ noErr then (s.table, .error result)
      else ((s.object fsm).2, .ok (s.object fsm).1)

/-- The item of a path name relative to the item `p` of the directory `currentDir`. -/
def findObject (fsm : FSM) (fuel : Nat) (t : FSTable) (pb : ParamBlock) (p currentDir : Nat) :
    Option (FSTable × Except Int Nat) :=
  let (result, startOffset) := fsm.parsePathname pb.ioNamePtr
  if result = noErr then
    Parse.run fsm fuel ⟨t, p, currentDir, ⟨pb.ioNamePtr, startOffset, 0, false, false⟩, 0⟩
  -- Pathname was NULL or a zero length string, so we found a directory at the end of the string
  else if pb.ioNamePtr = 0 ∨ fsm.memory 0 pb.ioNamePtr = 0 then some (t, .ok p)
  else some (t, .error bdNamErr)

/-- The table after the lookup, with the item and its full path or the result code. -/
def getItemAndPath (vol : Volume) (fsm : FSM) (fuel : Nat) (t : FSTable) (pb : ParamBlock)
    (dirID : Nat) (noVolName : Bool) : Option (FSTable × Except Int (Nat × CString)) :=
  match getCurrentDir fsm pb dirID noVolName with
  | .error result => some (t, .error result)
  | .ok currentDir =>
    match findFsitemById t currentDir with
    | none => some (t, .error dirNFErr)
    | some p =>
      (findObject fsm fuel t pb p currentDir).bind fun
        | (t, .error result) => some (t, .error result)
        | (t, .ok item) => (fullPath vol t item).map fun path => (t, .ok (item, path))

/-- The guest routines of the two lookups of a call, and a bound on their path lengths. -/
structure Lookups where
  first : FSM
  second : FSM
  fuel : Nat

/-- What a successful rename or move did: the CNID its item had, the CNID of the item for the
new path, and the two paths. -/
structure Renamed where
  cnid : Nat
  newCnid : Nat
  oldPath : CString
  newPath : CString
  deriving DecidableEq, Repr

/-- Result code, table and, on success, what was renamed. -/
structure Outcome where
  table : FSTable
  result : Int
  renamed : Option Renamed

def Outcome.failed (t : FSTable) (result : Int) : Outcome := ⟨t, result, none⟩

/-- The ids of the items are swapped after the host has renamed. -/
def Outcome.swapped (t : FSTable) (fsItem newItem : Nat) (oldPath newPath : CString) : Outcome :=
  ⟨swapItemIds t fsItem newItem, noErr,
    some ⟨(t.item fsItem).id, (t.item newItem).id, oldPath, newPath⟩⟩

def fsRename (vol : Volume) (host : Host) (guest : Lookups) (t : FSTable) (pb : ParamBlock)
    (dirID : Nat) : Option Outcome :=
  -- Find path of given file/dir
  (getItemAndPath vol guest.first guest.fuel t pb dirID false).bind fun
    | (t, .error result) => some (.failed t result)
    | (t, .ok (fsItem, oldPath)) =>
      -- Find path for new name
      (getItemAndPath vol guest.second guest.fuel t { pb with ioNamePtr := pb.ioMisc } dirID
          false).map fun
        | (t, .error result) => .failed t result
        | (t, .ok (newItem, newPath)) =>
          -- Does the new name already exist?
          if host.access newPath then .failed t dupFNErr
          else
            match host.rename oldPath newPath with
            | some errno => .failed t (errno2oserr errno)
            | none => .swapped t fsItem newItem oldPath newPath

def fsCatMove (vol : Volume) (host : Host) (guest : Lookups) (t : FSTable) (pb : ParamBlock) :
    Option Outcome :=
  -- Find path of given file/dir
  (getItemAndPath vol guest.first guest.fuel t pb pb.ioDirID false).bind fun
    | (t, .error result) => some (.failed t result)
    | (t, .ok (fsItem, oldPath)) =>
      -- Find path for new directory
      (getItemAndPath vol guest.second guest.fuel t { pb with ioNamePtr := pb.ioNewName }
          pb.ioNewDirID false).map fun
        | (t, .error result) => .failed t result
        | (t, .ok (newDirItem, dirPath)) =>
          -- Append old file/dir name
          let name := (t.item fsItem).name
          let newPath := addPathComponent dirPath name
          if host.access newPath then .failed t dupFNErr
          else
            match host.rename oldPath newPath with
            | some errno => .failed t (errno2oserr errno)
            | none =>
              let (newItem, t) := findFsitem t name newDirItem
              .swapped t fsItem newItem oldPath newPath

/-- What changes the table. -/
inductive Call where
  | findFsitem (name : CString) (parent : Nat)
  | findFsitemGuest (guestName : CString) (parent : Nat)
  | fsRename (host : Host) (guest : Lookups) (pb : ParamBlock) (dirID : Nat)
  | fsCatMove (host : Host) (guest : Lookups) (pb : ParamBlock)

/-- The table after a call. A lookup is only ever given a pointer to an item of the list. -/
def step (vol : Volume) (t : FSTable) : Call → Option FSTable
  | .findFsitem name parent =>
    if t.Valid parent then some (ExtFS.findFsitem t name parent).2 else none
  | .findFsitemGuest guestName parent =>
    if t.Valid parent then some (ExtFS.findFsitemGuest t guestName parent).2 else none
  | .fsRename host guest pb dirID =>
    (ExtFS.fsRename vol host guest t pb dirID).map Outcome.table
  | .fsCatMove host guest pb => (ExtFS.fsCatMove vol host guest t pb).map Outcome.table

end BasiliskII.ExtFS
