import BasiliskII.Library.DescriptorTable
import BasiliskII.Library.LinkedHeap
import BasiliskII.Library.StepSystem
import BasiliskII.Stdio
import BasiliskII.Sys.FileHandle

/-!
# The list of file handles

`Sys_open`, `Sys_close`, `SysEject`, `Sys_drive_stop` and `Sys_drive_restart` of sys_psp.cpp. The
handles are cells of a heap, and an access to a handle that was deleted, or through a null
pointer, has no result. Descriptors and names of files are all that is seen of the host; which
files can be opened, and under which descriptors, is up to it.
-/
namespace BasiliskII.Sys.HandleList

open LinkedHeap DescriptorTable StepSystem

/-- The part of a string from the last `c` on. -/
def strrchr (s : CString) (c : UInt8) : Option CString :=
  match s with
  | [] => none
  | b :: rest => (strrchr rest c).or (if b = c then some (b :: rest) else none)

/-- `!strncmp(a, b, n)` -/
def strncmpEq (a b : CString) (n : Nat) : Bool := a.take n = b.take n

/-- `O_RDONLY` and `O_RDWR` -/
inductive Mode
  | readOnly
  | readWrite
  deriving DecidableEq, Repr

def openMode (readOnly : Bool) : Mode := if readOnly then .readOnly else .readWrite

/-- What a descriptor stands for. -/
structure OpenFile where
  name : CString
  mode : Mode
  deriving DecidableEq, Repr

abbrev Host := Opener OpenFile

/-- `file_handle` without `next`. A negative descriptor is `none`, and so is what was not set. -/
structure FileHandle where
  name : CString
  fd : Option Nat
  isFile : Bool
  isFloppy : Bool
  isCdrom : Bool
  readOnly : Bool
  startByte : LOff
  fileSize : Option LOff
  tocFd : Option Nat
  tocName : Option CString
  deriving DecidableEq

/-- The file a handle is for. -/
def FileHandle.file (fh : FileHandle) : OpenFile := ⟨fh.name, openMode fh.readOnly⟩

/-- The globals of sys_psp.cpp, with the handles they lead to and the descriptors of the host. -/
structure State where
  heap : Heap FileHandle
  fhList : Option Nat
  floppyFh : Option Nat
  cdromFh : Option Nat
  floppyInserted : Option CString
  cdromInserted : Option CString
  table : Table OpenFile

/-- No handle was opened yet; the host may have files open for others. -/
def State.start (table : Table OpenFile) : State :=
  ⟨Heap.empty, none, none, none, none, none, table⟩

def State.handle (s : State) (p : Nat) : Option FileHandle := (s.heap.cell p).map Cell.val

/-! ### Opening and closing -/

/-- Calculate disk image file layout given file size. -/
def fileDiskLayout (size : LOff) : LOff × LOff :=
  if size = 419284 ∨ size = 838484 then (84, (size - 84) &&& ~~~0x1ff)
  else (size &&& 0x1ff, size - (size &&& 0x1ff))

/-- Put a new handle in front of the list, and make it the current floppy or CD-ROM if it is one. -/
def State.link (s : State) (fh : FileHandle) : State :=
  let p := s.heap.fresh
  { s with
    heap := s.heap.alloc ⟨fh, s.fhList⟩
    fhList := some p
    floppyFh := if fh.isFloppy then some p else s.floppyFh
    cdromFh := if !fh.isFloppy && fh.isCdrom then some p else s.cdromFh }

/-- Open a file, or only for reading when it cannot be opened for writing. -/
def openFile (host : Host) (table : Table OpenFile) (name : CString) (readOnly : Bool) :
    Option Nat × Bool × Table OpenFile :=
  match host.apply table ⟨name, openMode readOnly⟩ with
  | (some fd, table) => (some fd, readOnly, table)
  | (none, table) =>
    if !readOnly then
      let (fd, table) := host.apply table ⟨name, .readOnly⟩
      (fd, true, table)
    else (none, readOnly, table)

/-- A call of `Sys_open`, and what the host says to it. -/
structure Request where
  host : Host
  size : LOff
  name : CString
  readOnly : Bool

/-- The handle `Sys_open` returns (`none` for `NULL`), and the state afterwards. -/
def sysOpen (r : Request) (s : State) : Option (Option Nat × State) :=
  let tmp := strrchr r.name '.'.toNat.toUInt8
  let isFile := match tmp with
    | some ext => strncmpEq ext (ascii ".hfv") 4
    | none => true
  if strncmpEq r.name (ascii "placeholder") 11 then
    match tmp with
    | none => none -- a comparison with a null pointer
    | some ext =>
      let isFloppy := strncmpEq ext (ascii ".dsk") 4
      some (some s.heap.fresh, s.link
        { name := r.name, fd := none, isFile := false, isFloppy, isCdrom := !isFloppy,
          readOnly := r.readOnly, startByte := 0, fileSize := none, tocFd := none,
          tocName := none })
  else
    match openFile r.host s.table r.name r.readOnly with
    | (none, _, table) => some (none, { s with table })
    | (some fd, readOnly, table) =>
      let (startByte, fileSize) := fileDiskLayout r.size
      let (isFloppy, isCdrom) := match isFile, tmp with
        | false, some ext => (strncmpEq ext (ascii ".dsk") 4, !strncmpEq ext (ascii ".dsk") 4)
        | _, _ => (false, false)
      some (some s.heap.fresh, { s with table }.link
        { name := r.name, fd := some fd, isFile, isFloppy, isCdrom, readOnly, startByte,
          fileSize := some fileSize, tocFd := none, tocName := none })

/-- Handles that are opened one after the other. -/
def openAll : List Request → State → Option State
  | [], s => some s
  | r :: rest, s => (sysOpen r s).bind fun result => openAll rest result.2

/-- Close file, delete file handle. The list and the current drives are left as they are. -/
def sysClose (fh : Option Nat) (s : State) : Option State :=
  match fh with
  | none => some s
  | some p => do
    let c ← s.heap.cell p
    some { s with heap := s.heap.free p, table := s.table.closeAny c.val.fd }

/-! ### Ejecting -/

/-- Close the file of the handle that `floppy_fh` or `cdrom_fh` points to. -/
def closeCurrent (current : Option Nat) (s : State) : Option State := do
  let q ← current
  let c ← s.heap.cell q
  match c.val.fd with
  | some fd =>
    some { s with
      heap := s.heap.modify q fun c => { c with val := { c.val with fd := none } }
      table := s.table.close fd }
  | none => some s

/-- Eject volume (if applicable). -/
def sysEject (fh : Option Nat) (s : State) : Option State :=
  match fh with
  | none => some s
  | some p => do
    let c ← s.heap.cell p
    if c.val.isFloppy then
      (closeCurrent s.floppyFh s).map fun s => { s with floppyInserted := none }
    else if c.val.isCdrom then
      (closeCurrent s.cdromFh s).map fun s => { s with cdromInserted := none }
    else some s

/-! ### Suspend and resume -/

/-- The loop of `Sys_drive_stop`, from one handle on. -/
def driveStopFrom (heap : Heap FileHandle) :
    Nat → Option Nat → Table OpenFile → Option (Table OpenFile)
  | _, none, table => some table
  | 0, some _, _ => none
  | fuel + 1, some p, table => do
    let c ← heap.cell p
    driveStopFrom heap fuel c.next ((table.closeAny c.val.fd).closeAny c.val.tocFd)

/-- No walk along the list is longer than the number of handles that were ever allocated. -/
def driveStop (s : State) : Option State :=
  (driveStopFrom s.heap s.heap.fresh s.fhList s.table).map fun table => { s with table }

/-- Open a file again that was open before. -/
def reopen (host : Host) (table : Table OpenFile) (fd : Option Nat) (file : OpenFile) :
    Option Nat × Table OpenFile :=
  if fd.isSome then host.apply table file else (fd, table)

/-- The same for the file with the table of contents. Its name has to be known. -/
def reopenToc (host : Host) (table : Table OpenFile) (fh : FileHandle) :
    Option (Option Nat × Table OpenFile) :=
  if fh.tocFd.isSome then fh.tocName.map fun name => host.apply table ⟨name, .readOnly⟩
  else some (fh.tocFd, table)

/-- What the loop of `Sys_drive_restart` does to one handle. -/
def restartHandle (host : Host) (p : Nat) (fh : FileHandle) (s : State) : Option State := do
  let (fd, table) := reopen host s.table fh.fd fh.file
  let (tocFd, table) ← reopenToc host table fh
  some { s with
    heap := s.heap.modify p fun c => { c with val := { c.val with fd, tocFd } }
    table }

/-- The loop of `Sys_drive_restart`, from one handle on. -/
def driveRestartFrom (host : Host) : Nat → Option Nat → State → Option State
  | _, none, s => some s
  | 0, some _, _ => none
  | fuel + 1, some p, s => do
    let c ← s.heap.cell p
    let s ← restartHandle host p c.val s
    driveRestartFrom host fuel c.next s

def driveRestart (host : Host) (s : State) : Option State :=
  driveRestartFrom host s.heap.fresh s.fhList s

/-- The calls on handles that were opened. -/
inductive Call
  | close (fh : Option Nat)
  | eject (fh : Option Nat)
  | driveStop
  | driveRestart (host : Host)

def step (s : State) : Call → Option State
  | .close fh => sysClose fh s
  | .eject fh => sysEject fh s
  | .driveStop => HandleList.driveStop s
  | .driveRestart host => HandleList.driveRestart host s

end BasiliskII.Sys.HandleList
