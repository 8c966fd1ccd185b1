import BasiliskII.Disk.Driver
import BasiliskII.Library.FreeNumber
import BasiliskII.Library.StepSystem

/-!
# The drive lists of the disk and CD-ROM drivers

How disk.cpp and cdrom.cpp open and use their drives, as far as the drive numbers and the drive
status records are concerned. A drive that has no status record has the address 0 for it; an
access through this address has no result. What the volumes of a drive are is given by the host.
-/
namespace BasiliskII.Drives

open ByteMemory Disk

inductive DriverKind
  | disk
  | cdrom
  deriving DecidableEq, Repr

/-- What the `Sys` calls and `find_hfs_partition` say about a file handle. -/
structure HostDisk where
  fixed : Bool
  inserted : Bool
  readOnly : Bool
  hasPartition : Bool
  numBlocks : BitVec 32

abbrev Host := Nat → HostDisk

/-- `disk_drive_info` and `cdrom_drive_info`; a file handle of 0 stands for `NULL`. -/
structure Drive where
  num : Nat
  fh : Nat
  numBlocks : BitVec 32
  toBeMounted : Bool
  readOnly : Bool
  mountNonHfs : Bool
  status : BitVec 32

def dsSides : BitVec 32 := 5
def dCtlFlags : BitVec 32 := 4

namespace Drive

def read (d : Drive) (mem : Memory 32) (ofs : BitVec 32) : Option (BitVec 8) :=
  if d.status = 0 then none else some (mem (d.status + ofs))

def write (d : Drive) (mem : Memory 32) (ofs : BitVec 32) (v : BitVec 8) : Option (Memory 32) :=
  if d.status = 0 then none else some (put mem (d.status + ofs) v)

def writeWord (d : Drive) (mem : Memory 32) (ofs : BitVec 32) (v : BitVec 16) :
    Option (Memory 32) :=
  if d.status = 0 then none else some (putWord mem (d.status + ofs) v)

end Drive

/-- Get pointer to drive info. -/
def getDriveInfo (drives : List Drive) (num : Nat) : Option Drive :=
  drives.find? fun d => d.num = num

/-! ### The drive queue -/

/-- An element of the drive queue of the Mac OS: its number, and the status record it is in. -/
structure QueueElement where
  number : BitVec 16
  status : BitVec 32
  deriving DecidableEq, Repr

/-- The element that `AddDrive` puts into the queue for a drive. -/
def Drive.queueElement (d : Drive) : QueueElement := ⟨BitVec.ofNat 16 d.num, d.status⟩

def isDriveNumberFree (queue : List QueueElement) (num : Nat) : Bool :=
  queue.all fun e => e.number.toNat ≠ num

/-- Find first free drive number, starting at 1; 0x10000 is the number of no element. -/
def findFreeDriveNumber (queue : List QueueElement) : Nat :=
  FreeNumber.search (isDriveNumberFree queue) 0xffff 1

/-! ### Open -/

/-- What `NewPtrSysClear` returns for a drive, and what it and `AddDrive` do to memory. -/
structure OpenTraps where
  address : BitVec 32
  cleared : Memory 32 → Memory 32
  queued : Memory 32 → Memory 32

/-- Set up the status record of a disk. -/
def setUpDisk (f : HostDisk) (d : Drive) (mem : Memory 32) : Option (Drive × Memory 32) := do
  let mem ← d.writeWord mem dsQType 1
  let mem ← d.write mem dsInstalled 1
  if f.fixed || f.inserted then
    let mem ← d.write mem dsDiskInPlace (if f.fixed then 8 else 1)
    let mem ← d.write mem dsWriteProt (if d.readOnly then 0x80 else 0)
    let mem ← d.writeWord mem dsDriveSize (f.numBlocks.truncate 16)
    let mem ← d.writeWord mem dsDriveS1 (f.numBlocks.extractLsb' 16 16)
    some ({ d with numBlocks := f.numBlocks, toBeMounted := true }, mem)
  else
    let mem ← d.writeWord mem dsDriveSize (d.numBlocks.truncate 16)
    let mem ← d.writeWord mem dsDriveS1 (d.numBlocks.extractLsb' 16 16)
    some (d, mem)

/-- Set up the status record of a CD-ROM. -/
def setUpCdrom (f : HostDisk) (d : Drive) (mem : Memory 32) : Option (Drive × Memory 32) := do
  let mem ← d.write mem dsWriteProt 0x80
  let mem ← d.write mem dsInstalled 1
  let mem ← d.write mem dsSides 1
  if f.inserted then
    let mem ← d.write mem dsDiskInPlace 1
    some ({ d with toBeMounted := true }, mem)
  else some (d, mem)

def setUp : DriverKind → HostDisk → Drive → Memory 32 → Option (Drive × Memory 32)
  | .disk => setUpDisk
  | .cdrom => setUpCdrom

/-- One turn of the loop in `DiskOpen` and `CDROMOpen`. -/
def openDrive (kind : DriverKind) (host : Host) (traps : OpenTraps) (queue : List QueueElement)
    (mem : Memory 32) (d : Drive) : Option (Drive × List QueueElement × Memory 32) :=
  let d := { d with num := findFreeDriveNumber queue, toBeMounted := false }
  if d.fh = 0 then some (d, queue, mem)
  else
    let d := { d with mountNonHfs := d.mountNonHfs || kind = .cdrom }
    let mem := traps.cleared mem
    -- The source goes on with the next drive, and this one stays in the list.
    if traps.address = 0 then some (d, queue, mem)
    else do
      let (d, mem) ← setUp kind (host d.fh) { d with status := traps.address } mem
      some (d, queue ++ [d.queueElement], traps.queued mem)

def openDrives (kind : DriverKind) (host : Host) (traps : Nat → OpenTraps) :
    Nat → List QueueElement → Memory 32 → List Drive →
      Option (List Drive × List QueueElement × Memory 32)
  | _, queue, mem, [] => some ([], queue, mem)
  | i, queue, mem, d :: rest => do
    let (d, queue, mem) ← openDrive kind host (traps i) queue mem d
    let (rest, queue, mem) ← openDrives kind host traps (i + 1) queue mem rest
    some (d :: rest, queue, mem)

structure DriverState where
  drives : List Drive
  queue : List QueueElement
  mem : Memory 32
  accRunCalled : Bool

/-- `DiskOpen` and `CDROMOpen`; the traps are numbered by the drive they are called for. -/
def driverOpen (kind : DriverKind) (host : Host) (traps : Nat → OpenTraps) (dce : BitVec 32)
    (st : DriverState) : Option DriverState := do
  let mem := putLong st.mem (dce + dCtlPosition) 0
  let (drives, queue, mem) ← openDrives kind host traps 0 st.queue mem st.drives
  some { drives := drives, queue := queue, mem := mem, accRunCalled := false }

/-! ### Volumes that are mounted later -/

/-- The work of `DiskMountVolume` on the drive of the handle. -/
def mountDisk (f : HostDisk) (d : Drive) (mem : Memory 32) : Option (Drive × Memory 32) :=
  if f.inserted then do
    let mem ← d.write mem dsDiskInPlace 1
    let mem ← d.write mem dsWriteProt (if f.readOnly then 0xff else 0)
    let mem ← d.writeWord mem dsDriveSize (f.numBlocks.truncate 16)
    let mem ← d.writeWord mem dsDriveS1 (f.numBlocks.extractLsb' 16 16)
    some ({ d with readOnly := f.readOnly, numBlocks := f.numBlocks, toBeMounted := true }, mem)
  else some (d, mem)

/-- The work of `CDROMMountVolume` on the drive of the handle. -/
def mountCdrom (f : HostDisk) (d : Drive) (mem : Memory 32) : Option (Drive × Memory 32) :=
  if f.inserted then do
    let mem ← d.write mem dsDiskInPlace 1
    some ({ d with toBeMounted := d.toBeMounted || f.hasPartition || d.mountNonHfs }, mem)
  else some (d, mem)

def mountDrive : DriverKind → HostDisk → Drive → Memory 32 → Option (Drive × Memory 32)
  | .disk => mountDisk
  | .cdrom => mountCdrom

/-- The search for the drive of the handle. -/
def mountFirst (kind : DriverKind) (host : Host) (fh : Nat) (mem : Memory 32) :
    List Drive → Option (Bool × List Drive × Memory 32)
  | [] => some (false, [], mem)
  | d :: rest =>
    if d.fh = fh then do
      let (d, mem) ← mountDrive kind (host fh) d mem
      some (true, d :: rest, mem)
    else do
      let (found, rest, mem) ← mountFirst kind host fh mem rest
      some (found, d :: rest, mem)

/-- `DiskMountVolume` and `CDROMMountVolume`, the parts of `MountVolume`. -/
def mountVolume (kind : DriverKind) (host : Host) (fh : Nat) (st : DriverState) :
    Option (Bool × DriverState) := do
  let (found, drives, mem) ← mountFirst kind host fh st.mem st.drives
  some (found, { st with drives := drives, mem := mem })

/-- Disk in drive? No, check if disk was inserted. -/
def checkInserted (kind : DriverKind) (host : Host) (d : Drive) (st : DriverState) :
    Option DriverState := do
  let inPlace ← d.read st.mem dsDiskInPlace
  -- `MountVolume` looks for the drive of the handle again.
  if inPlace = 0 && (host d.fh).inserted then (mountVolume kind host d.fh st).map (·.2)
  else some st

/-- Mount disk if flagged; `post` is what `PostEvent` does. -/
def mountFlagged (post : Nat → Memory 32 → Memory 32) (i : Nat) (st : DriverState) : DriverState :=
  match st.drives[i]? with
  | none => st
  | some d =>
    if d.toBeMounted then
      { st with
        drives := st.drives.set i { d with toBeMounted := false }
        mem := post d.num st.mem }
    else st

/-- One turn of the loop in `mount_mountable_volumes`. -/
def mountMountable (kind : DriverKind) (host : Host) (post : Nat → Memory 32 → Memory 32)
    (st : DriverState) (i : Nat) : Option DriverState :=
  match st.drives[i]? with
  | none => some st
  | some d => (checkInserted kind host d st).map (mountFlagged post i)

/-- Mount volumes for which the to_be_mounted flag is set. -/
def mountMountableVolumes (kind : DriverKind) (host : Host) (post : Nat → Memory 32 → Memory 32)
    (st : DriverState) : Option DriverState :=
  (List.range st.drives.length).foldlM (mountMountable kind host post) st

/-! ### Calls -/

inductive PrimeResult
  | nsDrvErr
  | offLinErr
  /-- The drive is valid and a disk is in it: the transfer follows. -/
  | transfer (d : Drive)

/-- `DiskPrime` and `CDROMPrime` up to the transfer, which uses no status record. -/
def prime (pb : BitVec 32) (st : DriverState) : Option (PrimeResult × DriverState) :=
  let mem := putLong st.mem (pb + ioActCount) 0
  let st := { st with mem := mem }
  match getDriveInfo st.drives (getWord mem (pb + ioVRefNum)).toNat with
  | none => some (.nsDrvErr, st)
  | some d => do
    let inPlace ← d.read mem dsDiskInPlace
    some (if inPlace = 0 then .offLinErr else .transfer d, st)

/-- `Control(65)`. -/
def accRun (kind : DriverKind) (host : Host) (post : Nat → Memory 32 → Memory 32) (dce : BitVec 32)
    (st : DriverState) : Option DriverState := do
  let st ← mountMountableVolumes kind host post st
  let flags := getWord st.mem (dce + dCtlFlags) &&& ~~~0x2000
  some { st with mem := putWord st.mem (dce + dCtlFlags) flags, accRunCalled := true }

/-- `DiskInterrupt` and `CDROMInterrupt`. -/
def interrupt (kind : DriverKind) (host : Host) (post : Nat → Memory 32 → Memory 32)
    (st : DriverState) : Option DriverState :=
  if st.accRunCalled then mountMountableVolumes kind host post st else some st

inductive DriverCall
  | prime (pb : BitVec 32) (transferred : Memory 32 → Memory 32)
  | accRun (host : Host) (post : Nat → Memory 32 → Memory 32) (dce : BitVec 32)
  | interrupt (host : Host) (post : Nat → Memory 32 → Memory 32)
  | mountVolume (host : Host) (fh : Nat)
  /-- The Mac runs. -/
  | mac (mem : Memory 32) (queue : List QueueElement)

def driverCall (kind : DriverKind) (st : DriverState) : DriverCall → Option DriverState
  | .prime pb transferred =>
    (prime pb st).map fun (_, st) => { st with mem := transferred st.mem }
  | .accRun host post dce => accRun kind host post dce st
  | .interrupt host post => interrupt kind host post st
  | .mountVolume host fh => (mountVolume kind host fh st).map (·.2)
  | .mac mem queue => some { st with mem := mem, queue := queue }

end BasiliskII.Drives
