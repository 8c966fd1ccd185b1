import BasiliskII.Library.ByteMemory
import BasiliskII.Sys.FileHandle

/-!
# The disk driver

`find_hfs_partition`, `DiskOpen`, `DiskMountVolume` and `DiskPrime` of
disk.cpp. A volume is the HFS partition of an image or the whole image. What
the Mac OS does when the driver calls it is given from outside.
-/
namespace BasiliskII.Disk

open ByteMemory Sys

/-! ### Volumes -/

/-- `start_byte` and `num_blocks`. -/
structure Volume where
  startByte : LOff
  numBlocks : BitVec 32
  deriving DecidableEq, Repr

abbrev Block := List (BitVec 8)

/-- Four bytes as the `int` they make up. -/
def blockLong (map : Block) (i : Nat) : BitVec 32 :=
  map.getD i 0 ++ map.getD (i + 1) 0 ++ map.getD (i + 2) 0 ++ map.getD (i + 3) 0

/-- The bytes of "Apple_HFS", with the zero at its end. -/
def appleHfs : Block := [0x41, 0x70, 0x70, 0x6c, 0x65, 0x5f, 0x48, 0x46, 0x53, 0]

def isPartitionMap (map : Block) : Bool := map.getD 0 0 ++ map.getD 1 0 = (0x504d : BitVec 16)

def isAppleHfs (map : Block) : Bool := (map.drop 48).take 10 = appleHfs

/-- The partition a block of the map describes; its start is an `int` that is extended. -/
def partitionOf (map : Block) : Volume :=
  ⟨(blockLong map 8).signExtend 64 <<< 9, blockLong map 12⟩

def noVolume : Volume := ⟨0, 0⟩

/-- The search through the blocks that can be read, from block `i` on. -/
def searchPartition (f : FileHandle) (grants : Nat → Grant) : Nat → Nat → Volume
  | 0, _ => noVolume
  | fuel + 1, i =>
    let (actual, map) := sysRead f (grants i) (BitVec.ofNat 64 (i * 512)) 512
    if actual ≠ 512 then noVolume
    else if !isPartitionMap map then searchPartition f grants fuel (i + 1)
    else if isAppleHfs map then partitionOf map
    else searchPartition f grants fuel (i + 1)

/-- Search first 64 blocks for HFS partition. -/
def findHfsPartition (f : FileHandle) (grants : Nat → Grant) : Volume :=
  searchPartition f grants 64 0

/-- The partition, or the whole image if there is none. -/
def findVolume (f : FileHandle) (grants : Nat → Grant) : Volume :=
  let v := findHfsPartition f grants
  if v.startByte = 0 then { v with numBlocks := ((sysGetFileSize f).sdiv 512).truncate 32 } else v

/-! ### Drives -/

/-- `disk_drive_info`. No volume has been looked for where `volume` is `none`, and `start_byte` and
`num_blocks` have never been set. -/
structure DriveInfo where
  num : BitVec 32
  fh : Nat
  volume : Option Volume
  toBeMounted : Bool
  readOnly : Bool
  status : BitVec 32

structure DiskState where
  drives : List DriveInfo
  files : Nat → FileHandle
  mem : Memory 32

def ioTrap : BitVec 32 := 6
def ioVRefNum : BitVec 32 := 22
def ioBuffer : BitVec 32 := 32
def ioReqCount : BitVec 32 := 36
def ioActCount : BitVec 32 := 40
def ioPosMode : BitVec 32 := 44
def ioWPosOffset : BitVec 32 := 46
def dCtlPosition : BitVec 32 := 16
def dsWriteProt : BitVec 32 := 2
def dsDiskInPlace : BitVec 32 := 3
def dsInstalled : BitVec 32 := 4
def dsQType : BitVec 32 := 10
def dsDriveSize : BitVec 32 := 18
def dsDriveS1 : BitVec 32 := 20

/-- What the Mac OS does for the driver: `FindFreeDriveNumber` reads its drive queue, and
`NewPtrSysClear` and `AddDrive` are called as traps. -/
structure Toolbox where
  freeDriveNumber : Memory 32 → BitVec 32
  newPtrSysClear : Memory 32 → BitVec 32 × Memory 32
  addDrive : Memory 32 → DriveInfo → Memory 32

/-- The size of the volume in a drive status record. -/
def putDriveSize (mem : Memory 32) (status numBlocks : BitVec 32) : Memory 32 :=
  let mem := putWord mem (status + dsDriveSize) (numBlocks.truncate 16)
  putWord mem (status + dsDriveS1) (numBlocks.extractLsb' 16 16)

/-- One turn of the loop in `DiskOpen`. -/
def openDrive (toolbox : Toolbox) (grants : Nat → Grant) (files : Nat → FileHandle)
    (mem : Memory 32) (info : DriveInfo) : DriveInfo × Memory 32 :=
  let f := files info.fh
  let info := { info with num := toolbox.freeDriveNumber mem, toBeMounted := false }
  let (status, mem) := toolbox.newPtrSysClear mem
  if status = 0 then (info, mem)
  else
    let info := { info with status := status }
    let mem := put (putWord mem (status + dsQType) 1) (status + dsInstalled) 1
    if sysIsFixedDisk f || sysIsDiskInserted f then
      let mem := put mem (status + dsDiskInPlace) (if sysIsFixedDisk f then 8 else 1)
      let mem := put mem (status + dsWriteProt) (if info.readOnly then 0x80 else 0)
      let v := findVolume f grants
      let info := { info with volume := some v, toBeMounted := true }
      (info, toolbox.addDrive (putDriveSize mem status v.numBlocks) info)
    else
      -- no disk: the size is whatever it was
      let numBlocks := (info.volume.getD noVolume).numBlocks
      (info, toolbox.addDrive (putDriveSize mem status numBlocks) info)

def openDrives (toolbox : Toolbox) (grants : Nat → Grant) (files : Nat → FileHandle) :
    Memory 32 → List DriveInfo → List DriveInfo × Memory 32
  | mem, [] => ([], mem)
  | mem, info :: rest =>
    let (info, mem) := openDrive toolbox grants files mem info
    let (rest, mem) := openDrives toolbox grants files mem rest
    (info :: rest, mem)

def diskOpen (toolbox : Toolbox) (grants : Nat → Grant) (st : DiskState) (dce : BitVec 32) :
    DiskState :=
  let mem := putLong st.mem (dce + dCtlPosition) 0
  let (drives, mem) := openDrives toolbox grants st.files mem st.drives
  { st with drives := drives, mem := mem }

/-- The work of `DiskMountVolume` on the drive of the handle. -/
def mountDrive (grants : Nat → Grant) (f : FileHandle) (mem : Memory 32) (info : DriveInfo) :
    DriveInfo × Memory 32 :=
  if sysIsDiskInserted f then
    let mem := put mem (info.status + dsDiskInPlace) 1  -- inserted removable disk
    let mem := put mem (info.status + dsWriteProt) (if f.readOnly then 0xff else 0)
    let v := findVolume f grants
    ({ info with readOnly := f.readOnly, volume := some v, toBeMounted := true },
      putDriveSize mem info.status v.numBlocks)
  else (info, mem)

/-- The search for the drive in `DiskMountVolume`. -/
def mountFirst (grants : Nat → Grant) (files : Nat → FileHandle) (fh : Nat) (mem : Memory 32) :
    List DriveInfo → Option (List DriveInfo × Memory 32)
  | [] => none
  | info :: rest =>
    if info.fh = fh then
      let (info, mem) := mountDrive grants (files fh) mem info
      some (info :: rest, mem)
    else (mountFirst grants files fh mem rest).map fun (rest, mem) => (info :: rest, mem)

def diskMountVolume (grants : Nat → Grant) (st : DiskState) (fh : Nat) : Bool × DiskState :=
  match mountFirst grants st.files fh st.mem st.drives with
  | none => (false, st)
  | some (drives, mem) => (true, { st with drives := drives, mem := mem })

/-! ### Prime -/

inductive OSErr where
  | noErr
  | nsDrvErr
  | offLinErr
  | paramErr
  | readErr
  | writErr
  | wPrErr
  deriving DecidableEq, Repr

/-- A call of `Sys_read` or `Sys_write`. -/
structure Access where
  fh : Nat
  write : Bool
  offset : LOff
  length : Size
  deriving DecidableEq, Repr

structure Primed where
  err : OSErr
  st : DiskState
  issued : List Access

def getDriveInfo (drives : List DriveInfo) (num : BitVec 32) : Option DriveInfo :=
  drives.find? fun info => info.num = num

/-- The position a request asks for: that of the DCE, or a 64-bit one. -/
def requestPosition (mem : Memory 32) (pb dce : BitVec 32) : LOff :=
  if getWord mem (pb + ioPosMode) &&& 0x100 ≠ 0 then
    getLong mem (pb + ioWPosOffset) ++ getLong mem (pb + ioWPosOffset + 4)
  else (getLong mem (dce + dCtlPosition)).zeroExtend 64

/-- Bytes that a host call has stored at an address. -/
def putBytes (mem : Memory 32) (a : BitVec 32) (bytes : List (BitVec 8)) : Memory 32 :=
  fun x => bytes.getD (x - a).toNat (mem x)

/-- Update ParamBlock and DCE. -/
def updateBlocks (mem : Memory 32) (pb dce : BitVec 32) (actual : Size) : Memory 32 :=
  let mem := putLong mem (pb + ioActCount) actual
  putLong mem (dce + dCtlPosition) (getLong mem (dce + dCtlPosition) + actual)

/-- `DiskPrime`; `none` when the volume of the drive has never been looked for. -/
def diskPrime (grant : Grant) (st : DiskState) (pb dce : BitVec 32) : Option Primed :=
  let mem := putLong st.mem (pb + ioActCount) 0
  let st := { st with mem := mem }
  match getDriveInfo st.drives ((getWord mem (pb + ioVRefNum)).zeroExtend 32) with
  | none => some ⟨.nsDrvErr, st, []⟩
  | some info =>
    if mem (info.status + dsDiskInPlace) = 0 then some ⟨.offLinErr, st, []⟩
    else
      let buffer := getLong mem (pb + ioBuffer)
      let length := getLong mem (pb + ioReqCount)
      let position := requestPosition mem pb dce
      if length &&& 0x1ff ≠ 0 || position &&& 0x1ff ≠ 0 then some ⟨.paramErr, st, []⟩
      else
        let isRead := getWord mem (pb + ioTrap) &&& 0xff = 2  -- aRdCmd
        if ¬ isRead ∧ info.readOnly then some ⟨.wPrErr, st, []⟩
        else
          match info.volume with
          | none => none
          | some v =>
            let offset := position + v.startByte
            if isRead then
              let (actual, bytes) := sysRead (st.files info.fh) grant offset length
              let mem := putBytes mem buffer bytes
              let issued := [⟨info.fh, false, offset, length⟩]
              if actual ≠ length then some ⟨.readErr, { st with mem := mem }, issued⟩
              else some ⟨.noErr, { st with mem := updateBlocks mem pb dce actual }, issued⟩
            else
              let (actual, f) := sysWrite (st.files info.fh) grant offset length fun i =>
                mem (buffer + BitVec.ofNat 32 i)
              let st := { st with files := fun fh => if fh = info.fh then f else st.files fh }
              let issued := [⟨info.fh, true, offset, length⟩]
              if actual ≠ length then some ⟨.writErr, st, issued⟩
              else some ⟨.noErr, { st with mem := updateBlocks mem pb dce actual }, issued⟩

/-! ### Runs -/

inductive DiskStep where
  | openDriver (toolbox : Toolbox) (grants : Nat → Grant) (dce : BitVec 32)
  | mountVolume (grants : Nat → Grant) (fh : Nat)
  | prime (grant : Grant) (pb dce : BitVec 32)
  | mac (mem : Memory 32)
  | host (files : Nat → FileHandle)

/-- The driver's routines, with the Mac writing its memory and the host changing its files in
between. -/
def diskStep (st : DiskState) : DiskStep → Option DiskState
  | .openDriver toolbox grants dce => some (diskOpen toolbox grants st dce)
  | .mountVolume grants fh => some (diskMountVolume grants st fh).2
  | .prime grant pb dce => (diskPrime grant st pb dce).map Primed.st
  | .mac mem => some { st with mem := mem }
  | .host files => some { st with files := files }

end BasiliskII.Disk
