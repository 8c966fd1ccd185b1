import BasiliskII.Disk.Driver
import BasiliskII.Library.StepSystem
import Mathlib.Algebra.Group.Int.Defs
import Mathlib.Algebra.Group.Nat.Defs

/-!
# Where the disk driver reads and writes

`DiskPrime` adds the position of a request to the start of the volume and
compares nothing with the size of the volume. An access is inside the volume
exactly if the request is. Requests that are turned down change nothing but the
count of the bytes that have been transferred.
-/
namespace BasiliskII.Disk

open ByteMemory StepSystem Sys

/-! ### Volumes -/

/-- The search for a volume has found it on some image. -/
def Volume.Found (v : Volume) : Prop := ∃ f grants, v = findVolume f grants

/-- Partitions start within 2^40 bytes of the start of the image. -/
def Volume.Near (v : Volume) : Prop := -2 ^ 40 ≤ v.startByte.toInt ∧ v.startByte.toInt < 2 ^ 40

theorem partitionOf_start (map : Block) :
    (partitionOf map).startByte.toInt = (blockLong map 8).toInt * 512 := by
  let start := blockLong map 8
  have extended : (start.signExtend 64).toInt = start.toInt :=
    BitVec.toInt_signExtend_of_le (by decide)
  have low := start.le_toInt
  have high := start.toInt_lt
  have product : (partitionOf map).startByte = start.signExtend 64 * 512 :=
    BitVec.shiftLeft_eq_mul_twoPow _ _
  rw [product, BitVec.toInt_mul, extended]
  exact Int.bmod_eq_of_le (by simp; omega) (by simp; omega)

theorem partitionOf_near (map : Block) : (partitionOf map).Near := by
  have low := (blockLong map 8).le_toInt
  have high := (blockLong map 8).toInt_lt
  rw [Volume.Near, partitionOf_start]
  omega

theorem searchPartition_near (f : FileHandle) (grants : Nat → Grant) (fuel i : Nat) :
    (searchPartition f grants fuel i).Near := by
  have empty : noVolume.Near := ⟨by decide, by decide⟩
  induction fuel generalizing i with
  | zero => exact empty
  | succ fuel ih =>
    simp only [searchPartition]
    split
    · exact empty
    · split
      · exact ih (i + 1)
      · split
        · exact partitionOf_near _
        · exact ih (i + 1)

theorem Volume.Found.near {v : Volume} (found : v.Found) : v.Near := by
  obtain ⟨f, grants, rfl⟩ := found
  have near := searchPartition_near f grants 64 0
  simp only [findVolume]
  split <;> exact near

/-! ### Accesses -/

/-- Every byte the access covers is a byte of the volume. -/
def InVolume (v : Volume) (a : Access) : Prop :=
  ∀ i : Nat, i < a.length.toNat → v.startByte.toInt ≤ a.offset.toInt + i ∧
    a.offset.toInt + i < v.startByte.toInt + 512 * v.numBlocks.toNat

/-- The request asks for nothing, or for blocks the volume has. -/
def RequestFits (v : Volume) (position : LOff) (length : Size) : Prop :=
  length = 0 ∨ 0 ≤ position.toInt ∧ position.toInt + length.toNat ≤ 512 * v.numBlocks.toNat

instance (v : Volume) (position : LOff) (length : Size) : Decidable (RequestFits v position length) :=
  inferInstanceAs (Decidable (_ ∨ _))

/-- A sum of a position and a near start that wraps around is nowhere near the volume. -/
theorem inVolume_iff {v : Volume} (near : v.Near) (position : LOff) (a : Access)
    (offset : a.offset = position + v.startByte) :
    InVolume v a ↔ RequestFits v position a.length := by
  obtain ⟨low, high⟩ := near
  have position_low := position.le_toInt
  have position_high := position.toInt_lt
  have offset_low := a.offset.le_toInt
  have offset_high := a.offset.toInt_lt
  have length_high := a.length.isLt
  have blocks_high := v.numBlocks.isLt
  have sum : a.offset.toInt = (position.toInt + v.startByte.toInt).bmod (2 ^ 64) := by
    rw [offset, BitVec.toInt_add]
  have wraps : a.offset.toInt = position.toInt + v.startByte.toInt ∨
      a.offset.toInt = position.toInt + v.startByte.toInt + 2 ^ 64 ∨
        a.offset.toInt = position.toInt + v.startByte.toInt - 2 ^ 64 := by
    rw [Int.bmod_def] at sum
    split at sum <;> omega
  unfold InVolume RequestFits
  constructor
  · intro inside
    by_cases empty : a.length = 0
    · exact .inl empty
    · right
      have some_byte : 0 < a.length.toNat :=
        Nat.pos_of_ne_zero fun zero => empty (BitVec.eq_of_toNat_eq zero)
      have first := inside 0 some_byte
      have last := inside (a.length.toNat - 1) (by omega)
      omega
  · rintro (empty | ⟨start, fits⟩) i below
    · rw [empty] at below
      exact absurd below (by simp)
    · omega

/-! ### Requests -/

/-- The request is turned down; the other errors are those of the host. -/
def OSErr.rejects : OSErr → Bool
  | .nsDrvErr | .offLinErr | .paramErr | .wPrErr => true
  | .noErr | .readErr | .writErr => false

/-- The memory as the request is looked at. -/
def clearedMemory (mem : Memory 32) (pb : BitVec 32) : Memory 32 := putLong mem (pb + ioActCount) 0

/-- The only access there is to a drive for a request. -/
structure Issues (st : DiskState) (pb dce : BitVec 32) (r : Primed) (info : DriveInfo)
    (v : Volume) : Prop where
  volume : info.volume = some v
  wholeBlocks : getLong (clearedMemory st.mem pb) (pb + ioReqCount) &&& 0x1ff = 0
  onBlock : requestPosition (clearedMemory st.mem pb) pb dce &&& 0x1ff = 0
  issued : ∃ write, r.issued = [⟨info.fh, write,
    requestPosition (clearedMemory st.mem pb) pb dce + v.startByte,
    getLong (clearedMemory st.mem pb) (pb + ioReqCount)⟩]

theorem diskPrime_cases {grant : Grant} {st : DiskState} {pb dce : BitVec 32} {r : Primed}
    (primed : diskPrime grant st pb dce = some r) :
    r.st.drives = st.drives ∧
      ((r.err.rejects = true ∧ r.issued = [] ∧
          r.st = { st with mem := clearedMemory st.mem pb }) ∨
        r.err.rejects = false ∧ ∃ info ∈ st.drives, ∃ v, Issues st pb dce r info v) := by
  simp only [diskPrime] at primed
  split at primed
  · cases primed
    exact ⟨rfl, .inl ⟨rfl, rfl, rfl⟩⟩
  next info found =>
    have member : info ∈ st.drives := List.mem_of_find?_eq_some found
    split at primed
    · cases primed
      exact ⟨rfl, .inl ⟨rfl, rfl, rfl⟩⟩
    · split at primed
      · cases primed
        exact ⟨rfl, .inl ⟨rfl, rfl, rfl⟩⟩
      next aligned =>
        simp only [Bool.or_eq_true, decide_eq_true_eq, not_or, ne_eq, not_not] at aligned
        obtain ⟨wholeBlocks, onBlock⟩ := aligned
        split at primed
        · cases primed
          exact ⟨rfl, .inl ⟨rfl, rfl, rfl⟩⟩
        · split at primed
          · cases primed
          next v volume =>
            split at primed
            · split at primed <;> cases primed <;>
                exact ⟨rfl, .inr ⟨rfl, info, member, v, volume, wholeBlocks, onBlock, _, rfl⟩⟩
            · split at primed <;> cases primed <;>
                exact ⟨rfl, .inr ⟨rfl, info, member, v, volume, wholeBlocks, onBlock, _, rfl⟩⟩

/-! ### Runs -/

/-- Where a volume has been set, it has been found on an image. -/
def VolumesFound (drives : List DriveInfo) : Prop :=
  ∀ info ∈ drives, ∀ v, info.volume = some v → v.Found

theorem found_of_volume {info info' : DriveInfo} {f : FileHandle} {grants : Nat → Grant}
    (found : ∀ v, info.volume = some v → v.Found)
    (kept : info'.volume = info.volume ∨ info'.volume = some (findVolume f grants)) :
    ∀ v, info'.volume = some v → v.Found := by
  intro v volume
  rcases kept with same | fresh
  · exact found v (same ▸ volume)
  · rw [fresh] at volume
    cases volume
    exact ⟨f, grants, rfl⟩

theorem openDrive_volume (toolbox : Toolbox) (grants : Nat → Grant) (files : Nat → FileHandle)
    (mem : Memory 32) (info : DriveInfo) :
    (openDrive toolbox grants files mem info).1.volume = info.volume ∨
      (openDrive toolbox grants files mem info).1.volume =
        some (findVolume (files info.fh) grants) := by
  simp only [openDrive]
  split
  · exact .inl rfl
  · split
    · exact .inr rfl
    · exact .inl rfl

theorem openDrives_volumesFound (toolbox : Toolbox) (grants : Nat → Grant)
    (files : Nat → FileHandle) (mem : Memory 32) {drives : List DriveInfo}
    (found : VolumesFound drives) :
    VolumesFound (openDrives toolbox grants files mem drives).1 := by
  induction drives generalizing mem with
  | nil => exact found
  | cons info drives ih =>
    simp only [openDrives]
    intro info' member v volume
    rcases List.mem_cons.mp member with rfl | later
    · exact found_of_volume (found info (List.mem_cons_self ..))
        (openDrive_volume toolbox grants files mem info) v volume
    · exact ih _ (fun info member => found info (List.mem_cons_of_mem _ member)) info' later v volume

theorem mountDrive_volume (grants : Nat → Grant) (f : FileHandle) (mem : Memory 32)
    (info : DriveInfo) : (mountDrive grants f mem info).1.volume = info.volume ∨
      (mountDrive grants f mem info).1.volume = some (findVolume f grants) := by
  simp only [mountDrive]
  split
  · exact .inr rfl
  · exact .inl rfl

theorem mountFirst_volumesFound {grants : Nat → Grant} {files : Nat → FileHandle} {fh : Nat}
    {mem : Memory 32} {drives : List DriveInfo} {mounted : List DriveInfo × Memory 32}
    (found : VolumesFound drives)
    (first : mountFirst grants files fh mem drives = some mounted) : VolumesFound mounted.1 := by
  induction drives generalizing mounted with
  | nil => cases first
  | cons info drives ih =>
    have rest_found : VolumesFound drives :=
      fun info member => found info (List.mem_cons_of_mem _ member)
    simp only [mountFirst] at first
    split at first
    · cases first
      intro info' member v volume
      rcases List.mem_cons.mp member with rfl | later
      · exact found_of_volume (found info (List.mem_cons_self ..))
          (mountDrive_volume grants (files fh) mem info) v volume
      · exact rest_found info' later v volume
    · obtain ⟨rest, searched, rfl⟩ := Option.map_eq_some_iff.mp first
      intro info' member v volume
      rcases List.mem_cons.mp member with rfl | later
      · exact found info' (List.mem_cons_self ..) v volume
      · exact ih rest_found searched info' later v volume

theorem step_volumesFound {st st' : DiskState} {step : DiskStep} (found : VolumesFound st.drives)
    (taken : diskStep st step = some st') : VolumesFound st'.drives := by
  cases step with
  | openDriver toolbox grants dce =>
    cases taken
    exact openDrives_volumesFound toolbox grants st.files _ found
  | mountVolume grants fh =>
    cases taken
    simp only [diskMountVolume]
    split
    · exact found
    next mounted => exact mountFirst_volumesFound found mounted
  | prime grant pb dce =>
    obtain ⟨r, primed, rfl⟩ := Option.map_eq_some_iff.mp taken
    rw [(diskPrime_cases primed).1]
    exact found
  | mac mem =>
    cases taken
    exact found
  | host files =>
    cases taken
    exact found

/-- The access a request makes of a volume, and when it stays inside. -/
structure AccessBounds (st : DiskState) (pb dce : BitVec 32) (a : Access) (v : Volume) : Prop where
  wholeBlocks : a.length &&& 0x1ff = 0
  onBlock : requestPosition (clearedMemory st.mem pb) pb dce &&& 0x1ff = 0
  length : a.length = getLong (clearedMemory st.mem pb) (pb + ioReqCount)
  offset : a.offset = requestPosition (clearedMemory st.mem pb) pb dce + v.startByte
  inVolume : InVolume v a ↔ RequestFits v (requestPosition (clearedMemory st.mem pb) pb dce) a.length

/-- A request that is turned down has stored an `ioActCount` of 0 and done nothing else. -/
structure LeavesAlone (st : DiskState) (pb dce : BitVec 32) (r : Primed) : Prop where
  issued : r.issued = []
  files : r.st.files = st.files
  actCount : getLong r.st.mem (pb + ioActCount) = 0
  position : Apart (pb + ioActCount) 4 (dce + dCtlPosition) 4 →
    getLong r.st.mem (dce + dCtlPosition) = getLong st.mem (dce + dCtlPosition)
  elsewhere : ∀ b k, Apart (pb + ioActCount) 4 b k → SameBytes st.mem r.st.mem b k

/-- In every state the driver gets into, `DiskPrime` makes the access that the request asks for,
which is inside the volume exactly if the request is, and a request that is turned down leaves
everything but `ioActCount` alone. -/
theorem diskPrime_accesses {start st : DiskState} (fresh : ∀ info ∈ start.drives, info.volume = none)
    (reached : Reachable diskStep Free start st) {grant : Grant} {pb dce : BitVec 32} {r : Primed}
    (primed : diskPrime grant st pb dce = some r) :
    (∀ a ∈ r.issued, ∃ info ∈ st.drives, ∃ v, info.volume = some v ∧ a.fh = info.fh ∧
      AccessBounds st pb dce a v) ∧
    (r.err.rejects = true → LeavesAlone st pb dce r) := by
  have found : VolumesFound st.drives := by
    refine reached.invariant (P := fun st => VolumesFound st.drives) ?_
      fun _ _ _ found _ taken => step_volumesFound found taken
    intro info member v volume
    rw [fresh info member] at volume
    cases volume
  obtain ⟨_, ⟨rejected, none, after⟩ | ⟨accepted, info, member, v, issues⟩⟩ := diskPrime_cases primed
  · constructor
    · intro a member
      rw [none] at member
      cases member
    · intro _
      refine ⟨none, by rw [after], ?_, fun apart => ?_, fun b k apart => ?_⟩
      · rw [after]
        exact getLong_putLong (by decide) _ _ _
      · rw [after]
        exact getLong_congr (putLong_sameBytes _ _ apart)
      · rw [after]
        exact putLong_sameBytes _ _ apart
  · constructor
    · intro a listed
      obtain ⟨write, issued⟩ := issues.issued
      rw [issued] at listed
      rw [List.mem_singleton.mp listed]
      refine ⟨info, member, v, issues.volume, rfl, issues.wholeBlocks, issues.onBlock, rfl, rfl, ?_⟩
      exact inVolume_iff (found info member v issues.volume).near _ _ rfl
    · intro rejected
      rw [accepted] at rejected
      cases rejected

/-- An image of eight blocks with a partition of four, from its third block on. -/
def partitionedImage : FileHandle where
  isOpen := true
  isFile := true
  isFloppy := false
  isCdrom := false
  readOnly := false
  startByte := 0
  fileSize := 8 * 512
  host :=
    { content := fun i =>
        if i = 0 then 0x50 else if i = 1 then 0x4d else if i = 11 then 2 else if i = 15 then 4
        else if 48 ≤ i then appleHfs.getD (i - 48) 0 else 0
      size := 8 * 512 }

def oneDrive : DiskState where
  drives := [⟨0, 0, none, false, false, 0⟩]
  files := fun _ => partitionedImage
  mem := fun _ => 0

/-- A Mac whose first drive gets its status record at 0x1000. -/
def plainToolbox : Toolbox := ⟨fun _ => 1, fun mem => (0x1000, mem), fun mem _ => mem⟩

/-- The parameter block at 0x2000 and the DCE at 0x3000 ask to read a block at the position. -/
def readRequest (position : BitVec 32) (mem : Memory 32) : Memory 32 :=
  let mem := putWord mem (0x2000 + ioTrap) 0xa002
  let mem := putWord mem (0x2000 + ioVRefNum) 1
  let mem := putLong mem (0x2000 + ioBuffer) 0x4000
  let mem := putLong mem (0x2000 + ioReqCount) 512
  putLong mem (0x3000 + dCtlPosition) position

def openedDrive : DiskState := diskOpen plainToolbox (fun _ => some 512) oneDrive 0x3000

/-- The state in which the Mac makes the request. -/
def requested (position : BitVec 32) : DiskState :=
  { openedDrive with mem := readRequest position openedDrive.mem }

theorem requested_reachable (position : BitVec 32) :
    Reachable diskStep Free oneDrive (requested position) :=
  ⟨[.openDriver plainToolbox (fun _ => some 512) 0x3000,
    .mac (readRequest position openedDrive.mem)], run_of_exec rfl⟩

theorem oneDrive_fresh : ∀ info ∈ oneDrive.drives, info.volume = none := by
  intro info member
  rw [List.mem_singleton.mp member]

/-- The first block of the partition is read. -/
theorem first_block_accessed : ∃ r, diskPrime (some 512) (requested 0) 0x2000 0x3000 = some r ∧
    ∀ a ∈ r.issued, ∃ info ∈ (requested 0).drives, ∃ v, info.volume = some v ∧ a.fh = info.fh ∧
      AccessBounds (requested 0) 0x2000 0x3000 a v := by
  have answered : (diskPrime (some 512) (requested 0) 0x2000 0x3000).isSome = true := by
    decide +kernel
  obtain ⟨r, primed⟩ := Option.isSome_iff_exists.mp answered
  exact ⟨r, primed, (diskPrime_accesses oneDrive_fresh (requested_reachable 0) primed).1⟩

/-- The block behind the partition is read as well. -/
theorem block_behind_read :
    ¬ ∀ start st : DiskState, (∀ info ∈ start.drives, info.volume = none) →
      Reachable diskStep Free start st → ∀ grant pb dce r, diskPrime grant st pb dce = some r →
        ∀ a ∈ r.issued, ∃ info ∈ st.drives, ∃ v, info.volume = some v ∧ a.fh = info.fh ∧
          InVolume v a := by
  intro all
  have answered : (diskPrime (some 512) (requested 2048) 0x2000 0x3000).map Primed.issued =
      some [⟨0, false, 3072, 512⟩] := by
    decide +kernel
  obtain ⟨r, primed, issued⟩ := Option.map_eq_some_iff.mp answered
  obtain ⟨info, member, v, volume, _, inside⟩ :=
    all oneDrive _ oneDrive_fresh (requested_reachable 2048) _ _ _ r primed ⟨0, false, 3072, 512⟩
      (by rw [issued]; exact List.mem_singleton_self _)
  have volumes : (requested 2048).drives.map DriveInfo.volume = [some ⟨1024, 4⟩] := by
    decide +kernel
  have found : info.volume ∈ (requested 2048).drives.map DriveInfo.volume :=
    List.mem_map_of_mem member
  rw [volumes, volume, List.mem_singleton] at found
  cases found
  have behind := (inside 0 (by decide)).2
  exact absurd behind (by decide)

end BasiliskII.Disk
