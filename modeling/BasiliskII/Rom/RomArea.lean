import BasiliskII.Library.WriteLog
import BasiliskII.Rom.SlotRom
import BasiliskII.Sys.FileHandle

/-!
# The ROM area

How the ROM file is loaded (main_psp.cpp), where `InstallSlotROM` copies the
declaration ROM and what `ChecksumSlotROM` writes (slot_rom.cpp). Addresses are
counted from `ROMBaseHost`.
-/
namespace BasiliskII.Rom

open ByteBuilder Sys Video WriteLog

/-- The bytes allocated for the ROM. -/
def romAreaSize : Nat := 0x100000

structure LoadedRom where
  romSize : BitVec 32
  slotRomSize : Nat
  area : Area

inductive LoadError
  | romSize | romFileRead
  deriving DecidableEq, Repr

/-- `ROMSize`, which becomes the size of the file. -/
def romSizeOf (file : HostFile) : BitVec 32 := BitVec.ofNat 32 file.size

/-- `rom_start`: any odd number of bytes to 64K should be just a header. -/
def romStart (romSize : BitVec 32) : BitVec 32 := romSize &&& 65535

/-- How much of the file is loaded. -/
def imageSize (file : HostFile) : BitVec 32 := romSizeOf file - romStart (romSizeOf file)

def sizeCheck (file : HostFile) : Bool :=
  imageSize file ∈ [64 * 1024, 128 * 1024, 256 * 1024, 512 * 1024, (1024 * 1024 : BitVec 32)]

/-- The bytes of a file from a position on, as many as the host transfers. -/
def hostRead (file : HostFile) (grant : Grant) (position length : Nat) : Option (List (BitVec 8)) :=
  grant.map fun most => slice file.content position (min most (min length (file.size - position)))

/-- Load Mac ROM. -/
def loadRom (file : HostFile) (grant : Grant) (memory : Nat → BitVec 8) :
    Except LoadError LoadedRom :=
  let length := (imageSize file).toNat
  if !sizeCheck file then .error .romSize
  else
    match hostRead file grant (romStart (romSizeOf file)).toNat length with
    | none => .error .romFileRead
    | some image =>
      if image.length ≠ length then .error .romFileRead
      else .ok ⟨romSizeOf file, 0, (Area.fresh memory).store 0 image⟩

/-- One round of the loop in `ChecksumSlotROM`. -/
def crcStep (crc : BitVec 32) (byte : BitVec 8) : BitVec 32 :=
  (crc <<< 1 ||| crc >>> 31) + byte.setWidth 32

/-- `ROMBaseHost + ROMSize - slot_rom_size`. -/
def LoadedRom.slotRomBase (rom : LoadedRom) : Nat := rom.romSize.toNat - rom.slotRomSize

/-- `ChecksumSlotROM`. -/
def checksumSlotRom (rom : LoadedRom) : LoadedRom :=
  let field := rom.slotRomBase + rom.slotRomSize - 12
  let cleared := rom.area.store field [0, 0, 0, 0]
  let crc := (slice cleared.bytes rom.slotRomBase rom.slotRomSize).foldl crcStep 0
  { rom with area := cleared.store field (longBytes crc) }

/-- Copy slot ROM to Mac ROM. -/
def copySlotRom (srom : List (BitVec 8)) (rom : LoadedRom) : LoadedRom :=
  let sized := { rom with slotRomSize := srom.length }
  { sized with area := sized.area.store sized.slotRomBase srom }

/-- `InstallSlotROM`. -/
def installSlotRom (date : BuildDate) (videoMonitors : List MonitorDesc) (rom : LoadedRom) :
    LoadedRom :=
  checksumSlotRom (copySlotRom (slotRom date videoMonitors) rom)

/-- The single bytes `switch_mode` (video.cpp) puts into the ROM where the Slot Manager of the Mac
finds the frame buffer base and the mode parameters. -/
abbrev Changes := List (Nat × BitVec 8)

def applyChanges (changes : Changes) (bytes : Nat → BitVec 8) : Nat → BitVec 8 :=
  changes.foldl (fun bytes change i => if i = change.1 then change.2 else bytes i) bytes

/-- A switch of the video mode: some changes, and then the checksum again. -/
def switchMode (rom : LoadedRom) (changes : Changes) : LoadedRom :=
  checksumSlotRom { rom with area := { rom.area with bytes := applyChanges changes rom.area.bytes } }

def afterSwitches (rom : LoadedRom) (switches : List Changes) : LoadedRom :=
  switches.foldl switchMode rom

end BasiliskII.Rom

/-!
## The Slot Manager finds the declaration ROM

The Slot Manager looks for a declaration ROM in the last bytes of the ROM image
and compares its CRC with a checksum of these bytes. `ROMSize` is the size of
the ROM file, its header included, while the image in memory has no header, so
everything is in its place exactly when the file has no header.
-/
namespace BasiliskII.Rom

open ByteBuilder Sys Video WriteLog

/-- The addresses of the CRC in a declaration ROM of `size` bytes at `base`. -/
def InCrc (base size i : Nat) : Prop := base + size - 12 ≤ i ∧ i < base + size - 8

instance (base size i : Nat) : Decidable (InCrc base size i) := inferInstanceAs (Decidable (_ ∧ _))

/-- The checksum of the Slot Manager: rotate left, and add the next byte. -/
def slotManagerSum (data : List (BitVec 8)) : BitVec 32 :=
  data.foldl (fun sum byte => sum.rotateLeft 1 + byte.setWidth 32) 0

/-- A declaration ROM with its CRC taken as zero. -/
def withoutCrc (bytes : Nat → BitVec 8) (base size : Nat) : List (BitVec 8) :=
  slice (fun i => if InCrc base size i then 0 else bytes i) base size

def storedCrc (bytes : Nat → BitVec 8) (base size : Nat) : BitVec 32 :=
  joinLong (bytes (base + size - 12)) (bytes (base + size - 12 + 1)) (bytes (base + size - 12 + 2))
    (bytes (base + size - 12 + 3))

/-- The addresses some mode switches changed. -/
def changedBy (switches : List Changes) : List Nat := switches.flatMap (·.map (·.1))

/-- The ROM area is as the Slot Manager needs it: `srom` was copied to the last bytes of an image
of `image` bytes and is still there, but for its CRC and the `changed` bytes. -/
structure Consistent (image : Nat) (srom : List (BitVec 8)) (changed : List Nat) (rom : LoadedRom) :
    Prop where
  inside : Within romAreaSize rom.area
  copied : (image - srom.length, srom.length) ∈ rom.area.written
  occupies : ∀ i < srom.length, ¬ InCrc (image - srom.length) srom.length (image - srom.length + i) →
    image - srom.length + i ∉ changed →
      rom.area.bytes (image - srom.length + i) = srom.getD i 0
  crc : storedCrc rom.area.bytes (image - srom.length) srom.length =
    slotManagerSum (withoutCrc rom.area.bytes (image - srom.length) srom.length)

-- The checksum.

variable {rom : LoadedRom}

theorem checksumSlotRom_bytes {i : Nat} (large : 12 ≤ rom.slotRomSize)
    (other : ¬ InCrc rom.slotRomBase rom.slotRomSize i) :
    (checksumSlotRom rom).area.bytes i = rom.area.bytes i := by
  unfold InCrc at other
  unfold checksumSlotRom
  rw [store_outside _ (by simp only [longBytes, List.length_cons, List.length_nil]; omega),
    store_outside _ (by simp only [List.length_cons, List.length_nil]; omega)]

theorem checksumSlotRom_written (rom : LoadedRom) (w : Nat × Nat) :
    w ∈ (checksumSlotRom rom).area.written ↔
      w ∈ rom.area.written ∨ w = (rom.slotRomBase + rom.slotRomSize - 12, 4) := by
  unfold checksumSlotRom
  rw [mem_written_store, mem_written_store]
  simp [longBytes]

theorem copySlotRom_written (srom : List (BitVec 8)) (rom : LoadedRom) :
    (rom.romSize.toNat - srom.length, srom.length) ∈
      (checksumSlotRom (copySlotRom srom rom)).area.written :=
  (checksumSlotRom_written _ _).mpr (.inl ((mem_written_store _ _ _ _).mpr (.inr rfl)))

theorem checksumSlotRom_within {limit : Nat} (within : Within limit rom.area)
    (large : 12 ≤ rom.slotRomSize) (fits : rom.slotRomBase + rom.slotRomSize ≤ limit) :
    Within limit (checksumSlotRom rom).area := by
  have field : rom.slotRomBase + rom.slotRomSize - 12 + 4 ≤ limit := by omega
  exact (within.store field).store field

theorem checksumSlotRom_crc (large : 12 ≤ rom.slotRomSize) :
    storedCrc (checksumSlotRom rom).area.bytes rom.slotRomBase rom.slotRomSize =
      slotManagerSum
        (withoutCrc (checksumSlotRom rom).area.bytes rom.slotRomBase rom.slotRomSize) := by
  let field := rom.slotRomBase + rom.slotRomSize - 12
  let cleared := rom.area.store field [0, 0, 0, 0]
  let crc := slotManagerSum (slice cleared.bytes rom.slotRomBase rom.slotRomSize)
  have final : (checksumSlotRom rom).area = cleared.store field (longBytes crc) := rfl
  have zeros : ∀ k < 4, ([0, 0, 0, 0] : List (BitVec 8)).getD k 0 = 0 := by decide
  -- What was summed up is what is read with the CRC taken as zero.
  have summed : withoutCrc (checksumSlotRom rom).area.bytes rom.slotRomBase rom.slotRomSize =
      slice cleared.bytes rom.slotRomBase rom.slotRomSize := by
    apply slice_congr
    intro i inside
    split
    next inCrc =>
      obtain ⟨k, place, small⟩ : ∃ k, rom.slotRomBase + i = field + k ∧ k < 4 := by
        unfold InCrc at inCrc
        exact ⟨rom.slotRomBase + i - field, by omega, by omega⟩
      rw [place, store_inside _ _ _ small]
      exact (zeros k small).symm
    next other =>
      rw [final]
      have outside : rom.slotRomBase + i < field ∨
          field + (longBytes crc).length ≤ rom.slotRomBase + i := by
        unfold InCrc at other
        simp only [longBytes, List.length_cons, List.length_nil]
        omega
      exact store_outside _ outside
  have byte (k : Nat) (small : k < 4) : (checksumSlotRom rom).area.bytes (field + k) =
      (longBytes crc).getD k 0 := by
    rw [final]
    exact store_inside _ _ _ small
  calc storedCrc (checksumSlotRom rom).area.bytes rom.slotRomBase rom.slotRomSize
      = joinLong ((longBytes crc).getD 0 0) ((longBytes crc).getD 1 0)
          ((longBytes crc).getD 2 0) ((longBytes crc).getD 3 0) := by
        rw [← byte 0 (by decide), ← byte 1 (by decide), ← byte 2 (by decide), ← byte 3 (by decide)]
        rfl
    _ = crc := joinLong_longBytes crc
    _ = slotManagerSum
        (withoutCrc (checksumSlotRom rom).area.bytes rom.slotRomBase rom.slotRomSize) := by
        rw [summed]

-- Installing and switching modes keep the area consistent.

/-- Everything but the CRC, before `ChecksumSlotROM` is called. -/
structure Prepared (image : Nat) (srom : List (BitVec 8)) (changed : List Nat) (rom : LoadedRom) :
    Prop where
  place : rom.slotRomBase = image - srom.length
  size : rom.slotRomSize = srom.length
  inside : Within romAreaSize rom.area
  copied : (image - srom.length, srom.length) ∈ rom.area.written
  occupies : ∀ i < srom.length, ¬ InCrc (image - srom.length) srom.length (image - srom.length + i) →
    image - srom.length + i ∉ changed →
      rom.area.bytes (image - srom.length + i) = srom.getD i 0

variable {srom : List (BitVec 8)}

theorem Prepared.checksumSlotRom {image : Nat} {changed : List Nat}
    (prepared : Prepared image srom changed rom) (large : 12 ≤ srom.length)
    (contains : srom.length ≤ image) (fits : image ≤ romAreaSize) :
    Prepared image srom changed (checksumSlotRom rom) ∧
      Consistent image srom changed (checksumSlotRom rom) := by
  have large' : 12 ≤ rom.slotRomSize := prepared.size ▸ large
  have inside : Within romAreaSize (Rom.checksumSlotRom rom).area := by
    apply checksumSlotRom_within prepared.inside large'
    rw [prepared.place, prepared.size]
    omega
  have copied : (image - srom.length, srom.length) ∈ (Rom.checksumSlotRom rom).area.written :=
    (checksumSlotRom_written rom _).mpr (.inl prepared.copied)
  have occupies : ∀ i < srom.length,
      ¬ InCrc (image - srom.length) srom.length (image - srom.length + i) →
        image - srom.length + i ∉ changed →
          (Rom.checksumSlotRom rom).area.bytes (image - srom.length + i) = srom.getD i 0 := by
    intro i below other unchanged
    rw [← prepared.occupies i below other unchanged]
    apply checksumSlotRom_bytes large'
    rwa [prepared.place, prepared.size]
  have crc := checksumSlotRom_crc large'
  rw [prepared.place, prepared.size] at crc
  exact ⟨⟨prepared.place, prepared.size, inside, copied, occupies⟩,
    ⟨inside, copied, occupies, crc⟩⟩

theorem applyChanges_other {changes : Changes} {i : Nat} (unchanged : i ∉ changes.map (·.1)) :
    ∀ bytes, applyChanges changes bytes i = bytes i := by
  induction changes with
  | nil => exact fun _ => rfl
  | cons change changes ih =>
    intro bytes
    rw [List.map_cons, List.mem_cons, not_or] at unchanged
    obtain ⟨different, rest⟩ := unchanged
    have tail := ih rest fun i => if i = change.1 then change.2 else bytes i
    rw [if_neg different] at tail
    exact tail

theorem Prepared.change {image : Nat} {changed : List Nat}
    (prepared : Prepared image srom changed rom) (changes : Changes) :
    Prepared image srom (changed ++ changes.map (·.1))
      { rom with area := { rom.area with bytes := applyChanges changes rom.area.bytes } } where
  place := prepared.place
  size := prepared.size
  inside := prepared.inside
  copied := prepared.copied
  occupies := by
    intro i below other unchanged
    rw [List.mem_append, not_or] at unchanged
    exact (applyChanges_other unchanged.2 _).trans (prepared.occupies i below other unchanged.1)

/-- The run lemma: after any mode switches the area is still consistent. -/
theorem Prepared.afterSwitches {image : Nat} (large : 12 ≤ srom.length)
    (contains : srom.length ≤ image) (fits : image ≤ romAreaSize) (switches : List Changes) :
    ∀ {changed : List Nat} {rom : LoadedRom}, Prepared image srom changed rom →
      Consistent image srom changed rom →
        Consistent image srom (changed ++ changedBy switches) (afterSwitches rom switches) := by
  induction switches with
  | nil =>
    intro changed rom _ consistent
    rw [changedBy, List.flatMap_nil, List.append_nil]
    exact consistent
  | cons changes switches ih =>
    intro changed rom prepared _
    have next := (prepared.change changes).checksumSlotRom large contains fits
    rw [changedBy, List.flatMap_cons, ← List.append_assoc]
    exact ih next.1 next.2

-- The loader.

theorem romStart_toNat (file : HostFile) :
    (romStart (romSizeOf file)).toNat = file.size % 65536 := by
  have mask : (65535 : BitVec 32).toNat = 2 ^ 16 - 1 := rfl
  rw [romStart, BitVec.toNat_and, mask, Nat.and_two_pow_sub_one_eq_mod, romSizeOf,
    BitVec.toNat_ofNat]
  omega

/-- `ROMSize` is the size of the image and of the header. -/
theorem romSizeOf_toNat (file : HostFile) :
    (romSizeOf file).toNat = (imageSize file).toNat + file.size % 65536 := by
  have start := romStart_toNat file
  have below : romStart (romSizeOf file) ≤ romSizeOf file := by
    rw [BitVec.le_def, start, romSizeOf, BitVec.toNat_ofNat]
    omega
  rw [imageSize, BitVec.toNat_sub_of_le below, start]
  rw [BitVec.le_def, start] at below
  omega

variable {file : HostFile}

theorem imageSize_bounds (checked : sizeCheck file = true) :
    65536 ≤ (imageSize file).toNat ∧ (imageSize file).toNat ≤ romAreaSize := by
  have member := of_decide_eq_true checked
  simp only [List.mem_cons, List.not_mem_nil, or_false] at member
  rcases member with size | size | size | size | size <;> rw [size] <;> decide

variable {grant : Grant} {memory : Nat → BitVec 8}

theorem loadRom_ok (loaded : loadRom file grant memory = .ok rom) :
    sizeCheck file = true ∧ ∃ image : List (BitVec 8), image.length = (imageSize file).toNat ∧
      rom = ⟨romSizeOf file, 0, (Area.fresh memory).store 0 image⟩ := by
  unfold loadRom at loaded
  split at loaded
  · cases loaded
  next checked =>
    dsimp only at loaded
    split at loaded
    · cases loaded
    next image _ =>
      split at loaded
      · cases loaded
      next complete =>
        cases loaded
        exact ⟨by simpa using checked, image, Decidable.not_not.mp complete, rfl⟩

/-- A file of a right size is loaded when the host transfers what is asked for. -/
theorem loadRom_complete (checked : sizeCheck file = true) {most : Nat}
    (enough : (imageSize file).toNat ≤ most) (memory : Nat → BitVec 8) :
    ∃ rom, loadRom file (some most) memory = .ok rom := by
  have whole := romSizeOf_toNat file
  have size : (romSizeOf file).toNat ≤ file.size := by
    rw [romSizeOf, BitVec.toNat_ofNat]
    exact Nat.mod_le _ _
  have all : min most (min (imageSize file).toNat (file.size - file.size % 65536)) =
      (imageSize file).toNat := by omega
  unfold loadRom hostRead
  simp [checked, romStart_toNat, all]

/-- In a file without a header the declaration ROM is copied to the end of the image. -/
theorem prepared_of_aligned (loaded : loadRom file grant memory = .ok rom)
    (aligned : 65536 ∣ file.size) (contains : srom.length ≤ (imageSize file).toNat) :
    Prepared (imageSize file).toNat srom [] (copySlotRom srom rom) := by
  obtain ⟨checked, image, complete, rfl⟩ := loadRom_ok loaded
  have bounds := imageSize_bounds checked
  have same : (romSizeOf file).toNat = (imageSize file).toNat := by
    rw [romSizeOf_toNat, Nat.mod_eq_zero_of_dvd aligned, Nat.add_zero]
  unfold copySlotRom LoadedRom.slotRomBase
  dsimp only
  rw [same]
  constructor
  · exact congrArg (· - srom.length) same
  · rfl
  · have image_fits : 0 + image.length ≤ romAreaSize := by omega
    exact ((fresh_within _ memory).store image_fits).store (by omega)
  · exact (mem_written_store _ _ _ _).mpr (.inr rfl)
  · intro i below _ _
    exact store_inside _ _ _ below

/-- With a header the declaration ROM is not copied to the end of the image. -/
theorem aligned_of_copied (loaded : loadRom file grant memory = .ok rom) (date : BuildDate)
    (monitor : MonitorDesc)
    (copied : ((imageSize file).toNat - (slotRom date [monitor]).length,
      (slotRom date [monitor]).length) ∈ (installSlotRom date [monitor] rom).area.written) :
    65536 ∣ file.size := by
  obtain ⟨checked, image, complete, rfl⟩ := loadRom_ok loaded
  have bounds := imageSize_bounds checked
  have fits := slotRom_fits date monitor
  have large := slotRom_length_ge date [monitor]
  have sizes := romSizeOf_toNat file
  unfold installSlotRom copySlotRom at copied
  rw [checksumSlotRom_written, mem_written_store, mem_written_store] at copied
  -- Each range on record is another one, but for the copy itself.
  rcases copied with ((earlier | loading) | copying) | crc
  · cases earlier
  · have length := congrArg Prod.snd loading
    dsimp only at length
    omega
  · have start := congrArg Prod.fst copying
    dsimp only [LoadedRom.slotRomBase] at start
    exact Nat.dvd_of_mod_eq_zero (by omega)
  · have length := congrArg Prod.snd crc
    dsimp only at length
    omega

/-- An image that fills the area leaves no room behind it for a declaration ROM that is copied to
where the file ends. -/
theorem not_within_of_header (loaded : loadRom file grant memory = .ok rom) (date : BuildDate)
    (monitor : MonitorDesc) (full : (imageSize file).toNat = romAreaSize)
    (header : ¬ 65536 ∣ file.size) :
    ¬ Within romAreaSize (installSlotRom date [monitor] rom).area := by
  obtain ⟨checked, image, complete, rfl⟩ := loadRom_ok loaded
  have fits := slotRom_fits date monitor
  have sizes := romSizeOf_toNat file
  intro within
  have inside := within _ (copySlotRom_written (slotRom date [monitor]) _)
  dsimp only at inside
  have some_header : file.size % 65536 ≠ 0 := fun none => header (Nat.dvd_of_mod_eq_zero none)
  have large : romAreaSize = 0x100000 := rfl
  omega

/-- `InstallSlotROM` and any mode switches after it, in a file without a header. -/
theorem consistent_of_aligned (loaded : loadRom file grant memory = .ok rom)
    (aligned : 65536 ∣ file.size) (large : 12 ≤ srom.length) (fits : srom.length ≤ 4096)
    (switches : List Changes) :
    Consistent (imageSize file).toNat srom (changedBy switches)
      (afterSwitches (checksumSlotRom (copySlotRom srom rom)) switches) := by
  have bounds := imageSize_bounds (loadRom_ok loaded).1
  have contains : srom.length ≤ (imageSize file).toNat := by omega
  have installed := (prepared_of_aligned loaded aligned contains).checksumSlotRom large contains
    bounds.2
  exact Prepared.afterSwitches large contains bounds.2 switches installed.1 installed.2

/-- Loading, installing and any mode switches leave the ROM area as the Slot Manager needs it
exactly when the file has no header. -/
theorem romArea_consistent_iff {file : HostFile} {grant : Grant} {memory : Nat → BitVec 8}
    {rom : LoadedRom} (loaded : loadRom file grant memory = .ok rom) (date : BuildDate)
    (monitor : MonitorDesc) :
    (∀ switches, Consistent (imageSize file).toNat (slotRom date [monitor]) (changedBy switches)
      (afterSwitches (installSlotRom date [monitor] rom) switches)) ↔ 65536 ∣ file.size := by
  constructor
  · intro consistent
    exact aligned_of_copied loaded date monitor (consistent []).copied
  · intro aligned switches
    have large := slotRom_length_ge date [monitor]
    exact consistent_of_aligned loaded aligned ((by decide : 12 ≤ 20).trans large)
      (slotRom_fits date monitor) switches

def exampleDate : BuildDate := ⟨ascii "Jan  1 2010", by decide⟩

def exampleMode : VideoMode := ⟨726, 544, 0x84, .depth8bit, 726⟩

def exampleMonitor : MonitorDesc := ⟨0x80, [exampleMode], exampleMode, 0xa0000000⟩

/-- A file with nothing but a ROM of 64K. -/
def plainFile : HostFile := ⟨fun _ => 0, 0x10000⟩

theorem romArea_consistent_plainFile :
    ∃ rom, loadRom plainFile (some 0x10000) (fun _ => 0) = .ok rom ∧
      ((∀ switches, Consistent (imageSize plainFile).toNat (slotRom exampleDate [exampleMonitor])
        (changedBy switches)
        (afterSwitches (installSlotRom exampleDate [exampleMonitor] rom) switches)) ↔
        65536 ∣ plainFile.size) := by
  have checked : sizeCheck plainFile = true := by decide
  obtain ⟨rom, loaded⟩ := loadRom_complete checked (Nat.le_refl 0x10000) fun _ => 0
  exact ⟨rom, loaded, romArea_consistent_iff loaded exampleDate exampleMonitor⟩

/-- A ROM of 1 MB behind a header of 512 bytes. -/
def headerFile : HostFile := ⟨fun _ => 0, 0x100200⟩

theorem headerFile_not_consistent :
    ∃ rom, loadRom headerFile (some 0x100000) (fun _ => 0) = .ok rom ∧
      ¬ Consistent (imageSize headerFile).toNat (slotRom exampleDate [exampleMonitor]) []
        (installSlotRom exampleDate [exampleMonitor] rom) := by
  have checked : sizeCheck headerFile = true := by decide
  obtain ⟨rom, loaded⟩ := loadRom_complete checked (Nat.le_refl 0x100000) fun _ => 0
  refine ⟨rom, loaded, fun consistent => ?_⟩
  exact not_within_of_header loaded exampleDate exampleMonitor (by decide) (by decide)
    consistent.inside

end BasiliskII.Rom
