import BasiliskII.Disk.VolumeBounds
import Mathlib.Data.List.GetD
import Mathlib.Data.Nat.Digits.Defs

/-!
# The partition map

`find_hfs_partition` of disk.cpp and of cdrom.cpp. Both take the first of 64
blocks that has the signature of a partition map and the type "Apple_HFS", and
look at no byte behind a block. They put the start together as an `int`, so it
comes out right for partitions below 2^31 blocks.
-/
namespace BasiliskII.Disk

open Sys

/-! ### The search of the CD-ROM driver -/

namespace Cdrom

/-- The start alone; the number of blocks is only printed. -/
def partitionStart (map : Block) : LOff := (blockLong map 8).signExtend 64 <<< 9

def searchPartition (f : FileHandle) (grants : Nat → Grant) : Nat → Nat → LOff
  | 0, _ => 0
  | fuel + 1, i =>
    let (actual, map) := sysRead f (grants i) (BitVec.ofNat 64 (i * 512)) 512
    if actual ≠ 512 then 0
    else if !isPartitionMap map then searchPartition f grants fuel (i + 1)
    else if isAppleHfs map then partitionStart map
    else searchPartition f grants fuel (i + 1)

/-- Search first 64 blocks for HFS partition. -/
def findHfsPartition (f : FileHandle) (grants : Nat → Grant) : LOff := searchPartition f grants 64 0

end Cdrom

theorem cdrom_searchPartition (f : FileHandle) (grants : Nat → Grant) (fuel i : Nat) :
    Cdrom.searchPartition f grants fuel i = (searchPartition f grants fuel i).startByte := by
  induction fuel generalizing i with
  | zero => rfl
  | succ fuel ih =>
    simp only [Cdrom.searchPartition, searchPartition]
    split
    · rfl
    · split
      · exact ih (i + 1)
      · split
        · rfl
        · exact ih (i + 1)

/-! ### The bytes that are looked at -/

/-- `strcmp` with the string at index `p`, a byte at a time; `none` where it leaves the block. -/
def strcmpEq (map : Block) : Nat → List (BitVec 8) → Option Bool
  | _, [] => some true
  | p, c :: cs =>
    (map[p]?).bind fun b => if b = c then strcmpEq map (p + 1) cs else some false

def longAt (map : Block) (i : Nat) : Option (BitVec 32) :=
  (map[i]?).bind fun a =>
    (map[i + 1]?).bind fun b =>
      (map[i + 2]?).bind fun c => (map[i + 3]?).map fun d => a ++ b ++ c ++ d

/-- One block, with each byte looked at on its own. -/
def visitBlock (map : Block) : Option (Option Volume) :=
  (map[0]?).bind fun a =>
    (map[1]?).bind fun b =>
      -- Not a partition map block? Then look at next block
      if a ++ b ≠ (0x504d : BitVec 16) then some none
      else
        (strcmpEq map 48 appleHfs).bind fun same =>
          if same then
            (longAt map 8).bind fun start =>
              (longAt map 12).map fun blocks => some ⟨start.signExtend 64 <<< 9, blocks⟩
          else some none

/-- The search that fails where it looks at a byte that was not read. -/
def checkedSearch (f : FileHandle) (grants : Nat → Grant) : Nat → Nat → Option Volume
  | 0, _ => some noVolume
  | fuel + 1, i =>
    let (actual, map) := sysRead f (grants i) (BitVec.ofNat 64 (i * 512)) 512
    -- A short read leaves the rest of the block unset, and nothing of it is looked at.
    if actual ≠ 512 then some noVolume
    else
      (visitBlock map).bind fun
        | none => checkedSearch f grants fuel (i + 1)
        | some volume => some volume

theorem sysRead_length {f : FileHandle} {grant : Grant} {offset : LOff}
    (full : (sysRead f grant offset 512).1 = 512) :
    (sysRead f grant offset 512).2.length = 512 := by
  simp only [sysRead] at full ⊢
  by_cases nothing : (!f.isOpen || (offset + f.startByte).toInt < 0) = true
  · rw [if_pos nothing] at full
    exact absurd full (by decide)
  · rw [if_neg nothing] at full ⊢
    cases grant with
    | none =>
      have failed : hostError = 512 := full
      exact absurd failed (by decide)
    | some most =>
      have actual := congrArg BitVec.toNat full
      simp only [BitVec.toNat_ofNat, BitVec.reduceToNat] at actual
      simp only [List.length_map, List.length_range, BitVec.reduceToNat]
      omega

variable {map : Block} {i : Nat}

theorem getElem?_getD (inside : i < map.length) : map[i]? = some (map.getD i 0) := by
  rw [List.getElem?_eq_getElem inside, List.getD_eq_getElem _ _ inside]

theorem longAt_eq (inside : i + 4 ≤ map.length) : longAt map i = some (blockLong map i) := by
  rw [longAt, getElem?_getD (by omega), getElem?_getD (by omega), getElem?_getD (by omega),
    getElem?_getD (by omega)]
  rfl

/-- The comparison stops inside the block, and finds the string or not. -/
theorem strcmpEq_eq (cs : List (BitVec 8)) (p : Nat) (inside : p + cs.length ≤ map.length) :
    strcmpEq map p cs = some (decide ((map.drop p).take cs.length = cs)) := by
  -- Induction on the string; the first byte that differs ends the comparison.
  induction cs generalizing p with
  | nil => simp [strcmpEq]
  | cons c cs ih =>
    rw [List.length_cons] at inside
    have here : p < map.length := by omega
    rw [strcmpEq, List.getElem?_eq_getElem here, Option.bind_some, List.drop_eq_getElem_cons here,
      List.length_cons, List.take_succ_cons]
    by_cases same : map[p] = c
    · rw [if_pos same, ih (p + 1) (by omega)]
      simp [same]
    · rw [if_neg same]
      simp [same]

theorem visitBlock_eq (length : map.length = 512) :
    visitBlock map =
      some (if isPartitionMap map && isAppleHfs map then some (partitionOf map) else none) := by
  have compared : strcmpEq map 48 appleHfs = some (isAppleHfs map) :=
    strcmpEq_eq appleHfs 48 (by rw [length]; decide)
  rw [visitBlock, getElem?_getD (by omega), getElem?_getD (by omega), Option.bind_some,
    Option.bind_some, compared, longAt_eq (by omega), longAt_eq (by omega)]
  -- The type is compared, and the fields are read, only behind the signature.
  by_cases signature : map.getD 0 0 ++ map.getD 1 0 = (0x504d : BitVec 16)
  · have isMap : isPartitionMap map = true := decide_eq_true signature
    rw [if_neg (not_not.mpr signature), isMap, Bool.true_and]
    cases isAppleHfs map <;> rfl
  · have isMap : isPartitionMap map = false := decide_eq_false signature
    rw [if_pos signature, isMap]
    rfl

theorem checkedSearch_eq (f : FileHandle) (grants : Nat → Grant) (fuel i : Nat) :
    checkedSearch f grants fuel i = some (searchPartition f grants fuel i) := by
  induction fuel generalizing i with
  | zero => rfl
  | succ fuel ih =>
    simp only [checkedSearch, searchPartition]
    split
    · rfl
    next full =>
      rw [visitBlock_eq (sysRead_length (not_not.mp full)), Option.bind_some]
      cases isPartitionMap _ with
      | false => exact ih (i + 1)
      | true =>
        rw [Bool.true_and]
        cases isAppleHfs _ with
        | false => exact ih (i + 1)
        | true => rfl

/-! ### The first HFS partition -/

/-- What can be read of the image, a block at a time, up to the first short read. -/
def readBlock (f : FileHandle) (grants : Nat → Grant) (i : Nat) : Option Block :=
  let (actual, map) := sysRead f (grants i) (BitVec.ofNat 64 (i * 512)) 512
  if actual = 512 then some map else none

def IsHfs (map : Block) : Prop :=
  map.take 2 = [0x50, 0x4d] ∧ (map.drop 48).take 10 = appleHfs

instance (map : Block) : Decidable (IsHfs map) := inferInstanceAs (Decidable (_ ∧ _))

/-- Block `i` is the first with an HFS partition, and no read before it is short. -/
structure FirstHfs (blocks : Nat → Option Block) (i : Nat) (map : Block) : Prop where
  searched : i < 64
  read : blocks i = some map
  isHfs : IsHfs map
  before : ∀ j < i, ∃ other, blocks j = some other ∧ ¬ IsHfs other

/-- The unsigned number some bytes make up. -/
def bigEndian (bytes : Block) : Nat := Nat.ofDigits 256 (bytes.reverse.map BitVec.toNat)

def startField (map : Block) : Nat := bigEndian ((map.drop 8).take 4)

def countField (map : Block) : Nat := bigEndian ((map.drop 12).take 4)

theorem readBlock_length {f : FileHandle} {grants : Nat → Grant}
    (read : readBlock f grants i = some map) : map.length = 512 := by
  simp only [readBlock] at read
  split at read
  next full =>
    cases read
    exact sysRead_length full
  · cases read

theorem FirstHfs.unique {blocks : Nat → Option Block} {j : Nat} {other : Block}
    (first : FirstHfs blocks i map) (second : FirstHfs blocks j other) : map = other := by
  -- The earlier of two would be among the blocks before the other that are not HFS.
  rcases Nat.lt_trichotomy i j with earlier | rfl | later
  · obtain ⟨block, read, no⟩ := second.before i earlier
    cases first.read.symm.trans read
    exact absurd first.isHfs no
  · exact Option.some.inj (first.read.symm.trans second.read)
  · obtain ⟨block, read, no⟩ := first.before j later
    cases second.read.symm.trans read
    exact absurd second.isHfs no

theorem take_two_eq (inside : 2 ≤ map.length) : map.take 2 = [map.getD 0 0, map.getD 1 0] := by
  match map, inside with
  | a :: b :: rest, _ => rfl

theorem isHfs_iff (length : map.length = 512) :
    IsHfs map ↔ (isPartitionMap map && isAppleHfs map) = true := by
  have signature : map.getD 0 0 ++ map.getD 1 0 = (0x504d : BitVec 16) ↔
      map.take 2 = [0x50, 0x4d] := by
    rw [take_two_eq (by omega)]
    constructor
    · intro joined
      -- Each byte can be taken out of the word again.
      have high := congrArg (BitVec.extractLsb' 8 8) joined
      have low := congrArg (BitVec.extractLsb' 0 8) joined
      rw [BitVec.extractLsb'_append_eq_left] at high
      rw [BitVec.extractLsb'_append_eq_right] at low
      rw [high, low]
      rfl
    · intro bytes
      simp only [List.cons.injEq, and_true] at bytes
      rw [bytes.1, bytes.2]
      rfl
  rw [IsHfs, ← signature, Bool.and_eq_true, isPartitionMap, isAppleHfs, decide_eq_true_iff,
    decide_eq_true_iff]

theorem searchPartition_succ (f : FileHandle) (grants : Nat → Grant) (fuel i : Nat) :
    searchPartition f grants (fuel + 1) i =
      match readBlock f grants i with
      | none => noVolume
      | some map =>
        if IsHfs map then partitionOf map else searchPartition f grants fuel (i + 1) := by
  by_cases full : (sysRead f (grants i) (BitVec.ofNat 64 (i * 512)) 512).1 = 512
  · have read : readBlock f grants i =
        some (sysRead f (grants i) (BitVec.ofNat 64 (i * 512)) 512).2 := if_pos full
    have isHfs := isHfs_iff (sysRead_length full)
    simp only [searchPartition, read, full, isHfs, Bool.and_eq_true, ne_eq, not_true, if_false]
    cases isPartitionMap _ with
    | false | true => simp
  · have short : readBlock f grants i = none := if_neg full
    simp only [searchPartition, short, full, ne_eq, not_false_eq_true, if_true]

/-- The search ends at the first HFS partition, at a short read, or after 64 blocks. -/
theorem searchPartition_first (f : FileHandle) (grants : Nat → Grant) {fuel : Nat}
    (searched : i + fuel = 64)
    (before : ∀ j < i, ∃ other, readBlock f grants j = some other ∧ ¬ IsHfs other) :
    (∃ j map, FirstHfs (readBlock f grants) j map ∧
        searchPartition f grants fuel i = partitionOf map) ∨
      ((¬ ∃ j map, FirstHfs (readBlock f grants) j map) ∧
        searchPartition f grants fuel i = noVolume) := by
  -- Induction on the blocks left; the ones before `i` could be read and have no HFS partition.
  induction fuel generalizing i with
  | zero =>
    -- All 64 blocks are among those before.
    refine .inr ⟨?_, rfl⟩
    rintro ⟨j, map, first⟩
    obtain ⟨other, read, no⟩ := before j (by have := first.searched; omega)
    cases first.read.symm.trans read
    exact no first.isHfs
  | succ fuel ih =>
    rw [searchPartition_succ]
    cases read : readBlock f grants i with
    | none =>
      -- A partition behind the short read does not count, and none lies before it.
      refine .inr ⟨?_, rfl⟩
      rintro ⟨j, map, first⟩
      rcases Nat.lt_trichotomy j i with earlier | rfl | later
      · obtain ⟨other, read', no⟩ := before j earlier
        cases first.read.symm.trans read'
        exact no first.isHfs
      · cases first.read.symm.trans read
      · obtain ⟨other, read', -⟩ := first.before i later
        cases read.symm.trans read'
    | some map =>
      by_cases isHfs : IsHfs map
      · exact .inl ⟨i, map, ⟨by omega, read, isHfs, before⟩, if_pos isHfs⟩
      · simp only [if_neg isHfs]
        refine ih (by omega) fun j lower => ?_
        rcases Nat.lt_or_eq_of_le (Nat.le_of_lt_succ lower) with earlier | rfl
        · exact before j earlier
        · exact ⟨map, read, isHfs⟩

/-! ### The fields -/

theorem take_four_eq (inside : i + 4 ≤ map.length) :
    (map.drop i).take 4 =
      [map.getD i 0, map.getD (i + 1) 0, map.getD (i + 2) 0, map.getD (i + 3) 0] := by
  rw [List.drop_eq_getElem_cons (by omega), List.drop_eq_getElem_cons (by omega),
    List.drop_eq_getElem_cons (by omega), List.drop_eq_getElem_cons (by omega)]
  simp only [List.take_succ_cons, List.take_zero]
  rw [List.getD_eq_getElem _ _ (by omega), List.getD_eq_getElem _ _ (by omega),
    List.getD_eq_getElem _ _ (by omega), List.getD_eq_getElem _ _ (by omega)]

theorem toNat_append_eq {m n : Nat} (a : BitVec m) (b : BitVec n) :
    (a ++ b).toNat = b.toNat + 2 ^ n * a.toNat := by
  rw [BitVec.toNat_append, ← Nat.shiftLeft_add_eq_or_of_lt b.isLt, Nat.shiftLeft_eq, Nat.mul_comm,
    Nat.add_comm]

theorem blockLong_toNat (inside : i + 4 ≤ map.length) :
    (blockLong map i).toNat = bigEndian ((map.drop i).take 4) := by
  rw [blockLong, toNat_append_eq, toNat_append_eq, toNat_append_eq, take_four_eq inside]
  rfl

/-- The start is right exactly if its field does not reach the sign of an `int`. -/
theorem partitionOf_start_iff (length : map.length = 512) :
    (partitionOf map).startByte.toNat = 512 * startField map ↔ startField map < 2 ^ 31 := by
  have start := partitionOf_start map
  have field : (blockLong map 8).toNat = startField map := blockLong_toNat (by omega)
  have below := (blockLong map 8).isLt
  have within := (partitionOf map).startByte.isLt
  rw [← field]
  -- A field from 2^31 on is a negative `int`, and so is its product with 512.
  rw [BitVec.toInt_eq_toNat_cond, BitVec.toInt_eq_toNat_cond] at start
  constructor
  · intro right
    split at start <;> split at start <;> omega
  · intro small
    split at start <;> split at start <;> omega

theorem partitionOf_count (length : map.length = 512) :
    (partitionOf map).numBlocks.toNat = countField map := blockLong_toNat (by omega)

/-! ### Discovery -/

/-- What the search is for: the first HFS partition, or none. -/
structure Discovered (f : FileHandle) (grants : Nat → Grant) : Prop where
  found : ∀ i map, FirstHfs (readBlock f grants) i map →
    (findHfsPartition f grants).startByte.toNat = 512 * startField map ∧
      (findHfsPartition f grants).numBlocks.toNat = countField map ∧
      (Cdrom.findHfsPartition f grants).toNat = 512 * startField map
  missing : (¬ ∃ i map, FirstHfs (readBlock f grants) i map) →
    findHfsPartition f grants = noVolume ∧ Cdrom.findHfsPartition f grants = 0
  inside : checkedSearch f grants 64 0 = some (findHfsPartition f grants) ∧
    (checkedSearch f grants 64 0).map Volume.startByte = some (Cdrom.findHfsPartition f grants)

/-- Both drivers discover the partitions that start below block 2^31, and no others. -/
theorem hfs_partition_discovered_iff (f : FileHandle) (grants : Nat → Grant) :
    Discovered f grants ↔
      ∀ i map, FirstHfs (readBlock f grants) i map → startField map < 2 ^ 31 := by
  have cdrom : Cdrom.findHfsPartition f grants = (findHfsPartition f grants).startByte :=
    cdrom_searchPartition f grants 64 0
  have checked : checkedSearch f grants 64 0 = some (findHfsPartition f grants) :=
    checkedSearch_eq f grants 64 0
  have search := searchPartition_first f grants (Nat.zero_add 64) (by simp)
  constructor
  · intro discovered i map first
    have length := readBlock_length first.read
    rcases search with ⟨j, other, other_first, result⟩ | ⟨missing, -⟩
    · cases first.unique other_first
      have right := (discovered.found i map first).1
      rw [findHfsPartition, result] at right
      exact (partitionOf_start_iff length).mp right
    · exact absurd ⟨i, map, first⟩ missing
  · intro small
    refine ⟨fun i map first => ?_, fun missing => ?_, checked, by rw [checked, cdrom]; rfl⟩
    · have length := readBlock_length first.read
      rcases search with ⟨j, other, other_first, result⟩ | ⟨missing, -⟩
      · cases first.unique other_first
        have start := (partitionOf_start_iff length).mpr (small i map first)
        rw [cdrom, findHfsPartition, result]
        exact ⟨start, partitionOf_count length, start⟩
      · exact absurd ⟨i, map, first⟩ missing
    · rcases search with ⟨j, other, first, -⟩ | ⟨-, result⟩
      · exact absurd ⟨j, other, first⟩ missing
      · rw [cdrom, findHfsPartition, result]
        exact ⟨rfl, rfl⟩

/-- A block of the map with a partition at block 0x80000000. -/
def farMap : Block :=
  [0x50, 0x4d, 0, 0, 0, 0, 0, 1, 0x80, 0, 0, 0, 0, 0, 0x10, 0] ++ List.replicate 32 0 ++ appleHfs ++
    List.replicate 454 0

/-- An image of one block. -/
def blockImage (map : Block) : FileHandle where
  isOpen := true
  isFile := true
  isFloppy := false
  isCdrom := false
  readOnly := false
  startByte := 0
  fileSize := 512
  host := ⟨fun i => map.getD i 0, 512⟩

theorem readBlock_blockImage (length : map.length = 512) :
    readBlock (blockImage map) (fun _ => some 512) 0 = some map := by
  have bytes : (List.range 512).map (fun i => map.getD (0 + i) 0) = map := by
    apply List.ext_getElem
    · rw [List.length_map, List.length_range, length]
    · intro i _ inside
      rw [List.getElem_map, List.getElem_range, Nat.zero_add, List.getD_eq_getElem _ _ inside]
  have read : sysRead (blockImage map) (some 512) 0 512 =
      (512, (List.range 512).map fun i => map.getD (0 + i) 0) := rfl
  rw [bytes] at read
  simp only [readBlock, Nat.zero_mul]
  rw [show BitVec.ofNat 64 0 = 0 from rfl, read]
  rfl

/-- The partition is looked for in front of the image. -/
theorem far_partition_not_discovered :
    ¬ ∀ (f : FileHandle) (grants : Nat → Grant), Discovered f grants := by
  intro discovered
  let far := blockImage farMap
  have read : readBlock far (fun _ => some 512) 0 = some farMap :=
    readBlock_blockImage (by decide +kernel)
  have first : FirstHfs (readBlock far fun _ => some 512) 0 farMap :=
    ⟨by decide, read, by decide +kernel, by simp⟩
  have start := ((discovered far fun _ => some 512).found 0 farMap first).1
  have found : (findHfsPartition far fun _ => some 512) = partitionOf farMap := by
    rw [findHfsPartition, searchPartition_succ, read]
    exact if_pos first.isHfs
  rw [found] at start
  exact absurd start (by decide +kernel)

end BasiliskII.Disk
