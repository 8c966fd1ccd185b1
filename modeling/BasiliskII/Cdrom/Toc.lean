import BasiliskII.Disk.Driver
import BasiliskII.Library.SentinelScan
import Mathlib.Algebra.GroupWithZero.Nat

/-!
# The table of contents of a CD-ROM

The tables for BCD, `position2msf` and `Control(100)` (ReadTOC) of cdrom.cpp. The TOC of a drive
has 804 bytes, which are four bytes and 100 entries of eight; a byte read outside has no result.
-/
namespace BasiliskII.Cdrom

open ByteMemory

/-! ### BCD -/

def bin2bcdTable : List (BitVec 8) :=
  [0x00, 0x01, 0x02, 0x03, 0x04, 0x05, 0x06, 0x07, 0x08, 0x09,
   0x10, 0x11, 0x12, 0x13, 0x14, 0x15, 0x16, 0x17, 0x18, 0x19,
   0x20, 0x21, 0x22, 0x23, 0x24, 0x25, 0x26, 0x27, 0x28, 0x29,
   0x30, 0x31, 0x32, 0x33, 0x34, 0x35, 0x36, 0x37, 0x38, 0x39,
   0x40, 0x41, 0x42, 0x43, 0x44, 0x45, 0x46, 0x47, 0x48, 0x49,
   0x50, 0x51, 0x52, 0x53, 0x54, 0x55, 0x56, 0x57, 0x58, 0x59,
   0x60, 0x61, 0x62, 0x63, 0x64, 0x65, 0x66, 0x67, 0x68, 0x69,
   0x70, 0x71, 0x72, 0x73, 0x74, 0x75, 0x76, 0x77, 0x78, 0x79,
   0x80, 0x81, 0x82, 0x83, 0x84, 0x85, 0x86, 0x87, 0x88, 0x89,
   0x90, 0x91, 0x92, 0x93, 0x94, 0x95, 0x96, 0x97, 0x98, 0x99]

/-- The rest of the table is 0xff. -/
def bin2bcd (b : BitVec 8) : BitVec 8 := bin2bcdTable.getD b.toNat 0xff

/-- Sixteen entries of the table `bcd2bin`. -/
def bcdRow (tens : BitVec 8) : List (BitVec 8) :=
  [tens, tens + 1, tens + 2, tens + 3, tens + 4, tens + 5, tens + 6, tens + 7, tens + 8, tens + 9,
   0xff, 0xff, 0xff, 0xff, 0xff, 0xff]

def bcd2binTable : List (BitVec 8) :=
  bcdRow 0 ++ bcdRow 10 ++ bcdRow 20 ++ bcdRow 30 ++ bcdRow 40 ++ bcdRow 50 ++ bcdRow 60 ++
    bcdRow 70 ++ bcdRow 80 ++ bcdRow 90

/-- The rest of the table is 0xff. -/
def bcd2bin (b : BitVec 8) : BitVec 8 := bcd2binTable.getD b.toNat 0xff

/-! ### Entries -/

abbrev Toc := Fin 804 → BitVec 8

instance toc_neZero : NeZero 804 := ⟨by decide⟩

def Toc.byte (toc : Toc) (i : Nat) : Option (BitVec 8) :=
  if inside : i < 804 then some (toc ⟨i, inside⟩) else none

/-- `for (int i=4; i<804; i+=8)` until the track number passes the test; 804 where none does. -/
def Toc.search (toc : Toc) (test : BitVec 8 → Bool) : Nat → Nat → Option Nat
  | 0, i => some i
  | left + 1, i => do
    let track ← toc.byte (i + 2)
    if test track then some i else Toc.search toc test left (i + 8)

/-- Minute, second and frame. -/
structure Msf where
  m : BitVec 8
  s : BitVec 8
  f : BitVec 8
  deriving DecidableEq, Repr

/-- Convert audio positioning type/position to MSF address; `none` for the result false. -/
def position2msf (toc : Toc) (postype : BitVec 16) (pos : BitVec 32) (stopping : Bool) :
    Option Msf :=
  if postype = 0 then
    some ⟨(pos / (60 * 75)).truncate 8, ((pos / 75) % 60).truncate 8, (pos % 75).truncate 8⟩
  else if postype = 1 then
    some ⟨bcd2bin (pos.extractLsb' 16 8), bcd2bin (pos.extractLsb' 8 8),
      bcd2bin (pos.extractLsb' 0 8)⟩
  else if postype = 2 then do
    let track := bcd2bin (pos.extractLsb' 0 8)
    let track := if stopping then track + 1 else track
    -- The lead-out ends the search too, and is taken for the track.
    let i ← toc.search (fun t => t = track || t = 0xaa) 100 4
    if i < 804 then
      let m ← toc.byte (i + 5)
      let s ← toc.byte (i + 6)
      let f ← toc.byte (i + 7)
      some ⟨m, s, f⟩
    else none
  else none

/-! ### ReadTOC -/

def csParam : BitVec 32 := 28
def offLinErr : BitVec 16 := -65
def paramErr : BitVec 16 := -50
def noErr : BitVec 16 := 0

/-- The loop that fills the buffer: the bytes it stores, one behind the other. A pass reads eight
bytes further on, so that within 101 of them it has ended or left the TOC. -/
def Toc.fillBuffer (toc : Toc) : Nat → Nat → BitVec 16 → Option (List (BitVec 8))
  | 0, _, _ => none
  | fuel + 1, i, bufSize =>
    if bufSize = 0 then some []
    else do
      let control ← toc.byte (i + 1)
      let m ← toc.byte (i + 5)
      let s ← toc.byte (i + 6)
      let f ← toc.byte (i + 7)
      let track ← toc.byte (i + 2)
      let stored := [control &&& 0x0f, bin2bcd m, bin2bcd s, bin2bcd f]
      if track = 0xaa then some stored
      else do
        -- The size is a `uint16`: one that is not a multiple of four passes zero by.
        let rest ← Toc.fillBuffer toc fuel (i + 8) (bufSize - 4)
        some (stored ++ rest)

/-- The variables of `cdrom_drive_info` that ReadTOC uses. -/
structure TocInfo where
  toc : Toc
  leadOut : Msf
  status : BitVec 32

/-- What a call returns, and the bytes that it stores from an address on. -/
structure Answer where
  err : BitVec 16
  dest : BitVec 32
  bytes : List (BitVec 8)
  deriving DecidableEq

/-- `Control(100)`. -/
def readToc (info : TocInfo) (mem : Memory 32) (pb : BitVec 32) : Option Answer :=
  if mem (info.status + Disk.dsDiskInPlace) = 0 then some ⟨offLinErr, 0, []⟩
  else
    let action := getWord mem (pb + csParam)
    if action = 1 then
      some ⟨noErr, pb + csParam, [bin2bcd (info.toc 2), bin2bcd (info.toc 3), 0, 0]⟩
    else if action = 2 then
      some ⟨noErr, pb + csParam,
        [bin2bcd info.leadOut.m, bin2bcd info.leadOut.s, bin2bcd info.leadOut.f, 0]⟩
    else if action = 3 then do
      let buf := getLong mem (pb + csParam + 2)
      let bufSize := getWord mem (pb + csParam + 6)
      let track := bcd2bin (mem (pb + csParam + 8))
      let i ← info.toc.search (fun t => t = track) 100 4
      -- A track that is not listed is no error.
      if i ≠ 804 then
        let bytes ← info.toc.fillBuffer 101 i bufSize
        some ⟨noErr, buf, bytes⟩
      else some ⟨noErr, buf, []⟩
    else if action = 5 then
      some ⟨noErr, pb + csParam, [0, 1, 0, 1, 0, bin2bcd (info.toc 2), info.toc 5 &&& 0x0f,
        bin2bcd (info.toc 9), bin2bcd (info.toc 10), bin2bcd (info.toc 11)]⟩
    else some ⟨paramErr, 0, []⟩

/-! ### The entries as a list -/

structure TocEntry where
  control : BitVec 8
  track : BitVec 8
  msf : Msf
  deriving DecidableEq, Repr

namespace TocEntry

def isLeadOut (e : TocEntry) : Bool := e.track = 0xaa

/-- The four bytes of an entry that ReadTOC returns. -/
def bytes (e : TocEntry) : List (BitVec 8) :=
  [e.control &&& 0x0f, bin2bcd e.msf.m, bin2bcd e.msf.s, bin2bcd e.msf.f]

end TocEntry

/-- Entry `k` of the TOC. -/
def Toc.entry (toc : Toc) (k : Fin 100) : TocEntry where
  control := toc ⟨4 + 8 * k + 1, by omega⟩
  track := toc ⟨4 + 8 * k + 2, by omega⟩
  msf := ⟨toc ⟨4 + 8 * k + 5, by omega⟩, toc ⟨4 + 8 * k + 6, by omega⟩,
    toc ⟨4 + 8 * k + 7, by omega⟩⟩

def Toc.entries (toc : Toc) : List TocEntry := List.ofFn toc.entry

@[simp] theorem Toc.length_entries (toc : Toc) : toc.entries.length = 100 :=
  List.length_ofFn

theorem Toc.drop_entries (toc : Toc) {k : Nat} (inside : k < 100) :
    toc.entries.drop k = toc.entry ⟨k, inside⟩ :: toc.entries.drop (k + 1) := by
  rw [List.drop_eq_getElem_cons (by simpa using inside)]
  congr 1
  exact List.getElem_ofFn _

theorem Toc.drop_all (toc : Toc) : toc.entries.drop 100 = [] :=
  List.drop_eq_nil_of_le (by simp)

theorem Toc.byte_inside (toc : Toc) {i : Nat} (inside : i < 804) :
    toc.byte i = some (toc ⟨i, inside⟩) :=
  dif_pos inside

/-- The search ends on the first entry whose track number passes, or behind the last entry. -/
theorem Toc.search_eq (toc : Toc) (test : BitVec 8 → Bool) {left k : Nat} (all : k + left = 100) :
    toc.search test left (4 + 8 * k) =
      some (4 + 8 * (k + (toc.entries.drop k).findIdx (fun e => test e.track))) := by
  -- Each turn drops the entry that was looked at.
  induction left generalizing k with
  | zero =>
    obtain rfl : k = 100 := by omega
    rw [toc.drop_all]
    rfl
  | succ left ih =>
    have inside : k < 100 := by omega
    rw [Toc.search, toc.byte_inside (show 4 + 8 * k + 2 < 804 by omega), toc.drop_entries inside,
      List.findIdx_cons]
    simp only [Option.bind_eq_bind, Option.bind_some]
    have track : (toc.entry ⟨k, inside⟩).track = toc ⟨4 + 8 * k + 2, by omega⟩ := rfl
    rw [← track]
    cases passes : test (toc.entry ⟨k, inside⟩).track with
    | true => rfl
    | false =>
      have next := ih (show k + 1 + left = 100 by omega)
      rw [show 4 + 8 * (k + 1) = 4 + 8 * k + 8 by omega] at next
      simp only [Bool.false_eq_true, if_false, cond_false]
      rw [next, Nat.add_assoc, Nat.add_comm 1]

theorem Toc.entry_bytes (toc : Toc) {k : Nat} (inside : k < 100) :
    toc.byte (4 + 8 * k + 1) = some (toc.entry ⟨k, inside⟩).control ∧
    toc.byte (4 + 8 * k + 2) = some (toc.entry ⟨k, inside⟩).track ∧
    toc.byte (4 + 8 * k + 5) = some (toc.entry ⟨k, inside⟩).msf.m ∧
    toc.byte (4 + 8 * k + 6) = some (toc.entry ⟨k, inside⟩).msf.s ∧
    toc.byte (4 + 8 * k + 7) = some (toc.entry ⟨k, inside⟩).msf.f :=
  ⟨toc.byte_inside (by omega), toc.byte_inside (by omega), toc.byte_inside (by omega),
    toc.byte_inside (by omega), toc.byte_inside (by omega)⟩

/-! ### BCD numbers -/

/-- A number of two decimal digits in BCD. -/
def bcd (n : Nat) : Nat := 16 * (n / 10) + n % 10

def IsBcd (b : BitVec 8) : Prop := b.toNat / 16 < 10 ∧ b.toNat % 16 < 10

instance (b : BitVec 8) : Decidable (IsBcd b) := inferInstanceAs (Decidable (_ ∧ _))

theorem bcd2bin_bcd : ∀ n < 100, bcd2bin (BitVec.ofNat 8 (bcd n)) = BitVec.ofNat 8 n := by
  decide +kernel

end BasiliskII.Cdrom
