import BasiliskII.Library.ByteBuilder
import BasiliskII.Rsrc.Search

/-!
# Resource patches

`CheckLoad` and `patch_idle_time` of rsrc_patches.cpp, for a ROM that is not
write protected. A patch stores words at fixed distances from the first
occurrence of a byte string, or from the start of the resource. Stores and
comparisons that leave the resource fail.
-/
namespace BasiliskII.Rsrc

open ByteBuilder PatternSearch

/-! ### Stores -/

/-- Bytes at a distance from the place of a patch. -/
structure Store where
  offset : Nat
  bytes : List (BitVec 8)
  deriving DecidableEq, Repr

/-- `p16[i] = htons(v)`. -/
def word (i : Nat) (v : BitVec 16) : Store := ⟨2 * i, wordBytes v⟩

/-- `*p16++ = htons(v)` for each of some words. -/
def words (vs : List (BitVec 16)) : Store := ⟨0, vs.flatMap wordBytes⟩

/-- The same stores from a place `n` bytes further on. -/
def Store.from (n : Nat) (s : Store) : Store := { s with offset := n + s.offset }

/-- Bytes over those that begin at a place. -/
def ByteString.put (rsrc : ByteString) (place : Nat) (new : List (BitVec 8)) : ByteString where
  bytes := rsrc.bytes.mapIdx fun i old =>
    if place ≤ i ∧ i < place + new.length then new.getD (i - place) 0 else old
  short := by
    rw [List.length_mapIdx]
    exact rsrc.short

def ByteString.putAll (rsrc : ByteString) (place : Nat) (stores : List Store) : ByteString :=
  stores.foldl (fun rsrc s => rsrc.put (place + s.offset) s.bytes) rsrc

/-- One store; `none` where it leaves the resource. -/
def store (rsrc : ByteString) (place : Int) (new : List (BitVec 8)) : Option ByteString :=
  if 0 ≤ place ∧ place + new.length ≤ rsrc.length then some (rsrc.put place.toNat new) else none

def storeAll (rsrc : ByteString) (place : Int) (stores : List Store) : Option ByteString :=
  stores.foldlM (fun rsrc s => store rsrc (place + s.offset) s.bytes) rsrc

/-! ### Patches -/

/-- What the patches read besides the resource. -/
structure Environment where
  idlewait : Bool
  romBaseMac : BitVec 32
  scratchMemBase : BitVec 32
  audioComponentFlags : BitVec 32

inductive Patch where
  | found (dat : ByteString) (stores : List Store)
  | start (stores : List Store)
  | idleTime

def m68kNop : BitVec 16 := 0x4e71
def m68kRts : BitVec 16 := 0x4e75
def m68kJmpA0 : BitVec 16 := 0x4ed0
def emulOpFixBootstack : BitVec 16 := 0x7108
def emulOpScsiDispatch : BitVec 16 := 0x7128
def emulOpAudio : BitVec 16 := 0x712d
def emulOpBlockMove : BitVec 16 := 0x7130
def emulOpIdleTime : BitVec 16 := 0x7137

def highWord (v : BitVec 32) : BitVec 16 := v.extractLsb' 16 16
def lowWord (v : BitVec 32) : BitVec 16 := v.extractLsb' 0 16

def idleTrap : ByteString := ⟨[0x70, 0x03, 0xa0, 0x9f], by decide⟩

def idleLoop : ByteString := ⟨[0x20, 0x78, 0x02, 0xb6, 0x41, 0xe8, 0x00, 0x80], by decide⟩

def idleStores : List Store := [words [emulOpIdleTime, m68kNop]]

/-- Install SynchIdleTime() patch. -/
def patchIdleTime (env : Environment) (rsrc : ByteString) : Option ByteString :=
  if !env.idlewait then some rsrc
  else
    (findRsrcData rsrc 0 rsrc.size idleTrap 0).bind fun base =>
      if base = 0 then some rsrc
      else
        let pbase : Int := (base.toNat : Int) - 0x80
        (findRsrcData rsrc pbase 0x80 idleLoop 0).bind fun base =>
          if base = 0 then some rsrc else storeAll rsrc (pbase + base.toNat) idleStores

def applyPatch (env : Environment) (rsrc : ByteString) : Patch → Option ByteString
  | .found dat stores =>
    (findRsrcData rsrc 0 rsrc.size dat 0).bind fun base =>
      if base = 0 then some rsrc else storeAll rsrc base.toNat stores
  | .start stores => storeAll rsrc 0 stores
  | .idleTime => patchIdleTime env rsrc

/-- Set boot stack pointer (7.5, 7.6, 7.6.1, 8.0) -/
def bootStack : Patch :=
  .found ⟨[0x22, 0x00, 0xe4, 0x89, 0x90, 0x81, 0x22, 0x40], by decide⟩
    [(word 0 emulOpFixBootstack).from 6]

/-- Set fake handle at 0x0000 to some safe place (7.1, 7.5, 8.0) -/
def fakeHandle (env : Environment) : Patch :=
  .found ⟨[0x20, 0x78, 0x02, 0xae, 0xd1, 0xfc, 0x00, 0x01, 0x00, 0x00, 0x21, 0xc8, 0x00, 0x00],
      by decide⟩
    [words [0x207c, highWord env.scratchMemBase, lowWord env.scratchMemBase, m68kNop, m68kNop]]

/-- Don't replace Time Manager (Classic ROM, 6.0.3) -/
def classicTime603 : Patch :=
  .found ⟨[0x30, 0x3c, 0x00, 0x58, 0xa2, 0x47], by decide⟩
    [word 2 m68kNop, word 7 m68kNop, word 12 m68kNop]

/-- Don't replace Time Manager (Classic ROM, 6.0.8) -/
def classicTime608 : Patch :=
  .found ⟨[0x70, 0x58, 0xa2, 0x47], by decide⟩ [word 1 m68kNop, word 5 m68kNop, word 9 m68kNop]

/-- Trap ABC4 is initialized with absolute ROM address (7.1, 7.5, 7.6, 7.6.1, 8.0) -/
def trapAbc4 (env : Environment) : Patch :=
  .found ⟨[0x40, 0x83, 0x36, 0x10], by decide⟩
    [words [highWord (env.romBaseMac + 0x33610), lowWord (env.romBaseMac + 0x33610)]]

/-- Don't wait for VIA (Classic ROM, 6.0.8) -/
def waitVia : Patch :=
  .found ⟨[0x22, 0x78, 0x01, 0xd4, 0x10, 0x11, 0x02, 0x00, 0x00, 0x30], by decide⟩
    [(word 0 m68kNop).from 14]

/-- Don't replace ADBOp() (Classic ROM, 6.0.8) -/
def replaceAdbOp : Patch :=
  .found ⟨[0x21, 0xc0, 0x05, 0xf0], by decide⟩ [words [m68kNop, m68kNop]]

/-- Don't use PTEST instruction in BlockMove() (7.5, 7.6, 7.6.1, 8.0) -/
def blockMove : Patch :=
  .found ⟨[0x20, 0x5f, 0x22, 0x5f, 0x0c, 0x38, 0x00, 0x04, 0x01, 0x2f], by decide⟩
    [(words [emulOpBlockMove, 0x7000, m68kRts]).from 4]

/-- Don't replace Time Manager (7.0.1, 7.1, 7.5, 7.6, 7.6.1, 8.0) -/
def replaceTime : Patch :=
  .found ⟨[0x70, 0x59, 0xa2, 0x47], by decide⟩
    [(word 0 m68kNop).from 2, (word 4 m68kNop).from 2, (word 12 m68kNop).from 2]

/-- Don't write to VIA in vSoundDead() (7.0.1, 7.1, 7.5, 7.6, 7.6.1, 8.0) -/
def soundDead : Patch :=
  .found ⟨[0x20, 0x78, 0x01, 0xd4, 0x08, 0xd0, 0x00, 0x07, 0x4e, 0x75], by decide⟩
    [word 0 m68kRts]

/-- Don't replace SCSI manager (7.1, 7.5, 7.6.1, 8.0) -/
def replaceScsi : Patch :=
  .found ⟨[0x0c, 0x6f, 0x00, 0x0e, 0x00, 0x04, 0x66, 0x0c], by decide⟩
    [words [emulOpScsiDispatch, 0x2e49, m68kJmpA0]]

/-- Set audio component flags (7.5, 7.6, 7.6.1, 8.0) -/
def audioFlags (env : Environment) : Patch :=
  .start [⟨12, longBytes env.audioComponentFlags⟩]  -- componentFlags

/-- Replace audio component (7.5, 7.6, 7.6.1, 8.0) -/
def audioComponent : Patch :=
  .start [words [0x4e56, 0x0000, 0x48e7, 0x8018, 0x266e, 0x000c, 0x286e, 0x0008, emulOpAudio,
    0x2d40, 0x0010, 0x4cdf, 0x1801, 0x4e5e, 0x4e74, 0x0008]]

/-- Don't replace Microseconds (QuickTime 2.0) -/
def replaceMicroseconds : Patch :=
  .found ⟨[0x30, 0x3c, 0xa1, 0x93, 0xa2, 0x47], by decide⟩ [(word 0 m68kNop).from 4]

/-- Don't access SCC in .Infra driver -/
def infraScc : Patch :=
  .found ⟨[0x28, 0x78, 0x01, 0xd8, 0x48, 0xc7, 0x20, 0x0c, 0xd0, 0x87, 0x20, 0x40, 0x1c, 0x10],
      by decide⟩
    [(word 0 0x7a00).from 12]

/-- Disable LocalTalk (7.0.1, 7.5, 7.6, 7.6.1, 8.0) -/
def localTalk : Patch := .start [words [m68kJmpA0, 0x7000, m68kRts]]

/-- Don't access ROM85 as it it was a pointer to a ROM version number (8.0, 8.1) -/
def accessRom85 : Patch :=
  .found ⟨[0x3a, 0x2e, 0x00, 0x0a, 0x55, 0x4f, 0x3e, 0xb8, 0x02, 0x8e, 0x30, 0x1f, 0x48, 0xc0,
      0x24, 0x40, 0x20, 0x40], by decide⟩
    [(words [0x303c, 0x028e, m68kNop, m68kNop]).from 4]

def fourcc (a b c d : Char) : BitVec 32 :=
  BitVec.ofNat 8 a.toNat ++ BitVec.ofNat 8 b.toNat ++ BitVec.ofNat 8 c.toNat ++
    BitVec.ofNat 8 d.toNat

/-- The patches for a type and an ID, in the order they are made. -/
def patches (env : Environment) (type : BitVec 32) (id : BitVec 16) : List Patch :=
  if type = fourcc 'b' 'o' 'o' 't' ∧ id = 3 then [bootStack, fakeHandle env]
  else if type = fourcc 'b' 'o' 'o' 't' ∧ id = 2 then [fakeHandle env]
  else if type = fourcc 'P' 'T' 'C' 'H' ∧ id = 630 then [classicTime603, classicTime608]
  else if type = fourcc 'p' 't' 'c' 'h' ∧ id = 26 then [trapAbc4 env]
  else if type = fourcc 'p' 't' 'c' 'h' ∧ id = 34 then [waitVia, replaceAdbOp]
  else if type = fourcc 'g' 'p' 'c' 'h' ∧ id = 750 then [blockMove, .idleTime]
  else if type = fourcc 'l' 'p' 'c' 'h' ∧ id = 24 then [replaceTime]
  else if type = fourcc 'l' 'p' 'c' 'h' ∧ id = 31 then [soundDead, replaceScsi, .idleTime]
  else if type = fourcc 't' 'h' 'n' 'g' ∧ id = -16563 then [audioFlags env]
  else if type = fourcc 's' 'i' 'f' 't' ∧ id = -16563 then [audioComponent]
  else if type = fourcc 'i' 'n' 's' 't' ∧ id = -19069 then [replaceMicroseconds]
  else if type = fourcc 'D' 'R' 'V' 'R' ∧ id = -20066 then [infraScc]
  else if type = fourcc 'l' 't' 'l' 'k' ∧ id = 0 then [localTalk]
  else if type = fourcc 'D' 'R' 'V' 'R' ∧ id = 41 then [accessRom85]
  else []

/-- Resource patches via vCheckLoad; `none` where a byte is touched that is not of the resource. -/
def checkLoad (env : Environment) (type : BitVec 32) (id : BitVec 16) (rsrc : ByteString) :
    Option ByteString :=
  (patches env type id).foldlM (applyPatch env) rsrc

end BasiliskII.Rsrc
