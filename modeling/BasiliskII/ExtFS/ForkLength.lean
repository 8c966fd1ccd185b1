import BasiliskII.ExtFS.CatRecord
import BasiliskII.ExtFS.Transfer
import BasiliskII.Library.BlockRound

/-!
# Logical and physical lengths

`fs_open`, `fs_get_eof`, `fs_set_eof` and `fs_get_cat_info` give the guest the
size of a fork in 32 bits, and beside it the physical length: the size up to
the next allocation block. Both are computed in `uint32`.
-/
namespace BasiliskII.ExtFS

open BlockRound

inductive OpenFlag where
  | rdonly | wronly | rdwr
  deriving DecidableEq, Repr

def CLUMP_SIZE : BitVec 32 := 0x4000

def fcbWriteMask : BitVec 8 := 0x01

/-- Convert `ioPermssn` to an `open` flag; `write_ok` is always set. -/
def openFlag (ioPermssn : BitVec 8) : OpenFlag :=
  match ioPermssn.toNat with
  | 0 => .rdwr    -- fsCurPerm
  | 1 => .rdonly  -- fsRdPerm
  | 2 => .wronly  -- fsWrPerm
  | _ => .rdwr

/-- What the host and the guest's FSM answer while a file is opened. -/
structure OpenHost where
  /-- `access(full_path, F_OK) == 0` -/
  access : Bool
  openFork : OpenFlag → Except Errno (BitVec 32)
  /-- `st_size` of the open file -/
  fstat : Except Errno Nat
  /-- `UTAllocateFCB` -/
  allocateFCB : Int
  /-- The file type in the Finder information. -/
  fdType : BitVec 32

/-- Try to open and stat the file; the descriptor and the size. -/
def openAndStat (host : OpenHost) (flag : OpenFlag) (resourceFork : Bool) :
    Except Int (BitVec 32 × Nat) :=
  if resourceFork ∧ !host.access then .error fnfErr
  else
    match host.openFork flag with
    | .ok fd =>
      match host.fstat with
      | .ok size => .ok (fd, size)
      | .error errno => .error (errno2oserr errno)
    | .error errno =>
      -- Resource fork not supported, silently ignore it ("pseudo" resource fork)
      if resourceFork then .ok (-1, 0) else .error (errno2oserr errno)

/-- `fs_open` when the item has been found. -/
def fsOpen (host : OpenHost) (fsItem : FSItem) (vcb : BitVec 32) (ioPermssn : BitVec 8)
    (resourceFork : Bool) : Except Int FCB :=
  let flag := openFlag ioPermssn
  match openAndStat host flag resourceFork with
  | .error result => .error result
  | .ok (fd, size) =>
    if host.allocateFCB ≠ 0 then .error host.allocateFCB
    else
      let file_size := BitVec.ofNat 32 size
      .ok
        { fcbFlNm := BitVec.ofNat 32 fsItem.id
          fcbFlags := (if flag = .rdonly then 0 else fcbWriteMask) |||
            (if resourceFork then fcbResourceMask else 0)
          fcbEOF := file_size
          fcbPLen := physicalLength file_size
          fcbCrPs := 0
          fcbVPtr := vcb
          fcbClmpSize := CLUMP_SIZE
          fcbFType := host.fdType
          fcbCatPos := fd
          fcbDirID := BitVec.ofNat 32 fsItem.parentId
          fcbCName := cstr2pstr fsItem.guestName }

/-- The result, the `ioMisc` that is written, if any, and the FCB. -/
structure EofReply where
  result : Int
  ioMisc : Option (BitVec 32)
  fcb : Option FCB

/-- The checks that `fs_get_eof` and `fs_set_eof` share; `pseudo` is what they answer for the
resource fork that is not there. -/
def withOpenFile (fcb : Option FCB) (pseudo : Option (BitVec 32)) (k : FCB → EofReply) :
    EofReply :=
  match fcb with
  | none => ⟨rfNumErr, none, none⟩
  | some file =>
    if file.fcbFlNm = 0 then ⟨fnOpnErr, none, fcb⟩
    else if file.fcbCatPos.toInt < 0 then
      if file.isResource then ⟨noErr, pseudo, fcb⟩ else ⟨fnOpnErr, none, fcb⟩
    else k file

def FCB.setSize (file : FCB) (size : BitVec 32) : FCB :=
  { file with fcbEOF := size, fcbPLen := physicalLength size }

def fsGetEof (fstat : Except Errno Nat) (fcb : Option FCB) : EofReply :=
  withOpenFile fcb (some 0) fun file =>
    match fstat with
    | .error errno => ⟨errno2oserr errno, none, fcb⟩
    | .ok size =>
      let file_size := BitVec.ofNat 32 size
      ⟨noErr, some file_size, some (file.setSize file_size)⟩

def fsSetEof (ftruncate : Option Errno) (ioMisc : BitVec 32) (fcb : Option FCB) : EofReply :=
  withOpenFile fcb none fun file =>
    match ftruncate with
    | some errno => ⟨errno2oserr errno, none, fcb⟩
    | none => ⟨noErr, none, some (file.setSize ioMisc)⟩

/-- The size of the resource fork of a file, if it has one. -/
def rsrcSize (host : CatHost) (path : CString) : Nat := (host.rsrcEnd path).elim 0 Int.toNat

/-- One of the calls writes the two lengths for a fork that has `size` bytes on the host. -/
inductive Writes : Nat → BitVec 32 → BitVec 32 → Prop
  | openFork {host : OpenHost} {fsItem : FSItem} {vcb fd : BitVec 32} {ioPermssn : BitVec 8}
      {resourceFork : Bool} {size : Nat} {file : FCB} :
      openAndStat host (openFlag ioPermssn) resourceFork = .ok (fd, size) →
      fsOpen host fsItem vcb ioPermssn resourceFork = .ok file →
      Writes size file.fcbEOF file.fcbPLen
  | getEof {size : Nat} {before file : FCB} {ioMisc : BitVec 32} :
      0 ≤ before.fcbCatPos.toInt →
      fsGetEof (.ok size) (some before) = ⟨noErr, some ioMisc, some file⟩ →
      Writes size ioMisc file.fcbPLen
  | setEof {size : BitVec 32} {before file : FCB} :
      0 ≤ before.fcbCatPos.toInt →
      fsSetEof none size (some before) = ⟨noErr, none, some file⟩ →
      Writes size.toNat file.fcbEOF file.fcbPLen
  | dataFork {host : CatHost} {t : FSTable} {caches after : Caches} {fsItem : Nat} {path : CString}
      {dirIndex : Int} {record : CatRecord} {st : Stat} {lengths : ForkLengths} :
      fillCatInfo host t caches fsItem path dirIndex = (after, .ok record) →
      host.stat path = .ok st → record.lengths = some lengths →
      Writes st.size lengths.ioFlLgLen lengths.ioFlPyLen
  | resourceFork {host : CatHost} {t : FSTable} {caches after : Caches} {fsItem : Nat}
      {path : CString} {dirIndex : Int} {record : CatRecord} {lengths : ForkLengths} :
      fillCatInfo host t caches fsItem path dirIndex = (after, .ok record) →
      record.lengths = some lengths →
      Writes (rsrcSize host path) lengths.ioFlRLgLen lengths.ioFlRPyLen

/-- The logical length is the size, and the physical one whole blocks that hold it. -/
structure Faithful (size : Nat) (logical physical : BitVec 32) : Prop where
  exact_size : logical.toNat = size
  blocks : size < 2 ^ 32 → AL_BLK_SIZE.toNat ∣ physical.toNat
  covers : size < 2 ^ 32 → logical.toNat ≤ physical.toNat
  some_block : size < 2 ^ 32 → physical ≠ 0

theorem physicalLength_eq (size : BitVec 32) : physicalLength size = nextBlock 14 size := rfl

theorem getRforkSize_eq (host : CatHost) (path : CString) :
    getRforkSize host path = BitVec.ofNat 32 (rsrcSize host path) := by
  unfold getRforkSize rsrcSize
  cases host.rsrcEnd path with
  | none => rfl
  | some size =>
    simp only [Option.elim_some]
    split
    next negative =>
      rw [Int.toNat_of_nonpos (Int.le_of_lt negative)]
      rfl
    next positive =>
      rw [← BitVec.ofInt_natCast, Int.toNat_of_nonneg (Int.not_lt.mp positive)]

/-- A record that has the lengths of the forks has them from the host. -/
theorem fillCatInfo_lengths {host : CatHost} {t : FSTable} {caches after : Caches} {fsItem : Nat}
    {path : CString} {dirIndex : Int} {record : CatRecord} {lengths : ForkLengths}
    (filled : fillCatInfo host t caches fsItem path dirIndex = (after, .ok record))
    (present : record.lengths = some lengths) :
    ∃ st, host.stat path = .ok st ∧ lengths = forkLengths host path st := by
  unfold fillCatInfo at filled
  split at filled
  · cases filled
  next st found =>
    split at filled
    · cases filled
    · dsimp only at filled
      split at filled
      · cases filled
        cases present
      · cases filled
        cases present
        exact ⟨st, found, rfl⟩

/-- A file with a descriptor passes the checks, unless its FCB is not in use. -/
theorem withOpenFile_eq {before : FCB} {pseudo : Option (BitVec 32)} {k : FCB → EofReply}
    {reply : EofReply} (descriptor : 0 ≤ before.fcbCatPos.toInt)
    (result : withOpenFile (some before) pseudo k = reply) (success : reply.result = noErr) :
    k before = reply := by
  unfold withOpenFile at result
  dsimp only at result
  rw [if_neg (Int.not_lt.mpr descriptor)] at result
  split at result
  · have wrong : fnOpnErr ≠ noErr := by decide
    subst result
    exact absurd success wrong
  · exact result

theorem Writes.lengths_eq {size : Nat} {logical physical : BitVec 32}
    (written : Writes size logical physical) :
    logical = BitVec.ofNat 32 size ∧ physical = physicalLength logical := by
  cases written with
  | openFork opened result =>
    simp only [fsOpen, opened] at result
    split at result
    · cases result
    · cases result
      exact ⟨rfl, rfl⟩
  | getEof descriptor result =>
    cases withOpenFile_eq descriptor result rfl
    exact ⟨rfl, rfl⟩
  | setEof descriptor result =>
    cases withOpenFile_eq descriptor result rfl
    exact ⟨by simp [FCB.setSize], rfl⟩
  | dataFork filled found present =>
    obtain ⟨st, found', rfl⟩ := fillCatInfo_lengths filled present
    cases found.symm.trans found'
    exact ⟨rfl, rfl⟩
  | resourceFork filled present =>
    obtain ⟨st, _, rfl⟩ := fillCatInfo_lengths filled present
    exact ⟨getRforkSize_eq _ _, rfl⟩

/-- Below the last allocation block of the number range, and only there, the physical length is
larger than the size. -/
theorem physicalLength_cases (size : BitVec 32) :
    (size.toNat < 0xffffc000 ∧ size.toNat < (physicalLength size).toNat) ∨
      (0xffffc000 ≤ size.toNat ∧ physicalLength size = 0) := by
  have within : 14 ≤ 32 := by decide
  rw [physicalLength_eq]
  exact nextBlock_cases within size

theorem dvd_physicalLength (size : BitVec 32) :
    AL_BLK_SIZE.toNat ∣ (physicalLength size).toNat := by
  have within : 14 ≤ 32 := by decide
  rw [physicalLength_eq]
  exact dvd_nextBlock within

/-- The lengths are right for every size below the last allocation block of the number range. -/
theorem faithful_lengths_iff {size : Nat} {logical physical : BitVec 32}
    (written : Writes size logical physical) :
    Faithful size logical physical ↔ size < 0xffffc000 := by
  obtain ⟨rfl, rfl⟩ := written.lengths_eq
  have alternatives := physicalLength_cases (BitVec.ofNat 32 size)
  have modulo : (BitVec.ofNat 32 size).toNat = size % 2 ^ 32 := BitVec.toNat_ofNat _ _
  constructor
  · intro faithful
    have exact_size := faithful.exact_size
    rcases alternatives with ⟨below, _⟩ | ⟨_, zero⟩
    · omega
    · exact absurd zero (faithful.some_block (by omega))
  · intro small
    have exact_size : (BitVec.ofNat 32 size).toNat = size := by omega
    obtain ⟨_, larger⟩ := alternatives.resolve_right fun ⟨last, _⟩ => by omega
    refine ⟨exact_size, fun _ => dvd_physicalLength _, fun _ => Nat.le_of_lt larger, ?_⟩
    intro _ zero
    rw [zero] at larger
    exact absurd larger (Nat.not_lt_zero _)

/-- A file of the given size that can be opened. -/
def hostWith (size : Nat) : OpenHost where
  access := true
  openFork _ := .ok 3
  fstat := .ok size
  allocateFCB := 0
  fdType := 0

/-- Opening its data fork for reading. -/
theorem hostWith_writes (size : Nat) :
    Writes size (BitVec.ofNat 32 size) (physicalLength (BitVec.ofNat 32 size)) :=
  @Writes.openFork (hostWith size) nullItem 0 3 1 false size _ rfl rfl

theorem faithful_lengths_one_byte :
    Faithful 1 (BitVec.ofNat 32 1) (physicalLength (BitVec.ofNat 32 1)) ↔ 1 < 0xffffc000 :=
  faithful_lengths_iff (hostWith_writes 1)

/-- A file that reaches into the last block has no physical length. -/
theorem last_block_wraps :
    ¬ ∀ (size : Nat) (logical physical : BitVec 32), Writes size logical physical →
      Faithful size logical physical := by
  intro claim
  have faithful := claim _ _ _ (hostWith_writes 0xffffc000)
  exact faithful.some_block (by decide) (by decide)

end BasiliskII.ExtFS
