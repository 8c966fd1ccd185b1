import BasiliskII.ExtFS.Operations

/-!
# Reading and writing an open file

`fs_read` and `fs_write` of extfs.cpp, from the FCB that the guest's FSM has
found for the file. The host answers the seek and the transfer; `errno` is what
it is when the transfer is over, left over from an earlier call unless the
transfer has failed. The guest's buffer is taken to lie apart from the
parameter block and the FCB.
-/
namespace BasiliskII.ExtFS

def fnOpnErr : Int := -38

def eofErr : Int := -39

def posErr : Int := -40

def rfNumErr : Int := -51

/-- The fields of a file control block that ExtFS uses; the host's descriptor is `fcbCatPos`. -/
structure FCB where
  fcbFlNm : BitVec 32
  fcbFlags : BitVec 8
  fcbEOF : BitVec 32
  fcbPLen : BitVec 32
  fcbCrPs : BitVec 32
  fcbVPtr : BitVec 32
  fcbClmpSize : BitVec 32
  fcbFType : BitVec 32
  fcbCatPos : BitVec 32
  fcbDirID : BitVec 32
  fcbCName : List UInt8
  deriving DecidableEq, Repr

def fcbResourceMask : BitVec 8 := 0x02

/-- An open resource fork that the host has no file for has no descriptor. -/
def FCB.isResource (file : FCB) : Bool := file.fcbFlags &&& fcbResourceMask ≠ 0

structure IOParam where
  ioActCount : BitVec 32
  ioReqCount : BitVec 32
  ioPosMode : BitVec 16
  ioPosOffset : BitVec 32
  deriving DecidableEq, Repr

inductive Whence where
  | set | cur | fromEnd
  deriving DecidableEq, Repr

/-- What the host makes of a transfer of `length` bytes. -/
structure HostTransfer (length : Nat) where
  actual : Int
  errno : Errno
  lower : -1 ≤ actual
  upper : actual ≤ length
  -- A call that fails sets `errno`.
  failure : actual < 0 → errno ≠ .zero

structure FileHost where
  lseek : Int → Whence → Int
  transfer : (length : Nat) → HostTransfer length
  /-- `lseek(fd, 0, SEEK_CUR)` behind the transfer -/
  position : Int

/-- Whether the seek succeeds; `fsAtMark` does without. -/
def seek (host : FileHost) (pb : IOParam) : Bool :=
  match (pb.ioPosMode &&& 3).toNat with
  | 1 => 0 ≤ host.lseek pb.ioPosOffset.toNat .set
  | 2 => 0 ≤ host.lseek pb.ioPosOffset.toInt .fromEnd
  | 3 => 0 ≤ host.lseek pb.ioPosOffset.toInt .cur
  | _ => true

structure Reply where
  result : Int
  pb : IOParam
  fcb : Option FCB
  deriving DecidableEq, Repr

/-- The shape `fs_read` and `fs_write` share: `pseudo` stands for the resource fork that is not
there, and `incomplete` gives the result of a transfer that did not do all. -/
def fsTransfer (pseudo : IOParam → Int × BitVec 32) (incomplete : Int → Errno → Int)
    (host : FileHost) (fcb : Option FCB) (pb : IOParam) : Reply :=
  -- Check parameters
  if pb.ioReqCount.toInt < 0 then ⟨paramErr, pb, fcb⟩
  else
    match fcb with
    | none => ⟨rfNumErr, pb, none⟩
    | some file =>
      if file.fcbFlNm = 0 then ⟨fnOpnErr, pb, fcb⟩
      else if file.fcbCatPos.toInt < 0 then
        -- A "pseudo" resource fork, or no host file at all.
        if file.isResource then
          let (result, actual) := pseudo pb
          ⟨result, { pb with ioActCount := actual }, fcb⟩
        else ⟨fnOpnErr, pb, fcb⟩
      else if !seek host pb then ⟨posErr, pb, fcb⟩
      else
        let t := host.transfer pb.ioReqCount.toNat
        let pos := BitVec.ofInt 32 host.position
        let result :=
          if t.actual ≠ pb.ioReqCount.toNat then incomplete t.actual t.errno else noErr
        let actual := BitVec.ofInt 32 (if 0 ≤ t.actual then t.actual else 0)
        ⟨result, { pb with ioActCount := actual, ioPosOffset := pos },
          some { file with fcbCrPs := pos }⟩

def fsRead : FileHost → Option FCB → IOParam → Reply :=
  fsTransfer (fun _ => (eofErr, 0)) fun actual errno =>
    if actual < 0 then errno2oserr errno else eofErr

def fsWrite : FileHost → Option FCB → IOParam → Reply :=
  fsTransfer (fun pb => (noErr, pb.ioReqCount)) fun _ errno => errno2oserr errno

/-- The checks before the transfer pass. -/
structure Ready (host : FileHost) (file : FCB) (pb : IOParam) : Prop where
  count : 0 ≤ pb.ioReqCount.toInt
  inUse : file.fcbFlNm ≠ 0
  descriptor : 0 ≤ file.fcbCatPos.toInt
  sought : seek host pb

/-- The transfer that a call makes. -/
def FileHost.outcome (host : FileHost) (pb : IOParam) : HostTransfer pb.ioReqCount.toNat :=
  host.transfer pb.ioReqCount.toNat

/-- `noErr` says that all was written. -/
def WriteTruthful (host : FileHost) (file : FCB) (pb : IOParam) : Prop :=
  let reply := fsWrite host (some file) pb
  reply.result = noErr ↔ reply.pb.ioActCount = reply.pb.ioReqCount

/-- `noErr` says that all was read, `eofErr` follows a short read and an error a failed one. -/
def ReadTruthful (host : FileHost) (file : FCB) (pb : IOParam) : Prop :=
  let reply := fsRead host (some file) pb
  let actual := (host.outcome pb).actual
  (reply.result = noErr ↔ reply.pb.ioActCount = reply.pb.ioReqCount) ∧
    (0 ≤ actual → actual < pb.ioReqCount.toNat → reply.result = eofErr) ∧
    (actual < 0 → reply.result ≠ noErr)

/-- The transfer of no bytes at all failed. -/
def FailedEmpty (host : FileHost) (pb : IOParam) : Prop :=
  (host.outcome pb).actual < 0 ∧ pb.ioReqCount = 0

/-- The transfer stopped short, and no earlier call has left an `errno`. -/
def ShortUnnoticed (host : FileHost) (pb : IOParam) : Prop :=
  (0 ≤ (host.outcome pb).actual ∧ (host.outcome pb).actual < pb.ioReqCount.toNat) ∧
    (host.outcome pb).errno = .zero

theorem errno2oserr_eq_noErr_iff (errno : Errno) : errno2oserr errno = noErr ↔ errno = .zero := by
  cases errno <;> decide

variable {host : FileHost} {file : FCB} {pb : IOParam}

/-- A call whose checks pass gives the result and the count of its transfer. -/
theorem fsTransfer_ready (pseudo : IOParam → Int × BitVec 32) (incomplete : Int → Errno → Int)
    (ready : Ready host file pb) : let reply := fsTransfer pseudo incomplete host (some file) pb
    let t := host.outcome pb
    reply.result = (if t.actual = pb.ioReqCount.toNat then noErr else incomplete t.actual t.errno) ∧
      reply.pb.ioActCount = BitVec.ofInt 32 (if 0 ≤ t.actual then t.actual else 0) ∧
      reply.pb.ioReqCount = pb.ioReqCount := by
  have count := Int.not_lt.mpr ready.count
  have inUse : ¬ file.fcbFlNm = 0#32 := ready.inUse
  have descriptor := Int.not_lt.mpr ready.descriptor
  simp [fsTransfer, count, inUse, descriptor, ready.sought, FileHost.outcome]
  exact ⟨rfl, rfl⟩

/-- The count is the requested one when all was transferred, or when nothing was to be. -/
theorem ioActCount_eq_iff (host : FileHost) (pb : IOParam) :
    BitVec.ofInt 32 (if 0 ≤ (host.outcome pb).actual then (host.outcome pb).actual else 0) =
        pb.ioReqCount ↔
      (host.outcome pb).actual = pb.ioReqCount.toNat ∨ FailedEmpty host pb := by
  have upper := (host.outcome pb).upper
  have width := pb.ioReqCount.isLt
  have none_requested : pb.ioReqCount = 0 ↔ pb.ioReqCount.toNat = 0 := by simp [BitVec.toNat_eq]
  unfold FailedEmpty
  rw [none_requested, BitVec.toNat_eq, BitVec.toNat_ofInt]
  by_cases done : 0 ≤ (host.outcome pb).actual
  · rw [if_pos done]
    omega
  · rw [if_neg done]
    omega

/-- `fs_write` tells the truth unless a short write finds `errno` clear, or a write of nothing
fails. -/
theorem writeTruthful_iff (ready : Ready host file pb) :
    WriteTruthful host file pb ↔ ¬ ShortUnnoticed host pb ∧ ¬ FailedEmpty host pb := by
  obtain ⟨result, act, req⟩ := fsTransfer_ready (fun pb => (noErr, pb.ioReqCount))
    (fun _ errno => errno2oserr errno) ready
  have upper := (host.outcome pb).upper
  have failure := (host.outcome pb).failure
  unfold WriteTruthful fsWrite
  dsimp only at result act req ⊢
  rw [result, act, req, ioActCount_eq_iff]
  by_cases all : (host.outcome pb).actual = pb.ioReqCount.toNat
  · have notFailed : ¬ FailedEmpty host pb := fun ⟨negative, _⟩ => by omega
    have notShort : ¬ ShortUnnoticed host pb := fun ⟨⟨_, less⟩, _⟩ => by omega
    simp [all, notFailed, notShort]
  · rw [if_neg all, errno2oserr_eq_noErr_iff]
    by_cases empty : FailedEmpty host pb
    · simp [empty, failure empty.1]
    · simp only [all, empty, or_self, iff_false, not_false_eq_true, and_true]
      -- A transfer that did not do all has failed or has stopped short.
      refine not_congr ⟨fun clear => ⟨⟨?_, by omega⟩, clear⟩, fun short => short.2⟩
      exact Int.not_lt.mp fun negative => failure negative clear

theorem readTruthful_iff (ready : Ready host file pb) :
    ReadTruthful host file pb ↔ ¬ FailedEmpty host pb := by
  obtain ⟨result, act, req⟩ := fsTransfer_ready (fun _ => (eofErr, 0))
    (fun actual errno => if actual < 0 then errno2oserr errno else eofErr) ready
  have upper := (host.outcome pb).upper
  have failure := (host.outcome pb).failure
  unfold ReadTruthful fsRead
  dsimp only at result act req ⊢
  rw [result, act, req, ioActCount_eq_iff]
  by_cases all : (host.outcome pb).actual = pb.ioReqCount.toNat
  · have notFailed : ¬ FailedEmpty host pb := fun ⟨negative, _⟩ => by omega
    simp only [all, if_true, true_or, notFailed, not_false_eq_true, iff_true, true_and]
    exact ⟨fun _ less => by omega, fun negative => by omega⟩
  · rw [if_neg all]
    by_cases negative : (host.outcome pb).actual < 0
    · have wrong : errno2oserr (host.outcome pb).errno ≠ noErr := fun clear =>
        failure negative ((errno2oserr_eq_noErr_iff _).mp clear)
      rw [if_pos negative]
      simp only [all, false_or, wrong, false_iff, ne_eq, not_false_eq_true, implies_true, and_true]
      exact ⟨fun truthful => truthful.1, fun notFailed => ⟨notFailed, fun low => by omega⟩⟩
    · have notFailed : ¬ FailedEmpty host pb := fun ⟨low, _⟩ => negative low
      have wrong : eofErr ≠ noErr := by decide
      simp only [if_neg negative, all, false_or, notFailed, wrong, not_false_eq_true,
        iff_true, implies_true, true_and]
      exact fun low => absurd low negative

/-- When the two calls report their transfers as they were. -/
theorem transfers_truthful_iff (host : FileHost) (file : FCB) (pb : IOParam)
    (ready : Ready host file pb) :
    (WriteTruthful host file pb ↔ ¬ ShortUnnoticed host pb ∧ ¬ FailedEmpty host pb) ∧
      (ReadTruthful host file pb ↔ ¬ FailedEmpty host pb) :=
  ⟨writeTruthful_iff ready, readTruthful_iff ready⟩

/-- A host that transfers two bytes of any four. -/
def shortHost (errno : Errno) : FileHost where
  lseek _ _ := 0
  transfer length :=
    { actual := if length = 4 then 2 else length
      errno
      lower := by split <;> omega
      upper := by split <;> omega
      failure := fun negative => by split at negative <;> omega }
  position := 2

def openFile : FCB where
  fcbFlNm := 16
  fcbFlags := 1
  fcbEOF := 0
  fcbPLen := 0x4000
  fcbCrPs := 0
  fcbVPtr := 0x8000
  fcbClmpSize := 0x4000
  fcbFType := 0
  fcbCatPos := 3
  fcbDirID := 2
  fcbCName := [1, 97]

def fourBytes : IOParam := ⟨0, 4, 1, 0⟩

theorem fourBytes_ready (errno : Errno) : Ready (shortHost errno) openFile fourBytes :=
  ⟨by decide, by decide, by decide, by simp [seek, shortHost, fourBytes]⟩

theorem transfers_truthful_no_space :
    (WriteTruthful (shortHost .nospc) openFile fourBytes ↔
        ¬ ShortUnnoticed (shortHost .nospc) fourBytes ∧
          ¬ FailedEmpty (shortHost .nospc) fourBytes) ∧
      (ReadTruthful (shortHost .nospc) openFile fourBytes ↔
        ¬ FailedEmpty (shortHost .nospc) fourBytes) :=
  transfers_truthful_iff _ _ _ (fourBytes_ready .nospc)

/-- Two of four bytes are written, and the guest is told that all is well. -/
theorem short_write_unnoticed :
    ¬ ∀ (host : FileHost) (file : FCB) (pb : IOParam), Ready host file pb →
      WriteTruthful host file pb ∧ ReadTruthful host file pb := by
  intro claim
  have truthful := (claim _ _ _ (fourBytes_ready .zero)).1
  have done : (fsWrite (shortHost .zero) (some openFile) fourBytes).result = noErr := by decide
  exact absurd (truthful.mp done) (by decide)

end BasiliskII.ExtFS
