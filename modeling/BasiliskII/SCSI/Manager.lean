import BasiliskII.Library.ByteMemory
import BasiliskII.Library.SegmentList
import BasiliskII.Library.StepSystem

/-!
# The SCSI Manager

scsi.cpp: transfer instruction blocks fill a scatter/gather table, which
`SCSIComplete` hands to `scsi_send_cmd`. Guest memory is RAM; `mac2HostAddr`
is where it is mapped. What the host's SCSI layer answers is part of a call.
-/
namespace BasiliskII.SCSI

open ByteMemory SegmentList StepSystem

-- Error codes
def scCommErr : Int := 2
def scBadParmsErr : Int := 4
def scPhaseErr : Int := 5
def scCompareErr : Int := 6
def scMgrBusyErr : Int := 7
def scSequenceErr : Int := 8

/-- The error of `exec_tib` when the table is full. -/
def memFullErr : Int := -108

/-- Logical SCSI phases -/
inductive Phase where
  | free
  | arbitrated
  | selected
  | transfer
  deriving DecidableEq, Repr

def sgTableSize : Nat := 1024

/-- The first `sg_index` entries of `sg_ptr` and `sg_len`. -/
structure SgTable (w : Nat) where
  entries : List (Segment w)
  bounded : entries.length ≤ sgTableSize

def SgTable.empty {w : Nat} : SgTable w := ⟨[], Nat.zero_le _⟩

variable {w : Nat}

/-- A new entry; `none` when the table is full. -/
def SgTable.create (table : SgTable w) (entry : Segment w) : Option (SgTable w) :=
  if room : table.entries.length < sgTableSize then
    some ⟨table.entries ++ [entry], by rw [List.length_append]; exact room⟩
  else none

/-- Merge to the previous entry or create one. -/
def SgTable.add (table : SgTable w) (entry : Segment w) : Option (SgTable w) :=
  match last : table.entries.getLast? with
  | none => table.create entry
  | some previous =>
    if entry.start = previous.behind then
      some
        { entries := table.entries.dropLast ++ [⟨previous.start, previous.len + entry.len⟩]
          bounded := by
            have nonempty : table.entries ≠ [] := by
              rintro none_yet
              rw [none_yet] at last
              cases last
            have bounded := table.bounded
            have positive := List.length_pos_iff.mpr nonempty
            simp only [List.length_append, List.length_dropLast, List.length_singleton]
            omega }
    else table.create entry

/-- A transfer of a transfer instruction block, in Mac addresses. -/
structure Transfer where
  ptr : BitVec 32
  len : BitVec 32
  deriving DecidableEq, Repr

/-- What `exec_tib` works on; `transfers` records the ones it has put in the table. -/
structure Exec (w : Nat) where
  mem : Memory 32
  table : SgTable w
  totalLength : BitVec 32
  transfers : List Transfer

def Exec.addTransfer (mac2HostAddr : BitVec 32 → BitVec w) (st : Exec w) (ptr len : BitVec 32) :
    Option (Exec w) :=
  (st.table.add ⟨mac2HostAddr ptr, len⟩).map fun table =>
    { st with
      table
      totalLength := st.totalLength + len
      transfers := st.transfers ++ [⟨ptr, len⟩] }

/-- `exec_tib`, for at most `fuel` instructions. -/
def execTib (mac2HostAddr : BitVec 32 → BitVec w) :
    Nat → Exec w → BitVec 32 → Option (Int × Exec w)
  | 0, _, _ => none
  | fuel + 1, st, tib =>
    let cmd := getWord st.mem tib
    let ptr := getLong st.mem (tib + 2)
    let len := getLong st.mem (tib + 6)
    let tib := tib + 10
    match cmd with
    | 1 =>
      -- scInc
      let st := { st with mem := putLong st.mem (tib - 8) (ptr + len) }
      match st.addTransfer mac2HostAddr ptr len with
      | none => some (memFullErr, st)
      | some st => execTib mac2HostAddr fuel st tib
    | 2 =>
      -- scNoInc
      match st.addTransfer mac2HostAddr ptr len with
      | none => some (memFullErr, st)
      | some st => execTib mac2HostAddr fuel st tib
    | 3 =>
      -- scAdd
      let mem := putLong st.mem ptr (getLong st.mem ptr + len)
      execTib mac2HostAddr fuel { st with mem } tib
    | 4 =>
      -- scMove
      let mem := putLong st.mem len (getLong st.mem ptr)
      execTib mac2HostAddr fuel { st with mem } tib
    | 5 =>
      -- scLoop
      let mem := putLong st.mem (tib - 4) (len - 1)
      execTib mac2HostAddr fuel { st with mem } (if len - 1 > 0 then tib + (ptr - 10) else tib)
    | 6 =>
      -- scNop
      execTib mac2HostAddr fuel st tib
    | 7 =>
      -- scStop
      some (0, st)
    | 8 =>
      -- scComp
      some (scCompareErr, st)
    | _ => some (scBadParmsErr, st)

/-- A call of `SCSIRead` (`direction` is `true`) or `SCSIWrite` that executed a transfer instruction
block. -/
structure TibCall where
  direction : Bool
  before : Memory 32
  tib : BitVec 32
  transfers : List Transfer
  result : Int
  after : Memory 32

/-- The arguments of `scsi_send_cmd`. -/
structure SendCmd (w : Nat) where
  length : BitVec 32
  reading : Bool
  table : SgTable w

/-- `calls` and `sent` record what has been done since the last successful `SCSIGet`. -/
structure State (w : Nat) where
  targetId : Int
  phase : Phase
  fakeStatus : BitVec 16
  reading : Bool
  table : SgTable w
  totalLength : BitVec 32
  mem : Memory 32
  calls : List TibCall
  sent : List (SendCmd w)

def scsiReset (st : State w) : Int × State w :=
  (0, { st with phase := .free, fakeStatus := 0x0000, table := .empty, targetId := 8 })

def scsiGet (st : State w) : Int × State w :=
  if st.phase ≠ .free then (scMgrBusyErr, st)
  else
    (0,
      { st with
        phase := .arbitrated
        fakeStatus := 0x0040
        reading := false
        table := .empty
        totalLength := 0
        calls := []
        sent := [] })

/-- `present` is what `scsi_is_target_present` answers. -/
def scsiSelect (st : State w) (id : Int) (present : Bool) : Int × State w :=
  if st.phase ≠ .arbitrated then (scSequenceErr, st)
  else
    let valid := 0 ≤ id ∧ id ≤ 7
    let st := if valid then { st with targetId := id } else st
    if valid ∧ present then (0, { st with phase := .selected, fakeStatus := 0x006a })
    else (scCommErr, { st with phase := .free, fakeStatus := 0x0000 })

/-- `targetSet` is what `scsi_set_target` answers. -/
def scsiCmd (st : State w) (cmdLength : Int) (targetSet : Bool) : Int × State w :=
  if st.phase ≠ .selected then (scPhaseErr, st)
  else if cmdLength ≠ 6 ∧ cmdLength ≠ 10 ∧ cmdLength ≠ 12 then (scBadParmsErr, st)
  else if !targetSet then (scCommErr, { st with phase := .free, fakeStatus := 0x0000 })
  else (0, { st with phase := .transfer, fakeStatus := 0x006e })

def runTib (mac2HostAddr : BitVec 32 → BitVec w) (fuel : Nat) (st : State w) (tib : BitVec 32)
    (direction : Bool) : Option (Int × State w) :=
  (execTib mac2HostAddr fuel ⟨st.mem, st.table, st.totalLength, []⟩ tib).map fun (result, ended) =>
    (result,
      { st with
        table := ended.table
        totalLength := ended.totalLength
        mem := ended.mem
        calls := st.calls ++ [⟨direction, st.mem, tib, ended.transfers, result, ended.mem⟩] })

def scsiRead (mac2HostAddr : BitVec 32 → BitVec w) (fuel : Nat) (st : State w) (tib : BitVec 32) :
    Option (Int × State w) :=
  if st.phase ≠ .transfer then some (scPhaseErr, st)
  else runTib mac2HostAddr fuel { st with reading := true } tib true

def scsiWrite (mac2HostAddr : BitVec 32 → BitVec w) (fuel : Nat) (st : State w) (tib : BitVec 32) :
    Option (Int × State w) :=
  if st.phase ≠ .transfer then some (scPhaseErr, st)
  else runTib mac2HostAddr fuel st tib false

/-- What `scsi_send_cmd` does: its result, the SCSI status, and the memory with the data read. -/
structure Outcome where
  success : Bool
  scsiStat : BitVec 16
  mem : Memory 32

def scsiComplete (st : State w) (message stat : BitVec 32) (outcome : Outcome) : Int × State w :=
  let st := { st with mem := putWord st.mem message 0 }
  if st.phase ≠ .transfer then (scPhaseErr, st)
  else
    (if outcome.success then 0 else scCommErr,
      { st with
        phase := .free
        fakeStatus := 0x0000
        mem := putWord outcome.mem stat outcome.scsiStat
        sent := st.sent ++ [⟨st.totalLength, st.reading, st.table⟩] })

inductive Call where
  | reset
  | get
  | select (id : Int) (present : Bool)
  | cmd (cmdLength : Int) (targetSet : Bool)
  | read (tib : BitVec 32) (fuel : Nat)
  | write (tib : BitVec 32) (fuel : Nat)
  | complete (message stat : BitVec 32) (outcome : Outcome)
  /-- Between the calls the Mac runs. -/
  | mac (mem : Memory 32)

def step (mac2HostAddr : BitVec 32 → BitVec w) (st : State w) : Call → Option (State w)
  | .reset => some (scsiReset st).2
  | .get => some (scsiGet st).2
  | .select id present => some (scsiSelect st id present).2
  | .cmd cmdLength targetSet => some (scsiCmd st cmdLength targetSet).2
  | .read tib fuel => (scsiRead mac2HostAddr fuel st tib).map Prod.snd
  | .write tib fuel => (scsiWrite mac2HostAddr fuel st tib).map Prod.snd
  | .complete message stat outcome => some (scsiComplete st message stat outcome).2
  | .mac mem => some { st with mem }

def start (mem : Memory 32) : State w where
  targetId := 0
  phase := .free
  fakeStatus := 0
  reading := false
  table := .empty
  totalLength := 0
  mem
  calls := []
  sent := []

end BasiliskII.SCSI
