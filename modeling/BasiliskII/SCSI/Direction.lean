import BasiliskII.SCSI.ScatterGather

/-!
# Directions and failures of SCSI transfers

`SCSIRead` sets the flag `reading` and `SCSIGet` clears it, but `SCSIWrite` does
not, and a block that fails leaves the transfers it has described in the table.
So the command is sent with the direction and the transfers of the calls since
`SCSIGet` exactly when no write comes last after a read, and no block fails
behind a transfer of at least a byte.
-/
namespace BasiliskII.SCSI

open ByteMemory SegmentList StepSystem

variable {w : Nat} {mac2HostAddr : BitVec 32 → BitVec w}

/-- The calls that returned no error. -/
def succeeded (calls : List TibCall) : List TibCall := calls.filter fun call => call.result = 0

/-- The command has the direction of the last block executed, and its table runs through addresses
of the blocks that returned no error: through all of them, where the lengths fit. -/
structure SentFaithfully (mac2HostAddr : BitVec 32 → BitVec w) (calls : List TibCall)
    (send : SendCmd w) : Prop where
  reading : ∀ last, calls.getLast? = some last → send.reading = last.direction
  only : List.Sublist (addresses send.table.entries)
    (addresses (segments mac2HostAddr (transfersOf (succeeded calls))))
  all : total (segments mac2HostAddr (transfersOf calls)) < 2 ^ 32 →
    addresses send.table.entries =
      addresses (segments mac2HostAddr (transfersOf (succeeded calls)))

/-- The last block executed is not written behind one that was read, and a block that ends with an
error describes only empty transfers. -/
structure Unmixed (mac2HostAddr : BitVec 32 → BitVec w) (calls : List TibCall) : Prop where
  direction : ∀ last, calls.getLast? = some last → last.direction = false →
    ∀ call ∈ calls, call.direction = false
  failed : ∀ first call rest, calls = first ++ call :: rest → ∀ transfers result after,
    Describes mac2HostAddr (transfersOf first) call.before call.tib transfers result after →
      result ≠ 0 → ∀ t ∈ transfers, t.len = 0

/-! ### A block describes one list of transfers -/

variable {mem : Memory 32} {tib ptr ptr' len len' : BitVec 32} {cmd cmd' : BitVec 16}

theorem InstructionAt.unique (one : InstructionAt mem tib cmd ptr len)
    (other : InstructionAt mem tib cmd' ptr' len') : cmd = cmd' ∧ ptr = ptr' ∧ len = len' :=
  ⟨one.cmd.symm.trans other.cmd, one.ptr.symm.trans other.ptr, one.len.symm.trans other.len⟩

theorem InstructionAt.known (one : InstructionAt mem tib cmd ptr len)
    (other : InstructionAt mem tib cmd' ptr' len') (outside : cmd' = 0 ∨ 8 < cmd') :
    cmd = 0 ∨ 8 < cmd :=
  (one.unique other).1 ▸ outside

/-- The opcode tells the instruction, and the room in the table tells a refusal. -/
theorem Describes.unique {earlier first second : List Transfer} {after after' : Memory 32}
    {result result' : Int}
    (one : Describes mac2HostAddr earlier mem tib first result after)
    (other : Describes mac2HostAddr earlier mem tib second result' after') :
    first = second ∧ result = result' := by
  induction one generalizing second result' after' with
  | inc here fits _ ih | noInc here fits _ ih =>
    cases other with
    | inc here' _ rest | noInc here' _ rest =>
      obtain ⟨opcode, rfl, rfl⟩ := here.unique here'
      first | exact absurd opcode (by decide) | simp [ih rest]
    | incRefused here' full | noIncRefused here' full =>
      obtain ⟨-, rfl, rfl⟩ := here.unique here'
      exact absurd fits full
    | unknown here' outside => exact absurd (here.known here' outside) (by decide)
    | _ here' => exact absurd (here.unique here').1 (by decide)
  | incRefused here full | noIncRefused here full =>
    cases other with
    | inc here' fits | noInc here' fits =>
      obtain ⟨-, rfl, rfl⟩ := here.unique here'
      exact absurd fits full
    | incRefused | noIncRefused => exact ⟨rfl, rfl⟩
    | unknown here' outside => exact absurd (here.known here' outside) (by decide)
    | _ here' => exact absurd (here.unique here').1 (by decide)
  | add here _ ih | move here _ ih | nop here _ ih =>
    cases other with
    | add here' rest | move here' rest | nop here' rest =>
      obtain ⟨opcode, rfl, rfl⟩ := here.unique here'
      first | exact absurd opcode (by decide) | exact ih rest
    | unknown here' outside => exact absurd (here.known here' outside) (by decide)
    | _ here' => exact absurd (here.unique here').1 (by decide)
  | loop here again _ ih =>
    cases other with
    | loop here' _ rest =>
      obtain ⟨-, rfl, rfl⟩ := here.unique here'
      exact ih rest
    | loopDone here' => exact absurd (here.unique here').2.2 again
    | unknown here' outside => exact absurd (here.known here' outside) (by decide)
    | _ here' => exact absurd (here.unique here').1 (by decide)
  | loopDone here _ ih =>
    cases other with
    | loopDone here' rest =>
      obtain ⟨-, rfl, -⟩ := here.unique here'
      exact ih rest
    | loop here' again => exact absurd (here'.unique here).2.2 again
    | unknown here' outside => exact absurd (here.known here' outside) (by decide)
    | _ here' => exact absurd (here.unique here').1 (by decide)
  | stop here | comp here =>
    cases other with
    | stop here' | comp here' =>
      first | exact ⟨rfl, rfl⟩ | exact absurd (here.unique here').1 (by decide)
    | unknown here' outside => exact absurd (here.known here' outside) (by decide)
    | _ here' => exact absurd (here.unique here').1 (by decide)
  | unknown here outside =>
    cases other with
    | unknown => exact ⟨rfl, rfl⟩
    | _ here' => exact absurd (here'.known here outside) (by decide)

/-! ### The calls that failed -/

theorem total_eq_zero_iff (mac2HostAddr : BitVec 32 → BitVec w) (transfers : List Transfer) :
    total (segments mac2HostAddr transfers) = 0 ↔ ∀ t ∈ transfers, t.len = 0 := by
  rw [total, List.sum_eq_zero_iff_forall_eq_nat]
  simp [segments, ← BitVec.toNat_inj]

theorem transfersOf_cons (call : TibCall) (calls : List TibCall) :
    segments mac2HostAddr (transfersOf (call :: calls)) =
      segments mac2HostAddr call.transfers ++ segments mac2HostAddr (transfersOf calls) := by
  simp [segments, transfersOf]

theorem succeeded_cons (call : TibCall) (calls : List TibCall) :
    segments mac2HostAddr (transfersOf (succeeded (call :: calls))) =
      if call.result = 0 then
        segments mac2HostAddr call.transfers ++ segments mac2HostAddr (transfersOf (succeeded calls))
      else segments mac2HostAddr (transfersOf (succeeded calls)) := by
  by_cases well : call.result = 0
  · rw [if_pos well, ← transfersOf_cons]
    simp [succeeded, well]
  · simp [succeeded, well]

variable {calls : List TibCall}

/-- Where the blocks that failed describe only empty transfers, the others run through all the
addresses. -/
theorem succeeded_addresses
    (empty : ∀ call ∈ calls, call.result ≠ 0 → ∀ t ∈ call.transfers, t.len = 0) :
    addresses (segments mac2HostAddr (transfersOf calls)) =
      addresses (segments mac2HostAddr (transfersOf (succeeded calls))) := by
  induction calls with
  | nil => rfl
  | cons call calls ih =>
    have rest := ih fun other member => empty other (.tail _ member)
    rw [transfersOf_cons, succeeded_cons, addresses_append, rest]
    split
    · rw [addresses_append]
    next failed =>
      have nothing : addresses (segments mac2HostAddr call.transfers) = [] := by
        rw [← List.length_eq_zero_iff, addresses_length, total_eq_zero_iff]
        exact empty call (.head _) failed
      rw [nothing, List.nil_append]

theorem succeeded_total_le (mac2HostAddr : BitVec 32 → BitVec w) (calls : List TibCall) :
    total (segments mac2HostAddr (transfersOf (succeeded calls))) ≤
      total (segments mac2HostAddr (transfersOf calls)) := by
  induction calls with
  | nil => exact Nat.le_refl _
  | cons call calls ih =>
    rw [transfersOf_cons, succeeded_cons, total_append]
    split
    · rw [total_append]
      omega
    · omega

theorem empty_of_total_le
    (all : total (segments mac2HostAddr (transfersOf calls)) ≤
      total (segments mac2HostAddr (transfersOf (succeeded calls)))) :
    ∀ call ∈ calls, call.result ≠ 0 → ∀ t ∈ call.transfers, t.len = 0 := by
  induction calls with
  | nil => simp
  | cons call calls ih =>
    have fewer := succeeded_total_le mac2HostAddr calls
    rw [transfersOf_cons, succeeded_cons, total_append] at all
    intro other member failed
    rcases List.mem_cons.mp member with rfl | later
    · rw [if_neg failed] at all
      exact (total_eq_zero_iff mac2HostAddr _).mp (by omega)
    · refine ih ?_ other later failed
      split at all
      · rw [total_append] at all
        omega
      · omega

theorem Unmixed.empty (unmixed : Unmixed mac2HostAddr calls)
    (described : Described mac2HostAddr calls) :
    ∀ call ∈ calls, call.result ≠ 0 → ∀ t ∈ call.transfers, t.len = 0 := by
  intro call member
  obtain ⟨first, rest, split⟩ := List.append_of_mem member
  exact unmixed.failed first call rest split _ _ _ (described first call rest split)

/-! ### What is sent -/

theorem sent_reading_iff {reading : Bool} (flag : reading = calls.any TibCall.direction) :
    (∀ last, calls.getLast? = some last → reading = last.direction) ↔
      ∀ last, calls.getLast? = some last → last.direction = false →
        ∀ call ∈ calls, call.direction = false := by
  subst flag
  refine forall₂_congr fun last is_last => ?_
  cases direction : last.direction with
  | true => simpa using ⟨last, List.mem_of_getLast? is_last, direction⟩
  | false => simp

theorem sent_unmixed {send : SendCmd w} (described : Described mac2HostAddr calls)
    (gathers : Gathers mac2HostAddr (transfersOf calls) send.table send.length)
    (flag : send.reading = calls.any TibCall.direction) (unmixed : Unmixed mac2HostAddr calls) :
    SentFaithfully mac2HostAddr calls send := by
  have gathered := addresses_gathered (segments mac2HostAddr (transfersOf calls))
  rw [← gathers.entries, succeeded_addresses (unmixed.empty described)] at gathered
  exact ⟨(sent_reading_iff flag).mpr unmixed.direction, gathered.1, gathered.2⟩

theorem unmixed_of_sent {send : SendCmd w} (described : Described mac2HostAddr calls)
    (gathers : Gathers mac2HostAddr (transfersOf calls) send.table send.length)
    (flag : send.reading = calls.any TibCall.direction)
    (short : total (segments mac2HostAddr (transfersOf calls)) < 2 ^ 32)
    (faithful : SentFaithfully mac2HostAddr calls send) : Unmixed mac2HostAddr calls := by
  refine ⟨(sent_reading_iff flag).mp faithful.reading, ?_⟩
  have gathered := (addresses_gathered (segments mac2HostAddr (transfersOf calls))).2 short
  have lengths := faithful.only.length_le
  rw [gathers.entries, gathered, addresses_length, addresses_length] at lengths
  intro first call rest split transfers result after describes failed
  obtain ⟨rfl, rfl⟩ := describes.unique (described first call rest split)
  refine empty_of_total_le lengths call ?_ failed
  rw [split]
  exact List.mem_append_right _ (.head _)

/-- A block is read, and then one is written, in one transaction. -/
def readThenWrite : List Call :=
  [.get, .select 0 true, .cmd 6 true, .read 0x100 4, .write 0x100 4,
    .complete 0x200 0x204 ⟨true, 0, fun _ => 0⟩]

end BasiliskII.SCSI
