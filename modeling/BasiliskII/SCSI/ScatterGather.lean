import BasiliskII.SCSI.Manager

/-!
# The scatter/gather table is what the transfer instruction blocks describe

`Describes` is the language of transfer instruction blocks on its own: which
transfers a block in memory describes, and at which one the table is full. The
table of `scsi_send_cmd` runs through the same addresses, and its length is
right, as long as the transfers since `SCSIGet` are shorter than 2^32 bytes.
-/
namespace BasiliskII.SCSI

open ByteMemory SegmentList StepSystem

variable {w : Nat}

/-- The instruction at `tib`. -/
structure InstructionAt (mem : Memory 32) (tib : BitVec 32) (cmd : BitVec 16)
    (ptr len : BitVec 32) : Prop where
  cmd : getWord mem tib = cmd
  ptr : getLong mem (tib + 2) = ptr
  len : getLong mem (tib + 6) = len

def segments (mac2HostAddr : BitVec 32 → BitVec w) (transfers : List Transfer) : List (Segment w) :=
  transfers.map fun t => ⟨mac2HostAddr t.ptr, t.len⟩

variable {mac2HostAddr : BitVec 32 → BitVec w}

/-- The transfers need no more entries than the table has. -/
def Fits (mac2HostAddr : BitVec 32 → BitVec w) (transfers : List Transfer) : Prop :=
  (gathered (segments mac2HostAddr transfers)).length ≤ sgTableSize

/-- Behind `earlier` transfers the block at `tib` describes these, in this order, up to its end
with `result`. Only a transfer for which the table has no entry left is refused. -/
inductive Describes (mac2HostAddr : BitVec 32 → BitVec w) :
    List Transfer → Memory 32 → BitVec 32 → List Transfer → Int → Memory 32 → Prop
  | inc {earlier mem mem' tib ptr len transfers result} (here : InstructionAt mem tib 1 ptr len)
      (fits : Fits mac2HostAddr (earlier ++ [⟨ptr, len⟩]))
      (rest : Describes mac2HostAddr (earlier ++ [⟨ptr, len⟩]) (putLong mem (tib + 2) (ptr + len))
        (tib + 10) transfers result mem') :
      Describes mac2HostAddr earlier mem tib (⟨ptr, len⟩ :: transfers) result mem'
  | incRefused {earlier mem tib ptr len} (here : InstructionAt mem tib 1 ptr len)
      (full : ¬ Fits mac2HostAddr (earlier ++ [⟨ptr, len⟩])) :
      Describes mac2HostAddr earlier mem tib [] memFullErr (putLong mem (tib + 2) (ptr + len))
  | noInc {earlier mem mem' tib ptr len transfers result} (here : InstructionAt mem tib 2 ptr len)
      (fits : Fits mac2HostAddr (earlier ++ [⟨ptr, len⟩]))
      (rest : Describes mac2HostAddr (earlier ++ [⟨ptr, len⟩]) mem (tib + 10) transfers result
        mem') :
      Describes mac2HostAddr earlier mem tib (⟨ptr, len⟩ :: transfers) result mem'
  | noIncRefused {earlier mem tib ptr len} (here : InstructionAt mem tib 2 ptr len)
      (full : ¬ Fits mac2HostAddr (earlier ++ [⟨ptr, len⟩])) :
      Describes mac2HostAddr earlier mem tib [] memFullErr mem
  | add {earlier mem mem' tib ptr len transfers result} (here : InstructionAt mem tib 3 ptr len)
      (rest : Describes mac2HostAddr earlier (putLong mem ptr (getLong mem ptr + len)) (tib + 10)
        transfers result mem') :
      Describes mac2HostAddr earlier mem tib transfers result mem'
  | move {earlier mem mem' tib ptr len transfers result} (here : InstructionAt mem tib 4 ptr len)
      (rest : Describes mac2HostAddr earlier (putLong mem len (getLong mem ptr)) (tib + 10)
        transfers result mem') :
      Describes mac2HostAddr earlier mem tib transfers result mem'
  | loop {earlier mem mem' tib ptr len transfers result} (here : InstructionAt mem tib 5 ptr len)
      (again : len ≠ 1)
      (rest : Describes mac2HostAddr earlier (putLong mem (tib + 6) (len - 1)) (tib + ptr)
        transfers result mem') :
      Describes mac2HostAddr earlier mem tib transfers result mem'
  | loopDone {earlier mem mem' tib ptr transfers result} (here : InstructionAt mem tib 5 ptr 1)
      (rest : Describes mac2HostAddr earlier (putLong mem (tib + 6) 0) (tib + 10) transfers result
        mem') :
      Describes mac2HostAddr earlier mem tib transfers result mem'
  | nop {earlier mem mem' tib ptr len transfers result} (here : InstructionAt mem tib 6 ptr len)
      (rest : Describes mac2HostAddr earlier mem (tib + 10) transfers result mem') :
      Describes mac2HostAddr earlier mem tib transfers result mem'
  | stop {earlier mem tib ptr len} (here : InstructionAt mem tib 7 ptr len) :
      Describes mac2HostAddr earlier mem tib [] 0 mem
  | comp {earlier mem tib ptr len} (here : InstructionAt mem tib 8 ptr len) :
      Describes mac2HostAddr earlier mem tib [] scCompareErr mem
  | unknown {earlier mem tib cmd ptr len} (here : InstructionAt mem tib cmd ptr len)
      (outside : cmd = 0 ∨ 8 < cmd) : Describes mac2HostAddr earlier mem tib [] scBadParmsErr mem

/-- The table and the total length after the transfers, whose lengths may add up to anything. -/
structure Gathers (mac2HostAddr : BitVec 32 → BitVec w) (transfers : List Transfer)
    (table : SgTable w) (totalLength : BitVec 32) : Prop where
  entries : table.entries = gathered (segments mac2HostAddr transfers)
  length : totalLength = BitVec.ofNat 32 (total (segments mac2HostAddr transfers))

theorem gathers_nothing (mac2HostAddr : BitVec 32 → BitVec w) :
    Gathers mac2HostAddr [] .empty 0 :=
  ⟨rfl, rfl⟩

theorem segments_append_singleton (transfers : List Transfer) (ptr len : BitVec 32) :
    segments mac2HostAddr (transfers ++ [⟨ptr, len⟩]) =
      segments mac2HostAddr transfers ++ [⟨mac2HostAddr ptr, len⟩] := by
  simp [segments]

theorem create_cases (table : SgTable w) (entry : Segment w) :
    (∃ table', table.create entry = some table' ∧ table'.entries = table.entries ++ [entry]) ∨
      table.create entry = none ∧ sgTableSize < (table.entries ++ [entry]).length := by
  unfold SgTable.create
  split
  next room => exact .inl ⟨_, rfl, rfl⟩
  next full =>
    refine .inr ⟨rfl, ?_⟩
    rw [List.length_append, List.length_singleton]
    omega

/-- A transfer is joined to the entries, unless the table has too few of them. -/
theorem add_cases (table : SgTable w) (entry : Segment w) :
    (∃ table', table.add entry = some table' ∧ table'.entries = join table.entries entry) ∨
      table.add entry = none ∧ sgTableSize < (join table.entries entry).length := by
  have created := create_cases table entry
  unfold SgTable.add
  split
  next none_yet =>
    simp only [join, none_yet]
    rwa [List.getLast?_eq_none_iff.mp none_yet] at created
  next previous last =>
    simp only [join, last]
    by_cases meet : entry.start = previous.behind
    · simp only [if_pos meet]
      exact .inl ⟨_, rfl, rfl⟩
    · simp only [if_neg meet]
      exact created

variable {transfers : List Transfer}

theorem Gathers.refused {table : SgTable w} {totalLength ptr len : BitVec 32}
    (gathers : Gathers mac2HostAddr transfers table totalLength)
    (refused : table.add ⟨mac2HostAddr ptr, len⟩ = none) :
    ¬ Fits mac2HostAddr (transfers ++ [⟨ptr, len⟩]) := by
  rcases add_cases table ⟨mac2HostAddr ptr, len⟩ with ⟨table', added, _⟩ | ⟨_, full⟩
  · cases refused.symm.trans added
  · rw [Fits, segments_append_singleton, gathered_append_singleton, ← gathers.entries]
    exact Nat.not_le.mpr full

theorem Gathers.add {table table' : SgTable w} {totalLength ptr len : BitVec 32}
    (gathers : Gathers mac2HostAddr transfers table totalLength)
    (added : table.add ⟨mac2HostAddr ptr, len⟩ = some table') :
    Gathers mac2HostAddr (transfers ++ [⟨ptr, len⟩]) table' (totalLength + len) := by
  have entries : table'.entries = join table.entries ⟨mac2HostAddr ptr, len⟩ := by
    rcases add_cases table ⟨mac2HostAddr ptr, len⟩ with ⟨table'', added', joined⟩ | ⟨refused, _⟩
    · cases added.symm.trans added'
      exact joined
    · cases refused.symm.trans added
  constructor
  · rw [segments_append_singleton, gathered_append_singleton, entries, gathers.entries]
  · rw [segments_append_singleton, total_append, total_singleton, gathers.length, BitVec.ofNat_add,
      BitVec.ofNat_toNat, BitVec.setWidth_eq]

theorem Gathers.fits {table : SgTable w} {totalLength : BitVec 32}
    (gathers : Gathers mac2HostAddr transfers table totalLength) : Fits mac2HostAddr transfers := by
  rw [Fits, ← gathers.entries]
  exact table.bounded

variable {earlier : List Transfer}

theorem addTransfer_spec {st st' : Exec w} {ptr len : BitVec 32}
    (added : st.addTransfer mac2HostAddr ptr len = some st')
    (gathers : Gathers mac2HostAddr (earlier ++ st.transfers) st.table st.totalLength) :
    st'.mem = st.mem ∧ st'.transfers = st.transfers ++ [⟨ptr, len⟩] ∧
      Gathers mac2HostAddr (earlier ++ st'.transfers) st'.table st'.totalLength := by
  obtain ⟨table, table_added, rfl⟩ := Option.map_eq_some_iff.mp added
  refine ⟨rfl, rfl, ?_⟩
  have more := gathers.add table_added
  rwa [List.append_assoc] at more

/-- What is true of `exec_tib` when it returns. -/
structure Executed (mac2HostAddr : BitVec 32 → BitVec w) (earlier : List Transfer) (st : Exec w)
    (tib : BitVec 32) (result : Int) (st' : Exec w) : Prop where
  described : ∃ transfers, st'.transfers = st.transfers ++ transfers ∧
    Describes mac2HostAddr (earlier ++ st.transfers) st.mem tib transfers result st'.mem
  gathers : Gathers mac2HostAddr (earlier ++ st'.transfers) st'.table st'.totalLength

variable {mem : Memory 32} {tib : BitVec 32} {result : Int}

theorem Executed.silent {st st' : Exec w} {next : BitVec 32}
    (executed : Executed mac2HostAddr earlier { st with mem } next result st')
    (instruction : ∀ {transfers},
      Describes mac2HostAddr (earlier ++ st.transfers) mem next transfers result st'.mem →
        Describes mac2HostAddr (earlier ++ st.transfers) st.mem tib transfers result st'.mem) :
    Executed mac2HostAddr earlier st tib result st' := by
  obtain ⟨⟨transfers, appended, rest⟩, gathers⟩ := executed
  exact ⟨⟨transfers, appended, instruction rest⟩, gathers⟩

theorem Executed.transfer {st after st' : Exec w} {next ptr len : BitVec 32}
    (executed : Executed mac2HostAddr earlier after next result st')
    (kept : after.mem = mem ∧ after.transfers = st.transfers ++ [⟨ptr, len⟩])
    (gathers : Gathers mac2HostAddr (earlier ++ after.transfers) after.table after.totalLength)
    (instruction : ∀ {transfers}, Fits mac2HostAddr (earlier ++ st.transfers ++ [⟨ptr, len⟩]) →
      Describes mac2HostAddr (earlier ++ st.transfers ++ [⟨ptr, len⟩]) mem next transfers result
          st'.mem →
        Describes mac2HostAddr (earlier ++ st.transfers) st.mem tib (⟨ptr, len⟩ :: transfers) result
          st'.mem) : Executed mac2HostAddr earlier st tib result st' := by
  obtain ⟨⟨transfers, appended, rest⟩, gathers'⟩ := executed
  have fits := gathers.fits
  rw [kept.2, ← List.append_assoc] at fits rest
  rw [kept.1] at rest
  refine ⟨⟨⟨ptr, len⟩ :: transfers, ?_, instruction fits rest⟩, gathers'⟩
  rw [appended, kept.2, List.append_assoc]
  rfl

/-- An instruction at which `exec_tib` returns. -/
theorem Executed.done {st : Exec w}
    (gathers : Gathers mac2HostAddr (earlier ++ st.transfers) st.table st.totalLength)
    (instruction : Describes mac2HostAddr (earlier ++ st.transfers) st.mem tib [] result mem) :
    Executed mac2HostAddr earlier st tib result { st with mem } :=
  ⟨⟨[], (List.append_nil _).symm, instruction⟩, gathers⟩

theorem execTib_spec (earlier : List Transfer) (fuel : Nat) {st st' : Exec w}
    (executed : execTib mac2HostAddr fuel st tib = some (result, st'))
    (gathers : Gathers mac2HostAddr (earlier ++ st.transfers) st.table st.totalLength) :
    Executed mac2HostAddr earlier st tib result st' := by
  induction fuel generalizing st tib with
  | zero => cases executed
  | succ fuel ih =>
    have ptr_at : tib + 10 - 8 = tib + 2 := by grind
    have len_at : tib + 10 - 4 = tib + 6 := by grind
    rw [execTib] at executed
    dsimp only at executed
    rw [ptr_at, len_at] at executed
    have here : ∀ cmd, getWord st.mem tib = cmd →
        InstructionAt st.mem tib cmd (getLong st.mem (tib + 2)) (getLong st.mem (tib + 6)) :=
      fun cmd cmd_at => ⟨cmd_at, rfl, rfl⟩
    generalize getLong st.mem (tib + 2) = ptr at executed here
    generalize getLong st.mem (tib + 6) = len at executed here
    split at executed
    next cmd => -- scInc
      split at executed
      next refused =>
        cases executed
        have full := gathers.refused (Option.map_eq_none_iff.mp refused)
        exact .done gathers (.incRefused (here 1 cmd) full)
      next after added =>
        obtain ⟨same_mem, appended, more⟩ := addTransfer_spec added gathers
        exact (ih executed more).transfer ⟨same_mem, appended⟩ more (.inc (here 1 cmd))
    next cmd => -- scNoInc
      split at executed
      next refused =>
        cases executed
        have full := gathers.refused (Option.map_eq_none_iff.mp refused)
        exact .done gathers (.noIncRefused (here 2 cmd) full)
      next after added =>
        obtain ⟨same_mem, appended, more⟩ := addTransfer_spec added gathers
        exact (ih executed more).transfer ⟨same_mem, appended⟩ more (.noInc (here 2 cmd))
    next cmd => exact (ih executed gathers).silent (.add (here 3 cmd))
    next cmd => exact (ih executed gathers).silent (.move (here 4 cmd))
    next cmd => -- scLoop
      split at executed
      next again =>
        have different : len ≠ 1 := by
          rintro rfl
          exact absurd again (by decide)
        have target : tib + 10 + (ptr - 10) = tib + ptr := by grind
        rw [target] at executed
        exact (ih executed gathers).silent (.loop (here 5 cmd) different)
      next finished =>
        have last : len = 1 := by bv_omega
        subst last
        exact (ih executed gathers).silent (.loopDone (here 5 cmd))
    next cmd => exact (ih executed gathers).silent (.nop (here 6 cmd))
    next cmd =>
      cases executed
      exact .done gathers (.stop (here 7 cmd))
    next cmd =>
      cases executed
      exact .done gathers (.comp (here 8 cmd))
    next not1 not2 not3 not4 not5 not6 not7 not8 =>
      have outside : getWord st.mem tib = 0 ∨ 8 < getWord st.mem tib := by
        simp only [imp_false] at not1 not2 not3 not4 not5 not6 not7 not8
        generalize getWord st.mem tib = cmd at not1 not2 not3 not4 not5 not6 not7 not8 ⊢
        clear here ptr_at len_at
        bv_omega
      cases executed
      exact .done gathers (.unknown (here _ rfl) outside)

/-- The transfers of the calls, one block after the other. -/
def transfersOf (calls : List TibCall) : List Transfer := calls.flatMap TibCall.transfers

/-- Each call has made the transfers its block describes behind those of the calls before. -/
def Described (mac2HostAddr : BitVec 32 → BitVec w) (calls : List TibCall) : Prop :=
  ∀ first call rest, calls = first ++ call :: rest →
    Describes mac2HostAddr (transfersOf first) call.before call.tib call.transfers call.result
      call.after

theorem Described.append {calls : List TibCall} {call : TibCall}
    (described : Described mac2HostAddr calls)
    (describes : Describes mac2HostAddr (transfersOf calls) call.before call.tib call.transfers
      call.result call.after) : Described mac2HostAddr (calls ++ [call]) := by
  intro first other rest split
  rcases List.eq_nil_or_concat rest with rfl | ⟨rest, last, rfl⟩
  · obtain ⟨rfl, same⟩ := List.append_inj' split rfl
    cases same
    exact describes
  · have split' : calls ++ [call] = (first ++ other :: rest) ++ [last] := by
      rw [split]
      simp
    obtain ⟨rfl, _⟩ := List.append_inj' split' rfl
    exact described first other rest rfl

/-- What every reachable state of the SCSI Manager keeps. -/
structure ManagerInvariant (mac2HostAddr : BitVec 32 → BitVec w) (st : State w) : Prop where
  described : Described mac2HostAddr st.calls
  table : st.phase ≠ .free → Gathers mac2HostAddr (transfersOf st.calls) st.table st.totalLength
  reading : st.phase ≠ .free → st.reading = st.calls.any TibCall.direction
  unsent : st.phase ≠ .free → st.sent = []
  once : st.sent.length ≤ 1
  sent : ∀ send ∈ st.sent, Gathers mac2HostAddr (transfersOf st.calls) send.table send.length ∧
    send.reading = st.calls.any TibCall.direction

theorem start_invariant (mac2HostAddr : BitVec 32 → BitVec w) (mem : Memory 32) :
    ManagerInvariant mac2HostAddr (start mem) where
  described := by simp [start, Described]
  table := by simp [start]
  reading := by simp [start]
  unsent := by simp [start]
  once := by simp [start]
  sent := by simp [start]

variable {st : State w}

theorem ManagerInvariant.congr {st' : State w} (invariant : ManagerInvariant mac2HostAddr st)
    (calls : st'.calls = st.calls) (sent : st'.sent = st.sent)
    (goes_on : st'.phase = .free ∨ st.phase ≠ .free ∧ st'.table = st.table ∧
      st'.totalLength = st.totalLength ∧ st'.reading = st.reading) :
    ManagerInvariant mac2HostAddr st' where
  described := by
    rw [calls]
    exact invariant.described
  table := by
    intro busy
    obtain ⟨was_busy, table, length, _⟩ := goes_on.resolve_left busy
    rw [calls, table, length]
    exact invariant.table was_busy
  reading := by
    intro busy
    obtain ⟨was_busy, _, _, reading⟩ := goes_on.resolve_left busy
    rw [calls, reading]
    exact invariant.reading was_busy
  unsent := by
    intro busy
    rw [sent]
    exact invariant.unsent (goes_on.resolve_left busy).1
  once := by
    rw [sent]
    exact invariant.once
  sent := by
    rw [sent, calls]
    exact invariant.sent

theorem ManagerInvariant.memory (invariant : ManagerInvariant mac2HostAddr st) (mem : Memory 32) :
    ManagerInvariant mac2HostAddr { st with mem } := by
  refine invariant.congr rfl rfl ?_
  by_cases free : st.phase = .free
  · exact .inl free
  · exact .inr ⟨free, rfl, rfl, rfl⟩

theorem scsiGet_invariant (invariant : ManagerInvariant mac2HostAddr st) :
    ManagerInvariant mac2HostAddr (scsiGet st).2 := by
  unfold scsiGet
  split
  · exact invariant
  · refine ⟨?_, fun _ => gathers_nothing mac2HostAddr, fun _ => rfl, fun _ => rfl, Nat.zero_le 1, ?_⟩
    · simp [Described]
    · simp

/-- A block is executed: its call is recorded, with what it has put in the table. -/
theorem runTib_invariant {fuel : Nat} {st' : State w} {direction : Bool}
    (invariant : ManagerInvariant mac2HostAddr st) (busy : st.phase ≠ .free)
    (ran : runTib mac2HostAddr fuel { st with reading := st.reading || direction } tib direction =
      some (result, st')) : ManagerInvariant mac2HostAddr st' := by
  obtain ⟨⟨result', ended⟩, executed, equal⟩ := Option.map_eq_some_iff.mp ran
  cases equal
  have gathers := invariant.table busy
  rw [← List.append_nil (transfersOf st.calls)] at gathers
  obtain ⟨⟨transfers, appended, describes⟩, gathers'⟩ :=
    execTib_spec (transfersOf st.calls) fuel executed gathers
  replace appended : ended.transfers = transfers := appended
  subst appended
  rw [List.append_nil] at describes
  refine ⟨invariant.described.append describes, fun _ => ?_, fun _ => ?_,
    fun _ => invariant.unsent busy, invariant.once, ?_⟩
  · simpa [transfersOf] using gathers'
  · simp [invariant.reading busy]
  · rw [invariant.unsent busy]
    simp

theorem scsiComplete_invariant (invariant : ManagerInvariant mac2HostAddr st)
    (message stat : BitVec 32) (outcome : Outcome) :
    ManagerInvariant mac2HostAddr (scsiComplete st message stat outcome).2 := by
  unfold scsiComplete
  dsimp only
  split
  · exact invariant.memory _
  next transferring =>
    have busy : st.phase ≠ .free := by
      rw [Decidable.of_not_not transferring]
      decide
    refine ⟨invariant.described, fun not_free => absurd rfl not_free,
      fun not_free => absurd rfl not_free, fun not_free => absurd rfl not_free, ?_, ?_⟩
    · simp [invariant.unsent busy]
    · simp only [invariant.unsent busy, List.nil_append, List.mem_singleton, forall_eq]
      exact ⟨invariant.table busy, invariant.reading busy⟩

theorem scsiSelect_invariant (invariant : ManagerInvariant mac2HostAddr st) (id : Int)
    (present : Bool) : ManagerInvariant mac2HostAddr (scsiSelect st id present).2 := by
  unfold scsiSelect
  split
  · exact invariant
  next arbitrated =>
    have busy : st.phase ≠ .free := by
      rw [Decidable.of_not_not arbitrated]
      decide
    dsimp only
    split <;> split
    all_goals exact invariant.congr rfl rfl (.inr ⟨busy, rfl, rfl, rfl⟩)

theorem scsiCmd_invariant (invariant : ManagerInvariant mac2HostAddr st) (cmdLength : Int)
    (targetSet : Bool) : ManagerInvariant mac2HostAddr (scsiCmd st cmdLength targetSet).2 := by
  unfold scsiCmd
  split
  · exact invariant
  next selected =>
    have busy : st.phase ≠ .free := by
      rw [Decidable.of_not_not selected]
      decide
    split
    · exact invariant
    · split
      · exact invariant.congr rfl rfl (.inl rfl)
      · exact invariant.congr rfl rfl (.inr ⟨busy, rfl, rfl, rfl⟩)

theorem step_invariant {st' : State w} {call : Call} (invariant : ManagerInvariant mac2HostAddr st)
    (stepped : step mac2HostAddr st call = some st') : ManagerInvariant mac2HostAddr st' := by
  cases call with
  | reset =>
    cases stepped
    exact invariant.congr rfl rfl (.inl rfl)
  | get =>
    cases stepped
    exact scsiGet_invariant invariant
  | select id present =>
    cases stepped
    exact scsiSelect_invariant invariant id present
  | cmd cmdLength targetSet =>
    cases stepped
    exact scsiCmd_invariant invariant cmdLength targetSet
  | read tib fuel =>
    obtain ⟨⟨result, ended⟩, read, rfl⟩ := Option.map_eq_some_iff.mp stepped
    unfold scsiRead at read
    split at read
    · cases read
      exact invariant
    next transferring =>
      have busy : st.phase ≠ .free := by
        rw [Decidable.of_not_not transferring]
        decide
      have same : { st with reading := true } = { st with reading := st.reading || true } := by simp
      rw [same] at read
      exact runTib_invariant invariant busy read
  | write tib fuel =>
    obtain ⟨⟨result, ended⟩, written, rfl⟩ := Option.map_eq_some_iff.mp stepped
    unfold scsiWrite at written
    split at written
    · cases written
      exact invariant
    next transferring =>
      have busy : st.phase ≠ .free := by
        rw [Decidable.of_not_not transferring]
        decide
      have same : st = { st with reading := st.reading || false } := by simp
      rw [same] at written
      exact runTib_invariant invariant busy written
  | complete message stat outcome =>
    cases stepped
    exact scsiComplete_invariant invariant message stat outcome
  | mac mem =>
    cases stepped
    exact invariant.memory mem

theorem reachable_invariant (reached : Reachable (step mac2HostAddr) Free (start mem) st) :
    ManagerInvariant mac2HostAddr st :=
  reached.invariant (start_invariant mac2HostAddr mem) fun _ _ _ before _ stepped =>
    step_invariant before stepped

/-- The table of `scsi_send_cmd` runs through the addresses of the transfers, and the length
passed is the sum of its lengths. -/
structure SendMatches (mac2HostAddr : BitVec 32 → BitVec w) (transfers : List Transfer)
    (send : SendCmd w) : Prop where
  addresses : addresses send.table.entries = addresses (segments mac2HostAddr transfers)
  length : send.length.toNat = total send.table.entries

theorem gathers_matches_iff {send : SendCmd w}
    (gathers : Gathers mac2HostAddr transfers send.table send.length) :
    SendMatches mac2HostAddr transfers send ↔ total (segments mac2HostAddr transfers) < 2 ^ 32 := by
  have same_total : addresses send.table.entries = addresses (segments mac2HostAddr transfers) →
      total send.table.entries = total (segments mac2HostAddr transfers) := by
    intro same
    rw [← addresses_length, same, addresses_length]
  constructor
  · rintro ⟨same, length⟩
    rw [← same_total same, ← length]
    exact send.length.isLt
  · intro short
    have same : addresses send.table.entries = addresses (segments mac2HostAddr transfers) := by
      rw [gathers.entries]
      exact (addresses_gathered _).2 short
    refine ⟨same, ?_⟩
    rw [gathers.length, BitVec.toNat_ofNat, same_total same, Nat.mod_eq_of_lt short]

/-- RAM with a transfer instruction block at 0x100: two `scNoInc` of `len` bytes, then `scStop`. -/
def blockMemory (len : BitVec 32) : Memory 32 :=
  putWord (putLong (putLong (putWord (putLong (putLong (putWord (fun _ => 0) 0x100 2) 0x102 0x1000)
    0x106 len) 0x10a 2) 0x10c (0x1000 + len)) 0x110 len) 0x114 7

def readBlock : List Call :=
  [.get, .select 0 true, .cmd 6 true, .read 0x100 4,
    .complete 0x200 0x204 ⟨true, 0, fun _ => 0⟩]

end BasiliskII.SCSI
