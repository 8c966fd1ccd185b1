import BasiliskII.Drives.DriveList
import Mathlib.Data.List.Nodup
import Mathlib.Tactic.Common

/-!
# Drives without a status record

When the calls that follow `DiskOpen` or `CDROMOpen` use no drive that has no status record, and
find the drive that is in the drive queue under the number they are given.
-/
namespace BasiliskII.Drives

open ByteMemory Disk StepSystem

/-- In every state that later calls reach, every call gets by with the status records there are,
and the number of a drive that was added to the queue selects this drive. -/
def OpensRight (kind : DriverKind) (host : Host) (traps : Nat → OpenTraps) (dce : BitVec 32)
    (st : DriverState) : Prop :=
  ∃ after, driverOpen kind host traps dce st = some after ∧
    ∀ calls t, Run (driverCall kind) Free after calls t →
      (∀ call, (driverCall kind t call).isSome = true) ∧
      ∀ e ∈ after.queue.drop st.queue.length,
        ∃ d, getDriveInfo t.drives e.number.toNat = some d ∧ d.status = e.status

/-- Every drive has a file and gets a status record, and there are as many free numbers. -/
def AllAllocated (traps : Nat → OpenTraps) (st : DriverState) : Prop :=
  (∀ i d, st.drives[i]? = some d → d.fh ≠ 0 ∧ (traps i).address ≠ 0) ∧
    st.drives.length ≤ FreeNumber.room (isDriveNumberFree st.queue) 0x10000

/-! ### Numbers and status records of drives -/

/-- What the later calls leave as it is. -/
def Drive.label (d : Drive) : Nat × BitVec 32 := (d.num, d.status)

def labels (drives : List Drive) : List (Nat × BitVec 32) := drives.map Drive.label

def Allocated (drives : List Drive) : Prop := ∀ l ∈ labels drives, l.2 ≠ 0

theorem getDriveInfo_label (drives : List Drive) (num : Nat) :
    (getDriveInfo drives num).map Drive.label = (labels drives).find? fun l => l.1 = num := by
  rw [labels, List.find?_map]
  rfl

theorem getDriveInfo_congr {ds ds' : List Drive} (same : labels ds' = labels ds) {num : Nat}
    {d : Drive} (found : getDriveInfo ds num = some d) :
    ∃ d', getDriveInfo ds' num = some d' ∧ d'.status = d.status := by
  have selected := getDriveInfo_label ds' num
  rw [same, ← getDriveInfo_label, found] at selected
  obtain ⟨d', found', label⟩ := Option.map_eq_some_iff.mp selected
  exact ⟨d', found', congrArg Prod.snd label⟩

variable {drives : List Drive}

theorem status_of_getElem? (allocated : Allocated drives) {i : Nat} {d : Drive}
    (here : drives[i]? = some d) : d.status ≠ 0 :=
  allocated d.label (List.mem_map_of_mem (List.mem_of_getElem? here))

section
variable {d : Drive} (allocated : d.status ≠ 0) (mem : Memory 32) (ofs : BitVec 32)
include allocated

theorem read_some : d.read mem ofs = some (mem (d.status + ofs)) := if_neg allocated

theorem write_some (v : BitVec 8) : d.write mem ofs v = some (put mem (d.status + ofs) v) :=
  if_neg allocated

theorem writeWord_some (v : BitVec 16) :
    d.writeWord mem ofs v = some (putWord mem (d.status + ofs) v) :=
  if_neg allocated

end

/-! ### Mounting -/

theorem mountDrive_label {kind : DriverKind} {f : HostDisk} {d d' : Drive} {mem mem' : Memory 32}
    (mounted : mountDrive kind f d mem = some (d', mem')) : d'.label = d.label := by
  cases kind with
  | disk =>
    unfold mountDrive mountDisk at mounted
    dsimp only at mounted
    split at mounted
    · simp only [Option.bind_eq_bind, Option.bind_eq_some_iff] at mounted
      obtain ⟨_, _, _, _, _, _, _, _, result⟩ := mounted
      cases result
      rfl
    · cases mounted
      rfl
  | cdrom =>
    unfold mountDrive mountCdrom at mounted
    dsimp only at mounted
    split at mounted
    · simp only [Option.bind_eq_bind, Option.bind_eq_some_iff] at mounted
      obtain ⟨_, _, result⟩ := mounted
      cases result
      rfl
    · cases mounted
      rfl

theorem mountDrive_some (kind : DriverKind) (f : HostDisk) {d : Drive} (allocated : d.status ≠ 0)
    (mem : Memory 32) : ∃ d' mem', mountDrive kind f d mem = some (d', mem') := by
  cases kind with
  | disk =>
    unfold mountDrive mountDisk
    dsimp only
    split
    · simp only [write_some allocated, writeWord_some allocated, Option.bind_eq_bind,
        Option.bind_some]
      exact ⟨_, _, rfl⟩
    · exact ⟨d, mem, rfl⟩
  | cdrom =>
    unfold mountDrive mountCdrom
    dsimp only
    split
    · simp only [write_some allocated, Option.bind_eq_bind, Option.bind_some]
      exact ⟨_, _, rfl⟩
    · exact ⟨d, mem, rfl⟩

theorem mountFirst_labels {kind : DriverKind} {host : Host} {fh : Nat} {mem mem' : Memory 32}
    {drives' : List Drive} {found : Bool}
    (mounted : mountFirst kind host fh mem drives = some (found, drives', mem')) :
    labels drives' = labels drives := by
  induction drives generalizing found drives' mem' with
  | nil =>
    cases mounted
    rfl
  | cons d rest ih =>
    unfold mountFirst at mounted
    split at mounted
    · simp only [Option.bind_eq_bind, Option.bind_eq_some_iff] at mounted
      obtain ⟨_, drive, result⟩ := mounted
      cases result
      exact congrArg (· :: labels rest) (mountDrive_label drive)
    · simp only [Option.bind_eq_bind, Option.bind_eq_some_iff] at mounted
      obtain ⟨_, others, result⟩ := mounted
      cases result
      exact congrArg (d.label :: ·) (ih others)

theorem mountFirst_some (kind : DriverKind) (host : Host) (fh : Nat) (mem : Memory 32)
    (allocated : Allocated drives) :
    ∃ result, mountFirst kind host fh mem drives = some result := by
  induction drives with
  | nil => exact ⟨_, rfl⟩
  | cons d rest ih =>
    unfold mountFirst
    split
    · have here : d.status ≠ 0 := allocated d.label List.mem_cons_self
      obtain ⟨d', mem', mounted⟩ := mountDrive_some kind (host fh) here mem
      exact ⟨_, by rw [mounted]; rfl⟩
    · obtain ⟨result, others⟩ := ih fun l member => allocated l (List.mem_cons_of_mem _ member)
      exact ⟨_, by rw [others]; rfl⟩

theorem mountVolume_labels {kind : DriverKind} {host : Host} {fh : Nat} {st st' : DriverState}
    {found : Bool} (mounted : mountVolume kind host fh st = some (found, st')) :
    labels st'.drives = labels st.drives := by
  simp only [mountVolume, Option.bind_eq_bind, Option.bind_eq_some_iff] at mounted
  obtain ⟨_, first, result⟩ := mounted
  cases result
  exact mountFirst_labels first

theorem mountVolume_some (kind : DriverKind) (host : Host) (fh : Nat) {st : DriverState}
    (allocated : Allocated st.drives) : ∃ result, mountVolume kind host fh st = some result := by
  obtain ⟨result, first⟩ := mountFirst_some kind host fh st.mem allocated
  exact ⟨_, by rw [mountVolume, first]; rfl⟩

theorem labels_set {i : Nat} {d d' : Drive} (here : drives[i]? = some d) (same : d'.label = d.label) :
    labels (drives.set i d') = labels drives := by
  have entry : (labels drives)[i]? = some d.label := by
    rw [labels, List.getElem?_map, here]
    rfl
  obtain ⟨inside, value⟩ := List.getElem?_eq_some_iff.mp entry
  rw [labels, List.map_set, same, ← value]
  exact List.set_getElem_self inside

section
variable {kind : DriverKind} {host : Host} {post : Nat → Memory 32 → Memory 32}

theorem checkInserted_labels {d : Drive} {st st' : DriverState}
    (checked : checkInserted kind host d st = some st') :
    labels st'.drives = labels st.drives := by
  simp only [checkInserted, Option.bind_eq_bind, Option.bind_eq_some_iff] at checked
  obtain ⟨inPlace, _, mounted⟩ := checked
  split at mounted
  · obtain ⟨⟨_, _⟩, volume, equal⟩ := Option.map_eq_some_iff.mp mounted
    cases equal
    exact mountVolume_labels volume
  · cases mounted
    rfl

theorem mountFlagged_labels (i : Nat) (st : DriverState) :
    labels (mountFlagged post i st).drives = labels st.drives := by
  unfold mountFlagged
  split
  · rfl
  next d here =>
    split
    · exact labels_set here rfl
    · rfl

theorem mountMountable_labels {st st' : DriverState} {i : Nat}
    (turn : mountMountable kind host post st i = some st') :
    labels st'.drives = labels st.drives := by
  unfold mountMountable at turn
  split at turn
  · cases turn
    rfl
  · obtain ⟨checked, result, equal⟩ := Option.map_eq_some_iff.mp turn
    rw [← equal, mountFlagged_labels, checkInserted_labels result]

theorem mountMountable_some {st : DriverState} (allocated : Allocated st.drives) (i : Nat) :
    ∃ st', mountMountable kind host post st i = some st' := by
  unfold mountMountable
  split
  · exact ⟨st, rfl⟩
  next d here =>
    obtain ⟨result, mounted⟩ := mountVolume_some kind host d.fh allocated
    have checked : ∃ st', checkInserted kind host d st = some st' := by
      rw [checkInserted, read_some (status_of_getElem? allocated here), mounted]
      simp only [Option.bind_eq_bind, Option.bind_some]
      split <;> exact ⟨_, rfl⟩
    obtain ⟨st', checked⟩ := checked
    exact ⟨mountFlagged post i st', by rw [checked]; rfl⟩

theorem mountMountable_none {st : DriverState} {i : Nat} {d : Drive} (here : st.drives[i]? = some d)
    (missing : d.status = 0) : mountMountable kind host post st i = none := by
  unfold mountMountable
  rw [here]
  have fails : d.read st.mem dsDiskInPlace = none := if_pos missing
  dsimp only
  rw [checkInserted, fails]
  rfl

theorem mountLoop_labels {st st' : DriverState} {turns : List Nat}
    (loop : turns.foldlM (mountMountable kind host post) st = some st') :
    labels st'.drives = labels st.drives := by
  induction turns generalizing st with
  | nil =>
    cases loop
    rfl
  | cons i rest ih =>
    rw [List.foldlM_cons] at loop
    obtain ⟨next, turn, others⟩ := Option.bind_eq_some_iff.mp loop
    exact (ih others).trans (mountMountable_labels turn)

theorem mountLoop_some {st : DriverState} (allocated : Allocated st.drives) (turns : List Nat) :
    ∃ st', turns.foldlM (mountMountable kind host post) st = some st' := by
  induction turns generalizing st with
  | nil => exact ⟨st, rfl⟩
  | cons i rest ih =>
    obtain ⟨next, turn⟩ := mountMountable_some allocated i
    have still : Allocated next.drives := by
      rw [Allocated, mountMountable_labels turn]
      exact allocated
    obtain ⟨st', others⟩ := ih still
    exact ⟨st', by rw [List.foldlM_cons, turn]; exact others⟩

theorem mountLoop_none {st : DriverState} {turns : List Nat} {i : Nat} (turned : i ∈ turns)
    {l : Nat × BitVec 32} (here : (labels st.drives)[i]? = some l) (missing : l.2 = 0) :
    turns.foldlM (mountMountable kind host post) st = none := by
  -- The turns before its own, if they end, leave it without a record.
  induction turns generalizing st with
  | nil => cases turned
  | cons j rest ih =>
    rw [List.foldlM_cons]
    by_cases own : j = i
    · subst own
      rw [labels, List.getElem?_map] at here
      obtain ⟨d, drive, label⟩ := Option.map_eq_some_iff.mp here
      rw [mountMountable_none drive (by rw [← missing, ← label]; rfl)]
      rfl
    · cases turn : mountMountable kind host post st j with
      | none => rfl
      | some next =>
        have later : i ∈ rest := by
          rcases List.mem_cons.mp turned with first | later
          · exact absurd first.symm own
          · exact later
        exact ih later (by rw [mountMountable_labels turn]; exact here)

end

theorem mountMountableVolumes_some (kind : DriverKind) (host : Host)
    (post : Nat → Memory 32 → Memory 32) {st : DriverState} (allocated : Allocated st.drives) :
    ∃ st', mountMountableVolumes kind host post st = some st' :=
  mountLoop_some allocated _

/-! ### Later calls -/

theorem driverCall_labels {kind : DriverKind} {st st' : DriverState} {call : DriverCall}
    (taken : driverCall kind st call = some st') : labels st'.drives = labels st.drives := by
  cases call with
  | prime pb transferred =>
    obtain ⟨⟨result, primed⟩, call, equal⟩ := Option.map_eq_some_iff.mp taken
    cases equal
    unfold prime at call
    dsimp only at call
    split at call
    · cases call
      rfl
    · simp only [Option.bind_eq_bind, Option.bind_eq_some_iff] at call
      obtain ⟨_, _, equal⟩ := call
      cases equal
      rfl
  | accRun host post dce =>
    simp only [driverCall, accRun, Option.bind_eq_bind, Option.bind_eq_some_iff] at taken
    obtain ⟨mounted, loop, equal⟩ := taken
    have same := mountLoop_labels loop
    cases equal
    exact same
  | interrupt host post =>
    simp only [driverCall, interrupt] at taken
    split at taken
    · exact mountLoop_labels taken
    · cases taken
      rfl
  | mountVolume host fh =>
    obtain ⟨⟨_, _⟩, mounted, equal⟩ := Option.map_eq_some_iff.mp taken
    cases equal
    exact mountVolume_labels mounted
  | mac mem queue =>
    cases taken
    rfl

theorem driverCall_some {st : DriverState} (allocated : Allocated st.drives) (kind : DriverKind)
    (call : DriverCall) : (driverCall kind st call).isSome = true := by
  cases call with
  | prime pb transferred =>
    rw [driverCall, Option.isSome_map, prime]
    dsimp only
    split
    · rfl
    next d found =>
      have here : d.status ≠ 0 :=
        allocated d.label (List.mem_map_of_mem (List.mem_of_find?_eq_some found))
      rw [read_some here]
      rfl
  | accRun host post dce =>
    obtain ⟨mounted, loop⟩ := mountMountableVolumes_some kind host post allocated
    rw [driverCall, accRun, loop]
    rfl
  | interrupt host post =>
    obtain ⟨mounted, loop⟩ := mountMountableVolumes_some kind host post allocated
    rw [driverCall, interrupt, loop]
    split <;> rfl
  | mountVolume host fh =>
    obtain ⟨result, mounted⟩ := mountVolume_some kind host fh allocated
    rw [driverCall, mounted]
    rfl
  | mac mem queue => rfl

/-- `accRun` uses every drive. -/
theorem accRun_none {kind : DriverKind} {host : Host} {post : Nat → Memory 32 → Memory 32}
    {dce : BitVec 32} {st : DriverState} {i : Nat} {d : Drive} (here : st.drives[i]? = some d)
    (missing : d.status = 0) : driverCall kind st (.accRun host post dce) = none := by
  have inside : i < st.drives.length := (List.getElem?_eq_some_iff.mp here).1
  have label : (labels st.drives)[i]? = some d.label := by
    rw [labels, List.getElem?_map, here]
    rfl
  rw [driverCall, accRun, mountMountableVolumes,
    mountLoop_none (List.mem_range.mpr inside) label missing]
  rfl

theorem run_labels {kind : DriverKind} {after t : DriverState} {calls : List DriverCall}
    (run : Run (driverCall kind) Free after calls t) : labels t.drives = labels after.drives :=
  run.invariant (P := fun s => labels s.drives = labels after.drives)
    (fun _ _ _ same _ taken => (driverCall_labels taken).trans same) rfl

/-! ### Opening -/

theorem setUp_some (kind : DriverKind) (f : HostDisk) {d : Drive} (allocated : d.status ≠ 0)
    (mem : Memory 32) : ∃ d' mem', setUp kind f d mem = some (d', mem') ∧ d'.label = d.label := by
  cases kind with
  | disk =>
    simp only [setUp, setUpDisk, write_some allocated, writeWord_some allocated,
      Option.bind_eq_bind, Option.bind_some]
    split <;> exact ⟨_, _, rfl, rfl⟩
  | cdrom =>
    simp only [setUp, setUpCdrom, write_some allocated, Option.bind_eq_bind, Option.bind_some]
    split <;> exact ⟨_, _, rfl, rfl⟩

section
variable (kind : DriverKind) (host : Host)

/-- A drive that gets no status record keeps its old one, but takes the free number. -/
theorem openDrive_fails {traps : OpenTraps} (queue : List QueueElement) (mem : Memory 32)
    {d : Drive} (fails : d.fh = 0 ∨ traps.address = 0) :
    ∃ d' mem', openDrive kind host traps queue mem d = some (d', queue, mem') ∧
      d'.status = d.status := by
  unfold openDrive
  dsimp only
  split
  · exact ⟨_, _, rfl, rfl⟩
  next file =>
    rw [if_pos (fails.resolve_left file)]
    exact ⟨_, _, rfl, rfl⟩

theorem openDrive_works {traps : OpenTraps} (queue : List QueueElement) (mem : Memory 32)
    {d : Drive} (file : d.fh ≠ 0) (got : traps.address ≠ 0) :
    ∃ d' mem', openDrive kind host traps queue mem d =
        some (d', queue ++ [d'.queueElement], mem') ∧
      d'.num = findFreeDriveNumber queue ∧ d'.status = traps.address := by
  unfold openDrive
  dsimp only
  rw [if_neg file, if_neg got]
  obtain ⟨d', mem', done, label⟩ := setUp_some kind (host d.fh)
    (d := ⟨findFreeDriveNumber queue, d.fh, d.numBlocks, false, d.readOnly,
      d.mountNonHfs || kind = .cdrom, traps.address⟩) got (traps.cleared mem)
  rw [done]
  exact ⟨d', _, rfl, congrArg Prod.fst label, congrArg Prod.snd label⟩

/-- Opening succeeds, and leaves the drives that it allocates nothing for as they were. -/
theorem openDrives_status (traps : Nat → OpenTraps) (i : Nat) (queue : List QueueElement)
    (mem : Memory 32) (drives : List Drive) :
    ∃ drives' queue' mem',
      openDrives kind host traps i queue mem drives = some (drives', queue', mem') ∧
      ∀ j d, drives[j]? = some d → d.fh = 0 ∨ (traps (i + j)).address = 0 →
        ∃ d', drives'[j]? = some d' ∧ d'.status = d.status := by
  -- Whether or not the first drive gets a record, the others start from some queue and memory.
  induction drives generalizing i queue mem with
  | nil => exact ⟨[], queue, mem, rfl, fun j d here => by cases here⟩
  | cons d rest ih =>
    have first : ∃ d' queue' mem', openDrive kind host (traps i) queue mem d =
        some (d', queue', mem') ∧
        (d.fh = 0 ∨ (traps i).address = 0 → d'.status = d.status) := by
      by_cases fails : d.fh = 0 ∨ (traps i).address = 0
      · obtain ⟨d', mem', opened, same⟩ := openDrive_fails kind host queue mem fails
        exact ⟨d', queue, mem', opened, fun _ => same⟩
      · rw [not_or] at fails
        obtain ⟨d', mem', opened, _⟩ := openDrive_works kind host queue mem fails.1 fails.2
        exact ⟨d', _, mem', opened, fun fails' => absurd fails' (not_or.mpr fails)⟩
    obtain ⟨d', queue', mem', opened, same⟩ := first
    obtain ⟨drives', queue'', mem'', others, keeps⟩ := ih (i + 1) queue' mem'
    refine ⟨d' :: drives', queue'', mem'', ?_, ?_⟩
    · rw [openDrives, opened]
      simp only [Option.bind_eq_bind, Option.bind_some]
      rw [others]
      rfl
    · intro j e here fails
      cases j with
      | zero =>
        cases here
        exact ⟨d', rfl, same fails⟩
      | succ j =>
        exact keeps j e here (by rwa [show i + 1 + j = i + (j + 1) by omega])

end

/-- Every drive took the first number that was free in the queue with the drives before it. -/
def Numbered : List QueueElement → List Drive → Prop
  | _, [] => True
  | queue, d :: rest =>
    d.num = findFreeDriveNumber queue ∧ Numbered (queue ++ [d.queueElement]) rest

theorem openDrives_all (kind : DriverKind) (host : Host) {traps : Nat → OpenTraps} {i : Nat}
    (queue : List QueueElement) (mem : Memory 32)
    (works : ∀ j d, drives[j]? = some d → d.fh ≠ 0 ∧ (traps (i + j)).address ≠ 0) :
    ∃ drives' mem', openDrives kind host traps i queue mem drives =
        some (drives', queue ++ drives'.map Drive.queueElement, mem') ∧
      Numbered queue drives' ∧ Allocated drives' ∧ drives'.length = drives.length := by
  induction drives generalizing i queue mem with
  | nil =>
    refine ⟨[], mem, ?_, trivial, fun l member => (by cases member), rfl⟩
    rw [List.map_nil, List.append_nil]
    rfl
  | cons d rest ih =>
    obtain ⟨file, got⟩ := works 0 d rfl
    rw [Nat.add_zero] at got
    obtain ⟨d', mem', opened, number, status⟩ := openDrive_works kind host queue mem file got
    obtain ⟨drives', mem'', others, numbered, allocated, length⟩ :=
      ih (queue ++ [d'.queueElement]) mem' fun j e here => by
        rw [show i + 1 + j = i + (j + 1) by omega]
        exact works (j + 1) e here
    refine ⟨d' :: drives', mem'', ?_, ⟨number, numbered⟩, ?_, congrArg (· + 1) length⟩
    · rw [openDrives, opened]
      simp only [Option.bind_eq_bind, Option.bind_some]
      rw [others, List.append_assoc]
      rfl
    · intro l member
      rcases List.mem_cons.mp member with rfl | member
      · have own : d'.status ≠ 0 := by
          rw [status]
          exact got
        exact own
      · exact allocated l member

/-! ### Numbers -/

variable {queue : List QueueElement}

theorem numbered_range (numbered : Numbered queue drives) :
    ∀ d ∈ drives, 1 ≤ d.num ∧ d.num ≤ 0x10000 := by
  induction drives generalizing queue with
  | nil => simp
  | cons d rest ih =>
    obtain ⟨number, others⟩ := numbered
    intro e member
    rcases List.mem_cons.mp member with rfl | member
    · obtain ⟨above, below, _⟩ := FreeNumber.search_spec (isDriveNumberFree queue) 0xffff 1
      rw [number]
      exact ⟨above, below⟩
    · exact ih others e member

theorem free_behind {d : Drive} (small : d.num < 0x10000) (n : Nat) :
    isDriveNumberFree (queue ++ [d.queueElement]) n = true ↔
      isDriveNumberFree queue n = true ∧ n ≠ d.num := by
  have number : d.queueElement.number.toNat = d.num := by
    rw [Drive.queueElement, BitVec.toNat_ofNat, Nat.mod_eq_of_lt small]
  unfold isDriveNumberFree
  rw [List.all_append, Bool.and_eq_true, List.all_cons, List.all_nil, Bool.and_true,
    decide_eq_true_eq, number]
  exact and_congr_right fun _ => ne_comm

/-- There are numbers for all drives iff there are as many free ones. -/
theorem numbered_small_iff (numbered : Numbered queue drives) :
    (∀ d ∈ drives, d.num < 0x10000) ↔
      drives.length ≤ FreeNumber.room (isDriveNumberFree queue) 0x10000 := by
  induction drives generalizing queue with
  | nil => simp
  | cons d rest ih =>
    obtain ⟨number, others⟩ := numbered
    have below : d.num < 0x10000 ↔ 0 < FreeNumber.room (isDriveNumberFree queue) 0x10000 := by
      rw [number]
      exact FreeNumber.search_lt_iff _ (show 1 ≤ 0x10000 by decide)
    rw [List.forall_mem_cons, List.length_cons]
    -- A drive with a number leaves one free number less to the others.
    by_cases small : d.num < 0x10000
    · have taken : FreeNumber.room (isDriveNumberFree (queue ++ [d.queueElement])) 0x10000 + 1 =
          FreeNumber.room (isDriveNumberFree queue) 0x10000 := by
        refine FreeNumber.room_taken _ (by decide) (below.mp small) fun n => ?_
        rw [free_behind small, number]
        rfl
      rw [ih others]
      omega
    · omega

theorem numbered_distinct (numbered : Numbered queue drives) (small : ∀ d ∈ drives, d.num < 0x10000) :
    (∀ d ∈ drives, isDriveNumberFree queue d.num = true) ∧ (drives.map Drive.num).Nodup := by
  induction drives generalizing queue with
  | nil => simp
  | cons d rest ih =>
    obtain ⟨number, others⟩ := numbered
    obtain ⟨smallFirst, smallRest⟩ := List.forall_mem_cons.mp small
    obtain ⟨free, nodup⟩ := ih others smallRest
    have first : isDriveNumberFree queue d.num = true := by
      obtain ⟨_, _, found, _⟩ := FreeNumber.search_spec (isDriveNumberFree queue) 0xffff 1
      rw [number] at smallFirst ⊢
      exact found smallFirst
    -- The later numbers were free in the queue that the first drive is in.
    refine ⟨List.forall_mem_cons.mpr ⟨first, fun e member => ?_⟩, ?_⟩
    · exact ((free_behind smallFirst _).mp (free e member)).1
    · rw [List.map_cons, List.nodup_cons]
      refine ⟨fun twice => ?_, nodup⟩
      obtain ⟨e, member, same⟩ := List.mem_map.mp twice
      exact ((free_behind smallFirst _).mp (free e member)).2 same

theorem getDriveInfo_self (nodup : (drives.map Drive.num).Nodup) {d : Drive} (member : d ∈ drives) :
    getDriveInfo drives d.num = some d := by
  cases found : getDriveInfo drives d.num with
  | none =>
    have fails := List.find?_eq_none.mp found d member
    simp at fails
  | some e =>
    have number : e.num = d.num := by simpa using List.find?_some found
    rw [List.inj_on_of_nodup_map nodup (List.mem_of_find?_eq_some found) member number]

/-! ### The whole -/

section
variable {kind : DriverKind} {host : Host} {traps : Nat → OpenTraps} {dce : BitVec 32}
  {st : DriverState}

variable (kind host dce) in
theorem driverOpen_all
    (works : ∀ i d, st.drives[i]? = some d → d.fh ≠ 0 ∧ (traps i).address ≠ 0) :
    ∃ after added, driverOpen kind host traps dce st = some after ∧
      after.queue = st.queue ++ added.map Drive.queueElement ∧ after.drives = added ∧
      Numbered st.queue added ∧ Allocated added ∧ added.length = st.drives.length := by
  obtain ⟨added, mem', result, facts⟩ := openDrives_all kind host st.queue
    (putLong st.mem (dce + dCtlPosition) 0) (i := 0) (by simpa using works)
  refine ⟨⟨added, st.queue ++ added.map Drive.queueElement, mem', false⟩, added, ?_, rfl, rfl, facts⟩
  rw [driverOpen, result]
  rfl

/-- The next `accRun` uses every drive, also one that got no status record. -/
theorem works_of_right (fresh : ∀ d ∈ st.drives, d.status = 0)
    (right : OpensRight kind host traps dce st) :
    ∀ i d, st.drives[i]? = some d → d.fh ≠ 0 ∧ (traps i).address ≠ 0 := by
  intro i d here
  by_contra fails
  rw [not_and_or, not_not, not_not] at fails
  obtain ⟨after, opened, later⟩ := right
  obtain ⟨drives', queue', mem', result, keeps⟩ := openDrives_status kind host traps 0 st.queue
    (putLong st.mem (dce + dCtlPosition) 0) st.drives
  simp only [driverOpen, result, Option.bind_eq_bind, Option.bind_some] at opened
  cases opened
  obtain ⟨d', here', status⟩ := keeps i d here (by rwa [Nat.zero_add])
  rw [fresh d (List.mem_of_getElem? here)] at status
  have safe := (later [] _ (.done _)).1 (.accRun host (fun _ mem => mem) dce)
  rw [accRun_none here' status] at safe
  cases safe

/-- A drive that finds no free number is in the queue under 0, which is the number of no drive. -/
theorem room_of_right
    (works : ∀ i d, st.drives[i]? = some d → d.fh ≠ 0 ∧ (traps i).address ≠ 0)
    (right : OpensRight kind host traps dce st) :
    st.drives.length ≤ FreeNumber.room (isDriveNumberFree st.queue) 0x10000 := by
  obtain ⟨after, opened, later⟩ := right
  obtain ⟨_, added, opened', queue, drives, numbered, _, length⟩ :=
    driverOpen_all kind host dce works
  cases opened'.symm.trans opened
  rw [← length]
  refine (numbered_small_iff numbered).mp fun d member => ?_
  obtain ⟨_, top⟩ := numbered_range numbered d member
  by_contra large
  have last : d.num = 0x10000 := by omega
  have queued : d.queueElement ∈ after.queue.drop st.queue.length := by
    rw [queue, List.drop_left]
    exact List.mem_map_of_mem member
  obtain ⟨e, found, _⟩ := (later [] _ (.done _)).2 _ queued
  have number : e.num = 0 := by
    have passes := List.find?_some found
    simpa [Drive.queueElement, last] using passes
  have listed : e ∈ added := drives ▸ List.mem_of_find?_eq_some found
  have positive := (numbered_range numbered e listed).1
  omega

/-- The later calls change neither the numbers nor the status records that all drives got. -/
theorem right_of_allocated (all : AllAllocated traps st) : OpensRight kind host traps dce st := by
  obtain ⟨works, room⟩ := all
  obtain ⟨after, added, opened, queue, drives, numbered, allocated, length⟩ :=
    driverOpen_all kind host dce works
  refine ⟨after, opened, fun calls t run => ?_⟩
  have same := run_labels run
  rw [drives] at same
  refine ⟨fun call => driverCall_some (by rw [Allocated, same]; exact allocated) kind call, ?_⟩
  intro e queued
  rw [queue, List.drop_left] at queued
  obtain ⟨d, member, rfl⟩ := List.mem_map.mp queued
  have small := (numbered_small_iff numbered).mpr (length ▸ room)
  have number : d.queueElement.number.toNat = d.num := by
    rw [Drive.queueElement, BitVec.toNat_ofNat, Nat.mod_eq_of_lt (small d member)]
  have selected := getDriveInfo_self (numbered_distinct numbered small).2 member
  rw [number]
  exact getDriveInfo_congr same selected

end

/-- The calls after opening are right exactly if every drive got its status record. -/
theorem opens_right_iff (kind : DriverKind) (host : Host) (traps : Nat → OpenTraps)
    (dce : BitVec 32) (st : DriverState) (fresh : ∀ d ∈ st.drives, d.status = 0) :
    OpensRight kind host traps dce st ↔ AllAllocated traps st := by
  constructor
  · intro right
    have works := works_of_right fresh right
    exact ⟨works, room_of_right works right⟩
  · exact right_of_allocated

/-! ### A drive that is left without a record -/

def plainDrive (fh : Nat) : Drive where
  num := 0
  fh := fh
  numBlocks := 0
  toBeMounted := false
  readOnly := false
  mountNonHfs := false
  status := 0

def emptyHost : Host := fun _ => ⟨false, false, false, false, 0⟩

/-- Every call of `NewPtrSysClear` gets a block but the first one. -/
def firstFails (i : Nat) : OpenTraps := ⟨if i = 0 then 0 else 0x2000, id, id⟩

def twoDrives : DriverState := ⟨[plainDrive 1, plainDrive 2], [], fun _ => 0, false⟩

theorem failed_drive_used :
    ¬ ∀ (kind : DriverKind) (host : Host) (traps : Nat → OpenTraps) (dce : BitVec 32)
      (st : DriverState), (∀ d ∈ st.drives, d.status = 0) → OpensRight kind host traps dce st := by
  intro all
  obtain ⟨after, opened, later⟩ := all .disk emptyHost firstFails 0x100 twoDrives (by decide)
  have safe := (later [] after (.done after)).1 (.accRun emptyHost (fun _ mem => mem) 0x100)
  have fails : ((driverOpen .disk emptyHost firstFails 0x100 twoDrives).bind fun after =>
      driverCall .disk after (.accRun emptyHost (fun _ mem => mem) 0x100)).isSome = false := by
    decide +kernel
  rw [opened, Option.bind_some, safe] at fails
  cases fails

def oneDrive : DriverState := ⟨[plainDrive 1], [], fun _ => 0, false⟩

theorem one_drive_opened :
    OpensRight .cdrom emptyHost (fun _ => ⟨0x2000, id, id⟩) 0x100 oneDrive := by
  refine (opens_right_iff .cdrom emptyHost (fun _ => ⟨0x2000, id, id⟩) 0x100 oneDrive
    (by decide)).mpr ⟨fun i d here => ⟨?_, (by decide : (0x2000 : BitVec 32) ≠ 0)⟩, ?_⟩
  · have member : d ∈ [plainDrive 1] := List.mem_of_getElem? here
    rw [List.mem_singleton.mp member]
    decide
  · refine Finset.card_pos.mpr ⟨1, ?_⟩
    rw [Finset.mem_filter, Finset.mem_Ico]
    exact ⟨by decide, rfl⟩

end BasiliskII.Drives
