import BasiliskII.Sys.HandleInvariant

/-!
# Eject and suspend

When `SysEject` closes the file of the handle it is given and of no other handle, and when
`Sys_drive_stop` and `Sys_drive_restart` visit handles that are there and leave them with the
files they had.
-/
namespace BasiliskII.Sys.HandleList

open LinkedHeap DescriptorTable StepSystem

/-- The handle lost its file; no other handle and no other descriptor changed. -/
structure Ejected (s : State) (p : Nat) (fh : FileHandle) (t : State) : Prop where
  empty : t.handle p = some { fh with fd := none }
  closed : ∀ n, fh.fd = some n → t.table n = none
  others : ∀ q, q ≠ p → t.handle q = s.handle q
  theirs : ∀ q n file, q ≠ p → s.holds q = some (n, file) → t.table n = s.table n
  foreign : ∀ n, (∀ q file, s.holds q ≠ some (n, file)) → t.table n = s.table n

/-- Ejecting this handle closes its file if it is a removable disk, and does nothing else. -/
def EjectsRight (s : State) (p : Nat) (fh : FileHandle) : Prop :=
  ∃ t, sysEject (some p) s = some t ∧ if fh.removable then Ejected s p fh t else t = s

/-- A removable disk is the current one of its kind, or neither has a file to close. -/
def EjectSafe (s : State) (p : Nat) (fh : FileHandle) : Prop :=
  fh.removable = true → s.current fh = some p ∨
    fh.fd = none ∧ ∃ q other, s.current fh = some q ∧ s.handle q = some other ∧ other.fd = none

/-- Every handle that was opened is still there. -/
def NoneClosed (s : State) : Prop := ∀ p < s.heap.fresh, (s.heap.cell p).isSome = true

/-- The descriptor of the handle is open for this file, in this mode. -/
def OpenAs (s : State) (p : Nat) (file : OpenFile) : Prop :=
  ∃ n x, s.holds p = some (n, x) ∧ s.table n = some file

/-- Stopping and restarting the drives leaves each handle open on the file it was open on. -/
def Resumes (host : Host) (s : State) : Prop :=
  ∃ t u, driveStop s = some t ∧ driveRestart host t = some u ∧
    ∀ p file, OpenAs s p file ↔ OpenAs u p file

/-- The host opens again what the handles have open. -/
def Reopens (host : Host) (s : State) : Prop :=
  ∀ p n file, s.holds p = some (n, file) → ∀ table, (host.grant table file).isSome = true

/-! ### Ejecting -/

theorem handle_eq_some {s : State} {p : Nat} {fh : FileHandle} (found : s.handle p = some fh) :
    ∃ c, s.heap.cell p = some c ∧ c.val = fh := Option.map_eq_some_iff.mp found

theorem handle_modify (s : State) (q : Nat) (f : FileHandle → FileHandle) (p : Nat) :
    ((s.heap.modify q fun c => { c with val := f c.val }).cell p).map Cell.val =
      if p = q then (s.handle p).map f else s.handle p := by
  split
  next same =>
    rw [same, Heap.modify_cell_self, State.handle, Option.map_map, Option.map_map]
    rfl
  next other => rw [Heap.modify_cell_of_ne s.heap _ other, State.handle]

theorem holds_of_handle {s : State} {p n : Nat} {fh : FileHandle} (found : s.handle p = some fh)
    (fd : fh.fd = some n) : s.holds p = some (n, fh.file) := by
  obtain ⟨c, cell, rfl⟩ := handle_eq_some found
  rw [State.holds, Function.comp_apply, cell]
  simp [held, fd]

/-- The current drive loses its file, and nothing else happens. -/
theorem closeCurrent_handle {current : Option Nat} {s t : State}
    (closed : closeCurrent current s = some t) :
    ∃ q other, current = some q ∧ s.handle q = some other ∧
      t.table = s.table.closeAny other.fd ∧ t.handle q = some { other with fd := none } ∧
      ∀ p, p ≠ q → t.handle p = s.handle p := by
  obtain ⟨q, c, here, found, ⟨fd, same⟩ | ⟨n, fd, rfl⟩⟩ := closeCurrent_spec closed
  · subst t
    have handle : s.handle q = some c.val := by rw [State.handle, found, Option.map_some]
    refine ⟨q, c.val, here, handle, by rw [fd]; rfl, ?_, fun _ _ => rfl⟩
    rw [handle, ← fd]
  · have handle : s.handle q = some c.val := by rw [State.handle, found, Option.map_some]
    have after := handle_modify s q fun fh => { fh with fd := none }
    refine ⟨q, c.val, here, handle, by rw [fd]; rfl, ?_, fun p other => ?_⟩
    · refine (after q).trans ?_
      rw [if_pos rfl, handle, Option.map_some]
    · exact (after p).trans (if_neg other)

theorem closeCurrent_isSome {s : State} {q : Nat} {other : FileHandle}
    (here : s.handle q = some other) : ∃ t, closeCurrent (some q) s = some t := by
  obtain ⟨c, found, rfl⟩ := handle_eq_some here
  rw [closeCurrent, Option.bind_eq_bind, Option.bind_some, found, Option.bind_eq_bind,
    Option.bind_some]
  cases c.val.fd with
  | none => exact ⟨_, rfl⟩
  | some n => exact ⟨_, rfl⟩

section
variable {s t : State} {p : Nat} {fh : FileHandle}

/-- The handle that lost its file is the one that was to be ejected. -/
theorem ejected_current (valid : s.Valid) (found : s.handle p = some fh)
    (closed : closeCurrent (some p) s = some t) : Ejected s p fh t := by
  obtain ⟨_, _, same, here, table, empty, others⟩ := closeCurrent_handle closed
  cases same
  cases here.symm.trans found
  refine ⟨empty, ?_, others, ?_, ?_⟩
  · intro n fd
    rw [table, fd]
    exact Table.close_self ..
  · intro q n file other theirs
    rw [table]
    cases fd : fh.fd with
    | none => rfl
    | some m => exact valid.apart.close_other (holds_of_handle found fd) other theirs
  · intro n nobody
    rw [table]
    cases fd : fh.fd with
    | none => rfl
    | some m =>
      refine Table.close_of_ne s.table ?_
      rintro rfl
      exact nobody p fh.file (holds_of_handle found fd)

theorem ejected_neither {q : Nat} {other : FileHandle} (found : s.handle p = some fh)
    (empty : fh.fd = none) (here : s.handle q = some other) (nothing : other.fd = none)
    (closed : closeCurrent (some q) s = some t) : Ejected s p fh t := by
  obtain ⟨_, _, same, again, table, lost, others⟩ := closeCurrent_handle closed
  cases same
  cases again.symm.trans here
  rw [nothing] at table
  have unchanged (r : Nat) : t.handle r = s.handle r := by
    by_cases same : r = q
    · rw [same, lost, here, ← nothing]
    · exact others r same
  refine ⟨?_, ?_, fun r _ => unchanged r, fun _ n _ _ _ => ?_, fun n _ => ?_⟩
  · rw [unchanged p, found, ← empty]
  · intro n fd
    cases empty.symm.trans fd
  all_goals rw [table, Table.closeAny]

theorem neither_of_ejected {q : Nat} {other : FileHandle} (found : s.handle p = some fh)
    (here : s.handle q = some other) (different : p ≠ q)
    (closed : closeCurrent (some q) s = some t) (ejected : Ejected s p fh t) :
    fh.fd = none ∧ other.fd = none := by
  obtain ⟨_, _, same, again, _, lost, others⟩ := closeCurrent_handle closed
  cases same
  cases again.symm.trans here
  have mine := (others p different).symm.trans ejected.empty
  have theirs := (ejected.others q different.symm).symm.trans lost
  rw [found] at mine
  rw [here] at theirs
  exact ⟨congrArg FileHandle.fd (Option.some.inj mine),
    congrArg FileHandle.fd (Option.some.inj theirs)⟩

theorem Ejected.note {u : State} (ejected : Ejected s p fh t) (heap : u.heap = t.heap)
    (table : u.table = t.table) : Ejected s p fh u := by
  have handle : u.handle = t.handle := by
    funext q
    rw [State.handle, heap, State.handle]
  exact ⟨handle ▸ ejected.empty, table ▸ ejected.closed, handle ▸ ejected.others,
    table ▸ ejected.theirs, table ▸ ejected.foreign⟩

theorem ejectsRight_iff (valid : s.Valid) (found : s.handle p = some fh) :
    EjectsRight s p fh ↔ EjectSafe s p fh := by
  obtain ⟨c, cell, rfl⟩ := handle_eq_some found
  unfold EjectsRight EjectSafe
  cases removable : c.val.removable with
  | false =>
    rw [sysEject_fixed cell removable]
    simp
  | true =>
    obtain ⟨floppy, cdrom, result⟩ := sysEject_removable cell removable
    simp only [if_true, forall_const, result]
    constructor
    · rintro ⟨u, done, ejected⟩
      -- Some handle was current; if it is another one, nothing may have happened to either.
      obtain ⟨t, closed, rfl⟩ := Option.map_eq_some_iff.mp done
      obtain ⟨q, other, current, here, _⟩ := closeCurrent_handle closed
      by_cases same : p = q
      · exact .inl (same ▸ current)
      · rw [current] at closed
        obtain ⟨empty, nothing⟩ := neither_of_ejected found here same closed
          (ejected.note rfl rfl)
        exact .inr ⟨empty, q, other, current, here, nothing⟩
    · rintro (current | ⟨empty, q, other, current, here, nothing⟩)
      · rw [current]
        obtain ⟨t, closed⟩ := closeCurrent_isSome found
        refine ⟨_, congrArg (Option.map _) closed, ?_⟩
        exact (ejected_current valid found closed).note rfl rfl
      · rw [current]
        obtain ⟨t, closed⟩ := closeCurrent_isSome here
        refine ⟨_, congrArg (Option.map _) closed, ?_⟩
        exact (ejected_neither found empty here nothing closed).note rfl rfl

end

/-! ### Stopping and restarting -/

theorem driveStop_isSome {s : State} (valid : s.Valid) :
    (driveStop s).isSome = true ↔ NoneClosed s := by
  rw [driveStop, Option.isSome_map, valid.head]
  exact driveStopFrom_isSome valid.linked (Nat.le_refl _) s.table

theorem driveRestartFrom_isSome (host : Host) {s : State} (linked : Linked s.heap) {n fuel : Nat}
    (enough : n ≤ fuel) : (driveRestartFrom host fuel (before n) s).isSome = true ↔
      ∀ p < n, (s.heap.cell p).isSome = true := by
  -- The turns before leave all handles where they are.
  induction n generalizing fuel s with
  | zero => simp [before, driveRestartFrom]
  | succ n ih =>
    obtain ⟨fuel, rfl⟩ : ∃ rest, fuel = rest + 1 := ⟨fuel - 1, by omega⟩
    rw [before, driveRestartFrom, Nat.forall_lt_succ_right]
    cases found : s.heap.cell n with
    | none => simp
    | some c =>
      have next := linked.next found
      have one := restartHandle_eq host n (linked.noToc found) s
      obtain ⟨linked, _, _, _, _, there⟩ := restartHandle_spec linked found one
      rw [Option.bind_eq_bind, Option.bind_some, one, Option.bind_eq_bind, Option.bind_some, next,
        ih linked (by omega)]
      simp only [there, Option.isSome_some, and_true]

theorem driveRestart_isSome (host : Host) {s : State} (valid : s.Valid) :
    (driveRestart host s).isSome = true ↔ NoneClosed s := by
  rw [driveRestart, valid.head]
  exact driveRestartFrom_isSome host valid.linked (Nat.le_refl _)

/-- The files the handles have descriptors for. -/
def SameFiles (s t : State) : Prop :=
  ∀ p, (s.holds p).map Prod.snd = (t.holds p).map Prod.snd

theorem reopen_asked {host : Host} {table : Table OpenFile} {fd : Option Nat} {file : OpenFile}
    (given : fd.isSome = true → (host.grant table file).isSome = true) :
    (reopen host table fd file).1.isSome = fd.isSome := by
  unfold reopen
  cases fd with
  | none => rfl
  | some n =>
    obtain ⟨m, grant⟩ := Option.isSome_iff_exists.mp (given rfl)
    simp [Opener.apply, grant]

theorem map_const_congr {a b : Option Nat} (same : a.isSome = b.isSome) (file : OpenFile) :
    (a.map fun _ => file) = b.map fun _ => file := by
  cases a with
  | none => rw [Option.isSome_eq_false_iff.mp same.symm |> Option.isNone_iff_eq_none.mp]
  | some _ =>
    obtain ⟨_, rfl⟩ := Option.isSome_iff_exists.mp same.symm
    rfl

theorem Reopens.congr {host : Host} {s t : State} (reopens : Reopens host s)
    (same : SameFiles s t) : Reopens host t := by
  intro p n file held
  have asked := same p
  rw [held] at asked
  obtain ⟨⟨m, _⟩, before, rfl⟩ := Option.map_eq_some_iff.mp asked
  exact reopens p m _ before

theorem restartHandle_files {host : Host} {n : Nat} {s t : State} {c : Cell FileHandle}
    (linked : Linked s.heap) (reopens : Reopens host s) (found : s.heap.cell n = some c)
    (restarted : restartHandle host n c.val s = some t) : SameFiles s t := by
  obtain ⟨_, _, holds, _⟩ := restartHandle_spec linked found restarted
  have mine : s.holds n = c.val.fd.map fun m => (m, c.val.file) := by
    rw [State.holds, Function.comp_apply, found]
    rfl
  intro p
  rw [holds]
  by_cases same : p = n
  · have asked : (reopen host s.table c.val.fd c.val.file).1.isSome = c.val.fd.isSome := by
      refine reopen_asked fun some_fd => ?_
      obtain ⟨m, fd⟩ := Option.isSome_iff_exists.mp some_fd
      rw [fd] at mine
      exact reopens n m c.val.file mine s.table
    rw [same, Function.update_self, mine, Option.map_map, Option.map_map]
    exact map_const_congr asked.symm c.val.file
  · rw [Function.update_of_ne same]

theorem driveRestartFrom_files {host : Host} {n fuel : Nat} {s t : State} (linked : Linked s.heap)
    (reopens : Reopens host s) (restarted : driveRestartFrom host fuel (before n) s = some t) :
    SameFiles s t := by
  induction n generalizing fuel s with
  | zero =>
    rw [before, driveRestartFrom] at restarted
    cases restarted
    exact fun _ => rfl
  | succ n ih =>
    cases fuel with
    | zero => cases restarted
    | succ fuel =>
      obtain ⟨c, found, rest⟩ := Option.bind_eq_some_iff.mp restarted
      obtain ⟨u, one, others⟩ := Option.bind_eq_some_iff.mp rest
      rw [linked.next found] at others
      have first := restartHandle_files linked reopens found one
      obtain ⟨linked, _⟩ := restartHandle_spec linked found one
      exact fun p => (first p).trans (ih linked (reopens.congr first) others p)

theorem openAs_iff {s : State} (running : s.Running) {p : Nat} {file : OpenFile} :
    OpenAs s p file ↔ (s.holds p).map Prod.snd = some file := by
  rw [Option.map_eq_some_iff]
  constructor
  · rintro ⟨n, x, held, isOpen⟩
    have same : x = file := Option.some.inj ((running p n x held).symm.trans isOpen)
    exact ⟨(n, x), held, same⟩
  · rintro ⟨⟨n, x⟩, held, rfl⟩
    exact ⟨n, x, held, running p n x held⟩

theorem resumes_iff {host : Host} {s : State} (valid : s.Valid) (all : NoneClosed s)
    (reopens : Reopens host s) : Resumes host s ↔ s.Running := by
  obtain ⟨t, stopped⟩ := Option.isSome_iff_exists.mp ((driveStop_isSome valid).mpr all)
  obtain ⟨heap, _⟩ := driveStop_heap stopped
  have valid' := driveStop_valid valid stopped
  have holds : t.holds = s.holds := by rw [State.holds, heap, State.holds]
  have all' : NoneClosed t := by rwa [NoneClosed, heap]
  have reopens' : Reopens host t := by rwa [Reopens, holds]
  obtain ⟨u, restarted⟩ :=
    Option.isSome_iff_exists.mp ((driveRestart_isSome host valid').mpr all')
  obtain ⟨_, running⟩ := driveRestart_valid valid' restarted
  have files : SameFiles s u := by
    have after := restarted
    rw [driveRestart, valid'.head] at after
    intro p
    rw [← holds]
    exact driveRestartFrom_files valid'.linked reopens' after p
  constructor
  · rintro ⟨_, _, stopped', restarted', same⟩
    -- What a descriptor is held for is open afterwards, so it was open before.
    cases stopped.symm.trans stopped'
    cases restarted.symm.trans restarted'
    intro p n file held
    have later : OpenAs u p file := by
      rw [openAs_iff running, ← files p, held, Option.map_some]
    obtain ⟨_, _, held', isOpen⟩ := (same p file).mpr later
    cases held.symm.trans held'
    exact isOpen
  · intro before
    refine ⟨t, u, stopped, restarted, fun p file => ?_⟩
    rw [openAs_iff before, openAs_iff running, files p]

/-- Whatever was opened and whatever was called since: ejecting a handle is right iff the handle
is the current one of its kind, or nothing is there to close; the drives can be stopped and
restarted iff no handle was closed; and this brings back what was open iff the drives were not
stopped already. -/
theorem eject_and_suspend {table : Table OpenFile} {requests : List Request} {s₀ s : State}
    {calls : List Call} (opened : openAll requests (State.start table) = some s₀)
    (run : Run step Free s₀ calls s) :
    (∀ p fh, s.handle p = some fh → (EjectsRight s p fh ↔ EjectSafe s p fh)) ∧
      ((driveStop s).isSome = true ↔ NoneClosed s) ∧
      (∀ host, (driveRestart host s).isSome = true ↔ NoneClosed s) ∧
      (NoneClosed s → ∀ host, Reopens host s → (Resumes host s ↔ s.Running)) := by
  obtain ⟨valid₀, running₀⟩ := start_valid table
  have valid : s.Valid := run.invariant (fun _ _ _ valid _ taken => step_valid valid taken)
    (openAll_valid valid₀ running₀ opened).1
  exact ⟨fun p fh found => ejectsRight_iff valid found, driveStop_isSome valid,
    fun host => driveRestart_isSome host valid, fun all host => resumes_iff valid all⟩

/-- Two floppies that are opened for reading and writing. -/
def twoFloppies : Option State :=
  openAll [⟨Opener.lowest, 737280, ascii "a.dsk", false⟩,
    ⟨Opener.lowest, 737280, ascii "b.dsk", false⟩] (State.start Table.empty)

/-- Ejecting the second floppy is right, and the drives can be stopped and restarted again. -/
theorem second_floppy_ejected :
    ∃ s₀ s fh, twoFloppies = some s₀ ∧
      Run step Free s₀ [.driveStop, .driveRestart Opener.lowest] s ∧
      s.handle 1 = some fh ∧ EjectsRight s 1 fh ∧ Resumes Opener.lowest s := by
  have values : (twoFloppies.bind fun s₀ => (driveStop s₀).bind fun t =>
      (driveRestart Opener.lowest t).bind fun s => (s.handle 1).map fun fh =>
        (s.current fh, (driveStop s).isSome)) = some (some 1, true) := by
    decide +kernel
  obtain ⟨s₀, opened, rest⟩ := Option.bind_eq_some_iff.mp values
  obtain ⟨t, stopped, rest⟩ := Option.bind_eq_some_iff.mp rest
  obtain ⟨s, restarted, rest⟩ := Option.bind_eq_some_iff.mp rest
  obtain ⟨fh, found, result⟩ := Option.map_eq_some_iff.mp rest
  obtain ⟨current, stops⟩ := Prod.mk.inj result
  have run : Run step Free s₀ [.driveStop, .driveRestart Opener.lowest] s :=
    .next trivial stopped (.next trivial restarted (.done s))
  obtain ⟨eject, stop, _, resume⟩ := eject_and_suspend opened run
  obtain ⟨valid₀, running₀⟩ := start_valid Table.empty
  have valid := driveStop_valid (openAll_valid valid₀ running₀ opened).1 stopped
  refine ⟨s₀, s, fh, opened, run, found, (eject 1 fh found).mpr fun _ => .inl current, ?_⟩
  have reopens : Reopens Opener.lowest s := fun _ _ file _ table => Opener.lowest_isSome table file
  exact (resume (stop.mp stops) _ reopens).mpr (driveRestart_valid valid restarted).2

/-- Ejecting the first floppy leaves it open, and once it is closed the drives can not be
stopped. -/
theorem first_floppy_not_ejected :
    ∃ s, twoFloppies = some s ∧ (∃ fh, s.handle 0 = some fh ∧ ¬ EjectsRight s 0 fh) ∧
      ∃ t, sysClose (some 0) s = some t ∧ driveStop t = none := by
  have values : (twoFloppies.bind fun s => (s.handle 0).bind fun fh =>
      (sysEject (some 0) s).bind fun t => (t.handle 0).bind fun fh' =>
        (sysClose (some 0) s).map fun u =>
          (fh.removable, fh'.fd, (driveStop u).isNone)) = some (true, some 0, true) := by
    decide +kernel
  obtain ⟨s, opened, rest⟩ := Option.bind_eq_some_iff.mp values
  obtain ⟨fh, found, rest⟩ := Option.bind_eq_some_iff.mp rest
  obtain ⟨t, ejected, rest⟩ := Option.bind_eq_some_iff.mp rest
  obtain ⟨fh', after, rest⟩ := Option.bind_eq_some_iff.mp rest
  obtain ⟨u, closed, result⟩ := Option.map_eq_some_iff.mp rest
  simp only [Prod.mk.injEq] at result
  obtain ⟨removable, fd, stopped⟩ := result
  refine ⟨s, opened, ⟨fh, found, ?_⟩, u, closed, Option.isNone_iff_eq_none.mp stopped⟩
  rintro ⟨t', ejected', right⟩
  cases ejected.symm.trans ejected'
  rw [if_pos removable] at right
  cases after.symm.trans right.empty
  cases fd

end BasiliskII.Sys.HandleList
