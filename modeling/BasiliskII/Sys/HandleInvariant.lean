import BasiliskII.Sys.HandleList

/-!
# What all calls keep of the file handles

The handles are listed from the last to the first, whether they were deleted or not, and no two
of them ever have the same descriptor, whether it is open or not.
-/
namespace BasiliskII.Sys.HandleList

open LinkedHeap DescriptorTable StepSystem

/-- The descriptor in a cell of the heap, and what it was opened for. -/
def held (c : Option (Cell FileHandle)) : Option (Nat × OpenFile) :=
  c.bind fun c => c.val.fd.map fun n => (n, c.val.file)

def State.holds (s : State) : Holds Nat OpenFile := held ∘ s.heap.cell

/-- Every descriptor of a handle is open, for the file of this handle. -/
def State.Running (s : State) : Prop := Installed s.table s.holds

/-- The handle that was opened before the handle `n`. -/
def before : Nat → Option Nat
  | 0 => none
  | n + 1 => some n

/-- Each handle points to the one opened before it, and none has a file for its contents. -/
structure Linked (heap : Heap FileHandle) : Prop where
  next : ∀ {p c}, heap.cell p = some c → c.next = before p
  noToc : ∀ {p c}, heap.cell p = some c → c.val.tocFd = none

structure State.Valid (s : State) : Prop where
  head : s.fhList = before s.heap.fresh
  linked : Linked s.heap
  apart : Apart s.holds

/-! ### The heap -/

namespace Linked

variable {heap : Heap FileHandle}

theorem alloc (linked : Linked heap) {fh : FileHandle} {next : Option Nat}
    (head : next = before heap.fresh) (noToc : fh.tocFd = none) :
    Linked (heap.alloc ⟨fh, next⟩) := by
  -- A cell is the new one, or was there before.
  have old {p : Nat} {c : Cell FileHandle} (found : (heap.alloc ⟨fh, next⟩).cell p = some c) :
      (p = heap.fresh ∧ c = ⟨fh, next⟩) ∨ heap.cell p = some c := by
    by_cases new : p = heap.fresh
    · rw [new, Heap.alloc_cell_fresh] at found
      exact .inl ⟨new, (Option.some.inj found).symm⟩
    · rw [Heap.alloc_cell_of_ne heap _ new] at found
      exact .inr found
  constructor
  · intro p c found
    rcases old found with ⟨rfl, rfl⟩ | found
    · exact head
    · exact linked.next found
  · intro p c found
    rcases old found with ⟨rfl, rfl⟩ | found
    · exact noToc
    · exact linked.noToc found

theorem free (linked : Linked heap) (q : Nat) : Linked (heap.free q) := by
  have old {p : Nat} {c : Cell FileHandle} (found : (heap.free q).cell p = some c) :
      heap.cell p = some c := by
    by_cases same : p = q
    · rw [same, Heap.free_cell_self] at found
      cases found
    · rwa [Heap.free_cell_of_ne heap same] at found
  exact ⟨fun found => linked.next (old found), fun found => linked.noToc (old found)⟩

theorem assign (linked : Linked heap) (q : Nat) (f : FileHandle → FileHandle)
    (noToc : ∀ fh, fh.tocFd = none → (f fh).tocFd = none) :
    Linked (heap.modify q fun c => { c with val := f c.val }) := by
  have old {p : Nat} {c : Cell FileHandle}
      (found : (heap.modify q fun c => { c with val := f c.val }).cell p = some c) :
      ∃ c', heap.cell p = some c' ∧ c.next = c'.next ∧ (c.val = c'.val ∨ c.val = f c'.val) := by
    by_cases same : p = q
    · rw [same, Heap.modify_cell_self] at found
      obtain ⟨c', earlier, rfl⟩ := Option.map_eq_some_iff.mp found
      exact ⟨c', same ▸ earlier, rfl, .inr rfl⟩
    · rw [Heap.modify_cell_of_ne heap _ same] at found
      exact ⟨c, found, rfl, .inl rfl⟩
  constructor
  · intro p c found
    obtain ⟨c', earlier, next, _⟩ := old found
    exact next.trans (linked.next earlier)
  · intro p c found
    obtain ⟨c', earlier, _, val | val⟩ := old found
    · rw [val]
      exact linked.noToc earlier
    · rw [val]
      exact noToc _ (linked.noToc earlier)

end Linked

section
variable (heap : Heap FileHandle)

theorem held_alloc (c : Cell FileHandle) : held ∘ (heap.alloc c).cell =
    Function.update (held ∘ heap.cell) heap.fresh (held (some c)) :=
  Function.comp_update ..

theorem held_free (q : Nat) :
    held ∘ (heap.free q).cell = Function.update (held ∘ heap.cell) q none :=
  Function.comp_update ..

theorem held_modify {q : Nat} {c : Cell FileHandle} (found : heap.cell q = some c)
    (f : Cell FileHandle → Cell FileHandle) : held ∘ (heap.modify q f).cell =
    Function.update (held ∘ heap.cell) q (held (some (f c))) := by
  have cell : held (some (f c)) = held ((heap.cell q).map f) := by rw [found, Option.map_some]
  rw [cell]
  exact Function.comp_update ..

end

/-! ### Opening -/

section
variable {s : State} (valid : s.Valid) (running : s.Running) {fh : FileHandle}
  (noToc : fh.tocFd = none)
include valid running noToc

theorem link_empty (empty : fh.fd = none) : (s.link fh).Valid ∧ (s.link fh).Running := by
  have holds : (s.link fh).holds = Function.update s.holds s.heap.fresh none := by
    have cell : held (some ⟨fh, s.fhList⟩) = none := by simp [held, empty]
    rw [← cell]
    exact held_alloc s.heap _
  refine ⟨⟨rfl, valid.linked.alloc valid.head noToc, ?_⟩, ?_⟩
  · rw [holds]
    exact valid.apart.drop _
  · rw [State.Running, holds]
    exact running.drop _

theorem link_opened {n : Nat} (opened : fh.fd = some n) (unused : s.table n = none) :
    let t := { s with table := s.table.install n fh.file }.link fh
    t.Valid ∧ t.Running := by
  intro t
  have holds : t.holds = Function.update s.holds s.heap.fresh (some (n, fh.file)) := by
    have cell : held (some ⟨fh, s.fhList⟩) = some (n, fh.file) := by simp [held, opened]
    rw [← cell]
    exact held_alloc s.heap _
  refine ⟨⟨rfl, valid.linked.alloc valid.head noToc, ?_⟩, ?_⟩
  · rw [holds]
    exact valid.apart.take running unused
  · rw [State.Running, holds]
    exact running.take unused

end

/-- The file is not opened, or it is opened as the handle will say. -/
theorem openFile_cases (host : Host) (table : Table OpenFile) (name : CString) (readOnly : Bool) :
    (∃ readOnly', openFile host table name readOnly = (none, readOnly', table)) ∨
      ∃ n readOnly', table n = none ∧ openFile host table name readOnly =
        (some n, readOnly', table.install n ⟨name, openMode readOnly'⟩) := by
  unfold openFile
  rcases host.apply_cases table ⟨name, openMode readOnly⟩ with
    ⟨_, refused⟩ | ⟨n, _, unused, given⟩
  · rw [refused]
    cases readOnly with
    | true => exact .inl ⟨_, rfl⟩
    | false =>
      -- The second try is for reading only.
      rcases host.apply_cases table ⟨name, .readOnly⟩ with ⟨_, refused⟩ | ⟨n, _, unused, given⟩
      · simp only [Bool.not_false, if_true, refused]
        exact .inl ⟨true, rfl⟩
      · simp only [Bool.not_false, if_true, given]
        exact .inr ⟨n, true, unused, rfl⟩
  · rw [given]
    exact .inr ⟨n, readOnly, unused, rfl⟩

theorem sysOpen_valid {r : Request} {s t : State} {fh : Option Nat} (valid : s.Valid)
    (running : s.Running) (opened : sysOpen r s = some (fh, t)) : t.Valid ∧ t.Running := by
  unfold sysOpen at opened
  dsimp only at opened
  split at opened
  · split at opened
    · cases opened
    · cases opened
      exact link_empty valid running rfl rfl
  · rcases openFile_cases r.host s.table r.name r.readOnly with
      ⟨readOnly, file⟩ | ⟨n, readOnly, unused, file⟩
    · rw [file] at opened
      cases opened
      exact ⟨valid, running⟩
    · rw [file] at opened
      cases opened
      exact link_opened valid running rfl rfl unused

theorem start_valid (table : Table OpenFile) :
    (State.start table).Valid ∧ (State.start table).Running := by
  refine ⟨⟨rfl, ⟨?_, ?_⟩, ?_⟩, ?_⟩
  · intro p c found
    cases found
  · intro p c found
    cases found
  · intro p q n x y first
    cases first
  · intro p n x first
    cases first

theorem openAll_valid {rs : List Request} {s t : State} (valid : s.Valid) (running : s.Running)
    (opened : openAll rs s = some t) : t.Valid ∧ t.Running := by
  induction rs generalizing s with
  | nil =>
    cases opened
    exact ⟨valid, running⟩
  | cons r rest ih =>
    obtain ⟨⟨fh, u⟩, first, others⟩ := Option.bind_eq_some_iff.mp opened
    obtain ⟨valid, running⟩ := sysOpen_valid valid running first
    exact ih valid running others

/-! ### Closing and ejecting -/

theorem sysClose_cases {fh : Option Nat} {s t : State} (closed : sysClose fh s = some t) :
    t = s ∨ ∃ p c, s.heap.cell p = some c ∧
      t = { s with heap := s.heap.free p, table := s.table.closeAny c.val.fd } := by
  cases fh with
  | none =>
    cases closed
    exact .inl rfl
  | some p =>
    obtain ⟨c, found, result⟩ := Option.bind_eq_some_iff.mp closed
    cases result
    exact .inr ⟨p, c, found, rfl⟩

/-- Whatever the current drive points to loses its descriptor. -/
theorem closeCurrent_spec {current : Option Nat} {s t : State}
    (closed : closeCurrent current s = some t) :
    ∃ q c, current = some q ∧ s.heap.cell q = some c ∧
      ((c.val.fd = none ∧ t = s) ∨ ∃ n, c.val.fd = some n ∧ t = { s with
        heap := s.heap.modify q fun c => { c with val := { c.val with fd := none } }
        table := s.table.close n }) := by
  obtain ⟨q, here, rest⟩ := Option.bind_eq_some_iff.mp closed
  obtain ⟨c, found, result⟩ := Option.bind_eq_some_iff.mp rest
  refine ⟨q, c, here, found, ?_⟩
  cases fd : c.val.fd with
  | none =>
    rw [fd] at result
    cases result
    exact .inl ⟨rfl, rfl⟩
  | some n =>
    rw [fd] at result
    cases result
    exact .inr ⟨n, rfl, rfl⟩

/-- The handle whose file is closed when this handle is ejected. -/
def State.current (s : State) (fh : FileHandle) : Option Nat :=
  if fh.isFloppy then s.floppyFh else s.cdromFh

def FileHandle.removable (fh : FileHandle) : Bool := fh.isFloppy || fh.isCdrom

variable {c : Cell FileHandle}

/-- Ejecting a removable disk closes the file of the current drive, and takes a note of it. -/
theorem sysEject_removable {s : State} {p : Nat} (found : s.heap.cell p = some c)
    (removable : c.val.removable = true) :
    ∃ floppy cdrom : State → Option CString, sysEject (some p) s = (closeCurrent (s.current c.val) s).map fun t =>
      { t with floppyInserted := floppy t, cdromInserted := cdrom t } := by
  rw [sysEject, found, State.current]
  cases floppy : c.val.isFloppy with
  | true =>
    refine ⟨fun _ => none, State.cdromInserted, ?_⟩
    simp [floppy]
  | false =>
    have cdrom : c.val.isCdrom = true := by simpa [FileHandle.removable, floppy] using removable
    refine ⟨State.floppyInserted, fun _ => none, ?_⟩
    simp [floppy, cdrom]

theorem sysEject_fixed {s : State} {p : Nat} (found : s.heap.cell p = some c)
    (fixed : c.val.removable = false) : sysEject (some p) s = some s := by
  obtain ⟨floppy, cdrom⟩ := Bool.or_eq_false_iff.mp fixed
  rw [sysEject, found]
  simp [floppy, cdrom]

/-- A handle that is closed, or loses its descriptor, leaves the others what they have. -/
theorem forget_apart {s : State} (valid : s.Valid) {q : Nat} (found : s.heap.cell q = some c)
    (running : s.Running) :
    Installed (s.table.closeAny c.val.fd) (Function.update s.holds q none) := by
  cases fd : c.val.fd with
  | none => exact running.drop q
  | some n =>
    have mine : s.holds q = some (n, c.val.file) := by
      rw [State.holds, Function.comp_apply, found]
      simp [held, fd]
    exact running.close valid.apart mine

theorem sysClose_valid {fh : Option Nat} {s t : State} (valid : s.Valid)
    (closed : sysClose fh s = some t) : t.Valid ∧ (s.Running → t.Running) := by
  rcases sysClose_cases closed with rfl | ⟨p, c, found, rfl⟩
  · exact ⟨valid, id⟩
  · have holds := held_free s.heap p
    refine ⟨⟨valid.head, valid.linked.free p, ?_⟩, fun running => ?_⟩
    · rw [State.holds, holds]
      exact valid.apart.drop p
    · rw [State.Running, State.holds, holds]
      exact forget_apart valid found running

theorem closeCurrent_valid {current : Option Nat} {s t : State} (valid : s.Valid)
    (closed : closeCurrent current s = some t) : t.Valid ∧ (s.Running → t.Running) := by
  obtain ⟨q, c, _, found, ⟨_, rfl⟩ | ⟨n, fd, rfl⟩⟩ := closeCurrent_spec closed
  · exact ⟨valid, id⟩
  · have holds := held_modify s.heap found
      fun c => { c with val := { c.val with fd := none } }
    have linked := valid.linked.assign q (fun fh => { fh with fd := none }) fun _ noToc => noToc
    refine ⟨⟨valid.head, linked, ?_⟩, fun running => ?_⟩
    · rw [State.holds, holds]
      exact valid.apart.drop q
    · rw [State.Running, State.holds, holds]
      have closed := forget_apart valid found running
      rw [fd] at closed
      exact closed

theorem sysEject_valid {fh : Option Nat} {s t : State} (valid : s.Valid)
    (ejected : sysEject fh s = some t) : t.Valid ∧ (s.Running → t.Running) := by
  cases fh with
  | none =>
    cases ejected
    exact ⟨valid, id⟩
  | some p =>
    obtain ⟨c, found, _⟩ := Option.bind_eq_some_iff.mp ejected
    cases removable : c.val.removable with
    | true =>
      obtain ⟨floppy, cdrom, result⟩ := sysEject_removable found removable
      obtain ⟨u, closed, rfl⟩ := Option.map_eq_some_iff.mp (result.symm.trans ejected)
      obtain ⟨valid, running⟩ := closeCurrent_valid valid closed
      exact ⟨⟨valid.head, valid.linked, valid.apart⟩, running⟩
    | false =>
      cases (sysEject_fixed found removable).symm.trans ejected
      exact ⟨valid, id⟩

/-! ### Walking along the list -/

/-- The walk of `Sys_drive_stop` meets every handle below the one it starts from. -/
theorem driveStopFrom_isSome {heap : Heap FileHandle} (linked : Linked heap) {n fuel : Nat}
    (enough : n ≤ fuel) (table : Table OpenFile) :
    (driveStopFrom heap fuel (before n) table).isSome = true ↔
      ∀ p < n, (heap.cell p).isSome = true := by
  -- The handle `n` points to the handle before it, so that the walk goes down to 0.
  induction n generalizing fuel table with
  | zero => simp [before, driveStopFrom]
  | succ n ih =>
    obtain ⟨fuel, rfl⟩ : ∃ rest, fuel = rest + 1 := ⟨fuel - 1, by omega⟩
    rw [before, driveStopFrom, Nat.forall_lt_succ_right]
    cases found : heap.cell n with
    | none => simp
    | some c =>
      rw [Option.bind_eq_bind, Option.bind_some, linked.next found, ih (by omega)]
      simp

theorem driveStop_heap {s t : State} (stopped : driveStop s = some t) :
    t.heap = s.heap ∧ t.fhList = s.fhList := by
  obtain ⟨table, _, rfl⟩ := Option.map_eq_some_iff.mp stopped
  exact ⟨rfl, rfl⟩

theorem driveStop_valid {s t : State} (valid : s.Valid) (stopped : driveStop s = some t) :
    t.Valid := by
  obtain ⟨heap, list⟩ := driveStop_heap stopped
  refine ⟨?_, heap ▸ valid.linked, ?_⟩
  · rw [heap, list]
    exact valid.head
  · rw [State.holds, heap]
    exact valid.apart

/-- Without a file for the contents there is only one file to open again. -/
theorem restartHandle_eq (host : Host) (p : Nat) {fh : FileHandle} (noToc : fh.tocFd = none)
    (s : State) : restartHandle host p fh s = some { s with
      heap := s.heap.modify p fun c => { c with val := { c.val with
        fd := (reopen host s.table fh.fd fh.file).1, tocFd := none } }
      table := (reopen host s.table fh.fd fh.file).2 } := by
  simp [restartHandle, reopenToc, noToc]

variable {host : Host}

/-- One handle gets a new descriptor; everything else stays. -/
theorem restartHandle_spec {n : Nat} {s t : State} (linked : Linked s.heap)
    (found : s.heap.cell n = some c) (restarted : restartHandle host n c.val s = some t) :
    Linked t.heap ∧ t.table = (reopen host s.table c.val.fd c.val.file).2 ∧
      t.holds = Function.update s.holds n
        ((reopen host s.table c.val.fd c.val.file).1.map fun m => (m, c.val.file)) ∧
      t.heap.fresh = s.heap.fresh ∧ t.fhList = s.fhList ∧
      ∀ p, (t.heap.cell p).isSome = (s.heap.cell p).isSome := by
  rw [restartHandle_eq host n (linked.noToc found)] at restarted
  cases restarted
  have linked := linked.assign n
    (fun fh => { fh with fd := (reopen host s.table c.val.fd c.val.file).1, tocFd := none })
    fun _ _ => rfl
  exact ⟨linked, rfl, held_modify s.heap found _, rfl, rfl, fun p => s.heap.modify_isSome n p _⟩

theorem reopen_cases (host : Host) (table : Table OpenFile) (fd : Option Nat) (file : OpenFile) :
    reopen host table fd file = (none, table) ∨
      ∃ n, table n = none ∧ reopen host table fd file = (some n, table.install n file) := by
  unfold reopen
  cases fd with
  | none => exact .inl rfl
  | some _ =>
    rcases host.apply_cases table file with ⟨_, refused⟩ | ⟨n, _, unused, given⟩
    · exact .inl refused
    · exact .inr ⟨n, unused, given⟩

/-- What the handles from `n` on hold. -/
def upFrom (n : Nat) (holds : Holds Nat OpenFile) : Holds Nat OpenFile :=
  fun p => if n ≤ p then holds p else none

theorem upFrom_update (n : Nat) (holds : Holds Nat OpenFile) (x : Option (Nat × OpenFile)) :
    upFrom n (Function.update holds n x) = Function.update (upFrom (n + 1) holds) n x := by
  funext p
  by_cases same : p = n
  · simp [upFrom, same]
  · simp only [upFrom, Function.update_of_ne same]
    exact if_congr (by omega) rfl rfl

/-- The handles from `n` on were opened again; the others still have their stale descriptors. -/
structure Reopened (n : Nat) (s : State) : Prop where
  linked : Linked s.heap
  apart : Apart (upFrom n s.holds)
  installed : Installed s.table (upFrom n s.holds)

theorem restartHandle_reopened {n : Nat} {s t : State} (above : Reopened (n + 1) s)
    (found : s.heap.cell n = some c) (restarted : restartHandle host n c.val s = some t) :
    Reopened n t := by
  obtain ⟨linked, table, holds, _⟩ := restartHandle_spec above.linked found restarted
  -- The descriptor may be the stale one of a handle below, which gets another in its own turn.
  rcases reopen_cases host s.table c.val.fd c.val.file with refused | ⟨m, unused, given⟩
  · refine ⟨linked, ?_, ?_⟩ <;> rw [holds, upFrom_update, refused]
    · exact above.apart.drop n
    · rw [table, refused]
      exact above.installed.drop n
  · refine ⟨linked, ?_, ?_⟩ <;> rw [holds, upFrom_update, given]
    · exact above.apart.take above.installed unused
    · rw [table, given]
      exact above.installed.take unused

theorem driveRestartFrom_reopened {n fuel : Nat} {s t : State} (above : Reopened n s)
    (restarted : driveRestartFrom host fuel (before n) s = some t) :
    Reopened 0 t ∧ t.heap.fresh = s.heap.fresh ∧ t.fhList = s.fhList := by
  induction n generalizing fuel s with
  | zero =>
    rw [before, driveRestartFrom] at restarted
    cases restarted
    exact ⟨above, rfl, rfl⟩
  | succ n ih =>
    cases fuel with
    | zero => cases restarted
    | succ fuel =>
      obtain ⟨c, found, rest⟩ := Option.bind_eq_some_iff.mp restarted
      obtain ⟨u, one, others⟩ := Option.bind_eq_some_iff.mp rest
      rw [above.linked.next found] at others
      obtain ⟨_, _, _, fresh, list, _⟩ := restartHandle_spec above.linked found one
      obtain ⟨all, fresh', list'⟩ := ih (restartHandle_reopened above found one) others
      exact ⟨all, fresh'.trans fresh, list'.trans list⟩

theorem driveRestart_valid {s t : State} (valid : s.Valid)
    (restarted : driveRestart host s = some t) : t.Valid ∧ t.Running := by
  -- Above all handles nothing is held; the walk takes this down to the first handle.
  have start : Reopened s.heap.fresh s := by
    have none_above : upFrom s.heap.fresh s.holds = fun _ => none := by
      funext p
      unfold upFrom
      split
      next above =>
        rw [State.holds, Function.comp_apply, s.heap.unallocated p above]
        rfl
      · rfl
    refine ⟨valid.linked, ?_, ?_⟩ <;> rw [none_above]
    · intro p q n x y first
      cases first
    · intro p n x first
      cases first
  rw [driveRestart, valid.head] at restarted
  obtain ⟨all, fresh, list⟩ := driveRestartFrom_reopened start restarted
  have whole : upFrom 0 t.holds = t.holds := by
    funext p
    exact if_pos (Nat.zero_le p)
  refine ⟨⟨?_, all.linked, whole ▸ all.apart⟩, ?_⟩
  · rw [fresh, list]
    exact valid.head
  · rw [State.Running, ← whole]
    exact all.installed

theorem step_valid {s t : State} {call : Call} (valid : s.Valid) (taken : step s call = some t) :
    t.Valid := by
  cases call with
  | close fh => exact (sysClose_valid valid taken).1
  | eject fh => exact (sysEject_valid valid taken).1
  | driveStop => exact driveStop_valid valid taken
  | driveRestart host => exact (driveRestart_valid valid taken).1

end BasiliskII.Sys.HandleList
