import BasiliskII.Library.ExchangeSort
import BasiliskII.Stdio

/-!
# Directory listings

`parse_dir` of reqfile.cpp: the entries of a directory that can be opened, which are
then sorted where they stand. The loop that sorts exchanges the first two neighbours
in the wrong order and begins again.
-/
namespace BasiliskII.Menu

open ExchangeSort

/-- `struct fileentries` -/
structure FileEntry where
  filename : CString
  path : CString
  flags : Bool
  deriving DecidableEq, Repr

/-- The name and whether `SCE_S_ISDIR` holds of the mode. -/
structure SceIoDirent where
  d_name : CString
  isDir : Bool

structure Host where
  filenameMax : Nat
  /-- `sceIoDopen` and what `sceIoDread` reads from it. -/
  dopen : CString → Option (List SceIoDirent)
  /-- `fopen(name, "r")` succeeds. -/
  fopens : CString → Bool

/-- `strncpy` to a field of `FILENAME_MAX` bytes whose last byte is set to zero. -/
def Host.copied (host : Host) (s : CString) : CString := s.take (host.filenameMax - 1)

def dot : UInt8 := '.'.toUInt8

def slash : UInt8 := '/'.toUInt8

/-- What is stored for an entry; `none` where the loop goes on without storing one. The path of the
entry is taken to fit in `file_name[FILENAME_MAX]`, which `sprintf` does not check. -/
def readEntry (host : Host) (path : CString) (dirent : SceIoDirent) : Option FileEntry :=
  let file_name := path ++ slash :: dirent.d_name
  if dirent.d_name.head? = some dot then none
  else if dirent.isDir then
    if (host.dopen file_name).isSome then
      some ⟨host.copied dirent.d_name, host.copied path, true⟩
    else none
  else if host.fopens file_name then
    some ⟨host.copied dirent.d_name, host.copied path, false⟩
  else none

/-- The loop over `sceIoDread`. -/
def readEntries (host : Host) (path : CString) (maxentries : Nat) :
    List SceIoDirent → List FileEntry → List FileEntry
  | [], the_files => the_files
  | dirent :: dirents, the_files =>
    match readEntry host path dirent with
    | none => readEntries host path maxentries dirents the_files
    | some entry =>
      let the_files := the_files ++ [entry]
      if the_files.length = maxentries then the_files
      else readEntries host path maxentries dirents the_files

def tolower (c : UInt8) : UInt8 := if 'A'.toUInt8 ≤ c ∧ c ≤ 'Z'.toUInt8 then c + 32 else c

/-- How the result of `strcasecmp` compares with 0. -/
def strcasecmp (s t : CString) : Ordering := compare (s.map tolower) (t.map tolower)

def outOfOrder (a b : FileEntry) : Bool :=
  (!a.flags && b.flags) ||
    (a.flags && b.flags && strcasecmp a.filename b.filename = .gt) ||
    (!a.flags && !b.flags && strcasecmp a.filename b.filename = .gt)

/-- One turn of the loop that sorts; `none` when its condition fails. -/
def sortTurn (the_files : List FileEntry) (i : Nat) : Option (List FileEntry × Nat) :=
  match the_files[i]?, the_files[i + 1]? with
  | some a, some b =>
    -- `i = -1` before the `i++` of the loop.
    if outOfOrder a b then some (exchange the_files i, 0) else some (the_files, i + 1)
  | _, _ => none

-- The three clauses are one order: directories first, then by name.

theorem strcasecmp_swap (s t : CString) : strcasecmp t s = (strcasecmp s t).swap := by
  unfold strcasecmp
  exact Std.OrientedOrd.eq_swap

theorem strcasecmp_isLE_trans {s t u : CString} (first : (strcasecmp s t).isLE)
    (second : (strcasecmp t u).isLE) : (strcasecmp s u).isLE := by
  unfold strcasecmp at first second ⊢
  exact Std.TransOrd.isLE_trans first second

theorem outOfOrder_eq_false_iff (a b : FileEntry) :
    outOfOrder a b = false ↔ (b.flags = true → a.flags = true) ∧
      (a.flags = b.flags → (strcasecmp a.filename b.filename).isLE) := by
  unfold outOfOrder
  cases a.flags <;> cases b.flags <;> cases strcasecmp a.filename b.filename <;> decide

theorem outOfOrder_asymm (a b : FileEntry) (wrong : outOfOrder a b = true) :
    outOfOrder b a = false := by
  unfold outOfOrder at wrong ⊢
  rw [strcasecmp_swap a.filename b.filename]
  revert wrong
  cases a.flags <;> cases b.flags <;> cases strcasecmp a.filename b.filename <;> decide

theorem outOfOrder_carries (a b c : FileEntry) (first : outOfOrder a b = false)
    (second : outOfOrder b c = false) : outOfOrder a c = false := by
  rw [outOfOrder_eq_false_iff] at first second ⊢
  refine ⟨fun last => first.1 (second.1 last), fun same => ?_⟩
  have middle : b.flags = c.flags :=
    Bool.eq_iff_iff.mpr ⟨fun flags => same ▸ first.1 flags, second.1⟩
  exact strcasecmp_isLE_trans (first.2 (same.trans middle.symm)) (second.2 middle)

/-- What a turn takes away: a pair out of order, or a step on the way through the list. -/
def turnsLeft (the_files : List FileEntry) (i : Nat) : Nat :=
  inversions outOfOrder the_files * (the_files.length + 1) + (the_files.length - i)

theorem sortTurn_cases {the_files after : List FileEntry} {i k : Nat}
    (turn : sortTurn the_files i = some (after, k)) :
    ∃ a b, the_files[i]? = some a ∧ the_files[i + 1]? = some b ∧
      ((outOfOrder a b = true ∧ after = exchange the_files i ∧ k = 0) ∨
        (outOfOrder a b = false ∧ after = the_files ∧ k = i + 1)) := by
  unfold sortTurn at turn
  split at turn
  next a b first second =>
    refine ⟨a, b, first, second, ?_⟩
    split at turn
    next wrong => cases turn; exact .inl ⟨wrong, rfl, rfl⟩
    next right => cases turn; exact .inr ⟨(Bool.not_eq_true _).mp right, rfl, rfl⟩
  · cases turn

theorem turnsLeft_decreases {the_files after : List FileEntry} {i k : Nat}
    (turn : sortTurn the_files i = some (after, k)) :
    turnsLeft after k < turnsLeft the_files i := by
  obtain ⟨a, b, first, second, ⟨wrong, exchanged, rfl⟩ | ⟨_, same, rfl⟩⟩ := sortTurn_cases turn
  · have fewer := inversions_exchange outOfOrder_asymm first second wrong
    rw [turnsLeft, turnsLeft, exchanged, ← fewer, length_exchange, Nat.succ_mul]
    omega
  · have inside : i + 1 < the_files.length := (List.getElem?_eq_some_iff.mp second).1
    rw [turnsLeft, turnsLeft, same]
    omega

/-- The loop that sorts, from index `i` on. -/
def sortLoop (the_files : List FileEntry) (i : Nat) : List FileEntry :=
  match turn : sortTurn the_files i with
  | none => the_files
  | some (after, k) =>
    have : turnsLeft after k < turnsLeft the_files i := turnsLeft_decreases turn
    sortLoop after k
termination_by turnsLeft the_files i

/-- What `parse_dir` leaves in the first entries of `the_files`; it returns their number. -/
def parseDir (host : Host) (path : CString) (maxentries : Nat) : List FileEntry :=
  match host.dopen path with
  | none => []
  | some dirents => sortLoop (readEntries host path maxentries dirents []) 0

end BasiliskII.Menu

/-!
## The listing is sorted

What the loop of `parse_dir` leaves: it ends from any state, and its list is a permutation
of the one it began with, directories first and each group by name.
-/
namespace BasiliskII.Menu

open ExchangeSort

variable {the_files : List FileEntry}

theorem sortLoop_of_ended {i : Nat} (ended : sortTurn the_files i = none) :
    sortLoop the_files i = the_files := by
  rw [sortLoop]
  split
  · rfl
  next turn => cases ended.symm.trans turn

theorem sortLoop_of_turn {after : List FileEntry} {i k : Nat}
    (taken : sortTurn the_files i = some (after, k)) : sortLoop the_files i = sortLoop after k := by
  rw [sortLoop]
  split
  next ended => cases ended.symm.trans taken
  next turn =>
    cases taken.symm.trans turn
    rfl

/-- What every turn keeps and what the loop's end gives holds of the sorted list. -/
theorem sortLoop_induction {P : List FileEntry → Nat → Prop} {Q : List FileEntry → Prop}
    (keeps : ∀ the_files i after k, sortTurn the_files i = some (after, k) → P the_files i → P after k)
    (ends : ∀ the_files i, sortTurn the_files i = none → P the_files i → Q the_files)
    (the_files : List FileEntry) (i : Nat) (start : P the_files i) : Q (sortLoop the_files i) := by
  induction the_files, i using sortLoop.induct with
  | case1 the_files i ended =>
    rw [sortLoop_of_ended ended]
    exact ends the_files i ended start
  | case2 the_files i after k turn _ ih =>
    rw [sortLoop_of_turn turn]
    exact ih (keeps the_files i after k turn start)

theorem sortTurn_perm {after : List FileEntry} {i k : Nat}
    (turn : sortTurn the_files i = some (after, k)) : after.Perm the_files := by
  obtain ⟨a, b, _, _, ⟨_, exchanged, _⟩ | ⟨_, same, _⟩⟩ := sortTurn_cases turn
  · rw [exchanged]
    exact exchange_perm the_files i
  · rw [same]

theorem sortTurn_orderedTo {after : List FileEntry} {i k : Nat}
    (turn : sortTurn the_files i = some (after, k)) (ordered : OrderedTo outOfOrder the_files i) :
    OrderedTo outOfOrder after k := by
  obtain ⟨a, b, first, second, ⟨_, _, again⟩ | ⟨right, same, onward⟩⟩ := sortTurn_cases turn
  · rw [again]
    exact orderedTo_zero after
  · rw [same, onward]
    exact ordered.next first second right

theorem sortTurn_eq_none {i : Nat} (ended : sortTurn the_files i = none) : the_files.length ≤ i + 1 := by
  by_contra inside
  have second : i + 1 < the_files.length := Nat.lt_of_not_le inside
  have first : i < the_files.length := Nat.lt_of_succ_lt second
  rw [sortTurn, List.getElem?_eq_getElem first, List.getElem?_eq_getElem second] at ended
  dsimp only at ended
  split at ended <;> cases ended

theorem sortLoop_perm (the_files : List FileEntry) (i : Nat) :
    (sortLoop the_files i).Perm the_files :=
  sortLoop_induction (P := fun now _ => now.Perm the_files)
    (fun _ _ _ _ turn perm => (sortTurn_perm turn).trans perm) (fun _ _ _ perm => perm)
    the_files i (.refl _)

theorem sortLoop_sorted (the_files : List FileEntry) :
    (sortLoop the_files 0).Pairwise fun a b => outOfOrder a b = false :=
  sortLoop_induction (P := OrderedTo outOfOrder)
    (fun _ _ _ _ turn ordered => sortTurn_orderedTo turn ordered)
    (fun _ _ ended ordered => ordered.pairwise outOfOrder_carries (sortTurn_eq_none ended))
    the_files 0 (orderedTo_zero the_files)

/-- No run of the loop is infinite, and the list it leaves has the directories first and each
group in the order of its names. -/
theorem directory_listing_sorted (the_files : List FileEntry) :
    WellFounded (fun after before : List FileEntry × Nat =>
        sortTurn before.1 before.2 = some after) ∧
      (sortLoop the_files 0).Perm the_files ∧
      (sortLoop the_files 0).Pairwise (fun a b => b.flags = true → a.flags = true) ∧
      (sortLoop the_files 0).Pairwise
        (fun a b => a.flags = b.flags → strcasecmp a.filename b.filename ≠ .gt) := by
  have sorted := sortLoop_sorted the_files
  refine ⟨?_, sortLoop_perm the_files 0, sorted.imp ?_, sorted.imp ?_⟩
  · exact Subrelation.wf (fun turn => turnsLeft_decreases turn)
      (measure fun s : List FileEntry × Nat => turnsLeft s.1 s.2).wf
  · intro a b right
    exact ((outOfOrder_eq_false_iff a b).mp right).1
  -- Two entries of one kind are in the order of their names.
  · intro a b right same
    exact Ordering.isLE_iff_ne_gt.mp (((outOfOrder_eq_false_iff a b).mp right).2 same)

/-- `B` and `a` are directories. -/
example : sortLoop [⟨[0x63], [], false⟩, ⟨[0x42], [], true⟩, ⟨[0x61], [], true⟩] 0 =
    [⟨[0x61], [], true⟩, ⟨[0x42], [], true⟩, ⟨[0x63], [], false⟩] := by decide +kernel

-- What is in a listing.

theorem readEntries_length {host : Host} {path : CString} {maxentries : Nat}
    {dirents : List SceIoDirent} (room : the_files.length < maxentries) :
    (readEntries host path maxentries dirents the_files).length ≤ maxentries := by
  induction dirents generalizing the_files with
  | nil => exact Nat.le_of_lt room
  -- An entry that is left out takes no room.
  | cons dirent dirents ih =>
    rw [readEntries]
    split
    · exact ih room
    next entry _ =>
      dsimp only
      have longer : (the_files ++ [entry]).length = the_files.length + 1 := by simp
      split
      next full => exact Nat.le_of_eq full
      next more => exact ih (by omega)

theorem parseDir_length (host : Host) (path : CString) {maxentries : Nat} (some_room : 0 < maxentries) :
    (parseDir host path maxentries).length ≤ maxentries := by
  unfold parseDir
  split
  · exact Nat.zero_le _
  next dirents _ =>
    rw [(sortLoop_perm _ 0).length_eq]
    exact readEntries_length some_room

end BasiliskII.Menu
