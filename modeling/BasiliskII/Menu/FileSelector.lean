import BasiliskII.Menu.MediaMenu
import BasiliskII.Library.StepSystem

/-!
# The file selector

`FileSelector` and `RequestFile` of reqfile.cpp. A session begins with the listing of a
directory that is not empty and takes one press of buttons after the other, until a file is
selected or Circle is pressed. What is shown, used and returned is logged.
-/
namespace BasiliskII.Menu

def maxFiles : Nat := 256

/-- `PAGESIZE` -/
def pageSize : Int := 13

/-- The entries `thefiles` are those of the directory shown, of which there are `maxfiles`, and
after them what the array held before. -/
structure Selector where
  shown : CString
  files : List FileEntry
  stale : List FileEntry
  offset : Int
  selection : Int
  deriving DecidableEq

def Selector.thefiles (st : Selector) : List FileEntry := st.files ++ st.stale

def Selector.maxfiles (st : Selector) : Int := st.files.length

/-- `thefiles[i]`; `none` outside of the array. -/
def Selector.thefile (st : Selector) (i : Int) : Option FileEntry :=
  if 0 ≤ i then st.thefiles[i.toNat]? else none

/-- `maxfiles = parse_dir(path, thefiles, MAXFILES)`, with the cursor at the top. -/
def Selector.parse (host : Host) (path : CString) (st : Selector) : Selector :=
  let files := parseDir host path maxFiles
  ⟨path, files, st.thefiles.drop files.length, 0, 0⟩

def Selector.down (st : Selector) : Selector :=
  let selection := if st.selection + 1 = st.maxfiles then 0 else st.selection + 1
  let offset := if st.selection + 1 = st.maxfiles then 0 else st.offset
  { st with
    selection := selection
    offset := if selection - offset = pageSize then offset + pageSize else offset }

def Selector.right (st : Selector) : Selector :=
  let selection := if st.maxfiles ≤ st.selection + pageSize then 0 else st.selection + pageSize
  let offset := if st.maxfiles ≤ st.selection + pageSize then 0 else st.offset
  { st with
    selection := selection
    offset := if pageSize ≤ selection - offset then offset + pageSize else offset }

/-- Up and Left: back by an entry, or by a page. -/
def Selector.back (step : Int) (st : Selector) : Selector :=
  let selection := if st.selection - step < 0 then st.maxfiles - 1 else st.selection - step
  let offset :=
    if st.selection - step < 0 then
      if pageSize < st.maxfiles then selection - pageSize + 1 else 0
    else st.offset
  { st with
    selection := selection
    offset :=
      if selection < offset then if offset - pageSize < 0 then 0 else offset - pageSize
      else offset }

def Selector.up : Selector → Selector := Selector.back 1

def Selector.left : Selector → Selector := Selector.back pageSize

/-- Down, Up, Right and Left, of which any may be pressed together. -/
def Selector.moves (ctrl : SceCtrl) (p : BitVec 32) (st : Selector) : Selector :=
  let st := if isSet p ctrl.down then st.down else st
  let st := if isSet p ctrl.up then st.up else st
  let st := if isSet p ctrl.right then st.right else st
  if isSet p ctrl.left then st.left else st

/-- `while (pathpos > 5)`; it breaks at a slash. -/
def pathposLoop (path : CString) : Nat → Nat
  | 0 => 0
  | pathpos + 1 =>
    if 5 < pathpos + 1 then
      if path[pathpos + 1]? = some slash then pathpos + 1 else pathposLoop path pathpos
    else pathpos + 1

/-- Where Triangle goes from entry 1 of `path`. -/
def parentName (path : CString) : CString :=
  -- Below 2 characters the difference is negative in C, and also less than 5.
  let pathpos := pathposLoop path (path.length - 2)
  let pathpos := if pathpos < 5 then 5 else pathpos
  path.take (pathpos + 1)

inductive SelectorEvent
  | shows (st : Selector)
  /-- Cross reads the entry selected. -/
  | uses (st : Selector)
  /-- Triangle reads another directory. -/
  | leaves (shown fname : CString)
  deriving DecidableEq

inductive SelectorResult
  /-- -1 is returned. -/
  | cancelled
  | selected (selection : Int)
  /-- An entry outside of the array was read. -/
  | outside
  deriving DecidableEq, Repr

structure Session where
  st : Selector
  result : Option SelectorResult
  log : List SelectorEvent
  deriving DecidableEq

structure Press where
  host : Host
  buttons : BitVec 32

/-- `RequestFile` up to the first turn of the loop, with the buttons `p` held; `none` where it
returns 0 at once. -/
def requestFile (ctrl : SceCtrl) (host : Host) (initialPath : CString) (thefiles : List FileEntry)
    (p : BitVec 32) : Option Session :=
  let st := Selector.parse host initialPath ⟨[], [], thefiles, 0, 0⟩
  if st.files = [] then none
  else if isSet p ctrl.circle then some ⟨st, some .cancelled, []⟩
  else some ⟨st, none, [.shows st]⟩

/-- Cross enters a directory or returns a file. -/
def Session.cross (host : Host) (s : Session) : Session :=
  match s.st.thefile s.st.selection with
  | none => { s with result := some .outside, log := s.log ++ [.uses s.st] }
  | some e =>
    if e.flags then
      let fname := e.path ++ e.filename ++ [slash]
      { s with st := s.st.parse host fname, log := s.log ++ [.uses s.st] }
    else
      { s with result := some (.selected s.st.selection), log := s.log ++ [.uses s.st] }

def Session.triangle (host : Host) (s : Session) : Session :=
  let path := ((s.st.thefile 1).map FileEntry.path).getD []
  let fname := parentName path
  { s with st := s.st.parse host fname, log := s.log ++ [.leaves s.st.shown fname] }

/-- A press up to Cross. -/
def Session.crossed (ctrl : SceCtrl) (press : Press) (s : Session) : Session :=
  let s := { s with st := s.st.moves ctrl press.buttons }
  if isSet press.buttons ctrl.cross then s.cross press.host else s

/-- The end of a turn: Circle is seen by the loop, and anything else draws again. -/
def Session.turned (ctrl : SceCtrl) (p : BitVec 32) (s : Session) : Session :=
  if isSet p ctrl.circle then { s with result := some .cancelled }
  else if isSet p ctrl.down || isSet p ctrl.up || isSet p ctrl.right || isSet p ctrl.left ||
      isSet p ctrl.cross || isSet p ctrl.triangle then
    { s with log := s.log ++ [.shows s.st] }
  else s

/-- A turn of the loop of `FileSelector`, while it runs. -/
def Session.press (ctrl : SceCtrl) (s : Session) (press : Press) : Option Session :=
  match s.result with
  | some _ => none
  | none =>
    let s := s.crossed ctrl press
    match s.result with
    | some _ => some s
    | none =>
      let s := if isSet press.buttons ctrl.triangle then s.triangle press.host else s
      some (s.turned ctrl press.buttons)

end BasiliskII.Menu

/-!
## The cursor of the file selector

In a directory that is not empty every move keeps the cursor on an entry and on the page
that is shown. Cross uses the cursor of an empty directory too, where it is at what the array
held before, and Triangle takes the path of the directory from entry 1, whether there is one
or not, and looks for its end as far as index 5 only.
-/
namespace BasiliskII.Menu

open StepSystem

def Selector.InRange (st : Selector) : Prop :=
  0 ≤ st.selection ∧ st.selection < st.maxfiles ∧ st.offset ≤ st.selection ∧
    st.selection < st.offset + pageSize

/-- An empty directory has no entry to be at. -/
def Selector.Shows (st : Selector) : Prop := st.files = [] ∨ st.InRange

/-- The entries are what was read from the directory shown. -/
def Selector.Listed (st : Selector) : Prop :=
  ∃ host, st.files = parseDir host st.shown maxFiles

def colon : UInt8 := ':'.toUInt8

/-- `shown` is a directory in `fname`. -/
def Below (fname shown : CString) : Prop :=
  (fname.getLast? = some slash ∨ fname.getLast? = some colon) ∧
    ∃ name tail, name ≠ [] ∧ slash ∉ name ∧ (tail = [] ∨ tail = [slash]) ∧
      shown = fname ++ (name ++ tail)

/-- `fname` is the directory that `shown` is in; a root is its own. -/
def LeadsUp (shown fname : CString) : Prop :=
  Below fname shown ∨ (∀ p, ¬Below p shown) ∧ fname = shown

def SelectorEvent.Good : SelectorEvent → Prop
  | .shows st => st.Shows ∧ st.Listed
  | .uses st => st.InRange ∧ st.Listed
  | .leaves shown fname => LeadsUp shown fname

structure Session.Good (s : Session) : Prop where
  log : ∀ event ∈ s.log, event.Good
  inside : s.result ≠ some .outside
  selected : ∀ i, s.result = some (.selected i) →
    s.st.Listed ∧ 0 ≤ i ∧ ∃ e, s.st.files[i.toNat]? = some e

/-! ### The moves -/

variable {st : Selector}

@[simp] theorem with_cursor_maxfiles (offset selection : Int) :
    { st with offset := offset, selection := selection }.maxfiles = st.maxfiles := rfl

theorem Selector.down_inRange (inRange : st.InRange) : st.down.InRange := by
  obtain ⟨low, high, first, last⟩ := inRange
  have page : pageSize = 13 := rfl
  by_cases top : st.selection + 1 = st.maxfiles
  · simp only [Selector.down, Selector.InRange, with_cursor_maxfiles, if_pos top]
    split <;> omega
  · simp only [Selector.down, Selector.InRange, with_cursor_maxfiles, if_neg top]
    split <;> omega

theorem Selector.right_inRange (inRange : st.InRange) : st.right.InRange := by
  obtain ⟨low, high, first, last⟩ := inRange
  have page : pageSize = 13 := rfl
  by_cases top : st.maxfiles ≤ st.selection + pageSize
  · simp only [Selector.right, Selector.InRange, with_cursor_maxfiles, if_pos top]
    split <;> omega
  · simp only [Selector.right, Selector.InRange, with_cursor_maxfiles, if_neg top]
    split <;> omega

theorem Selector.back_inRange {step : Int} (forth : 0 ≤ step) (page : step ≤ pageSize)
    (inRange : st.InRange) : (st.back step).InRange := by
  obtain ⟨low, high, first, last⟩ := inRange
  have size : pageSize = 13 := rfl
  by_cases bottom : st.selection - step < 0
  · simp only [Selector.back, Selector.InRange, with_cursor_maxfiles, if_pos bottom]
    split <;> omega
  · simp only [Selector.back, Selector.InRange, with_cursor_maxfiles, if_neg bottom]
    -- The page before holds it, as far as there is one.
    split
    · split <;> omega
    · omega

/-- A move that keeps the cursor in range and nothing but moves it. -/
theorem Selector.Shows.of_move {moved : Selector} (shows : st.Shows)
    (inRange : st.InRange → moved.InRange) (same : moved.files = st.files) : moved.Shows := by
  obtain empty | there := shows
  · exact .inl (same.trans empty)
  · exact .inr (inRange there)

/-- What the moves leave alone, and what they keep. -/
structure Selector.Moved (st moved : Selector) : Prop where
  shown : moved.shown = st.shown
  files : moved.files = st.files
  inRange : st.InRange → moved.InRange

theorem Selector.Moved.after {first second : Selector} (before : st.Moved first)
    (next : first.Moved second) : st.Moved second :=
  ⟨next.shown.trans before.shown, next.files.trans before.files, next.inRange ∘ before.inRange⟩

theorem Selector.Moved.ite {moved : Selector} (pressed : Bool) (move : st.Moved moved) :
    st.Moved (if pressed then moved else st) := by
  cases pressed
  · exact ⟨rfl, rfl, id⟩
  · exact move

theorem Selector.moves_moved (ctrl : SceCtrl) (p : BitVec 32) (st : Selector) :
    st.Moved (st.moves ctrl p) := by
  have down (st : Selector) : st.Moved st.down := ⟨rfl, rfl, Selector.down_inRange⟩
  have up (st : Selector) : st.Moved st.up :=
    ⟨rfl, rfl, Selector.back_inRange (by decide) (by decide)⟩
  have right (st : Selector) : st.Moved st.right := ⟨rfl, rfl, Selector.right_inRange⟩
  have left (st : Selector) : st.Moved st.left :=
    ⟨rfl, rfl, Selector.back_inRange (by decide) (by decide)⟩
  exact (((down st).ite (isSet p ctrl.down)).after ((up _).ite (isSet p ctrl.up))).after
    (((right _).ite (isSet p ctrl.right)).after ((left _).ite (isSet p ctrl.left)))

theorem Selector.parse_listed (host : Host) (path : CString) (st : Selector) :
    (st.parse host path).Listed := ⟨host, rfl⟩

/-- Another directory is shown from its first entry, if it has one. -/
theorem Selector.parse_shows (host : Host) (path : CString) (st : Selector) :
    (st.parse host path).Shows := by
  by_cases empty : parseDir host path maxFiles = []
  · exact .inl empty
  · have some_there : 0 < (parseDir host path maxFiles).length := List.length_pos_iff.mpr empty
    refine .inr ⟨Int.le_refl 0, ?_, Int.le_refl 0, show (0 : Int) < 0 + 13 by decide⟩
    exact Int.natCast_pos.mpr some_there

theorem Selector.InRange.entry (inRange : st.InRange) :
    ∃ e, st.files[st.selection.toNat]? = some e ∧ st.thefile st.selection = some e := by
  obtain ⟨low, high, -, -⟩ := inRange
  have total : st.maxfiles = st.files.length := rfl
  have below : st.selection.toNat < st.files.length := by omega
  refine ⟨st.files[st.selection.toNat], List.getElem?_eq_getElem below, ?_⟩
  rw [Selector.thefile, if_pos low, Selector.thefiles, List.getElem?_append_left below]
  exact List.getElem?_eq_getElem below

/-! ### The parent of a directory -/

/-- `pathpos` ends at the last slash above index 5 and before the last character, if there is one. -/
theorem pathposLoop_spec (path : CString) (n : Nat) :
    pathposLoop path n ≤ n ∧ (5 < pathposLoop path n → path[pathposLoop path n]? = some slash) ∧
      ∀ i, 5 < i → pathposLoop path n < i → i ≤ n → path[i]? ≠ some slash := by
  induction n with
  | zero =>
    refine ⟨Nat.le_refl 0, fun above => absurd above (Nat.not_lt_zero 5), fun i above _ below => ?_⟩
    omega
  | succ n ih =>
    obtain ⟨below, at_slash, none_above⟩ := ih
    rw [pathposLoop]
    split
    · split
      next found => exact ⟨Nat.le_refl _, fun _ => found, fun i _ above below => by omega⟩
      next other =>
        refine ⟨Nat.le_succ_of_le below, at_slash, fun i high above last => ?_⟩
        obtain rfl | last := Nat.eq_or_lt_of_le last
        · exact other
        · exact none_above i high above (Nat.le_of_lt_succ last)
    next low =>
      exact ⟨Nat.le_refl _, fun above => absurd above low, fun i _ above below => by omega⟩

theorem parentName_spec (path : CString) :
    ∃ k, parentName path = path.take (k + 1) ∧ 5 ≤ k ∧
      (5 < k → k ≤ path.length - 2 ∧ path[k]? = some slash) ∧
      ∀ i, k < i → i ≤ path.length - 2 → path[i]? ≠ some slash := by
  obtain ⟨below, at_slash, none_above⟩ := pathposLoop_spec path (path.length - 2)
  unfold parentName
  dsimp only
  split
  -- No slash above index 5: the prefix of a root is kept.
  next root =>
    refine ⟨5, rfl, Nat.le_refl 5, fun above => absurd above (Nat.lt_irrefl 5), fun i above last => ?_⟩
    exact none_above i above (Nat.lt_trans root above) last
  next deep =>
    refine ⟨_, rfl, Nat.le_of_not_lt deep, fun above => ⟨below, at_slash above⟩, fun i above last => ?_⟩
    exact none_above i (Nat.lt_of_le_of_lt (Nat.le_of_not_lt deep) above) above last

/-- The parent's path has 6 characters, or more and ends in a slash; or a root has at most 6. -/
def Cuttable (shown : CString) : Prop :=
  (∃ p, Below p shown ∧ (p.getLast? = some slash ∧ 6 ≤ p.length ∨ p.length = 6)) ∨
    (∀ p, ¬Below p shown) ∧ shown.length ≤ 6

theorem Below.lengths {fname shown : CString} (below : Below fname shown) :
    fname = shown.take fname.length ∧ fname.length < shown.length ∧
      ∀ i, fname.length ≤ i → i + 2 ≤ shown.length → shown[i]? ≠ some slash := by
  obtain ⟨_, name, tail, some_name, no_slash, tail_eq, rfl⟩ := below
  have long : 0 < name.length := List.length_pos_iff.mpr some_name
  refine ⟨List.take_left.symm, by simp only [List.length_append]; omega, fun i first last found => ?_⟩
  rw [List.getElem?_append_right first] at found
  have inside : i - fname.length < name.length := by
    obtain rfl | rfl := tail_eq <;> simp at last <;> omega
  rw [List.getElem?_append_left inside] at found
  exact no_slash (List.mem_of_getElem? found)

theorem getLast?_take_succ (path : CString) {k : Nat} (inside : k < path.length) :
    (path.take (k + 1)).getLast? = path[k]? := by
  rw [List.getLast?_take, if_neg (Nat.succ_ne_zero k), Nat.add_sub_cancel,
    List.getElem?_eq_getElem inside]
  rfl

/-- Cutting the path leads up exactly when the path can be cut. -/
theorem leadsUp_iff (shown : CString) : LeadsUp shown (parentName shown) ↔ Cuttable shown := by
  obtain ⟨k, cut, five, deep, none_above⟩ := parentName_spec shown
  rw [cut]
  constructor
  · rintro (below | ⟨root, same⟩)
    · refine .inl ⟨_, below, ?_⟩
      have shorter := below.lengths.2.1
      rw [List.length_take] at shorter ⊢
      -- Cut at the prefix, or behind a slash.
      obtain last | above := Nat.eq_or_lt_of_le five
      · exact .inr (by omega)
      · refine .inl ⟨?_, by omega⟩
        rw [getLast?_take_succ shown (by omega)]
        exact (deep above).2
    · refine .inr ⟨root, ?_⟩
      have whole := congrArg List.length same
      rw [List.length_take] at whole
      -- A root that is longer would have been cut.
      by_contra long
      have above := (deep (by omega)).1
      omega
  · rintro (⟨p, below, ends⟩ | ⟨root, short⟩)
    · obtain ⟨prefix_eq, shorter, no_slash⟩ := below.lengths
      -- The cut is neither before the end of the parent's path nor behind it.
      have enough : p.length ≤ k + 1 := by
        by_contra before
        obtain ⟨slash_end, -⟩ | six := ends
        · have found : shown[p.length - 1]? = some slash := by
            rw [← slash_end, List.getLast?_eq_getElem?, prefix_eq, List.length_take,
              Nat.min_eq_left (by omega), List.getElem?_take_of_lt (by omega)]
          exact none_above (p.length - 1) (by omega) (by omega) found
        · omega
      have at_most : k + 1 ≤ p.length := by
        by_contra behind
        have six : 6 ≤ p.length := by
          obtain ⟨-, six⟩ | six := ends <;> omega
        obtain ⟨last, found⟩ := deep (by omega)
        exact no_slash k (by omega) (by omega) found
      rw [Nat.le_antisymm at_most enough, ← prefix_eq]
      exact .inl below
    · exact .inr ⟨root, List.take_of_length_le (by omega)⟩

/-! ### Runs -/

/-- The directory has a second entry, whose path was not cut short, and the path can be cut. -/
def Selector.HasParent (st : Selector) : Prop :=
  (∃ e, st.files[1]? = some e ∧ e.path = st.shown) ∧ Cuttable st.shown

/-- Cross is not pressed in an empty directory, and Triangle only where the parent is found. -/
def Session.Allowed (ctrl : SceCtrl) (s : Session) (press : Press) : Prop :=
  (isSet press.buttons ctrl.cross = true → s.st.files ≠ []) ∧
    ((s.crossed ctrl press).result = none → isSet press.buttons ctrl.triangle = true →
      (s.crossed ctrl press).st.HasParent)

/-- While the session runs, the cursor is in range too. -/
structure Session.Inv (s : Session) : Prop extends s.Good where
  listed : s.st.Listed
  shows : s.result = none → s.st.Shows

variable {s : Session}

theorem Session.log_snoc (logged : ∀ event ∈ s.log, event.Good) {event : SelectorEvent}
    (good : event.Good) : ∀ e ∈ s.log ++ [event], e.Good := by
  intro e member
  obtain old | new := List.mem_append.mp member
  · exact logged e old
  · exact List.mem_singleton.mp new ▸ good

theorem Session.cross_inv (host : Host) (inv : s.Inv) (running : s.result = none)
    (inRange : s.st.InRange) : (s.cross host).Inv := by
  obtain ⟨e, there, read⟩ := inRange.entry
  have uses : (SelectorEvent.uses s.st).Good := ⟨inRange, inv.listed⟩
  have logged := log_snoc inv.log uses
  unfold Session.cross
  rw [read]
  dsimp only
  split
  · refine ⟨⟨logged, inv.inside, fun i selected => ?_⟩, s.st.parse_listed host _,
      fun _ => s.st.parse_shows host _⟩
    exact nomatch running.symm.trans selected
  -- A file is returned; nothing is shown any more.
  · refine ⟨⟨logged, nofun, fun i selected => ?_⟩, inv.listed, nofun⟩
    cases selected
    exact ⟨inv.listed, inRange.1, e, there⟩

theorem Session.crossed_inv (ctrl : SceCtrl) (press : Press) (inv : s.Inv)
    (running : s.result = none) (allowed : isSet press.buttons ctrl.cross = true → s.st.files ≠ []) :
    (s.crossed ctrl press).Inv := by
  have moved := s.st.moves_moved ctrl press.buttons
  have listed : (s.st.moves ctrl press.buttons).Listed := by
    obtain ⟨host, files⟩ := inv.listed
    exact ⟨host, moved.files.trans (moved.shown ▸ files)⟩
  have shows : (s.st.moves ctrl press.buttons).Shows :=
    (inv.shows running).of_move moved.inRange moved.files
  have inv : { s with st := s.st.moves ctrl press.buttons }.Inv :=
    ⟨⟨inv.log, inv.inside, fun i selected => nomatch running.symm.trans selected⟩, listed,
      fun _ => shows⟩
  unfold Session.crossed
  dsimp only
  split
  next pressed =>
    -- The moves leave the list as it is, so it is not empty here either.
    refine cross_inv press.host inv running ?_
    exact shows.resolve_left (fun empty => allowed pressed (moved.files ▸ empty))
  · exact inv

theorem Session.triangle_inv (host : Host) (inv : s.Inv) (running : s.result = none)
    (parent : s.st.HasParent) : (s.triangle host).Inv := by
  obtain ⟨⟨e, second, path⟩, cuttable⟩ := parent
  -- The path is read from the second entry, which is there.
  have read : s.st.thefile 1 = some e := by
    have inside : 1 < s.st.files.length := (List.getElem?_eq_some_iff.mp second).1
    rw [Selector.thefile, if_pos (by decide), Selector.thefiles]
    exact (List.getElem?_append_left inside).trans second
  unfold Session.triangle
  rw [read, Option.map_some, Option.getD_some, path]
  refine ⟨⟨log_snoc inv.log ((leadsUp_iff s.st.shown).mpr cuttable), inv.inside, ?_⟩,
    s.st.parse_listed host _, fun _ => s.st.parse_shows host _⟩
  exact fun i selected => nomatch running.symm.trans selected

theorem Session.turned_inv (ctrl : SceCtrl) (p : BitVec 32) (inv : s.Inv)
    (running : s.result = none) : (s.turned ctrl p).Inv := by
  unfold Session.turned
  split
  · exact ⟨⟨inv.log, nofun, nofun⟩, inv.listed, nofun⟩
  · split
    · exact ⟨⟨log_snoc inv.log ⟨inv.shows running, inv.listed⟩, inv.inside, inv.selected⟩,
        inv.listed, inv.shows⟩
    · exact inv

theorem Session.press_inv (ctrl : SceCtrl) (s : Session) (press : Press) (t : Session) (inv : s.Inv)
    (allowed : s.Allowed ctrl press) (pressed : s.press ctrl press = some t) : t.Inv := by
  unfold Session.press at pressed
  split at pressed
  · cases pressed
  next running =>
    have crossed := crossed_inv ctrl press inv running allowed.1
    dsimp only at pressed
    split at pressed
    · cases pressed
      exact crossed
    next goes_on =>
      cases pressed
      split
      next triangle =>
        exact turned_inv ctrl press.buttons
          (triangle_inv press.host crossed goes_on (allowed.2 goes_on triangle)) goes_on
      · exact turned_inv ctrl press.buttons crossed goes_on

theorem requestFile_inv {ctrl : SceCtrl} {host : Host} {initialPath : CString}
    {thefiles : List FileEntry} {p : BitVec 32}
    (begun : requestFile ctrl host initialPath thefiles p = some s) : s.Inv := by
  have listed := Selector.parse_listed host initialPath ⟨[], [], thefiles, 0, 0⟩
  have shows := Selector.parse_shows host initialPath ⟨[], [], thefiles, 0, 0⟩
  unfold requestFile at begun
  dsimp only at begun
  split at begun
  · cases begun
  · split at begun
    · cases begun
      exact ⟨⟨fun _ member => absurd member List.not_mem_nil, nofun, nofun⟩, listed, nofun⟩
    · cases begun
      refine ⟨⟨fun event member => ?_, nofun, nofun⟩, listed, fun _ => shows⟩
      exact List.mem_singleton.mp member ▸ ⟨shows, listed⟩

/-- In every session whose presses are allowed, what is shown and used is in range, what is
returned is an entry of the directory shown, and Triangle leads to its parent. -/
theorem file_selector_cursor {ctrl : SceCtrl} {host : Host} {initialPath : CString}
    {thefiles : List FileEntry} {p : BitVec 32} {start s : Session} {presses : List Press}
    (begun : requestFile ctrl host initialPath thefiles p = some start)
    (run : Run (Session.press ctrl) (Session.Allowed ctrl) start presses s) : s.Good :=
  (run.invariant (Session.press_inv ctrl) (requestFile_inv begun)).toGood

/-- A folder of disks with an empty folder in it. -/
def disksHost : Host where
  filenameMax := 1024
  dopen name :=
    if name = ascii "ux0:data/BasiliskII/disks/" then
      some [⟨ascii "new", true⟩, ⟨ascii "hd.img", false⟩]
    else some []
  fopens _ := true

def testCtrl : SceCtrl := ⟨1, 2, 4, 8, 16, 32, 64⟩

/-- In the empty folder Down and Cross return the disk image of the folder it is in. -/
theorem file_selector_empty_folder : ¬∀ (ctrl : SceCtrl) (host : Host) (initialPath : CString)
    (thefiles : List FileEntry) (p : BitVec 32) (start s : Session) (presses : List Press),
    requestFile ctrl host initialPath thefiles p = some start →
    Run (Session.press ctrl) Free start presses s → s.Good := by
  intro claim
  have executed : ((requestFile testCtrl disksHost (ascii "ux0:data/BasiliskII/disks/") [] 0).bind
      fun start => exec (Session.press testCtrl) start
        [⟨disksHost, testCtrl.cross⟩, ⟨disksHost, testCtrl.down⟩, ⟨disksHost, testCtrl.cross⟩]).map
      (fun s => (s.result, s.st.files)) = some (some (.selected 1), []) := by decide +kernel
  obtain ⟨s, executed, result⟩ := Option.map_eq_some_iff.mp executed
  obtain ⟨start, begun, executed⟩ := Option.bind_eq_some_iff.mp executed
  obtain ⟨selected, empty⟩ := Prod.mk.inj result
  obtain ⟨-, -, e, there⟩ := (claim _ _ _ _ _ _ _ _ begun (run_of_exec executed)).selected 1 selected
  rw [empty] at there
  cases there

/-- From the disks to the folder above. -/
theorem file_selector_up : ∃ start s : Session,
    requestFile testCtrl disksHost (ascii "ux0:data/BasiliskII/disks/") [] 0 = some start ∧
      Run (Session.press testCtrl) (Session.Allowed testCtrl) start
        [⟨disksHost, testCtrl.down ||| testCtrl.triangle⟩] s ∧ s.Good := by
  have executed : ((requestFile testCtrl disksHost (ascii "ux0:data/BasiliskII/disks/") [] 0).bind
      fun start => (start.press testCtrl ⟨disksHost, testCtrl.down ||| testCtrl.triangle⟩).map
        fun _ => (start.st.files[1]?.map FileEntry.path, start.st.shown)) =
      some (some (ascii "ux0:data/BasiliskII/" ++ (ascii "disks" ++ [slash])),
        ascii "ux0:data/BasiliskII/" ++ (ascii "disks" ++ [slash])) := by decide +kernel
  obtain ⟨start, begun, executed⟩ := Option.bind_eq_some_iff.mp executed
  obtain ⟨s, pressed, paths⟩ := Option.map_eq_some_iff.mp executed
  obtain ⟨second, shown⟩ := Prod.mk.inj paths
  obtain ⟨e, second, path⟩ := Option.map_eq_some_iff.mp second
  have moved := start.st.moves_moved testCtrl (testCtrl.down ||| testCtrl.triangle)
  have parent : (start.st.moves testCtrl (testCtrl.down ||| testCtrl.triangle)).HasParent := by
    rw [Selector.HasParent, moved.files, moved.shown, shown]
    refine ⟨⟨e, second, path⟩, .inl ⟨ascii "ux0:data/BasiliskII/", ⟨.inl (by decide), ascii "disks",
      [slash], by decide, by decide, .inr rfl, rfl⟩, .inl ⟨by decide, by decide⟩⟩⟩
  have run : Run (Session.press testCtrl) (Session.Allowed testCtrl) start
      [⟨disksHost, testCtrl.down ||| testCtrl.triangle⟩] s :=
    .next ⟨fun cross => absurd cross (by decide), fun _ _ => parent⟩ pressed (.done s)
  exact ⟨start, s, begun, run, file_selector_cursor begun run⟩

end BasiliskII.Menu
