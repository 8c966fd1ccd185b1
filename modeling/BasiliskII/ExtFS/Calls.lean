import BasiliskII.ExtFS.TableInvariant

/-!
# What the calls do to the table

A path lookup only adds items, whatever the guest's parser answers. A rename or
a move is two such lookups, and on success an exchange of two CNIDs. Hence
every table a run of calls reaches has the invariant of `TableInvariant`.
-/
namespace BasiliskII.ExtFS

open StepSystem

variable {t u : FSTable} {short : Prop} {vol : Volume}

/-- The guest finds no component longer than `guest_name`. -/
def FSM.Short (fsm : FSM) : Prop :=
  ∀ calls parseRec, (fsm.getPathComponentName calls parseRec).2.ppComponentLength ≤ 31

theorem strn2cstr_length (src : List UInt8) : (strn2cstr src).length ≤ src.length := by
  rw [strn2cstr]
  calc _ ≤ _ := (List.takeWhile_prefix _).length_le
    _ = src.length := List.length_map _

theorem FSM.component_length (fsm : FSM) (calls : Nat) (parseRec : ParsePathRec) :
    (fsm.component calls parseRec).length ≤ parseRec.ppComponentLength := by
  refine Nat.le_trans (strn2cstr_length _) ?_
  simp

/-- A routine answers with a good value or with an error code. -/
def Answers {α : Type} (good : α → Prop) : Except Int α → Prop
  | .ok a => good a
  | .error result => result ≠ noErr

/-- The parse state of a lookup that began at the table `t`. -/
structure Parse.Within (short : Prop) (t : FSTable) (s : Parse) : Prop where
  looked : Looked short t s.table
  valid : s.table.Valid s.p
  brief : short → s.parseRec.ppComponentLength ≤ 31

namespace Parse.Within

variable {fsm : FSM} {s s' : Parse} {result : Int}

theorem nextComponent (within : s.Within short t) (brief : short → fsm.Short) :
    (s.nextComponent fsm).1.Within short t where
  looked := within.looked
  valid := within.valid
  brief holds := brief holds _ _

theorem advance (within : s.Within short t) (n : Nat) :
    Within short t { s with parseRec := s.parseRec.advance n } where
  looked := within.looked
  valid := within.valid
  brief := within.brief

theorem component_brief (within : s.Within short t) (holds : short) :
    (fsm.component s.calls s.parseRec).length ≤ 31 :=
  Nat.le_trans (fsm.component_length _ _) (within.brief holds)

theorem enter (within : s.Within short t) (initial : TableInvariant short t)
    (entered : s.enter fsm = some (s', result)) : s'.Within short t := by
  have pointers := (within.looked.invariant initial).pointers
  simp only [Parse.enter] at entered
  split at entered
  · split at entered
    · -- `::` in the root
      obtain ⟨rfl, rfl⟩ := by simpa using entered
      exact within.advance 1
    · -- to the parent, which is an item of the list
      obtain ⟨q, parent, equal⟩ := Option.map_eq_some_iff.mp entered
      obtain ⟨rfl, rfl⟩ := by simpa using equal
      exact ⟨within.looked, (pointers.parent_valid within.valid parent).2, within.brief⟩
  · split at entered
    · -- into a directory
      obtain ⟨rfl, rfl⟩ := by simpa using entered
      exact ⟨within.looked.guest within.valid fun holds => within.component_brief holds,
        findFsitemGuest_valid _ _, within.brief⟩
    · obtain ⟨rfl, rfl⟩ := by simpa using entered
      exact within

theorem loop (brief : short → fsm.Short) (initial : TableInvariant short t) {fuel : Nat}
    (within : s.Within short t) (ended : s.loop fsm fuel = some (s', result)) :
    s'.Within short t := by
  induction fuel generalizing s with
  | zero => cases ended
  | succ fuel ih =>
    have next := within.nextComponent brief
    simp only [Parse.loop] at ended
    split at ended
    · split at ended
      · obtain ⟨rfl, rfl⟩ := by simpa using ended
        exact next
      · obtain ⟨⟨s₁, result₁⟩, entered, rest⟩ := Option.bind_eq_some_iff.mp ended
        have inside := next.enter initial entered
        split at rest
        · obtain ⟨rfl, rfl⟩ := by simpa using rest
          exact inside
        · exact ih inside rest
    · obtain ⟨rfl, rfl⟩ := by simpa using ended
      exact within

theorem object (within : s.Within short t) :
    Looked short t (s.object fsm).2 ∧ (s.object fsm).2.Valid (s.object fsm).1 := by
  simp only [Parse.object]
  split
  · exact ⟨within.looked, within.valid⟩
  · exact ⟨within.looked.guest within.valid fun holds => within.component_brief holds,
      findFsitemGuest_valid _ _⟩

theorem run (brief : short → fsm.Short) (initial : TableInvariant short t) {fuel : Nat}
    (within : s.Within short t) {found : Except Int Nat}
    (ended : s.run fsm fuel = some (u, found)) :
    Looked short t u ∧ Answers u.Valid found := by
  have next := within.nextComponent brief
  simp only [Parse.run] at ended
  split at ended
  next failed =>
    obtain ⟨rfl, rfl⟩ := by simpa using ended
    exact ⟨within.looked, failed⟩
  · obtain ⟨⟨s₁, result₁⟩, looped, rest⟩ := Option.map_eq_some_iff.mp ended
    have after : s₁.Within short t := by
      split at looped
      · exact (next.advance 1).loop brief initial looped
      · exact next.loop brief initial looped
    have found_object : Looked short t (s₁.object fsm).2 ∧ (s₁.object fsm).2.Valid _ := after.object
    split at rest
    next failed =>
      obtain ⟨rfl, rfl⟩ := by simpa using rest
      exact ⟨after.looked, failed⟩
    · obtain ⟨rfl, rfl⟩ := by simpa using rest
      exact found_object

end Parse.Within

variable {p : Nat}

theorem findFsitemById_eq_some {cnid : Nat} (found : findFsitemById t cnid = some p) :
    t.Valid p ∧ (t.item p).id = cnid := by
  obtain ⟨inside, passes, _⟩ := List.findIdx?_eq_some_iff_getElem.mp found
  exact ⟨inside, by simpa [FSTable.item_eq inside] using passes⟩

theorem getCurrentDir_answers (fsm : FSM) (pb : ParamBlock) (dirID : Nat) (noVolName : Bool) :
    Answers (fun _ => True) (getCurrentDir fsm pb dirID noVolName) := by
  simp only [getCurrentDir]
  repeat' split
  all_goals first
    | assumption
    | exact trivial
    | exact show paramErr ≠ noErr by decide

variable {pb : ParamBlock}

theorem findObject_looked {fsm : FSM} (brief : short → fsm.Short) (initial : TableInvariant short t)
    {fuel currentDir : Nat} (valid : t.Valid p) {found : Except Int Nat}
    (ended : findObject fsm fuel t pb p currentDir = some (u, found)) :
    Looked short t u ∧ Answers u.Valid found := by
  simp only [findObject] at ended
  split at ended
  · exact Parse.Within.run brief initial ⟨.refl t, valid, fun _ => Nat.zero_le _⟩ ended
  · split at ended
    · obtain ⟨rfl, rfl⟩ := by simpa using ended
      exact ⟨.refl t, valid⟩
    · obtain ⟨rfl, rfl⟩ := by simpa using ended
      exact ⟨.refl t, show bdNamErr ≠ noErr by decide⟩

/-- An item of the table with its path. -/
def HasPath (vol : Volume) (t : FSTable) (found : Nat × CString) : Prop :=
  t.Valid found.1 ∧ fullPath vol t found.1 = some found.2

/-- A path lookup adds items to the table and returns one of them with its path. -/
theorem getItemAndPath_looked {fsm : FSM} (brief : short → fsm.Short)
    (initial : TableInvariant short t) {fuel dirID : Nat} {noVolName : Bool}
    {found : Except Int (Nat × CString)}
    (ended : getItemAndPath vol fsm fuel t pb dirID noVolName = some (u, found)) :
    Looked short t u ∧ Answers (HasPath vol u) found := by
  have answers := getCurrentDir_answers fsm pb dirID noVolName
  simp only [getItemAndPath] at ended
  split at ended
  next failed =>
    rw [failed] at answers
    obtain ⟨rfl, rfl⟩ := by simpa using ended
    exact ⟨.refl t, answers⟩
  · split at ended
    · obtain ⟨rfl, rfl⟩ := by simpa using ended
      exact ⟨.refl t, show dirNFErr ≠ noErr by decide⟩
    next p present =>
      obtain ⟨⟨v, object⟩, parsed, rest⟩ := Option.bind_eq_some_iff.mp ended
      have looked := findObject_looked brief initial (findFsitemById_eq_some present).1 parsed
      cases object with
      | error result =>
        obtain ⟨rfl, rfl⟩ := by simpa using rest
        exact looked
      | ok item =>
        obtain ⟨path, path_eq, equal⟩ := Option.map_eq_some_iff.mp rest
        obtain ⟨rfl, rfl⟩ := by simpa using equal
        exact ⟨looked.1, looked.2, path_eq⟩

-- The recursion of `get_path_for_fsitem`, whose fuel is never used up.

theorem getPathForFsitem_fuel (pointers : Pointers t) {fuel fuel' : Nat} (valid : t.Valid p)
    (enough : p < fuel) (enough' : p < fuel') :
    getPathForFsitem vol t fuel p = getPathForFsitem vol t fuel' p := by
  induction p using Nat.strongRecOn generalizing fuel fuel' with
  | ind p ih =>
    obtain ⟨fuel, rfl⟩ := Nat.exists_eq_succ_of_ne_zero (Nat.ne_of_gt (Nat.zero_lt_of_lt enough))
    obtain ⟨fuel', rfl⟩ := Nat.exists_eq_succ_of_ne_zero (Nat.ne_of_gt (Nat.zero_lt_of_lt enough'))
    simp only [getPathForFsitem]
    cases parent : (t.item p).parent with
    | none => rfl
    | some q =>
      obtain ⟨lower, valid_q⟩ := pointers.parent_valid valid parent
      simp only [ih q lower valid_q (show q < fuel by omega) (show q < fuel' by omega)]

theorem fullPath_unfold (pointers : Pointers t) (valid : t.Valid p) :
    fullPath vol t p =
      if (t.item p).id = ROOT_PARENT_ID then some []
      else if (t.item p).id = ROOT_ID then some (vol.rootPath.take (MAX_PATH_LENGTH - 1))
      else (t.item p).parent.bind fun q =>
        (fullPath vol t q).map fun path => addPathComponent path (t.item p).name := by
  have inside : p < t.items.length := valid
  have length : t.items.length = t.items.length - 1 + 1 := by omega
  have unfolded : fullPath vol t p = getPathForFsitem vol t (t.items.length - 1 + 1) p := by
    rw [← length]
    rfl
  rw [unfolded]
  simp only [getPathForFsitem]
  cases parent : (t.item p).parent with
  | none => rfl
  | some q =>
    obtain ⟨lower, valid_q⟩ := pointers.parent_valid valid parent
    have above : getPathForFsitem vol t (t.items.length - 1) q = fullPath vol t q :=
      getPathForFsitem_fuel pointers valid_q (by omega) valid_q
    simp only [above, Option.bind_some]

/-- The path of an item depends on the parents, the names and on which items are the root and
its parent. -/
theorem fullPath_congr (pointers_t : Pointers t) (pointers_u : Pointers u) (valid : t.Valid p)
    (same : ∀ q, t.Valid q → u.Valid q ∧
      (u.item q).parent = (t.item q).parent ∧ (u.item q).name = (t.item q).name ∧
      ((u.item q).id = ROOT_PARENT_ID ↔ (t.item q).id = ROOT_PARENT_ID) ∧
      ((u.item q).id = ROOT_ID ↔ (t.item q).id = ROOT_ID)) :
    fullPath vol u p = fullPath vol t p := by
  induction p using Nat.strongRecOn with
  | ind p ih =>
    obtain ⟨valid_u, parent, name, top, root⟩ := same p valid
    rw [fullPath_unfold pointers_u valid_u, fullPath_unfold pointers_t valid]
    simp only [parent, name, top, root]
    cases points : (t.item p).parent with
    | none => rfl
    | some q =>
      obtain ⟨lower, valid_q⟩ := pointers_t.parent_valid valid points
      simp only [Option.bind_some, ih q lower valid_q]

theorem Looked.fullPath_eq (looked : Looked short t u) (initial : TableInvariant short t)
    (valid : t.Valid p) : fullPath vol u p = fullPath vol t p := by
  refine fullPath_congr initial.pointers (looked.invariant initial).pointers valid ?_
  intro q valid_q
  rw [looked.item valid_q]
  exact ⟨looked.valid valid_q, rfl, rfl, Iff.rfl, Iff.rfl⟩

theorem fullPath_isSome (pointers : Pointers t) (top : (t.item 0).id = ROOT_PARENT_ID)
    (valid : t.Valid p) : (fullPath vol t p).isSome := by
  induction p using Nat.strongRecOn with
  | ind p ih =>
    rw [fullPath_unfold pointers valid]
    rcases Nat.eq_zero_or_pos p with zero | positive
    · simp [zero, top]
    · obtain ⟨q, parent, lower⟩ := pointers.upward p positive valid
      have above := ih q lower (pointers.parent_valid valid parent).2
      split
      · rfl
      · split
        · rfl
        · simpa [parent] using above

/-- The path of the item a rename or a move leads to. The move has found the item under the
directory and appended the name to the directory's path itself. -/
def LeadsTo (vol : Volume) (t : FSTable) (p : Nat) (path : CString) : Prop :=
  fullPath vol t p = some path ∨
    ∃ dir dirPath, (t.item p).parent = some dir ∧ fullPath vol t dir = some dirPath ∧
      path = addPathComponent dirPath (t.item p).name

/-- A rename or a move ends in an error, with only lookups done, or in a swap of CNIDs. -/
def Ends (vol : Volume) (host : Host) (short : Prop) (t : FSTable) (out : Outcome) : Prop :=
  ∃ u, Looked short t u ∧
    ((out.table = u ∧ out.result ≠ noErr ∧ out.renamed = none) ∨
      ∃ a b oldPath newPath, HasPath vol u (a, oldPath) ∧ u.Valid b ∧
        LeadsTo vol u b newPath ∧ host.rename oldPath newPath = none ∧
        out = .swapped u a b oldPath newPath)

variable {host : Host}

theorem Ends.failed (looked : Looked short t u) {result : Int} (error : result ≠ noErr) :
    Ends vol host short t (.failed u result) :=
  ⟨u, looked, .inl ⟨rfl, error, rfl⟩⟩

theorem errno2oserr_ne_noErr {errno : Errno} (set : errno ≠ .zero) :
    errno2oserr errno ≠ noErr := by
  cases errno
  case zero => exact absurd rfl set
  all_goals decide

def Lookups.Short (guest : Lookups) : Prop := guest.first.Short ∧ guest.second.Short

variable {out : Outcome}

/-- The two lookups of a rename or a move, by what happens when both succeed. -/
theorem lookups_end {guest : Lookups} (brief : short → guest.Short)
    (initial : TableInvariant short t) {pb' : ParamBlock} {dirID dirID' : Nat}
    {k : FSTable × Except Int (Nat × CString) → Option Outcome}
    {k' : Nat × CString → FSTable × Except Int (Nat × CString) → Outcome}
    (ended : (getItemAndPath vol guest.first guest.fuel t pb dirID false).bind k = some out)
    (failed : ∀ u result, k (u, .error result) = some (.failed u result))
    (second : ∀ u found, k (u, .ok found) =
      (getItemAndPath vol guest.second guest.fuel u pb' dirID' false).map (k' found))
    (failed' : ∀ found v result, k' found (v, .error result) = .failed v result)
    (renames : ∀ {u v : FSTable} {found target : Nat × CString}, Looked short t u →
      Looked short u v → HasPath vol u found → HasPath vol v target →
      Ends vol host short t (k' found (v, .ok target))) : Ends vol host short t out := by
  obtain ⟨⟨u, first⟩, looked_up, rest⟩ := Option.bind_eq_some_iff.mp ended
  obtain ⟨looked, answers⟩ := getItemAndPath_looked (fun holds => (brief holds).1) initial looked_up
  cases first with
  | error result =>
    obtain rfl := Option.some.inj ((failed u result).symm.trans rest)
    exact .failed looked answers
  | ok found =>
    rw [second] at rest
    obtain ⟨⟨v, answer⟩, looked_up', rfl⟩ := Option.map_eq_some_iff.mp rest
    obtain ⟨looked', answers'⟩ := getItemAndPath_looked (fun holds => (brief holds).2)
      (looked.invariant initial) looked_up'
    cases answer with
    | error result =>
      rw [failed']
      exact .failed (looked.trans looked') answers'
    | ok target => exact renames looked looked' answers answers'

/-- The test for the new name and the host's `rename`, by what happens when it succeeds. -/
theorem Ends.renamed (looked : Looked short t u) {oldPath newPath : CString} {swapped : Outcome}
    (success : host.rename oldPath newPath = none → Ends vol host short t swapped) :
    Ends vol host short t
      (if host.access newPath then .failed u dupFNErr
      else
        match host.rename oldPath newPath with
        | some errno => .failed u (errno2oserr errno)
        | none => swapped) := by
  split
  · exact .failed looked (by decide)
  · split
    next errno failure =>
      exact .failed looked (errno2oserr_ne_noErr (host.rename_errno _ _ _ failure))
    next done => exact success done

theorem fsRename_ends {guest : Lookups} (brief : short → guest.Short)
    (initial : TableInvariant short t) {dirID : Nat}
    (ended : fsRename vol host guest t pb dirID = some out) : Ends vol host short t out := by
  refine lookups_end brief initial ended (fun _ _ => rfl) (fun _ _ => rfl) (fun _ _ _ => rfl) ?_
  intro u v found target looked looked' answers answers'
  have both := looked.trans looked'
  refine .renamed both fun success => ?_
  have old : fullPath vol v found.1 = some found.2 :=
    (looked'.fullPath_eq (looked.invariant initial) answers.1).trans answers.2
  exact ⟨v, both, .inr ⟨_, _, _, _, ⟨looked'.valid answers.1, old⟩, answers'.1,
    .inl answers'.2, success, rfl⟩⟩

theorem fsCatMove_ends {guest : Lookups} (brief : short → guest.Short)
    (initial : TableInvariant short t) (ended : fsCatMove vol host guest t pb = some out) :
    Ends vol host short t out := by
  refine lookups_end brief initial ended (fun _ _ => rfl) (fun _ _ => rfl) (fun _ _ _ => rfl) ?_
  intro u v found dir looked looked' answers answers'
  have both := looked.trans looked'
  refine .renamed both fun success => ?_
  -- The new item is found, or made, under the directory with the old name.
  have invariant := both.invariant initial
  have last : Looked short v (findFsitem v (v.item found.1).name dir.1).2 :=
    .host _ (.refl v) answers'.1
  have all := looked'.trans last
  obtain ⟨valid, parent, name⟩ := findFsitem_found (t := v) (v.item found.1).name dir.1
  refine ⟨_, both.trans last, .inr ⟨found.1, _, found.2, _, ⟨all.valid answers.1, ?_⟩,
    valid, .inr ⟨dir.1, dir.2, parent, ?_, ?_⟩, success, rfl⟩⟩
  · exact (all.fullPath_eq (looked.invariant initial) answers.1).trans answers.2
  · exact (last.fullPath_eq invariant answers'.1).trans answers'.2
  · rw [name]

/-- The empty path of the root's parent is never renamed, nor renamed to. -/
theorem renamed_ne_top (invariant : TableInvariant short t) (few : FewCreations t) {a b : Nat}
    {oldPath newPath : CString} (old : HasPath vol t (a, oldPath)) (valid : t.Valid b)
    (new : LeadsTo vol t b newPath) (success : host.rename oldPath newPath = none) :
    (t.item a).id ≠ ROOT_PARENT_ID ∧ (t.item b).id ≠ ROOT_PARENT_ID := by
  have pointers := invariant.pointers
  obtain ⟨old_nonempty, new_nonempty⟩ := host.rename_nonempty _ _ success
  constructor
  · intro top
    have path := old.2
    rw [fullPath_unfold pointers old.1, if_pos top] at path
    exact old_nonempty (by simpa using path.symm)
  · intro top
    rcases new with path | ⟨dir, _, parent, _⟩
    · rw [fullPath_unfold pointers valid, if_pos top] at path
      exact new_nonempty (by simpa using path.symm)
    · -- Only the first item has this id, and it has no parent.
      have ids := invariant.ids few
      obtain rfl := (FSTable.id_inj ids.distinct valid pointers.first).mp (top.trans ids.top.symm)
      rw [pointers.top] at parent
      cases parent

theorem Ids.swapItemIds (ids : Ids t) (pointers : Pointers t) {a b : Nat} (valid_a : t.Valid a)
    (valid_b : t.Valid b) (top_a : (t.item a).id ≠ ROOT_PARENT_ID)
    (top_b : (t.item b).id ≠ ROOT_PARENT_ID) : Ids (swapItemIds t a b) := by
  rw [swapItemIds_eq_relabel ids.distinct valid_a valid_b]
  refine ids.relabel pointers (Equiv.swap_apply_of_ne_of_ne top_a.symm top_b.symm) ?_
  intro p valid
  rw [Equiv.swap_apply_def]
  split
  · exact ids.below b valid_b
  · split
    · exact ids.below a valid_a
    · exact ids.below p valid

theorem Ends.invariant (ends : Ends vol host short t out) (initial : TableInvariant short t) :
    TableInvariant short out.table := by
  obtain ⟨u, looked, ⟨rfl, _⟩ | ⟨a, b, oldPath, newPath, old, valid, new, success, rfl⟩⟩ := ends
  · exact looked.invariant initial
  · have invariant := looked.invariant initial
    have same := swapItemIds_samePlaces (t := u) a b
    refine ⟨invariant.pointers.congr same, fun few => ?_, fun holds =>
      (invariant.names holds).congr same⟩
    have earlier : FewCreations u := few.of_le (Nat.le_of_eq same.length.symm)
    obtain ⟨top_a, top_b⟩ := renamed_ne_top invariant earlier old valid new success
    exact (invariant.ids earlier).swapItemIds invariant.pointers old.1 valid top_a top_b

/-- No guest component of the call is longer than `guest_name`. -/
def Call.Short : Call → Prop
  | .findFsitem _ _ => True
  | .findFsitemGuest guestName _ => guestName.length ≤ 31
  | .fsRename _ guest _ _ => guest.Short
  | .fsCatMove _ guest _ => guest.Short

theorem step_cases {call : Call} (initial : TableInvariant short t) (brief : short → call.Short)
    (taken : step vol t call = some u) :
    Looked short t u ∨ ∃ host out, Ends vol host short t out ∧ out.table = u := by
  cases call with
  | findFsitem name parent =>
    obtain ⟨valid, rfl⟩ := by simpa [step] using taken
    exact .inl (.host name (.refl t) valid)
  | findFsitemGuest guestName parent =>
    obtain ⟨valid, rfl⟩ := by simpa [step] using taken
    exact .inl (.guest (.refl t) valid brief)
  | fsRename host guest pb dirID =>
    obtain ⟨out, ended, rfl⟩ := Option.map_eq_some_iff.mp taken
    exact .inr ⟨host, out, fsRename_ends brief initial ended, rfl⟩
  | fsCatMove host guest pb =>
    obtain ⟨out, ended, rfl⟩ := Option.map_eq_some_iff.mp taken
    exact .inr ⟨host, out, fsCatMove_ends brief initial ended, rfl⟩

theorem step_invariant {call : Call} (invariant : TableInvariant short t)
    (brief : short → call.Short) (taken : step vol t call = some u) :
    TableInvariant short u := by
  rcases step_cases invariant brief taken with looked | ⟨host, out, ends, rfl⟩
  · exact looked.invariant invariant
  · exact ends.invariant invariant

theorem extFSInit_invariant (vol : Volume) (short : Prop) :
    TableInvariant short (extFSInit vol) := by
  have cases_two : ∀ {p}, (extFSInit vol).Valid p → p = 0 ∨ p = 1 := by
    intro p valid
    have : p < 2 := valid
    omega
  refine ⟨⟨Nat.le_refl 2, rfl, ?_⟩, fun _ => ⟨?_, rfl, ?_, rfl, ?_⟩, fun _ => ⟨?_, ?_⟩⟩
  · intro p positive valid
    obtain rfl : p = 1 := by
      have := cases_two valid
      omega
    exact ⟨0, rfl, by decide⟩
  · simp [extFSInit, ROOT_PARENT_ID, ROOT_ID]
  · intro p valid
    rcases cases_two valid with rfl | rfl <;>
      simp [FSTable.item, extFSInit, ROOT_PARENT_ID, ROOT_ID, fsUsrCNID]
  · intro p q valid points
    rcases cases_two valid with rfl | rfl
    · cases points
    · cases points
      rfl
  · intro p valid
    rcases cases_two valid with rfl | rfl <;> rfl
  · intro p q valid_p valid_q points _
    rcases cases_two valid_p with rfl | rfl <;> rcases cases_two valid_q with rfl | rfl
    · rfl
    · cases points
    · cases points
    · rfl

theorem run_invariant {calls : List Call} (run : Run (step vol) Free (extFSInit vol) calls t)
    (brief : short → ∀ call ∈ calls, call.Short) : TableInvariant short t := by
  have initial := extFSInit_invariant vol short
  generalize extFSInit vol = start at run initial
  induction run with
  | done => exact initial
  | next _ taken _ ih =>
    have head := step_invariant initial (fun holds => brief holds _ (List.mem_cons_self ..)) taken
    exact ih (fun holds call member => brief holds call (List.mem_cons_of_mem _ member)) head

/-- What lookups, renames and moves keep, beside the invariant, holds of every table a run
reaches. -/
theorem run_keeps {P : FSTable → Prop} (initial : P (extFSInit vol))
    (looked : ∀ {t u}, TableInvariant False t → P t → Looked False t u → P u)
    (ended : ∀ {t host out}, TableInvariant False t → P t → Ends vol host False t out →
      P out.table)
    {calls : List Call} (run : Run (step vol) Free (extFSInit vol) calls t) : P t := by
  refine (run.invariant (P := fun t => TableInvariant False t ∧ P t) ?_
    ⟨extFSInit_invariant vol False, initial⟩).2
  rintro t call u ⟨invariant, holds⟩ _ taken
  refine ⟨step_invariant invariant False.elim taken, ?_⟩
  rcases step_cases invariant False.elim taken with found | ⟨host, out, ends, rfl⟩
  · exact looked invariant holds found
  · exact ended invariant holds ends

-- What the invariant says of the parents of an item.

def ParentOf (t : FSTable) (p q : Nat) : Prop := (t.item p).parent = some q

theorem Pointers.ends_at_top (pointers : Pointers t) (valid : t.Valid p) :
    Relation.ReflTransGen (ParentOf t) p 0 := by
  induction p using Nat.strongRecOn with
  | ind p ih =>
    rcases Nat.eq_zero_or_pos p with rfl | positive
    · exact .refl
    · obtain ⟨q, parent, lower⟩ := pointers.upward p positive valid
      exact .head parent (ih q lower (pointers.parent_valid valid parent).2)

/-- Distinct ids below `next_cnid`, `parent_id` that agree with the parents, parents that form
a tree under the root's parent, a path for every item, and names that are unique in their
directory when the guest components were short. -/
theorem reachable_table_wellFormed (vol : Volume) (calls : List Call) (t : FSTable)
    (run : Run (step vol) Free (extFSInit vol) calls t) (few : FewCreations t) :
    (t.items.map FSItem.id).Nodup ∧
    (∀ p, t.Valid p → (t.item p).id < t.nextCnid) ∧
    (∀ p, t.Valid p → (t.item p).id ≠ ROOT_PARENT_ID →
      ∃ q, t.Valid q ∧ (t.item p).parent = some q ∧ (t.item p).parentId = (t.item q).id) ∧
    (∃ top, (t.item top).id = ROOT_PARENT_ID ∧ (t.item top).parent = none ∧
      ∀ p, t.Valid p → Relation.ReflTransGen (ParentOf t) p top) ∧
    (∀ p, t.Valid p → (fullPath vol t p).isSome) ∧
    ((∀ call ∈ calls, call.Short) → ∀ p q, t.Valid p → t.Valid q →
      (t.item p).parent = (t.item q).parent → (t.item p).name = (t.item q).name → p = q) := by
  have invariant : TableInvariant (∀ call ∈ calls, call.Short) t := run_invariant run id
  have pointers := invariant.pointers
  have ids := invariant.ids few
  refine ⟨ids.distinct, ids.below, ?_, ⟨0, ids.top, pointers.top, ?_⟩, ?_, ?_⟩
  · intro p valid other
    have positive : 0 < p := by
      rcases Nat.eq_zero_or_pos p with rfl | positive
      · exact absurd ids.top other
      · exact positive
    obtain ⟨q, parent, lower⟩ := pointers.upward p positive valid
    exact ⟨q, (pointers.parent_valid valid parent).2, parent, ids.parentIds p q valid parent⟩
  · exact fun p valid => pointers.ends_at_top valid
  · exact fun p valid => fullPath_isSome pointers ids.top valid
  · exact fun brief => (invariant.names brief).unique

/-- A guest that names one object of the directory it asks for. -/
def guestNaming (name : List UInt8) : FSM where
  determineVol _ := (noErr, dtmvVRefNum)
  resolveWDCB _ := (paramErr, 0)
  getDefaultVol := (paramErr, 0)
  parsePathname _ := (noErr, 0)
  getPathComponentName _ parseRec :=
    (noErr, { parseRec with ppComponentLength := name.length, ppMoreName := false })
  memory _ address := name.getD (address - 1) 0

/-- A host that renames whatever is asked of it. -/
def willingHost : Host where
  access _ := false
  rename old new := if old = [] ∨ new = [] then some .noent else none
  rename_nonempty old new success := by
    simp only [ite_eq_right_iff, reduceCtorEq, imp_false, not_or] at success
    exact success
  rename_errno old new e failure := by
    split at failure
    · obtain rfl := by simpa using failure
      decide
    · cases failure

/-- `/r`, with a volume called `V`. -/
def exampleVolume : Volume := ⟨[47, 114], [86]⟩

/-- Look up `a` in the root and `b` in `a`, then rename `a` to `c`. -/
def exampleCalls : List Call :=
  [.findFsitemGuest [97] 1, .findFsitemGuest [98] 2,
    .fsRename willingHost ⟨guestNaming [97], guestNaming [99], 1⟩ ⟨0, 0, 0, 0, 0⟩ ROOT_ID]

def exampleTable : FSTable :=
  { items :=
      [⟨1, 0, none, [], []⟩, ⟨2, 1, some 0, [86], [86]⟩, ⟨18, 2, some 1, [97], [97]⟩,
        ⟨17, 18, some 2, [98], [98]⟩, ⟨16, 2, some 1, [99], [99]⟩]
    nextCnid := 19 }

theorem exampleTable_reached :
    Run (step exampleVolume) Free (extFSInit exampleVolume) exampleCalls exampleTable :=
  run_of_exec (by decide)

theorem exampleTable_wellFormed :
    (exampleTable.items.map FSItem.id).Nodup ∧ (fullPath exampleVolume exampleTable 3).isSome := by
  have wellFormed := reachable_table_wellFormed exampleVolume exampleCalls exampleTable
    exampleTable_reached (by decide)
  exact ⟨wellFormed.1, wellFormed.2.2.2.2.1 3 (by decide)⟩

end BasiliskII.ExtFS
