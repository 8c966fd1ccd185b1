import BasiliskII.ExtFS.NameCopy
import BasiliskII.ExtFS.PathBuffer

/-!
# Where a path name leads

The guard of `::` in `get_item_and_path` knows the root and not the root's
parent, which has no parent itself. A walk that begins at the root or below it
never gets there, but the CNID of the root's parent is known to the guest too.
The buffers `name` and `full_path` hold short components and paths only.
-/
namespace BasiliskII.ExtFS

open StepSystem StringDest

variable {vol : Volume} {t u : FSTable}

/-- No `::` leads up from an item without parent, unless it is the root. -/
def NeverAboveTop (t : FSTable) (p : Nat) : List (List UInt8) → Prop
  | [] => True
  | [] :: rest =>
    (t.item p).id = ROOT_ID ∨ ∃ q, (t.item p).parent = some q ∧ NeverAboveTop t q rest
  | (c :: cs) :: rest =>
    NeverAboveTop (findFsitemGuest t (strn2cstr (c :: cs)) p).2
      (findFsitemGuest t (strn2cstr (c :: cs)) p).1 rest

/-- By induction on the components, which the walk follows. -/
theorem walk_isSome_iff (t : FSTable) (p : Nat) (cs : List (List UInt8)) :
    (walk t p cs).isSome ↔ NeverAboveTop t p cs := by
  induction cs generalizing t p with
  | nil => exact iff_of_true rfl trivial
  | cons c rest ih =>
    cases c with
    | nil =>
      rw [walk, NeverAboveTop]
      by_cases root : (t.item p).id = ROOT_ID
      · simp [root]
      · rw [if_neg root, or_iff_right root]
        cases (t.item p).parent with
        | none => simp
        | some q => simpa using ih t q
    | cons c cs => exact ih _ _

/-- The item is the root or lies below it. -/
def BelowRoot (t : FSTable) (p : Nat) : Prop :=
  ∃ root, (t.item root).id = ROOT_ID ∧ Relation.ReflTransGen (ParentOf t) p root

theorem ParentOf.valid {p q : Nat} (parent : ParentOf t p q) : t.Valid p := by
  by_contra outside
  rw [ParentOf, FSTable.item, List.getD_eq_default _ _ (Nat.le_of_not_lt outside)] at parent
  cases parent

theorem BelowRoot.valid {p : Nat} (below : BelowRoot t p) : t.Valid p := by
  obtain ⟨root, id, above⟩ := below
  rcases Relation.ReflTransGen.cases_head above with rfl | ⟨q, parent, _⟩
  · by_contra outside
    rw [FSTable.item, List.getD_eq_default _ _ (Nat.le_of_not_lt outside)] at id
    cases id
  · exact parent.valid

/-- An item that is looked up lies below the root with its directory. -/
theorem BelowRoot.findFsitemGuest {p : Nat} (below : BelowRoot t p) (name : CString) :
    BelowRoot (findFsitemGuest t name p).2 (findFsitemGuest t name p).1 := by
  have valid := below.valid
  obtain ⟨root, id, above⟩ := below
  rcases findFsitemGuest_cases t name p with ⟨q, _, ⟨parent, _⟩, found⟩ | ⟨_, made⟩
  · rw [found]
    exact ⟨root, id, .head parent above⟩
  · rw [made]
    have kept : ∀ {q}, t.Valid q → (createFsitem t name name p).2.item q = t.item q :=
      createFsitem_item_old
    have valid_root : t.Valid root := BelowRoot.valid ⟨root, id, .refl⟩
    refine ⟨root, by rw [kept valid_root, id], .head (b := p) ?_ ?_⟩
    · rw [ParentOf]
      exact congrArg FSItem.parent (createFsitem_item_new name name p)
    · refine above.lift (fun q => q) fun a b parent => ?_
      exact (congrArg FSItem.parent (kept parent.valid)).trans parent

theorem BelowRoot.neverAboveTop {p : Nat} (below : BelowRoot t p) (cs : List (List UInt8)) :
    NeverAboveTop t p cs := by
  induction cs generalizing t p with
  | nil => exact trivial
  | cons c rest ih =>
    cases c with
    | nil =>
      obtain ⟨root, id, above⟩ := below
      rcases Relation.ReflTransGen.cases_head above with rfl | ⟨q, parent, further⟩
      · exact .inl id
      · exact .inr ⟨q, parent, ih ⟨root, id, further⟩⟩
    | cons c cs => exact ih (below.findFsitemGuest _)

-- The first item of the table stays the root's parent.

theorem swapItemIds_first {a b : Nat} (other_a : a ≠ 0) (other_b : b ≠ 0) :
    ((swapItemIds t a b).item 0).id = (t.item 0).id := by
  simp only [FSTable.item, swapItemIds, FSTable.setId, List.getD_eq_getElem?_getD,
    List.getElem?_modify, if_neg other_a, if_neg other_b, swapParentIds_eq, List.getElem?_map]
  cases t.items[0]? <;> rfl

theorem Ends.top {host : Host} {out : Outcome} (ends : Ends vol host False t out)
    (initial : TableInvariant False t) (top : (t.item 0).id = ROOT_PARENT_ID) :
    (out.table.item 0).id = ROOT_PARENT_ID := by
  obtain ⟨u, looked, ⟨rfl, _⟩ | ⟨a, b, oldPath, newPath, old, valid, new, success, rfl⟩⟩ := ends
  · rw [looked.item initial.pointers.first, top]
  · have pointers := (looked.invariant initial).pointers
    have top_u : (u.item 0).id = ROOT_PARENT_ID := by
      rw [looked.item initial.pointers.first, top]
    have empty : fullPath vol u 0 = some [] := by
      rw [fullPath_unfold pointers pointers.first, if_pos top_u]
    obtain ⟨old_nonempty, new_nonempty⟩ := host.rename_nonempty _ _ success
    refine (swapItemIds_first ?_ ?_).trans top_u
    · rintro rfl
      rw [HasPath, empty] at old
      exact old_nonempty (Option.some.inj old.2).symm
    · rintro rfl
      rcases new with path | ⟨dir, _, parent, _⟩
      · rw [empty] at path
        exact new_nonempty (Option.some.inj path).symm
      · rw [pointers.top] at parent
        cases parent

theorem run_top {calls : List Call} (run : Run (step vol) Free (extFSInit vol) calls t) :
    (t.item 0).id = ROOT_PARENT_ID := by
  refine run_keeps (P := fun t => (t.item 0).id = ROOT_PARENT_ID) rfl ?_ ?_ run
  · intro t u initial top looked
    rw [looked.item initial.pointers.first, top]
  · exact fun initial top ends => ends.top initial top

open PathBuffer (ItemPath itemPath)

/-- The item has a host path, for which `full_path` has room. -/
def BuildsPath (vol : Volume) (t : FSTable) (item : Nat) (path : CString) : Prop :=
  ∃ parents, itemPath t t.items.length item = some parents ∧ path = ItemPath.joined vol parents ∧
    ∀ before start, (PathBuffer.getPathForFsitem before vol (holding start) parents).Inside
      MAX_PATH_LENGTH

/-- A lookup copies no component over the end of `name`, and answers with an error code or an item
and its host path. -/
def Resolved (vol : Volume) (fsm : FSM) (fuel : Nat) (t : FSTable) (pb : ParamBlock) (dirID : Nat)
    (noVolName : Bool) : Prop :=
  (∀ buffer ∈ copiedNames fsm fuel t pb dirID noVolName, buffer.Inside 32) ∧
    ∃ u found, getItemAndPath vol fsm fuel t pb dirID noVolName = some (u, found) ∧
      Answers (fun found => u.Valid found.1 ∧ BuildsPath vol u found.1 found.2) found

/-- The item is not just below the root's parent, and its host path is no longer than
`full_path`. -/
def PathFits (vol : Volume) (t : FSTable) (item : Nat) : Prop :=
  ∀ parents, itemPath t t.items.length item = some parents →
    (ItemPath.names parents = [] ∨ ItemPath.base vol parents ≠ []) ∧
      (ItemPath.joined vol parents).length < MAX_PATH_LENGTH

/-- No component is longer than a name, and the path name does not lead above the top from the
directory it is relative to, nor to an item whose path does not fit. -/
def StaysInside (vol : Volume) (fsm : FSM) (t : FSTable) (pb : ParamBlock) (name : List UInt8)
    (dirID : Nat) (noVolName : Bool) : Prop :=
  (∀ c ∈ copiedComponents fsm t pb name dirID noVolName, c.length ≤ 31) ∧
    ∀ currentDir p, getCurrentDir fsm pb dirID noVolName = .ok currentDir →
      findFsitemById t currentDir = some p →
        (∀ startOffset, fsm.parsePathname pb.ioNamePtr = (noErr, startOffset) →
          NeverAboveTop t p (components (name.drop startOffset))) ∧
        ∀ u item, target fsm pb name t p = some (u, .ok item) → PathFits vol u item

theorem buildsPath_iff {p : Nat} {path : CString} (found : fullPath vol t p = some path) :
    BuildsPath vol t p path ↔ PathFits vol t p := by
  have plain : (0 : UInt8) ≠ slash := by decide
  rw [fullPath, PathBuffer.getPathForFsitem_string vol t _ p (holding []) plain] at found
  obtain ⟨parents, chain, rfl⟩ := Option.map_eq_some_iff.mp found
  constructor
  · rintro ⟨parents, chain', _, inside⟩ other other_chain
    obtain rfl := Option.some.inj (chain'.symm.trans other_chain)
    exact (PathBuffer.inside_getPathForFsitem vol [] _).1.mp (inside 0 [])
  · intro fits
    have inside (before : UInt8) (start : CString) :
        (PathBuffer.getPathForFsitem before vol (holding start) parents).Inside MAX_PATH_LENGTH :=
      (PathBuffer.inside_getPathForFsitem vol start parents).1.mpr (fits parents chain)
    exact ⟨parents, chain, (PathBuffer.inside_getPathForFsitem vol [] _).2 (inside 0 []), inside⟩

theorem target_isSome_iff {fsm : FSM} {pb : ParamBlock} {name : List UInt8} {p : Nat} :
    (target fsm pb name t p).isSome ↔
      ∀ startOffset, fsm.parsePathname pb.ioNamePtr = (noErr, startOffset) →
        NeverAboveTop t p (components (name.drop startOffset)) := by
  rw [target]
  cases parsed : fsm.parsePathname pb.ioNamePtr with
  | mk result startOffset =>
    simp only [Prod.mk.injEq, and_imp]
    by_cases accepted : result = noErr
    · rw [if_pos accepted, walk_isSome_iff]
      simp [accepted]
    · rw [if_neg accepted]
      simp only [accepted, false_implies, implies_true, iff_true]
      split <;> rfl

/-- What the abstract walk finds, the lookup answers with its path. -/
theorem answers_of_target {fsm : FSM} {pb : ParamBlock} {name : List UInt8} {p : Nat}
    (parses : fsm.Parses pb name) (initial : TableInvariant False t)
    (top : (t.item 0).id = ROOT_PARENT_ID) (valid : t.Valid p) :
    (∃ u found, (target fsm pb name t p).bind (withPath vol) = some (u, found) ∧
        Answers (fun found => u.Valid found.1 ∧ BuildsPath vol u found.1 found.2) found) ↔
      (target fsm pb name t p).isSome ∧
        ∀ u item, target fsm pb name t p = some (u, .ok item) → PathFits vol u item := by
  cases reached : target fsm pb name t p with
  | none => simp
  | some answer =>
    obtain ⟨u, found⟩ := answer
    have parsed := findObject_eq parses (Nat.lt_succ_self _) t p
    rw [reached] at parsed
    obtain ⟨looked, answers⟩ := findObject_looked False.elim initial valid parsed
    cases found with
    | error result =>
      refine iff_of_true ⟨u, .error result, rfl, answers⟩ ⟨rfl, fun v item equal => ?_⟩
      cases equal
    | ok item =>
      have pointers := (looked.invariant initial).pointers
      have top_u : (u.item 0).id = ROOT_PARENT_ID := by
        rw [looked.item initial.pointers.first, top]
      have some_path : (fullPath vol u item).isSome := fullPath_isSome pointers top_u answers
      obtain ⟨path, path_eq⟩ := Option.isSome_iff_exists.mp some_path
      simp only [Option.bind_some, withPath, path_eq, Option.map_some]
      constructor
      · rintro ⟨v, found, equal, good⟩
        obtain ⟨rfl, rfl⟩ := by simpa using equal
        refine ⟨rfl, fun v item' equal => ?_⟩
        obtain ⟨rfl, rfl⟩ := by simpa using equal
        exact (buildsPath_iff path_eq).mp good.2
      · rintro ⟨_, inside⟩
        exact ⟨u, .ok (item, path), rfl, answers, (buildsPath_iff path_eq).mpr (inside u item rfl)⟩

/-- A lookup neither follows a null pointer nor hands out anything but an item with its path, or
an error code, nor leaves its buffers, if and only if the path name stays inside. From the root or
below it no path name leads above the top. -/
theorem resolved_iff (vol : Volume) (calls : List Call) (t : FSTable)
    (run : Run (step vol) Free (extFSInit vol) calls t) (fsm : FSM) (pb : ParamBlock)
    (name : List UInt8) (parses : fsm.Parses pb name) (dirID fuel : Nat) (noVolName : Bool)
    (enough : name.length < fuel) :
    (Resolved vol fsm fuel t pb dirID noVolName ↔
        StaysInside vol fsm t pb name dirID noVolName) ∧
      ∀ p cs, BelowRoot t p → NeverAboveTop t p cs := by
  refine ⟨?_, fun p cs below => below.neverAboveTop cs⟩
  refine and_congr (inside_names_iff parses enough t dirID noVolName) ?_
  have answers := getCurrentDir_answers fsm pb dirID noVolName
  cases current : getCurrentDir fsm pb dirID noVolName with
  | error result =>
    rw [current] at answers
    have failed : getItemAndPath vol fsm fuel t pb dirID noVolName = some (t, .error result) := by
      simp only [getItemAndPath, current]
    rw [failed]
    exact iff_of_true ⟨t, .error result, rfl, answers⟩ fun currentDir p known => by cases known
  | ok currentDir =>
    cases known : findFsitemById t currentDir with
    | none =>
      have failed : getItemAndPath vol fsm fuel t pb dirID noVolName =
          some (t, .error dirNFErr) := by
        simp only [getItemAndPath, current, known]
      rw [failed]
      refine iff_of_true ⟨t, .error dirNFErr, rfl, show dirNFErr ≠ noErr by decide⟩ ?_
      intro currentDir' p current' found
      obtain rfl := Except.ok.inj current'
      rw [known] at found
      cases found
    | some p =>
      rw [getItemAndPath_eq vol parses enough current known, answers_of_target parses
        (run_invariant run False.elim) (run_top run) (findFsitemById_eq_some known).1,
        target_isSome_iff]
      constructor
      · intro inside currentDir' p' current' known'
        obtain rfl := Except.ok.inj current'
        obtain rfl := Option.some.inj (known.symm.trans known')
        exact inside
      · exact fun inside => inside currentDir p rfl known

/-- `::` in the directory with the CNID of the root's parent follows its null pointer. -/
theorem parent_of_top_followed :
    (findFsitemById (extFSInit exampleVolume) ROOT_PARENT_ID).isSome ∧
      (pascalGuest [colon, colon]).Parses pascalBlock [colon, colon] ∧
      ∀ fuel > 2, ¬ Resolved exampleVolume (pascalGuest [colon, colon]) fuel
        (extFSInit exampleVolume) pascalBlock ROOT_PARENT_ID false := by
  have parses : (pascalGuest [colon, colon]).Parses pascalBlock [colon, colon] :=
    pascalGuest_parses _ (by decide)
  refine ⟨by decide, parses, fun fuel enough => ?_⟩
  have current : getCurrentDir (pascalGuest [colon, colon]) pascalBlock ROOT_PARENT_ID false =
      .ok ROOT_PARENT_ID := rfl
  have known : findFsitemById (extFSInit exampleVolume) ROOT_PARENT_ID = some 0 := rfl
  rintro ⟨_, u, found, equal, _⟩
  rw [getItemAndPath_eq _ parses enough current known] at equal
  cases equal

/-- `a` in the root. -/
theorem name_in_root_resolved :
    Resolved exampleVolume (pascalGuest [97]) 2 (extFSInit exampleVolume) pascalBlock ROOT_ID
        false ∧
      ∀ p cs, BelowRoot (extFSInit exampleVolume) p →
        NeverAboveTop (extFSInit exampleVolume) p cs := by
  have resolved := resolved_iff exampleVolume [] (extFSInit exampleVolume) (.done _)
    (pascalGuest [97]) pascalBlock [97] (pascalGuest_parses _ (by decide)) ROOT_ID 2 false
    (by decide)
  refine ⟨resolved.1.mpr ⟨by decide, fun currentDir p current known => ?_⟩, resolved.2⟩
  obtain rfl : ROOT_ID = currentDir := Except.ok.inj current
  obtain rfl : 1 = p := Option.some.inj known
  refine ⟨fun startOffset parsed => BelowRoot.neverAboveTop ⟨1, rfl, .refl⟩ _, ?_⟩
  intro u item reached parents chain
  -- the lookup makes one item
  have made : target (pascalGuest [97]) pascalBlock [97] (extFSInit exampleVolume) 1 =
      some (⟨(extFSInit exampleVolume).items ++ [⟨16, ROOT_ID, some 1, [97], [97]⟩], 17⟩, .ok 2) := rfl
  rw [made, Option.some.injEq, Prod.mk.injEq, Except.ok.injEq] at reached
  obtain ⟨rfl, rfl⟩ := reached
  obtain rfl : ItemPath.child .root [97] = parents := Option.some.inj chain
  decide

end BasiliskII.ExtFS
