import BasiliskII.ExtFS.CatRecord
import BasiliskII.ExtFS.CnidStability
import BasiliskII.ExtFS.HelperPath
import BasiliskII.ExtFS.PathWalk
import BasiliskII.Library.StampCache
import Mathlib.Data.Int.Order.Basic

/-!
# The cached number of files of a directory

`fs_get_cat_info` counts the files of a directory again when its modification
time is later than the one its item has recorded. Over histories of changes on
the host, renames, moves and queries the count is right as long as nothing
comes to a path that is older than what its items have recorded.
-/
namespace BasiliskII.ExtFS

open StepSystem StampCache

inductive HostObject where
  | file (mtime : Int) (size : Nat)
  /-- The names are those `readdir` returns. -/
  | dir (mtime : Int) (names : List CString)

/-- What stands at each path of the host; nothing at the empty one. -/
structure HostTree where
  object : CString → Option HostObject
  nothing : object [] = none

def HostObject.stat : HostObject → Stat
  | .file mtime size => ⟨false, mtime, size⟩
  | .dir mtime _ => ⟨true, mtime, 0⟩

/-- The host as `fs_get_cat_info` sees it. -/
def HostTree.catHost (tree : HostTree) : CatHost where
  stat path :=
    match tree.object path with
    | none => .error .noent
    | some object => .ok object.stat
  opendir path :=
    match tree.object path with
    | some (.dir _ names) => some names
    | _ => none
  rsrcEnd path :=
    match tree.object (Helper.rsrc.path path) with
    | some (.file _ size) => some size
    | _ => none

/-- The host as a rename sees it, which fails as `failure` says or for want of the old file. -/
def HostTree.host (tree : HostTree) (failure : Option { errno : Errno // errno ≠ .zero }) :
    Host where
  access path := (tree.object path).isSome
  rename old new :=
    if (tree.object old).isNone ∨ new = [] then some .noent else failure.map Subtype.val
  rename_nonempty old new success := by
    split at success
    · cases success
    next here =>
      refine ⟨fun empty => here (.inl ?_), fun empty => here (.inr empty)⟩
      rw [empty, tree.nothing]
      rfl
  rename_errno old new errno failed := by
    split at failed
    · obtain rfl := Option.some.inj failed
      decide
    · obtain ⟨⟨_, set⟩, _, rfl⟩ := Option.map_eq_some_iff.mp failed
      exact set

def HostTree.set (tree : HostTree) (path : CString) (object : Option HostObject) : HostTree where
  object p := if p = [] then none else if p = path then object else tree.object p
  nothing := rfl

/-- The path itself, or one below it. -/
def AtOrBelow (path p : CString) : Prop := p = path ∨ dirPrefix path <+: p

instance (path p : CString) : Decidable (AtOrBelow path p) := inferInstanceAs (Decidable (_ ∨ _))

/-- The host's `rename` takes along what is below. -/
def HostTree.move (tree : HostTree) (old new : CString) : HostTree where
  object p :=
    if p = [] then none
    -- What was at the new path is gone.
    else if p = new then tree.object old
    else if dirPrefix new <+: p then tree.object (dirPrefix old ++ p.drop (dirPrefix new).length)
    else if AtOrBelow old p then none
    else tree.object p
  nothing := rfl

variable {object : HostObject}

theorem HostTree.object_of_move {tree : HostTree} {old new p : CString}
    (here : (tree.move old new).object p = some object) : ∃ q, tree.object q = some object := by
  simp only [HostTree.move] at here
  split at here
  · cases here
  · split at here
    · exact ⟨_, here⟩
    · split at here
      · exact ⟨_, here⟩
      · split at here
        · cases here
        · exact ⟨_, here⟩

/-- Elsewhere than at the new path and below it everything was there before. -/
theorem HostTree.object_of_move_elsewhere {tree : HostTree} {old new p : CString}
    (elsewhere : ¬ AtOrBelow new p) (here : (tree.move old new).object p = some object) :
    tree.object p = some object := by
  simp only [HostTree.move, if_neg fun same => elsewhere (.inl same),
    if_neg fun part => elsewhere (.inr part)] at here
  split at here
  · cases here
  · split at here
    · cases here
    · exact here

structure World where
  table : FSTable
  caches : Caches
  tree : HostTree

/-- `memory` is what `new` finds there. -/
def World.init (vol : Volume) (memory : Nat → DirCache) (tree : HostTree) : World :=
  ⟨extFSInit vol, newCaches memory, tree⟩

inductive Event where
  /-- The host changes, makes or removes what stands at a path. -/
  | change (path : CString) (object : Option HostObject)
  | fsRename (failure : Option { errno : Errno // errno ≠ .zero }) (guest : Lookups)
      (pb : ParamBlock) (dirID : Nat)
  | fsCatMove (failure : Option { errno : Errno // errno ≠ .zero }) (guest : Lookups)
      (pb : ParamBlock)
  | fsGetCatInfo (fsm : FSM) (fuel : Nat) (pb : ParamBlock) (dirIndex : Int)

/-- A change advances the modification time of what it changes. -/
def Advances : Option HostObject → Option HostObject → Bool
  | some old, some new => old.stat.mtime < new.stat.mtime
  | _, _ => true

/-- What a rename or a move does. -/
def World.outcome (vol : Volume) (w : World) : Event → Option Outcome
  | .fsRename failure guest pb dirID =>
    ExtFS.fsRename vol (w.tree.host failure) guest w.table pb dirID
  | .fsCatMove failure guest pb => ExtFS.fsCatMove vol (w.tree.host failure) guest w.table pb
  | _ => none

def World.renamed (w : World) (out : Outcome) : World :=
  { w with
    table := out.table
    tree :=
      match out.renamed with
      | none => w.tree
      | some renamed => w.tree.move renamed.oldPath renamed.newPath }

def World.step (vol : Volume) (w : World) : Event → Option World
  | .change path object =>
    if Advances (w.tree.object path) object then some { w with tree := w.tree.set path object }
    else none
  | .fsGetCatInfo fsm fuel pb dirIndex =>
    (ExtFS.fsGetCatInfo vol w.tree.catHost fsm fuel w.table w.caches pb dirIndex).map
      fun (table, caches, _) => { w with table, caches }
  | event => (w.outcome vol event).map w.renamed

def DirCache.entry (cache : DirCache) : Entry Int Int := ⟨cache.mtime, cache.dircount⟩

/-- The modification time, and the number of visible names of a directory. -/
def HostObject.source : HostObject → Source Int Int
  | .file mtime _ => ⟨mtime, none⟩
  | .dir mtime names => ⟨mtime, some (names.filter visible).length⟩

/-- The items whose path this is have recorded an older time than that of what stands there, or
the same time and its count. -/
def World.Current (vol : Volume) (w : World) (path : CString) : Prop :=
  ∀ q object, w.table.Valid q → fullPath vol w.table q = some path →
    w.tree.object path = some object → (w.caches q).entry.Current object.source

/-- What appears at a path, by a change or by a rename or a move of other items than the root, is
not older than recorded; modification times are positive, and directories have fewer than 65536
visible names. -/
def Careful (vol : Volume) (w : World) (event : Event) : Prop :=
  (∀ w', w.step vol event = some w' → FewCreations w'.table) ∧
    match event with
    | .change path object =>
      w.tree.object path = none → (∀ new, object = some new → 0 < new.stat.mtime) ∧
        World.Current vol { w with tree := w.tree.set path object } path
    | .fsGetCatInfo _ _ _ _ =>
      ∀ path mtime names, w.tree.object path = some (.dir mtime names) →
        (names.filter visible).length < 2 ^ 16
    | event =>
      ∀ out renamed, w.outcome vol event = some out → out.renamed = some renamed →
        renamed.cnid ≠ ROOT_ID ∧ renamed.newCnid ≠ ROOT_ID ∧
          ∀ path, AtOrBelow renamed.newPath path → (w.renamed out).Current vol path

theorem source_stamp (object : HostObject) : object.source.stamp = object.stat.mtime := by
  cases object <;> rfl

/-- The invariant of a careful history. -/
structure Coherent (vol : Volume) (w : World) : Prop where
  invariant : TableInvariant False w.table
  root : (w.table.item 1).id = ROOT_ID
  fresh : ∀ p, ¬ w.table.Valid p → (w.caches p).mtime = 0
  positive : ∀ path object, w.tree.object path = some object → 0 < object.stat.mtime
  current : ∀ path, w.Current vol path

namespace Coherent

variable {vol : Volume} {w : World} {u : FSTable}

theorem second (coherent : Coherent vol w) : w.table.Valid 1 :=
  Nat.lt_of_lt_of_le (by decide) coherent.invariant.pointers.root

theorem looked (coherent : Coherent vol w) (looked : Looked False w.table u) :
    Coherent vol { w with table := u } where
  invariant := looked.invariant coherent.invariant
  root := by rw [looked.item coherent.second, coherent.root]
  fresh p outside := coherent.fresh p fun valid => outside (looked.valid valid)
  positive := coherent.positive
  current path q object _ leads here := by
    by_cases known : w.table.Valid q
    · rw [looked.fullPath_eq coherent.invariant known] at leads
      exact coherent.current path q object known leads here
    · left
      rw [source_stamp, DirCache.entry, coherent.fresh q known]
      exact coherent.positive path object here

theorem change (coherent : Coherent vol w) {path : CString} {object : Option HostObject}
    (advances : Advances (w.tree.object path) object = true)
    (careful : w.tree.object path = none → (∀ new, object = some new → 0 < new.stat.mtime) ∧
      World.Current vol { w with tree := w.tree.set path object } path) :
    Coherent vol { w with tree := w.tree.set path object } where
  invariant := coherent.invariant
  root := coherent.root
  fresh := coherent.fresh
  positive p new here := by
    simp only [HostTree.set] at here
    split at here
    · cases here
    · split at here
      next same =>
        cases before : w.tree.object path with
        | none => exact (careful before).1 new here
        | some old =>
          rw [before, here] at advances
          exact (coherent.positive path old before).trans (of_decide_eq_true advances)
      · exact coherent.positive p new here
  current p q new valid leads here := by
    by_cases same : p = path
    · subst same
      cases before : w.tree.object p with
      | none => exact (careful before).2 q new valid leads here
      | some old =>
        simp only [HostTree.set] at here
        split at here
        · cases here
        · rw [if_pos trivial] at here
          rw [before, here] at advances
          refine (coherent.current p q old valid leads before).advance ?_
          rw [source_stamp, source_stamp]
          exact of_decide_eq_true advances
    · simp only [HostTree.set, if_neg same] at here
      split at here
      · cases here
      · exact coherent.current p q new valid leads here

/-- After a rename or a move the items have their old paths, and the host's objects are new at
the new path and below it alone. -/
theorem renamed (coherent : Coherent vol w) {host : Host} {out : Outcome}
    (ends : Ends vol host False w.table out) (few : FewCreations out.table)
    (careful : ∀ renamed, out.renamed = some renamed →
      renamed.cnid ≠ ROOT_ID ∧ renamed.newCnid ≠ ROOT_ID ∧
        ∀ path, AtOrBelow renamed.newPath path → (w.renamed out).Current vol path) :
    Coherent vol (w.renamed out) := by
  have invariant := ends.invariant coherent.invariant
  obtain ⟨u, looked, ⟨table, _, failed⟩ | ⟨a, b, oldPath, newPath, old, valid, new, done, rfl⟩⟩ := ends
  · have same : w.renamed out = { w with table := u } := by
      rw [World.renamed, table, failed]
    rw [same]
    exact coherent.looked looked
  · obtain ⟨root_a, root_b, arrived⟩ := careful _ rfl
    have coherent_u := coherent.looked looked
    have pointers := coherent_u.invariant.pointers
    have places := swapItemIds_samePlaces (t := u) a b
    have few_u : FewCreations u := few.of_le (Nat.le_of_eq places.length.symm)
    have ids := coherent_u.invariant.ids few_u
    obtain ⟨top_a, top_b⟩ := renamed_ne_top coherent_u.invariant few_u old valid new done
    have relabelled := swapItemIds_eq_relabel ids.distinct old.1 valid
    have root : Equiv.swap (u.item a).id (u.item b).id ROOT_ID = ROOT_ID :=
      Equiv.swap_apply_of_ne_of_ne root_a.symm root_b.symm
    have top : Equiv.swap (u.item a).id (u.item b).id ROOT_PARENT_ID = ROOT_PARENT_ID :=
      Equiv.swap_apply_of_ne_of_ne top_a.symm top_b.symm
    refine ⟨invariant, ?_, ?_, ?_, ?_⟩
    · have root_u : (u.item 1).id = ROOT_ID := coherent_u.root
      simp only [World.renamed, Outcome.swapped, relabelled]
      rw [FSTable.relabel_item _ coherent_u.second, FSItem.relabel, root_u]
      exact root
    · intro p outside
      exact coherent_u.fresh p fun known => outside ((places.valid p).mpr known)
    · intro path object here
      obtain ⟨source, before⟩ := HostTree.object_of_move here
      exact coherent.positive source object before
    · intro path
      by_cases below : AtOrBelow newPath path
      · exact arrived path below
      · -- the items keep their paths, and the host its objects
        intro q object valid_q leads here
        have known : u.Valid q := (places.valid q).mp valid_q
        simp only [World.renamed, Outcome.swapped, relabelled] at leads
        rw [fullPath_relabel pointers top root known] at leads
        exact coherent_u.current path q object known leads
          (HostTree.object_of_move_elsewhere below here)

end Coherent

section Query

variable {vol : Volume} {t u : FSTable}

/-- An item that is found in a directory other than the root's parent has its path there. -/
theorem findFsitem_path (initial : TableInvariant False t) (root : (t.item 1).id = ROOT_ID)
    {p : Nat} {dirPath : CString} (valid : t.Valid p) (dir_path : fullPath vol t p = some dirPath)
    (some_path : dirPath ≠ []) (name : CString) (few : FewCreations (findFsitem t name p).2) :
    HasPath vol (findFsitem t name p).2
      ((findFsitem t name p).1, addPathComponent dirPath name) := by
  have looked : Looked False t (findFsitem t name p).2 := .host name (.refl t) valid
  obtain ⟨valid_item, parent, name_eq⟩ := findFsitem_found (t := t) name p
  have invariant := looked.invariant initial
  have pointers := invariant.pointers
  have ids := invariant.ids few
  have second : t.Valid 1 := Nat.lt_of_lt_of_le (by decide) initial.pointers.root
  generalize findFsitem t name p = made at *
  have not_top : (made.2.item made.1).id ≠ ROOT_PARENT_ID := by
    intro top
    have first := (FSTable.id_inj ids.distinct valid_item pointers.first).mp (top.trans ids.top.symm)
    rw [first, pointers.top] at parent
    cases parent
  have not_root : (made.2.item made.1).id ≠ ROOT_ID := by
    intro is_root
    have same : (made.2.item made.1).id = (made.2.item 1).id := by
      rw [is_root, looked.item second, root]
    have at_one := (FSTable.id_inj ids.distinct valid_item (looked.valid second)).mp same
    obtain ⟨q, above, lower⟩ := pointers.upward 1 (by decide) (looked.valid second)
    -- so the directory is the root's parent
    rw [at_one, above] at parent
    obtain rfl : q = p := Option.some.inj parent
    obtain rfl : q = 0 := Nat.lt_one_iff.mp lower
    have ids_t := initial.ids (few.of_le looked.grows.length_le)
    rw [fullPath_unfold initial.pointers valid, if_pos ids_t.top] at dir_path
    exact some_path (Option.some.inj dir_path).symm
  refine ⟨valid_item, ?_⟩
  rw [fullPath_unfold pointers valid_item, if_neg not_top, if_neg not_root, parent,
    Option.bind_some, looked.fullPath_eq initial valid, dir_path, name_eq]
  rfl

/-- The item of a query has the path that is looked at. With an index it lies in a directory that
was opened, so it is not the root. -/
theorem catItem_found {tree : HostTree} {fsm : FSM} {fuel : Nat} {pb : ParamBlock} {dirIndex : Int}
    {found : Except Int (Nat × CString)} (initial : TableInvariant False t)
    (root : (t.item 1).id = ROOT_ID)
    (reached : catItem vol tree.catHost fsm fuel t pb dirIndex = some (u, found))
    (few : FewCreations u) :
    Looked False t u ∧ ∀ item, found = .ok item → HasPath vol u item := by
  unfold catItem at reached
  split at reached
  · split at reached
    · obtain ⟨rfl, rfl⟩ := by simpa using reached
      exact ⟨.refl t, fun item ok => by cases ok⟩
    next p known =>
      obtain ⟨path, path_eq, equal⟩ := Option.map_eq_some_iff.mp reached
      obtain ⟨rfl, rfl⟩ := by simpa using equal
      refine ⟨.refl t, fun item ok => ?_⟩
      obtain rfl := Except.ok.inj ok
      exact ⟨(findFsitemById_eq_some known).1, path_eq⟩
  · split at reached
    · obtain ⟨looked, answers⟩ := getItemAndPath_looked False.elim initial reached
      refine ⟨looked, fun item ok => ?_⟩
      rw [ok] at answers
      exact answers
    · split at reached
      · obtain ⟨rfl, rfl⟩ := by simpa using reached
        exact ⟨.refl t, fun item ok => by cases ok⟩
      · split at reached
        · obtain ⟨rfl, rfl⟩ := by simpa using reached
          exact ⟨.refl t, fun item ok => by cases ok⟩
        next p known =>
          have valid := (findFsitemById_eq_some known).1
          obtain ⟨dirPath, dir_path, equal⟩ := Option.map_eq_some_iff.mp reached
          split at equal
          · obtain ⟨rfl, rfl⟩ := by simpa using equal
            exact ⟨.refl t, fun item ok => by cases ok⟩
          next names opened =>
            split at equal
            · obtain ⟨rfl, rfl⟩ := by simpa using equal
              exact ⟨.refl t, fun item ok => by cases ok⟩
            next name entry =>
              obtain ⟨rfl, rfl⟩ := by simpa using equal
              refine ⟨.host name (.refl t) valid, fun item ok => ?_⟩
              obtain rfl := Except.ok.inj ok
              refine findFsitem_path initial root valid dir_path ?_ name few
              rintro rfl
              simp [HostTree.catHost, tree.nothing] at opened

/-- What the query leaves in the cache and in the parameter block. -/
theorem fillCatInfo_cases (tree : HostTree) (t : FSTable) (caches : Caches) (q : Nat)
    {path : CString} (dirIndex : Int) {object : HostObject} (here : tree.object path = some object) :
    (∃ result, fillCatInfo tree.catHost t caches q path dirIndex = (caches, .error result)) ∨
      ∃ item record, fillCatInfo tree.catHost t caches q path dirIndex =
          (Function.update caches q item, .ok record) ∧
        item.entry = (caches q).entry.look object.source ∧
        record.ioDirID = (t.item q).id ∧
        ∀ n, record.ioDrNmFls = some n → ∃ mtime names, object = .dir mtime names ∧
          n = BitVec.ofInt 16 item.dircount := by
  unfold fillCatInfo
  simp only [HostTree.catHost, here]
  split
  · exact .inl ⟨_, rfl⟩
  · right
    -- a file brings the time up to date as well, and no count
    cases object with
    | file mtime size =>
      refine ⟨_, _, rfl, ?_, rfl, fun n filled => by cases filled⟩
      by_cases cached : mtime ≤ (caches q).mtime
      · simp [HostObject.stat, HostObject.source, DirCache.entry, Entry.look, cached]
      · simp [HostObject.stat, HostObject.source, DirCache.entry, Entry.look, cached]
    | dir mtime names =>
      refine ⟨_, _, rfl, ?_, rfl, fun n filled => ⟨mtime, names, rfl, (Option.some.inj filled).symm⟩⟩
      by_cases cached : mtime ≤ (caches q).mtime
      · simp [HostObject.stat, HostObject.source, DirCache.entry, Entry.look, cached]
      · simp [HostObject.stat, HostObject.source, DirCache.entry, Entry.look, cached, countDir, here,
          countEntries_eq]

end Query

variable {vol : Volume} {w : World}

/-- A query brings the entry of the item it is about up to date. -/
theorem Coherent.look (coherent : Coherent vol w) {q : Nat} {path : CString} {item : DirCache}
    (valid : w.table.Valid q) (leads : fullPath vol w.table q = some path)
    (here : w.tree.object path = some object)
    (entry : item.entry = (w.caches q).entry.look object.source) :
    Coherent vol { w with caches := Function.update w.caches q item } where
  invariant := coherent.invariant
  root := coherent.root
  fresh p outside := by
    have other : p ≠ q := fun same => outside (same ▸ valid)
    simp only [Function.update_of_ne other]
    exact coherent.fresh p outside
  positive := coherent.positive
  current path' q' object' valid' leads' here' := by
    by_cases same : q' = q
    · subst same
      obtain rfl : path = path' := Option.some.inj (leads.symm.trans leads')
      obtain rfl : object = object' := Option.some.inj (here.symm.trans here')
      simp only [Function.update_self, entry]
      exact (coherent.current path q' object valid leads here).look
    · simp only [Function.update_of_ne same]
      exact coherent.current path' q' object' valid' leads' here'

/-- A query leaves the invariant, and its number is that of the directory. -/
theorem Coherent.query (coherent : Coherent vol w) {fsm : FSM} {fuel : Nat} {pb : ParamBlock}
    {dirIndex : Int} {t : FSTable} {caches : Caches} {answer : Except Int CatRecord}
    (answered : fsGetCatInfo vol w.tree.catHost fsm fuel w.table w.caches pb dirIndex =
      some (t, caches, answer)) (few : FewCreations t) :
    Coherent vol { w with table := t, caches } ∧
      ∀ record n, answer = .ok record → record.ioDrNmFls = some n →
        ∃ path mtime names, resolve vol t record.ioDirID = some path ∧
          w.tree.object path = some (.dir mtime names) ∧
          n = BitVec.ofNat 16 (names.filter visible).length := by
  obtain ⟨⟨u, found⟩, reached, equal⟩ := Option.map_eq_some_iff.mp answered
  have table : u = t := by
    cases found with
    | error result => exact congrArg Prod.fst equal
    | ok item => exact congrArg Prod.fst equal
  subst table
  obtain ⟨looked, has_path⟩ := catItem_found coherent.invariant coherent.root reached few
  have after := coherent.looked looked
  cases found with
  | error result =>
    obtain ⟨rfl, rfl⟩ := by simpa using equal
    exact ⟨after, fun record n ok => by cases ok⟩
  | ok item =>
    obtain ⟨q, path⟩ := item
    obtain ⟨valid, leads⟩ := has_path _ rfl
    cases here : w.tree.object path with
    | none =>
      have missing : fillCatInfo w.tree.catHost u w.caches q path dirIndex =
          (w.caches, .error (errno2oserr .noent)) := by
        simp [fillCatInfo, HostTree.catHost, here]
      simp only [missing, Prod.mk.injEq, true_and] at equal
      obtain ⟨rfl, rfl⟩ := equal
      exact ⟨after, fun record n ok => by cases ok⟩
    | some object =>
      have current := after.current path q object valid leads here
      rcases fillCatInfo_cases w.tree u w.caches q dirIndex here with
        ⟨result, filled⟩ | ⟨item, record, filled, entry, id, count⟩
      · simp only [filled, Prod.mk.injEq, true_and] at equal
        obtain ⟨rfl, rfl⟩ := equal
        exact ⟨after, fun record n ok => by cases ok⟩
      · simp only [filled, Prod.mk.injEq, true_and] at equal
        obtain ⟨rfl, rfl⟩ := equal
        refine ⟨after.look valid leads here entry, ?_⟩
        intro record' n ok filled_in
        obtain rfl := Except.ok.inj ok
        obtain ⟨mtime, names, rfl, rfl⟩ := count n filled_in
        have ids := after.invariant.ids few
        refine ⟨path, mtime, names,
          (resolve_eq_some_iff ids.distinct).mpr ⟨q, valid, id.symm, leads⟩, here, ?_⟩
        have value : item.dircount = ((names.filter visible).length : Int) := by
          have read := current.look_value (v := ((names.filter visible).length : Int)) rfl
          rw [← entry] at read
          exact read
        rw [value, BitVec.ofInt_natCast]

theorem Coherent.step (coherent : Coherent vol w) {event : Event} {w' : World}
    (careful : Careful vol w event) (taken : w.step vol event = some w') : Coherent vol w' := by
  obtain ⟨few, careful⟩ := careful
  have few := few w' taken
  cases event with
  | change path object =>
    simp only [World.step] at taken
    split at taken
    next advances =>
      obtain rfl := Option.some.inj taken
      exact coherent.change advances careful
    · cases taken
  | fsGetCatInfo fsm fuel pb dirIndex =>
    obtain ⟨⟨t, caches, answer⟩, answered, rfl⟩ := Option.map_eq_some_iff.mp taken
    exact (coherent.query answered few).1
  | fsRename failure guest pb dirID =>
    obtain ⟨out, ended, rfl⟩ := Option.map_eq_some_iff.mp taken
    exact coherent.renamed (fsRename_ends False.elim coherent.invariant ended) few
      fun renamed same => careful out renamed ended same
  | fsCatMove failure guest pb =>
    obtain ⟨out, ended, rfl⟩ := Option.map_eq_some_iff.mp taken
    exact coherent.renamed (fsCatMove_ends False.elim coherent.invariant ended) few
      fun renamed same => careful out renamed ended same

/-- Where `ExtFSInit` starts: the time that lies in the memory of the root item is older than the
root's, and modification times are positive. -/
def CleanStart (vol : Volume) (memory : Nat → DirCache) (tree : HostTree) : Prop :=
  (∀ path object, tree.object path = some object → 0 < object.stat.mtime) ∧
    ∀ path, (World.init vol memory tree).Current vol path

theorem init_coherent {memory : Nat → DirCache} {tree : HostTree}
    (start : CleanStart vol memory tree) : Coherent vol (World.init vol memory tree) where
  invariant := extFSInit_invariant vol False
  root := rfl
  fresh p outside := by
    have behind : ¬ p < 2 := outside
    simp [World.init, newCaches, behind]
  positive := start.1
  current := start.2

/-- After a careful history, the number a query gives for a directory is that of its visible
names. -/
theorem dircount_right (vol : Volume) (memory : Nat → DirCache) (tree : HostTree)
    (start : CleanStart vol memory tree) (events : List Event) (w : World)
    (run : Run (World.step vol) (Careful vol) (World.init vol memory tree) events w)
    (fsm : FSM) (fuel : Nat) (pb : ParamBlock) (dirIndex : Int)
    (careful : Careful vol w (.fsGetCatInfo fsm fuel pb dirIndex)) (t : FSTable) (caches : Caches)
    (record : CatRecord) (n : BitVec 16)
    (answered : fsGetCatInfo vol w.tree.catHost fsm fuel w.table w.caches pb dirIndex =
      some (t, caches, .ok record)) (filled : record.ioDrNmFls = some n) :
    ∃ path mtime names, resolve vol t record.ioDirID = some path ∧
      w.tree.object path = some (.dir mtime names) ∧
      n.toNat = (names.filter visible).length := by
  have coherent : Coherent vol w := run.invariant
    (fun s l t coherent careful taken => coherent.step careful taken) (init_coherent start)
  have few : FewCreations t := by
    refine careful.1 { w with table := t, caches } ?_
    simp only [World.step, answered, Option.map_some]
  obtain ⟨path, mtime, names, resolved, here, rfl⟩ :=
    (coherent.query answered few).2 record n rfl filled
  refine ⟨path, mtime, names, resolved, here, ?_⟩
  rw [BitVec.toNat_ofNat]
  exact Nat.mod_eq_of_lt (careful.2 path mtime names here)

/-- `/r` with two directories, of which `/r/b` is older. -/
def exampleTree : HostTree where
  object p :=
    if p = ascii "/r" then some (.dir 15 [ascii "a", ascii "b"])
    else if p = ascii "/r/a" then some (.dir 20 [ascii "x", ascii "y"])
    else if p = ascii "/r/b" then some (.dir 10 [ascii "z"])
    else none
  nothing := rfl

/-- A query of `/r/a` by name. -/
def queryA : Event := .fsGetCatInfo (pascalGuest (ascii "a")) 2 ⟨1, 0, 1, 0, ROOT_ID⟩ 0

/-- The three objects of the tree. -/
theorem exampleTree_cases {path : CString} (here : exampleTree.object path = some object) :
    path = ascii "/r" ∧ object = .dir 15 [ascii "a", ascii "b"] ∨
      path = ascii "/r/a" ∧ object = .dir 20 [ascii "x", ascii "y"] ∨
      path = ascii "/r/b" ∧ object = .dir 10 [ascii "z"] := by
  simp only [exampleTree] at here
  split at here
  next same => exact .inl ⟨same, (Option.some.inj here).symm⟩
  · split at here
    next same => exact .inr (.inl ⟨same, (Option.some.inj here).symm⟩)
    · split at here
      next same => exact .inr (.inr ⟨same, (Option.some.inj here).symm⟩)
      · cases here

theorem exampleTree_clean :
    CleanStart exampleVolume (fun _ => ⟨0, 0⟩) exampleTree := by
  have positive : ∀ path object, exampleTree.object path = some object → 0 < object.stat.mtime := by
    intro path object here
    rcases exampleTree_cases here with ⟨_, rfl⟩ | ⟨_, rfl⟩ | ⟨_, rfl⟩ <;> decide
  refine ⟨positive, fun path q object _ _ here => .inl ?_⟩
  have zero : newCaches (fun _ => ⟨0, 0⟩) q = ⟨0, 0⟩ := by
    unfold newCaches
    split <;> rfl
  rw [source_stamp]
  simp only [World.init, zero]
  exact positive path object here

/-- `/r/a` is queried, and then loses a file. -/
def carefulEvents : List Event :=
  [queryA, .change (ascii "/r/a") (some (.dir 30 [ascii "x"]))]

/-- The next query counts again. -/
theorem changed_directory_counted :
    ∃ path mtime names, resolve exampleVolume
        ⟨(extFSInit exampleVolume).items ++ [⟨16, ROOT_ID, some 1, ascii "a", ascii "a"⟩], 17⟩ 16 =
          some path ∧
      (exampleTree.set (ascii "/r/a") (some (.dir 30 [ascii "x"]))).object path =
          some (.dir mtime names) ∧
      (1 : BitVec 16).toNat = (names.filter visible).length := by
  have first : Careful exampleVolume (World.init exampleVolume (fun _ => ⟨0, 0⟩) exampleTree)
      queryA := by
    refine ⟨fun w' taken => ?_, fun path mtime names here => ?_⟩
    · obtain rfl := Option.some.inj taken
      decide
    · rcases exampleTree_cases here with ⟨_, same⟩ | ⟨_, same⟩ | ⟨_, same⟩ <;> cases same <;> decide
  refine dircount_right exampleVolume (fun _ => ⟨0, 0⟩) exampleTree exampleTree_clean carefulEvents
    _ (.next first rfl (.next ⟨fun w' taken => ?_, fun absent => ?_⟩ rfl (.done _)))
    (pascalGuest (ascii "a")) 2 ⟨1, 0, 1, 0, ROOT_ID⟩ 0
    ⟨fun w' taken => ?_, fun path mtime names here => ?_⟩ _ _ _ 1 rfl rfl
  · obtain rfl := Option.some.inj taken
    decide
  · cases absent
  · obtain rfl := Option.some.inj taken
    decide
  · simp only [HostTree.set] at here
    split at here
    · cases here
    · split at here
      · cases here
        decide
      · rcases exampleTree_cases here with ⟨_, same⟩ | ⟨_, same⟩ | ⟨_, same⟩ <;> cases same <;> decide

/-- `/r/a` is queried and removed, and `/r/b` takes its name. -/
def staleEvents : List Event :=
  [queryA, .change (ascii "/r/a") none, .change (ascii "/r") (some (.dir 30 [ascii "b"])),
    .fsRename none ⟨pascalGuest (ascii "b"), pascalGuest (ascii "a"), 2⟩ ⟨1, 0, 1, 0, ROOT_ID⟩
      ROOT_ID,
    .change (ascii "/r") (some (.dir 40 [ascii "a"]))]

/-- The number is that of the directory that was there before. -/
theorem older_directory_miscounted :
    ∃ w t caches record,
      Run (World.step exampleVolume) Free
          (World.init exampleVolume (fun _ => ⟨0, 0⟩) exampleTree) staleEvents w ∧
        fsGetCatInfo exampleVolume w.tree.catHost (pascalGuest (ascii "a")) 2 w.table w.caches
          ⟨1, 0, 1, 0, ROOT_ID⟩ 0 = some (t, caches, .ok record) ∧
        resolve exampleVolume t record.ioDirID = some (ascii "/r/a") ∧
        w.tree.object (ascii "/r/a") = some (.dir 10 [ascii "z"]) ∧
        record.ioDrNmFls = some 2 :=
  ⟨_, _, _, _, run_of_exec rfl, rfl, rfl, rfl, rfl⟩

end BasiliskII.ExtFS
