import BasiliskII.ExtFS.Operations
import BasiliskII.Library.StepSystem
import Mathlib.Data.List.GetD
import Mathlib.Data.List.Nodup
import Mathlib.Logic.Equiv.Basic
import Mathlib.Logic.Relation

/-!
# The invariant of the FSItem table

A lookup adds an item at the end of the list; a rename or a move exchanges two
CNIDs in every `id` and every `parent_id`. Neither ever changes a parent
pointer. So the pointers always lead up the list, the ids stay distinct, and
the `parent_id` of an item stays the id of its parent.
-/
namespace BasiliskII.ExtFS

open StepSystem

variable {t u : FSTable}

-- The table as positions: what each operation does to the item at a position.

variable {p : Nat}

theorem FSTable.item_eq (inside : p < t.items.length) : t.item p = t.items[p] := by
  simp [FSTable.item, inside]

theorem FSTable.item_mem (valid : t.Valid p) : t.item p ∈ t.items := by
  have inside : p < t.items.length := valid
  rw [FSTable.item_eq inside]
  exact List.getElem_mem inside

theorem createFsitem_valid (name guestName : CString) (parent p : Nat) :
    (createFsitem t name guestName parent).2.Valid p ↔ t.Valid p ∨ p = t.items.length := by
  simp only [FSTable.Valid, createFsitem, List.length_append, List.length_singleton]
  omega

variable {parent : Nat}

theorem createFsitem_item_old {name guestName : CString} (valid : t.Valid p) :
    (createFsitem t name guestName parent).2.item p = t.item p := by
  have shorter : p < t.items.length := valid
  simp [FSTable.item, createFsitem, List.getElem?_append_left shorter]

theorem createFsitem_item_new (name guestName : CString) (parent : Nat) :
    (createFsitem t name guestName parent).2.item t.items.length =
      ⟨t.nextCnid, (t.item parent).id, some parent, name, clipGuestName guestName⟩ := by
  simp [FSTable.item, createFsitem]

theorem item_grown (grown : t.items <+: u.items) (valid : t.Valid p) : u.item p = t.item p := by
  obtain ⟨added, equal⟩ := grown
  have inside : p < t.items.length := valid
  simp [FSTable.item, ← equal, List.getElem?_append_left inside]

/-- A CNID that is known is found at the same position when the table has grown. -/
theorem findFsitemById_grown (grown : t.items <+: u.items) {cnid : Nat}
    (known : findFsitemById t cnid = some p) : findFsitemById u cnid = some p := by
  obtain ⟨added, equal⟩ := grown
  rw [findFsitemById] at known
  rw [findFsitemById, ← equal, List.findIdx?_append, known]
  rfl

theorem search_cases (t : FSTable) (test : FSItem → Bool) :
    (∃ p, t.Valid p ∧ test (t.item p) = true ∧ t.items.findIdx? test = some p) ∨
      ((∀ p, t.Valid p → test (t.item p) = false) ∧ t.items.findIdx? test = none) := by
  cases found : t.items.findIdx? test with
  | some p =>
    obtain ⟨valid, passes, _⟩ := List.findIdx?_eq_some_iff_getElem.mp found
    exact .inl ⟨p, valid, by rwa [FSTable.item_eq valid], rfl⟩
  | none =>
    refine .inr ⟨fun p valid => ?_, rfl⟩
    exact List.findIdx?_eq_none_iff.mp found _ (FSTable.item_mem valid)

theorem findFsitem_cases (t : FSTable) (name : CString) (parent : Nat) :
    (∃ p, t.Valid p ∧ ((t.item p).parent = some parent ∧ (t.item p).name = name) ∧
        findFsitem t name parent = (p, t)) ∨
      ((∀ p, t.Valid p → (t.item p).parent = some parent → (t.item p).name ≠ name) ∧
        findFsitem t name parent = createFsitem t name name parent) := by
  rcases search_cases t fun it => it.parent = some parent && it.name = name with
    ⟨p, valid, passes, found⟩ | ⟨fails, absent⟩
  · refine .inl ⟨p, valid, by simpa using passes, ?_⟩
    simp only [findFsitem, found]
  · refine .inr ⟨fun p valid => by simpa using fails p valid, ?_⟩
    simp only [findFsitem, absent, hostEncodingToMacroman]

theorem findFsitemGuest_cases (t : FSTable) (guestName : CString) (parent : Nat) :
    (∃ p, t.Valid p ∧ ((t.item p).parent = some parent ∧ (t.item p).guestName = guestName) ∧
        findFsitemGuest t guestName parent = (p, t)) ∨
      ((∀ p, t.Valid p → (t.item p).parent = some parent → (t.item p).guestName ≠ guestName) ∧
        findFsitemGuest t guestName parent = createFsitem t guestName guestName parent) := by
  rcases search_cases t fun it => it.parent = some parent && it.guestName = guestName with
    ⟨p, valid, passes, found⟩ | ⟨fails, absent⟩
  · refine .inl ⟨p, valid, by simpa using passes, ?_⟩
    simp only [findFsitemGuest, found]
  · refine .inr ⟨fun p valid => by simpa using fails p valid, ?_⟩
    simp only [findFsitemGuest, absent, macromanToHostEncoding]

/-- Rename the CNIDs of an item. -/
def FSItem.relabel (σ : Equiv.Perm Nat) (it : FSItem) : FSItem :=
  { it with id := σ it.id, parentId := σ it.parentId }

def FSTable.relabel (σ : Equiv.Perm Nat) (t : FSTable) : FSTable :=
  { t with items := t.items.map (FSItem.relabel σ) }

@[simp] theorem FSTable.relabel_valid (σ : Equiv.Perm Nat) (p : Nat) :
    (t.relabel σ).Valid p ↔ t.Valid p := by
  simp [FSTable.Valid, FSTable.relabel]

theorem FSTable.relabel_item (σ : Equiv.Perm Nat) (valid : t.Valid p) :
    (t.relabel σ).item p = (t.item p).relabel σ := by
  have inside : p < t.items.length := valid
  simp [FSTable.item, FSTable.relabel, inside]

theorem swapParentIds_eq (parent1 parent2 : Nat) :
    (swapParentIds t parent1 parent2).items =
      t.items.map fun it => { it with parentId := Equiv.swap parent1 parent2 it.parentId } := by
  apply List.map_congr_left
  intro it _
  simp only [Equiv.swap_apply_def]
  split
  · rfl
  · split <;> rfl

theorem FSTable.id_inj (distinct : (t.items.map FSItem.id).Nodup) {q : Nat} (valid_p : t.Valid p)
    (valid_q : t.Valid q) : (t.item p).id = (t.item q).id ↔ p = q := by
  have inside_p : p < t.items.length := valid_p
  have inside_q : q < t.items.length := valid_q
  constructor
  · intro same
    rw [FSTable.item_eq inside_p, FSTable.item_eq inside_q] at same
    have equal := @List.nodup_iff_injective_get.mp distinct ⟨p, by simpa using inside_p⟩
      ⟨q, by simpa using inside_q⟩ (by simpa using same)
    simpa using equal
  · rintro rfl
    rfl

/-- With distinct ids, the three assignments exchange two CNIDs throughout the table. -/
theorem swapItemIds_eq_relabel (distinct : (t.items.map FSItem.id).Nodup) {a b : Nat}
    (valid_a : t.Valid a) (valid_b : t.Valid b) :
    swapItemIds t a b = t.relabel (Equiv.swap (t.item a).id (t.item b).id) := by
  simp only [swapItemIds, FSTable.setId, FSTable.relabel]
  congr 1
  apply List.ext_getElem
  · simp [swapParentIds]
  · intro p inside _
    have valid_p : p < t.items.length := by simpa [swapParentIds] using inside
    have at_a := FSTable.id_inj distinct valid_p valid_a
    have at_b := FSTable.id_inj distinct valid_p valid_b
    simp only [List.getElem_modify, swapParentIds_eq, List.getElem_map, FSItem.relabel,
      ← FSTable.item_eq valid_p]
    -- The id of the item at `p` changes only where `p` is one of the two items.
    by_cases is_b : p = b
    · subst is_b
      by_cases is_a : a = p <;> simp [is_a]
    · by_cases is_a : p = a
      · subst is_a
        simp [Ne.symm is_b]
      · simp [Ne.symm is_a, Ne.symm is_b,
          Equiv.swap_apply_of_ne_of_ne (mt at_a.mp is_a) (mt at_b.mp is_b)]

/-- Where an item stands and what it is called. -/
def FSItem.place (it : FSItem) : Option Nat × CString × CString :=
  (it.parent, it.name, it.guestName)

/-- The tables differ in CNIDs only. -/
def SamePlaces (t u : FSTable) : Prop := u.items.map FSItem.place = t.items.map FSItem.place

theorem SamePlaces.length (same : SamePlaces t u) : u.items.length = t.items.length := by
  simpa using congrArg List.length same

theorem SamePlaces.valid (same : SamePlaces t u) (p : Nat) : u.Valid p ↔ t.Valid p := by
  simp only [FSTable.Valid, same.length]

theorem SamePlaces.item (same : SamePlaces t u) (p : Nat) :
    (u.item p).parent = (t.item p).parent ∧ (u.item p).name = (t.item p).name ∧
      (u.item p).guestName = (t.item p).guestName := by
  have place : (u.item p).place = (t.item p).place := by
    have looked := congrArg (·.getD p nullItem.place) same
    exact (List.getD_map _ _ FSItem.place).symm.trans (looked.trans (List.getD_map _ _ _))
  simpa [FSItem.place] using place

theorem swapItemIds_samePlaces (a b : Nat) : SamePlaces t (swapItemIds t a b) := by
  apply List.ext_getElem
  · simp [swapItemIds, swapParentIds, FSTable.setId]
  · intro p _ _
    simp only [swapItemIds, FSTable.setId, List.getElem_map, List.getElem_modify,
      swapParentIds_eq, FSItem.place]
    split <;> split <;> rfl

/-- The parent pointers, which every operation leaves alone. -/
structure Pointers (t : FSTable) : Prop where
  root : 2 ≤ t.items.length
  top : (t.item 0).parent = none
  upward : ∀ p, 0 < p → t.Valid p → ∃ q, (t.item p).parent = some q ∧ q < p

theorem Pointers.first (pointers : Pointers t) : t.Valid 0 :=
  Nat.lt_of_lt_of_le (by decide) pointers.root

theorem Pointers.parent_valid (pointers : Pointers t) {q : Nat} (valid : t.Valid p)
    (parent : (t.item p).parent = some q) : q < p ∧ t.Valid q := by
  rcases Nat.eq_zero_or_pos p with zero | positive
  · rw [zero, pointers.top] at parent
    cases parent
  · obtain ⟨r, parent', lower⟩ := pointers.upward p positive valid
    obtain rfl : r = q := by simpa [parent] using parent'.symm
    exact ⟨lower, Nat.lt_trans lower valid⟩

theorem Pointers.createFsitem (pointers : Pointers t) {name guestName : CString}
    (valid : t.Valid parent) : Pointers (createFsitem t name guestName parent).2 where
  root := by
    have := pointers.root
    simp only [ExtFS.createFsitem, List.length_append]
    omega
  top := by
    rw [createFsitem_item_old pointers.first]
    exact pointers.top
  upward p positive valid_p := by
    rcases (createFsitem_valid _ _ _ _).mp valid_p with old | rfl
    · rw [createFsitem_item_old old]
      exact pointers.upward p positive old
    · exact ⟨parent, by rw [createFsitem_item_new], valid⟩

theorem Pointers.congr (pointers : Pointers t) (same : SamePlaces t u) : Pointers u where
  root := same.length ▸ pointers.root
  top := (same.item 0).1.trans pointers.top
  upward p positive valid := by
    rw [(same.item p).1]
    exact pointers.upward p positive ((same.valid p).mp valid)

/-- Items made since `ExtFSInit`. -/
def FSTable.creations (t : FSTable) : Nat := t.items.length - 2

/-- Fewer than would wrap `next_cnid`. -/
def FewCreations (t : FSTable) : Prop := t.creations < 2 ^ 32 - fsUsrCNID

instance (t : FSTable) : Decidable (FewCreations t) := inferInstanceAs (Decidable (_ < _))

/-- The CNIDs, as long as `next_cnid` has not wrapped. -/
structure Ids (t : FSTable) : Prop where
  distinct : (t.items.map FSItem.id).Nodup
  next : t.nextCnid = fsUsrCNID + t.creations
  below : ∀ p, t.Valid p → (t.item p).id < t.nextCnid
  top : (t.item 0).id = ROOT_PARENT_ID
  parentIds : ∀ p q, t.Valid p → (t.item p).parent = some q → (t.item p).parentId = (t.item q).id

theorem Ids.createFsitem (ids : Ids t) (pointers : Pointers t) {name guestName : CString}
    (valid : t.Valid parent) (few : FewCreations (createFsitem t name guestName parent).2) :
    Ids (createFsitem t name guestName parent).2 := by
  have root := pointers.root
  have next := ids.next
  simp only [FewCreations, FSTable.creations, ExtFS.createFsitem, List.length_append,
    List.length_singleton] at few next
  have advanced : (ExtFS.createFsitem t name guestName parent).2.nextCnid = t.nextCnid + 1 := by
    simp only [ExtFS.createFsitem]
    omega
  constructor
  · simp only [ExtFS.createFsitem, List.map_append, List.map_singleton]
    refine List.Nodup.append ids.distinct (List.nodup_singleton _) ?_
    simp only [List.disjoint_singleton, List.mem_map, not_exists, not_and]
    intro it member same
    obtain ⟨p, inside, rfl⟩ := List.getElem_of_mem member
    have := ids.below p inside
    rw [FSTable.item_eq inside] at this
    omega
  · rw [advanced]
    simp only [FSTable.creations, ExtFS.createFsitem, List.length_append, List.length_singleton]
    omega
  · intro p valid_p
    rw [advanced]
    rcases (createFsitem_valid _ _ _ _).mp valid_p with old | rfl
    · rw [createFsitem_item_old old]
      exact Nat.lt_succ_of_lt (ids.below p old)
    · simp [createFsitem_item_new]
  · rw [createFsitem_item_old pointers.first]
    exact ids.top
  · intro p q valid_p points
    rcases (createFsitem_valid _ _ _ _).mp valid_p with old | rfl
    · rw [createFsitem_item_old old] at points ⊢
      rw [createFsitem_item_old (pointers.parent_valid old points).2]
      exact ids.parentIds p q old points
    · rw [createFsitem_item_new] at points ⊢
      obtain rfl : parent = q := by simpa using points
      rw [createFsitem_item_old valid]

theorem Ids.relabel (ids : Ids t) (pointers : Pointers t) {σ : Equiv.Perm Nat}
    (top : σ ROOT_PARENT_ID = ROOT_PARENT_ID)
    (bounded : ∀ p, t.Valid p → σ (t.item p).id < t.nextCnid) : Ids (t.relabel σ) := by
  constructor
  · have renamed : (t.relabel σ).items.map FSItem.id = (t.items.map FSItem.id).map σ := by
      simp [FSTable.relabel, FSItem.relabel]
    rw [renamed]
    exact ids.distinct.map σ.injective
  · simpa [FSTable.relabel, FSTable.creations] using ids.next
  · intro p valid
    rw [FSTable.relabel_valid] at valid
    rw [FSTable.relabel_item σ valid]
    exact bounded p valid
  · rw [FSTable.relabel_item σ pointers.first]
    simp only [FSItem.relabel, ids.top, top]
  · intro p q valid points
    rw [FSTable.relabel_valid] at valid
    rw [FSTable.relabel_item σ valid] at points ⊢
    have valid_q := (pointers.parent_valid valid points).2
    rw [FSTable.relabel_item σ valid_q]
    simp only [FSItem.relabel, ids.parentIds p q valid points]

/-- Names, as long as no guest component is longer than `guest_name`. -/
structure Names (t : FSTable) : Prop where
  clipped : ∀ p, t.Valid p → (t.item p).guestName = clipGuestName (t.item p).name
  unique : ∀ p q, t.Valid p → t.Valid q → (t.item p).parent = (t.item q).parent →
    (t.item p).name = (t.item q).name → p = q

theorem Names.createFsitem (names : Names t) {name : CString}
    (absent : ∀ p, t.Valid p → (t.item p).parent = some parent → (t.item p).name ≠ name) :
    Names (createFsitem t name name parent).2 where
  clipped p valid := by
    rcases (createFsitem_valid _ _ _ _).mp valid with old | rfl
    · rw [createFsitem_item_old old]
      exact names.clipped p old
    · rw [createFsitem_item_new]
  unique p q valid_p valid_q := by
    rcases (createFsitem_valid _ _ _ _).mp valid_p with old_p | rfl
    · rcases (createFsitem_valid _ _ _ _).mp valid_q with old_q | rfl
      · rw [createFsitem_item_old old_p, createFsitem_item_old old_q]
        exact names.unique p q old_p old_q
      · rw [createFsitem_item_old old_p, createFsitem_item_new]
        exact fun points same => absurd same (absent p old_p points)
    · rcases (createFsitem_valid _ _ _ _).mp valid_q with old_q | rfl
      · rw [createFsitem_item_old old_q, createFsitem_item_new]
        exact fun points same => absurd same.symm (absent q old_q points.symm)
      · exact fun _ _ => rfl

theorem Names.congr (names : Names t) (same : SamePlaces t u) : Names u where
  clipped p valid := by
    rw [(same.item p).2.1, (same.item p).2.2]
    exact names.clipped p ((same.valid p).mp valid)
  unique p q valid_p valid_q := by
    rw [(same.item p).1, (same.item q).1, (same.item p).2.1, (same.item q).2.1]
    exact names.unique p q ((same.valid p).mp valid_p) ((same.valid q).mp valid_q)

/-- The table after any number of lookups; guest components are short if `short`. -/
inductive Looked (short : Prop) : FSTable → FSTable → Prop
  | refl (t : FSTable) : Looked short t t
  | host {t u : FSTable} {parent : Nat} (name : CString) : Looked short t u → u.Valid parent →
      Looked short t (findFsitem u name parent).2
  | guest {t u : FSTable} {guestName : CString} {parent : Nat} : Looked short t u →
      u.Valid parent → (short → guestName.length ≤ 31) →
      Looked short t (findFsitemGuest u guestName parent).2

theorem Looked.trans {short : Prop} {v : FSTable} (first : Looked short t u)
    (second : Looked short u v) : Looked short t v := by
  induction second with
  | refl => exact first
  | host name _ valid ih => exact ih.host name valid
  | guest _ valid brief ih => exact ih.guest valid brief

/-- What is true of every table: the ids while there are few, the names if `short`. -/
structure TableInvariant (short : Prop) (t : FSTable) : Prop where
  pointers : Pointers t
  ids : FewCreations t → Ids t
  names : short → Names t

variable {short : Prop}

theorem FewCreations.of_le (few : FewCreations u) (shorter : t.items.length ≤ u.items.length) :
    FewCreations t := by
  simp only [FewCreations, FSTable.creations] at few ⊢
  omega

theorem createFsitem_grows (name guestName : CString) (parent : Nat) :
    t.items <+: (createFsitem t name guestName parent).2.items :=
  ⟨_, rfl⟩

theorem TableInvariant.findFsitem (invariant : TableInvariant short t) (name : CString)
    (valid : t.Valid parent) : TableInvariant short (findFsitem t name parent).2 := by
  rcases findFsitem_cases t name parent with ⟨p, _, _, found⟩ | ⟨absent, made⟩
  · rw [found]
    exact invariant
  · rw [made]
    refine ⟨invariant.pointers.createFsitem valid, fun few => ?_, fun brief => ?_⟩
    · have earlier := few.of_le (createFsitem_grows _ _ _).length_le
      exact (invariant.ids earlier).createFsitem invariant.pointers valid few
    · exact (invariant.names brief).createFsitem absent

theorem TableInvariant.findFsitemGuest (invariant : TableInvariant short t) {guestName : CString}
    (valid : t.Valid parent) (brief : short → guestName.length ≤ 31) :
    TableInvariant short (findFsitemGuest t guestName parent).2 := by
  rcases findFsitemGuest_cases t guestName parent with ⟨p, _, _, found⟩ | ⟨absent, made⟩
  · rw [found]
    exact invariant
  · rw [made]
    refine ⟨invariant.pointers.createFsitem valid, fun few => ?_, fun holds => ?_⟩
    · have earlier := few.of_le (createFsitem_grows _ _ _).length_le
      exact (invariant.ids earlier).createFsitem invariant.pointers valid few
    · -- An item of this name would have had this guest name, which is short.
      refine (invariant.names holds).createFsitem fun p valid_p points same => ?_
      refine absent p valid_p points ?_
      rw [(invariant.names holds).clipped p valid_p, same]
      exact List.take_of_length_le (brief holds)

theorem Looked.invariant (looked : Looked short t u) (initial : TableInvariant short t) :
    TableInvariant short u := by
  induction looked with
  | refl => exact initial
  | host name _ valid ih => exact ih.findFsitem name valid
  | guest _ valid brief ih => exact ih.findFsitemGuest valid brief

theorem findFsitem_grows (name : CString) (parent : Nat) :
    t.items <+: (findFsitem t name parent).2.items := by
  rcases findFsitem_cases t name parent with ⟨p, _, _, found⟩ | ⟨_, made⟩
  · simp [found]
  · rw [made]
    exact createFsitem_grows _ _ _

theorem findFsitemGuest_grows (guestName : CString) (parent : Nat) :
    t.items <+: (findFsitemGuest t guestName parent).2.items := by
  rcases findFsitemGuest_cases t guestName parent with ⟨p, _, _, found⟩ | ⟨_, made⟩
  · simp [found]
  · rw [made]
    exact createFsitem_grows _ _ _

theorem Looked.grows (looked : Looked short t u) : t.items <+: u.items := by
  induction looked with
  | refl => exact List.prefix_rfl
  | host name _ _ ih => exact ih.trans (findFsitem_grows _ _)
  | guest _ _ _ ih => exact ih.trans (findFsitemGuest_grows _ _)

theorem Looked.valid (looked : Looked short t u) (valid : t.Valid p) : u.Valid p :=
  Nat.lt_of_lt_of_le valid looked.grows.length_le

theorem Looked.item (looked : Looked short t u) (valid : t.Valid p) : u.item p = t.item p :=
  item_grown looked.grows valid

theorem findFsitemGuest_valid (guestName : CString) (parent : Nat) :
    (findFsitemGuest t guestName parent).2.Valid (findFsitemGuest t guestName parent).1 := by
  rcases findFsitemGuest_cases t guestName parent with ⟨p, valid, _, found⟩ | ⟨_, made⟩
  · rw [found]
    exact valid
  · rw [made]
    exact (createFsitem_valid _ _ _ _).mpr (.inr rfl)

theorem findFsitem_found (name : CString) (parent : Nat) :
    (findFsitem t name parent).2.Valid (findFsitem t name parent).1 ∧
      ((findFsitem t name parent).2.item (findFsitem t name parent).1).parent = some parent ∧
      ((findFsitem t name parent).2.item (findFsitem t name parent).1).name = name := by
  rcases findFsitem_cases t name parent with ⟨p, valid, matched, found⟩ | ⟨_, made⟩
  · rw [found]
    exact ⟨valid, matched⟩
  · rw [made]
    refine ⟨(createFsitem_valid _ _ _ _).mpr (.inr rfl), ?_⟩
    rw [show (createFsitem t name name parent).1 = t.items.length from rfl, createFsitem_item_new]
    exact ⟨rfl, rfl⟩

end BasiliskII.ExtFS
