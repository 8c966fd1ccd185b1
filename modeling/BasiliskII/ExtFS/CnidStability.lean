import BasiliskII.ExtFS.Calls

/-!
# CNIDs across renames and moves

A rename or a move exchanges the CNIDs of the old item and the item for the new
path, but every known item below the old one keeps its parent pointer, and with
it the old path. So a CNID follows its file exactly when nothing below the
renamed item had been looked up before.
-/
namespace BasiliskII.ExtFS

open StepSystem

variable {t u : FSTable} {vol : Volume}

/-- A path as the start of the paths of what it contains. -/
def dirPrefix (path : CString) : CString :=
  if path.getLast? = some slash then path else path ++ [slash]

def Below (path below : CString) : Prop := dirPrefix path <+: below ∧ below ≠ path

theorem length_dirPrefix (path : CString) : path.length ≤ (dirPrefix path).length := by
  unfold dirPrefix
  split <;> simp

theorem eq_dirPrefix_of_length {path : CString} (same : (dirPrefix path).length = path.length) :
    dirPrefix path = path := by
  unfold dirPrefix at same ⊢
  split at same
  next slashed => simp [slashed]
  · simp at same

section Naming

-- What CNIDs name: `known` before a rename of the CNID `a` from `P` to `Q`, `before` at the time
-- of the exchange with the CNID `b`, `after` behind it.
variable (known before after : Nat → Option CString) (a b : Nat) (P Q : CString)

/-- The renamed CNID and those below it follow, and the others stay. -/
def Follows : Prop :=
  after a = some Q ∧
  (∀ c rest, known c = some (dirPrefix P ++ rest) → dirPrefix P ++ rest ≠ P →
    after c = some (dirPrefix Q ++ rest)) ∧
  (∀ c path, known c = some path → path ≠ P → ¬ Below P path → path ≠ Q → ¬ Below Q path →
    after c = some path)

/-- Nothing known is below `P`, or `P` and `Q` are the same directory. -/
def NothingToFollow : Prop :=
  ∀ c path, known c = some path → Below P path → dirPrefix P = dirPrefix Q ∧ c ≠ b

variable {known before after a b P Q}

theorem follows_iff_of_swap (extend : ∀ c path, known c = some path → before c = some path)
    (old : before a = some P) (new : before b = some Q)
    (exchange : ∀ c, after c = before (Equiv.swap a b c)) :
    Follows known after a P Q ↔ NothingToFollow known b P Q := by
  have after_a : after a = some Q := by rw [exchange, Equiv.swap_apply_left, new]
  have after_b : after b = some P := by rw [exchange, Equiv.swap_apply_right, old]
  have after_other : ∀ c path, known c = some path → path ≠ P → c ≠ b → after c = some path := by
    intro c path present other not_b
    have not_a : c ≠ a := by
      rintro rfl
      exact other (Option.some.inj ((extend c path present).symm.trans old))
    rw [exchange, Equiv.swap_apply_of_ne_of_ne not_a not_b, extend c path present]
  constructor
  · rintro ⟨_, descendants, _⟩ c path present ⟨⟨rest, rfl⟩, other⟩
    have followed := descendants c rest present other
    have not_b : c ≠ b := by
      rintro rfl
      -- Each path would be at least as long as the other.
      have equal : Q = dirPrefix P ++ rest :=
        Option.some.inj (new.symm.trans (extend c _ present))
      have equal' : P = dirPrefix Q ++ rest := Option.some.inj (after_b.symm.trans followed)
      have longer := length_dirPrefix P
      have longer' := length_dirPrefix Q
      have lengths := congrArg List.length equal
      have lengths' := congrArg List.length equal'
      simp only [List.length_append] at lengths lengths'
      obtain rfl : rest = [] := List.eq_nil_of_length_eq_zero (by omega)
      rw [List.append_nil] at equal other
      exact other (eq_dirPrefix_of_length (by omega))
    refine ⟨?_, not_b⟩
    have stayed := after_other c _ present other not_b
    exact List.append_cancel_right (Option.some.inj (stayed.symm.trans followed))
  · intro nothing
    refine ⟨after_a, ?_, ?_⟩
    · intro c rest present other
      obtain ⟨same, not_b⟩ := nothing c _ present ⟨⟨rest, rfl⟩, other⟩
      rw [← same]
      exact after_other c _ present other not_b
    · intro c path present other _ other' _
      refine after_other c path present other ?_
      rintro rfl
      exact other' (Option.some.inj ((extend c path present).symm.trans new))

end Naming

theorem findFsitemById_eq_some_iff (distinct : (t.items.map FSItem.id).Nodup) {cnid p : Nat} :
    findFsitemById t cnid = some p ↔ t.Valid p ∧ (t.item p).id = cnid := by
  refine ⟨findFsitemById_eq_some, fun ⟨valid, same⟩ => ?_⟩
  rcases search_cases t fun it => it.id = cnid with ⟨q, valid_q, passes, found⟩ | ⟨fails, _⟩
  · have id_q : (t.item q).id = cnid := by simpa using passes
    rw [← (FSTable.id_inj distinct valid_q valid).mp (id_q.trans same.symm)]
    exact found
  · have := fails p valid
    simp [same] at this

theorem resolve_eq_some_iff (distinct : (t.items.map FSItem.id).Nodup) {cnid : Nat}
    {path : CString} :
    resolve vol t cnid = some path ↔
      ∃ p, t.Valid p ∧ (t.item p).id = cnid ∧ fullPath vol t p = some path := by
  simp only [resolve, Option.bind_eq_some_iff, findFsitemById_eq_some_iff distinct, and_assoc]

theorem Looked.resolve {short : Prop} (looked : Looked short t u)
    (initial : TableInvariant short t) (few : FewCreations u) {cnid : Nat} {path : CString}
    (resolved : resolve vol t cnid = some path) : resolve vol u cnid = some path := by
  have ids := (looked.invariant initial).ids few
  have ids_t := initial.ids (few.of_le looked.grows.length_le)
  obtain ⟨p, valid, same, path_eq⟩ := (resolve_eq_some_iff ids_t.distinct).mp resolved
  refine (resolve_eq_some_iff ids.distinct).mpr ⟨p, looked.valid valid, ?_, ?_⟩
  · rw [looked.item valid, same]
  · rw [looked.fullPath_eq initial valid, path_eq]

/-- Renaming CNIDs other than those of the root and its parent leaves the paths alone. -/
theorem fullPath_relabel (pointers : Pointers t) {σ : Equiv.Perm Nat}
    (top : σ ROOT_PARENT_ID = ROOT_PARENT_ID) (root : σ ROOT_ID = ROOT_ID) {p : Nat}
    (valid : t.Valid p) : fullPath vol (t.relabel σ) p = fullPath vol t p := by
  have pointers' : Pointers (t.relabel σ) :=
    pointers.congr (by simp [SamePlaces, FSTable.relabel, FSItem.place, FSItem.relabel])
  refine fullPath_congr pointers pointers' valid fun q valid => ?_
  rw [FSTable.relabel_item σ valid]
  refine ⟨(FSTable.relabel_valid σ q).mpr valid, rfl, rfl, ?_, ?_⟩
  · simp only [FSItem.relabel]
    conv_lhs => rw [← top]
    exact σ.injective.eq_iff
  · simp only [FSItem.relabel]
    conv_lhs => rw [← root]
    exact σ.injective.eq_iff

theorem resolve_relabel (pointers : Pointers t) {σ : Equiv.Perm Nat}
    (top : σ ROOT_PARENT_ID = ROOT_PARENT_ID) (root : σ ROOT_ID = ROOT_ID) (cnid : Nat) :
    resolve vol (t.relabel σ) (σ cnid) = resolve vol t cnid := by
  have found : findFsitemById (t.relabel σ) (σ cnid) = findFsitemById t cnid := by
    simp only [findFsitemById, FSTable.relabel, List.findIdx?_map]
    congr 1
    funext it
    simp [FSItem.relabel]
  simp only [resolve, found]
  cases present : findFsitemById t cnid with
  | none => rfl
  | some p => exact fullPath_relabel pointers top root (findFsitemById_eq_some present).1

/-- The item for the new path has the new path, unless it is the root. -/
theorem LeadsTo.fullPath_eq {p : Nat} {path : CString} (leads : LeadsTo vol t p path)
    (pointers : Pointers t) (valid : t.Valid p) (top : (t.item p).id ≠ ROOT_PARENT_ID)
    (root : (t.item p).id ≠ ROOT_ID) : fullPath vol t p = some path := by
  rcases leads with path_eq | ⟨dir, dirPath, parent, dir_path, rfl⟩
  · exact path_eq
  · rw [fullPath_unfold pointers valid, if_neg top, if_neg root, parent, Option.bind_some, dir_path]
    rfl

/-- The property of one rename or move from the table `t` to the table `u`. -/
def CnidStable (vol : Volume) (t u : FSTable) (renamed : Renamed) : Prop :=
  Follows (resolve vol t) (resolve vol u) renamed.cnid renamed.oldPath renamed.newPath

/-- No item below the renamed one is known, unless the renaming does not move it. -/
def NothingKnownBelow (vol : Volume) (t : FSTable) (renamed : Renamed) : Prop :=
  NothingToFollow (resolve vol t) renamed.newCnid renamed.oldPath renamed.newPath

theorem Ends.cnidStable_iff {short : Prop} {host : Host} {out : Outcome}
    (ends : Ends vol host short t out) (initial : TableInvariant short t)
    (success : out.result = noErr) (few : FewCreations out.table) :
    ∃ renamed, out.renamed = some renamed ∧
      (renamed.cnid ≠ ROOT_ID → renamed.newCnid ≠ ROOT_ID →
        (CnidStable vol t out.table renamed ↔ NothingKnownBelow vol t renamed)) := by
  obtain ⟨u, looked, ⟨_, failed, _⟩ | ⟨a, b, oldPath, newPath, old, valid, new, done, rfl⟩⟩ := ends
  · exact absurd success failed
  · refine ⟨_, rfl, fun root_a root_b => ?_⟩
    have invariant := looked.invariant initial
    have few_u : FewCreations u :=
      few.of_le (Nat.le_of_eq (swapItemIds_samePlaces (t := u) a b).length.symm)
    have ids := invariant.ids few_u
    obtain ⟨top_a, top_b⟩ := renamed_ne_top invariant few_u old valid new done
    have relabelled := swapItemIds_eq_relabel ids.distinct old.1 valid
    have known : ∀ c path, resolve vol t c = some path → resolve vol u c = some path :=
      fun c path resolved => looked.resolve initial few_u resolved
    refine follows_iff_of_swap known ?_ ?_ ?_
    · exact (resolve_eq_some_iff ids.distinct).mpr ⟨a, old.1, rfl, old.2⟩
    · refine (resolve_eq_some_iff ids.distinct).mpr ⟨b, valid, rfl, ?_⟩
      exact new.fullPath_eq invariant.pointers valid top_b root_b
    · intro c
      simp only [Outcome.swapped, relabelled]
      rw [← resolve_relabel invariant.pointers
        (Equiv.swap_apply_of_ne_of_ne top_a.symm top_b.symm)
        (Equiv.swap_apply_of_ne_of_ne (Ne.symm root_a) (Ne.symm root_b)), Equiv.swap_apply_self]

/-- What a rename or a move leaves behind and returns. -/
def Call.outcome (vol : Volume) (t : FSTable) : Call → Option Outcome
  | .fsRename host guest pb dirID => ExtFS.fsRename vol host guest t pb dirID
  | .fsCatMove host guest pb => ExtFS.fsCatMove vol host guest t pb
  | _ => none

theorem Call.outcome_ends {call : Call} {out : Outcome} (initial : TableInvariant False t)
    (performed : call.outcome vol t = some out) : ∃ host, Ends vol host False t out := by
  cases call with
  | findFsitem _ _ | findFsitemGuest _ _ => cases performed
  | fsRename host _ _ _ => exact ⟨host, fsRename_ends False.elim initial performed⟩
  | fsCatMove host _ _ => exact ⟨host, fsCatMove_ends False.elim initial performed⟩

/-- After any run, a successful rename or move keeps the CNIDs stable exactly when nothing was
known below the item. -/
theorem rename_keeps_cnids_iff (vol : Volume) (calls : List Call) (t : FSTable)
    (run : Run (step vol) Free (extFSInit vol) calls t) (call : Call) (out : Outcome)
    (performed : call.outcome vol t = some out) (success : out.result = noErr)
    (few : FewCreations out.table) :
    ∃ renamed, out.renamed = some renamed ∧
      (renamed.cnid ≠ ROOT_ID → renamed.newCnid ≠ ROOT_ID →
        (CnidStable vol t out.table renamed ↔ NothingKnownBelow vol t renamed)) := by
  have initial : TableInvariant False t := run_invariant run False.elim
  obtain ⟨host, ends⟩ := call.outcome_ends initial performed
  exact ends.cnidStable_iff initial success few

/-- `/r/a` is known and nothing below it. -/
def leafTable : FSTable :=
  ⟨[⟨1, 0, none, [], []⟩, ⟨2, 1, some 0, [86], [86]⟩, ⟨16, 2, some 1, [97], [97]⟩], 17⟩

def renameCall : Call :=
  .fsRename willingHost ⟨guestNaming [97], guestNaming [99], 1⟩ ⟨0, 0, 0, 0, 0⟩ ROOT_ID

theorem leaf_renamed_stable :
    ∃ out renamed, renameCall.outcome exampleVolume leafTable = some out ∧
      out.renamed = some renamed ∧ CnidStable exampleVolume leafTable out.table renamed := by
  have reached : Run (step exampleVolume) Free (extFSInit exampleVolume)
      [.findFsitemGuest [97] 1] leafTable := run_of_exec (by decide)
  refine ⟨_, _, rfl, rfl, ?_⟩
  obtain ⟨renamed, same, iff⟩ := rename_keeps_cnids_iff exampleVolume _ leafTable reached
    renameCall _ rfl rfl (by decide)
  cases same
  refine (iff (by decide) (by decide)).mpr ?_
  intro cnid path resolved below
  obtain ⟨p, valid, _, path_eq⟩ := (resolve_eq_some_iff (by decide)).mp resolved
  exfalso
  have inside : p < 3 := valid
  obtain rfl | rfl | rfl : p = 0 ∨ p = 1 ∨ p = 2 := by omega
  · obtain rfl : [] = path := Option.some.inj path_eq
    exact absurd below.1 (by decide)
  · obtain rfl : [47, 114] = path := Option.some.inj path_eq
    exact absurd below.1 (by decide)
  · obtain rfl : [47, 114, 47, 97] = path := Option.some.inj path_eq
    exact absurd below.1 (by decide)

/-- `/r/a/b` was looked up before `/r/a` became `/r/c`, and its CNID still leads to `/r/a/b`. -/
theorem known_child_keeps_old_path :
    ¬ ∀ (vol : Volume) (calls : List Call) (t : FSTable),
      Run (step vol) Free (extFSInit vol) calls t → ∀ (call : Call) (out : Outcome),
      call.outcome vol t = some out → out.result = noErr → FewCreations out.table →
      ∃ renamed, out.renamed = some renamed ∧ CnidStable vol t out.table renamed := by
  intro claim
  let t : FSTable :=
    ⟨leafTable.items ++ [⟨17, 16, some 2, [98], [98]⟩], 18⟩
  have reached : Run (step exampleVolume) Free (extFSInit exampleVolume)
      [.findFsitemGuest [97] 1, .findFsitemGuest [98] 2] t := run_of_exec (by decide)
  obtain ⟨renamed, same, _, descendants, _⟩ :=
    claim exampleVolume _ t reached renameCall _ rfl rfl (by decide)
  cases same
  have followed := descendants 17 [98] (by decide) (by decide)
  exact absurd followed (by decide)

end BasiliskII.ExtFS
