import BasiliskII.ExtFS.PathWalk

/-!
# The local copy of a path component

`get_item_and_path` copies each component to a `name` of 32 bytes, as long as it
is, and looks it up by this name, while the table keeps 31 characters of it. So
the buffer holds, and the same path leads to the same item again, when the
components are no longer than that.
-/
namespace BasiliskII.ExtFS

open StepSystem StringDest

variable {vol : Volume} {t u v : FSTable}

/-- The buffers `name` of a lookup. -/
def copiedNames (fsm : FSM) (fuel : Nat) (t : FSTable) (pb : ParamBlock) (dirID : Nat)
    (noVolName : Bool) : List Dest :=
  match getCurrentDir fsm pb dirID noVolName with
  | .error _ => []
  | .ok currentDir =>
    match findFsitemById t currentDir with
    | none => []
    | some p =>
      let (result, startOffset) := fsm.parsePathname pb.ioNamePtr
      if result = noErr then
        Parse.runNames fsm fuel ⟨t, p, currentDir, ⟨pb.ioNamePtr, startOffset, 0, false, false⟩, 0⟩
      else []

/-- The components a lookup gets to. -/
def copiedComponents (fsm : FSM) (t : FSTable) (pb : ParamBlock) (name : List UInt8) (dirID : Nat)
    (noVolName : Bool) : List (List UInt8) :=
  match getCurrentDir fsm pb dirID noVolName with
  | .error _ => []
  | .ok currentDir =>
    match findFsitemById t currentDir with
    | none => []
    | some p =>
      let (result, startOffset) := fsm.parsePathname pb.ioNamePtr
      if result = noErr then copied t p (components (name.drop startOffset)) else []

/-- The same lookup, after any others and no rename, returns the same item and makes none; and
one that has failed fails again. -/
def Repeats (vol : Volume) (fsm : FSM) (fuel : Nat) (t : FSTable) (pb : ParamBlock) (dirID : Nat)
    (noVolName : Bool) : Prop :=
  ∀ u found, getItemAndPath vol fsm fuel t pb dirID noVolName = some (u, found) →
    ∀ v, Looked False u v → v = u ∨ (∃ item, found = .ok item) →
      getItemAndPath vol fsm fuel v pb dirID noVolName = some (v, found)

theorem nameCopy_inside (src : List UInt8) (size : Nat) :
    (nameCopy src).Inside size ↔ src.length < size :=
  (inside_copy src src.length).trans (and_iff_right (holding_inside _))

section

variable {fsm : FSM} {pb : ParamBlock} {name : List UInt8}

theorem copiedNames_eq (parses : fsm.Parses pb name) {fuel : Nat} (enough : name.length < fuel)
    (t : FSTable) (dirID : Nat) (noVolName : Bool) :
    copiedNames fsm fuel t pb dirID noVolName =
      (copiedComponents fsm t pb name dirID noVolName).map nameCopy := by
  unfold copiedNames copiedComponents
  cases getCurrentDir fsm pb dirID noVolName with
  | error result => rfl
  | ok currentDir =>
    simp only
    cases known : findFsitemById t currentDir with
    | none => rfl
    | some p =>
      obtain ⟨_, rfl⟩ := findFsitemById_eq_some known
      have inside := parses.volume
      cases parsed : fsm.parsePathname pb.ioNamePtr with
      | mk result startOffset =>
        simp only [parsed] at inside ⊢
        by_cases accepted : result = noErr
        · have place : Parse.At pb name ⟨t, p, (t.item p).id,
              ⟨pb.ioNamePtr, startOffset, 0, false, false⟩, 0⟩ (name.drop startOffset) :=
            ⟨rfl, inside accepted, rfl, rfl⟩
          have enough_left : (name.drop startOffset).length < fuel := by
            rw [List.length_drop]
            omega
          rw [if_pos accepted, if_pos accepted]
          exact (place.run parses enough_left).2
        · rw [if_neg accepted, if_neg accepted]
          rfl

theorem inside_names_iff (parses : fsm.Parses pb name) {fuel : Nat} (enough : name.length < fuel)
    (t : FSTable) (dirID : Nat) (noVolName : Bool) :
    (∀ buffer ∈ copiedNames fsm fuel t pb dirID noVolName, buffer.Inside 32) ↔
      ∀ c ∈ copiedComponents fsm t pb name dirID noVolName, c.length ≤ 31 := by
  simp only [copiedNames_eq parses enough, List.forall_mem_map, nameCopy_inside, Nat.lt_succ_iff]

end

theorem findFsitemGuest_again {guestName : CString} (short : guestName.length ≤ 31) {p : Nat}
    (grown : (findFsitemGuest t guestName p).2.items <+: v.items) :
    findFsitemGuest v guestName p = ((findFsitemGuest t guestName p).1, v) := by
  have first : (findFsitemGuest t guestName p).2.items.findIdx?
      (fun it => it.parent = some p && it.guestName = guestName) =
        some (findFsitemGuest t guestName p).1 := by
    cases found : t.items.findIdx? fun it => it.parent = some p && it.guestName = guestName with
    | some q => simp only [findFsitemGuest, found]
    | none =>
      -- the name that was stored is the whole one
      have whole : clipGuestName guestName = guestName := List.take_of_length_le short
      simp [findFsitemGuest, found, createFsitem, List.findIdx?_append, whole]
  obtain ⟨added, grown⟩ := grown
  rw [findFsitemGuest, ← grown, List.findIdx?_append, first]
  rfl

theorem walk_grows {p : Nat} {cs : List (List UInt8)} {found : Except Int Nat}
    (walked : walk t p cs = some (u, found)) : t.items <+: u.items := by
  induction cs generalizing t p with
  | nil =>
    obtain ⟨rfl, _⟩ := by simpa [walk] using walked
    exact List.prefix_rfl
  | cons c rest ih =>
    cases c with
    | nil =>
      rw [walk] at walked
      split at walked
      · obtain ⟨rfl, _⟩ := by simpa using walked
        exact List.prefix_rfl
      · obtain ⟨q, _, walked⟩ := Option.bind_eq_some_iff.mp walked
        exact ih walked
    | cons c cs => exact (findFsitemGuest_grows _ _).trans (ih walked)

/-- By induction on the components: a walk over short ones finds all its items again. -/
theorem walk_again {p : Nat} {cs : List (List UInt8)} {found : Except Int Nat}
    (invariant : TableInvariant False t) (valid : t.Valid p)
    (walked : walk t p cs = some (u, found)) (short : ∀ c ∈ copied t p cs, c.length ≤ 31)
    (grown : u.items <+: v.items) : walk v p cs = some (v, found) := by
  induction cs generalizing t p with
  | nil =>
    obtain ⟨_, rfl⟩ := by simpa [walk] using walked
    rfl
  | cons c rest ih =>
    have earlier := (walk_grows walked).trans grown
    cases c with
    | nil =>
      rw [walk] at walked ⊢
      rw [copied] at short
      rw [item_grown earlier valid]
      by_cases root : (t.item p).id = ROOT_ID
      · rw [if_pos root] at walked ⊢
        obtain ⟨_, rfl⟩ := by simpa using walked
        rfl
      · rw [if_neg root] at walked short ⊢
        obtain ⟨q, parent, walked⟩ := Option.bind_eq_some_iff.mp walked
        rw [parent] at short ⊢
        exact ih invariant (invariant.pointers.parent_valid valid parent).2 walked short
    | cons c cs =>
      have head : (c :: cs).length ≤ 31 := short _ List.mem_cons_self
      have tail : walk (findFsitemGuest t (strn2cstr (c :: cs)) p).2
          (findFsitemGuest t (strn2cstr (c :: cs)) p).1 rest = some (u, found) := walked
      have again := findFsitemGuest_again (Nat.le_trans (strn2cstr_length _) head)
        ((walk_grows tail).trans grown)
      rw [walk, again]
      exact ih (invariant.findFsitemGuest valid False.elim) (findFsitemGuest_valid _ _) tail
        (fun c member => short c (List.mem_cons_of_mem _ member))

section

variable {fsm : FSM} {pb : ParamBlock} {name : List UInt8} {p : Nat}

theorem target_again {found : Except Int Nat} (invariant : TableInvariant False t)
    (valid : t.Valid p) (reached : target fsm pb name t p = some (u, found))
    (short : ∀ startOffset, fsm.parsePathname pb.ioNamePtr = (noErr, startOffset) →
      ∀ c ∈ copied t p (components (name.drop startOffset)), c.length ≤ 31)
    (grown : u.items <+: v.items) : target fsm pb name v p = some (v, found) := by
  rw [target] at reached ⊢
  cases parsed : fsm.parsePathname pb.ioNamePtr with
  | mk result startOffset =>
    simp only [parsed] at reached ⊢
    by_cases accepted : result = noErr
    · rw [if_pos accepted] at reached ⊢
      exact walk_again invariant valid reached (short startOffset (by rw [parsed, accepted])) grown
    · rw [if_neg accepted] at reached ⊢
      split at reached
      next empty =>
        obtain ⟨_, rfl⟩ := by simpa using reached
        rw [if_pos empty]
      next other =>
        obtain ⟨_, rfl⟩ := by simpa using reached
        rw [if_neg other]

theorem withPath_table {answer : FSTable × Except Int Nat} {found : Except Int (Nat × CString)}
    (ended : withPath vol answer = some (u, found)) : answer.1 = u := by
  obtain ⟨t, _ | item⟩ := answer
  · obtain ⟨rfl, _⟩ := by simpa [withPath] using ended
    rfl
  · obtain ⟨path, _, equal⟩ := Option.map_eq_some_iff.mp ended
    obtain ⟨rfl, _⟩ := by simpa using equal
    rfl

theorem withPath_again {found : Except Int Nat} {answer : Except Int (Nat × CString)}
    (invariant : TableInvariant False u) (answers : Answers u.Valid found)
    (ended : withPath vol (u, found) = some (u, answer)) (looked : Looked False u v) :
    withPath vol (v, found) = some (v, answer) := by
  cases found with
  | error result =>
    obtain rfl := by simpa [withPath] using ended
    rfl
  | ok item =>
    obtain ⟨path, path_eq, equal⟩ := Option.map_eq_some_iff.mp ended
    obtain rfl := by simpa using equal
    rw [withPath, looked.fullPath_eq invariant answers, path_eq]
    rfl

theorem repeats_of_short {fuel dirID : Nat} {noVolName : Bool} (initial : TableInvariant False t)
    (parses : fsm.Parses pb name) (enough : name.length < fuel)
    (short : ∀ c ∈ copiedComponents fsm t pb name dirID noVolName, c.length ≤ 31) :
    Repeats vol fsm fuel t pb dirID noVolName := by
  intro u found first v looked same_or_ok
  cases current : getCurrentDir fsm pb dirID noVolName with
  | error result =>
    simp only [getItemAndPath, current, Option.some.injEq, Prod.mk.injEq] at first
    obtain ⟨rfl, rfl⟩ := first
    rcases same_or_ok with rfl | ⟨item, equal⟩
    · simp only [getItemAndPath, current]
    · cases equal
  | ok currentDir =>
    cases known : findFsitemById t currentDir with
    | none =>
      simp only [getItemAndPath, current, known, Option.some.injEq, Prod.mk.injEq] at first
      obtain ⟨rfl, rfl⟩ := first
      rcases same_or_ok with rfl | ⟨item, equal⟩
      · simp only [getItemAndPath, current, known]
      · cases equal
    | some p =>
      have valid := (findFsitemById_eq_some known).1
      rw [getItemAndPath_eq vol parses enough current known] at first
      obtain ⟨⟨w, object⟩, reached, ended⟩ := Option.bind_eq_some_iff.mp first
      obtain rfl : w = u := withPath_table ended
      have parsed := findObject_eq parses enough t p
      rw [reached] at parsed
      obtain ⟨looked_up, answers⟩ := findObject_looked False.elim initial valid parsed
      have grown := looked_up.grows.trans looked.grows
      -- what was looked up the first time is in the table, at the same place
      have again := target_again initial valid reached (fun startOffset parsed c member => ?_)
        looked.grows
      · rw [getItemAndPath_eq vol parses enough current (findFsitemById_grown grown known), again]
        exact withPath_again (looked_up.invariant initial) answers ended looked
      · refine short c ?_
        simp only [copiedComponents, current, known, parsed, if_pos]
        exact member

end

/-- Each copy stays inside `name`, and the same path leads to the same item again, if and only if
no component the lookup gets to is longer than 31 bytes. -/
theorem short_components_iff (vol : Volume) (calls : List Call) (t : FSTable)
    (run : Run (step vol) Free (extFSInit vol) calls t) (fsm : FSM) (pb : ParamBlock)
    (name : List UInt8) (parses : fsm.Parses pb name) (dirID fuel : Nat) (noVolName : Bool)
    (enough : name.length < fuel) :
    (∀ buffer ∈ copiedNames fsm fuel t pb dirID noVolName, buffer.Inside 32) ∧
        Repeats vol fsm fuel t pb dirID noVolName ↔
      ∀ c ∈ copiedComponents fsm t pb name dirID noVolName, c.length ≤ 31 := by
  rw [inside_names_iff parses enough]
  exact and_iff_left_of_imp (repeats_of_short (run_invariant run False.elim) parses enough)

/-- Look up `a` in the root twice. -/
theorem short_name_again :
    (∀ buffer ∈ copiedNames (pascalGuest [97]) 2 (extFSInit exampleVolume) pascalBlock ROOT_ID
        false, buffer.Inside 32) ∧
      Repeats exampleVolume (pascalGuest [97]) 2 (extFSInit exampleVolume) pascalBlock ROOT_ID
        false :=
  (short_components_iff exampleVolume [] (extFSInit exampleVolume) (.done _) (pascalGuest [97])
    pascalBlock [97] (pascalGuest_parses _ (by decide)) ROOT_ID 2 false (by decide)).mpr (by decide)

/-- A name of 32 bytes. -/
def longComponent : List UInt8 := List.replicate 32 97

/-- A component of 32 bytes runs over the buffer, and the second lookup makes a second item. -/
theorem long_component_overruns :
    ¬ ((∀ buffer ∈ copiedNames (pascalGuest longComponent) 33 (extFSInit exampleVolume) pascalBlock
          ROOT_ID false, buffer.Inside 32) ∨
        Repeats exampleVolume (pascalGuest longComponent) 33 (extFSInit exampleVolume) pascalBlock
          ROOT_ID false) := by
  have parses : (pascalGuest longComponent).Parses pascalBlock longComponent :=
    pascalGuest_parses _ (by decide)
  rintro (bounded | repeats)
  · rw [copiedNames_eq parses (by decide)] at bounded
    have member : nameCopy longComponent ∈ (copiedComponents (pascalGuest longComponent)
        (extFSInit exampleVolume) pascalBlock longComponent ROOT_ID false).map nameCopy :=
      List.mem_map_of_mem (by decide)
    exact absurd ((nameCopy_inside _ _).mp (bounded _ member)) (by decide)
  · have again := repeats _ _ rfl _ (.refl _) (.inl rfl)
    have items := congrArg (Option.map fun answer => answer.1.items.length) again
    exact absurd items (by decide)

end BasiliskII.ExtFS
