import BasiliskII.Rsrc.CheckLoad

/-!
# Where resource patches read and write

`CheckLoad` compares nothing with the size of the resource but the bound of its
searches. It stays inside a resource that each search string fits in and whose
first occurrences of the strings stand far enough from its ends.
-/
namespace BasiliskII.Rsrc

open PatternSearch

/-! ### Where a patch is made -/

/-- A search through `max` bytes from `start` on finds the string at `place`: it is the first
occurrence there, behind the start and before the end. -/
structure FoundIn (rsrc : ByteString) (start max : Nat) (search : ByteString) (place : Nat) :
    Prop where
  first : IsLeast {j | search.OccursIn rsrc (start + j)} place
  behind : 0 < place
  before : place + search.length < max

/-- The place the stores of a patch are counted from. -/
def Patch.Target (env : Environment) (rsrc : ByteString) (place : Nat) : Patch → Prop
  | .found dat _ => FoundIn rsrc 0 rsrc.length dat place
  | .start _ => place = 0
  | .idleTime => env.idlewait = true ∧ ∃ base k, FoundIn rsrc 0 rsrc.length idleTrap base ∧
      FoundIn rsrc (base - 0x80) 0x80 idleLoop k ∧ place = base - 0x80 + k

def Patch.stores : Patch → List Store
  | .found _ stores => stores
  | .start stores => stores
  | .idleTime => idleStores

/-- The patch is made at its place, or there is no such place and nothing is changed. -/
def Patch.Does (env : Environment) (patch : Patch) (before after : ByteString) : Prop :=
  (∃ place, patch.Target env before place ∧ after = before.putAll place patch.stores) ∨
    (∀ place, ¬ patch.Target env before place) ∧ after = before

/-- The stores from a place on are inside the resource. -/
def StoresFit (rsrc : ByteString) (place : Nat) (stores : List Store) : Prop :=
  ∀ s ∈ stores, place + s.offset + s.bytes.length ≤ rsrc.length

/-- The resource is long enough for the search and for the stores. -/
def Patch.Fits (env : Environment) (rsrc : ByteString) : Patch → Prop
  | .found dat stores => dat.length ≤ rsrc.length ∧
      ∀ place, FoundIn rsrc 0 rsrc.length dat place → StoresFit rsrc place stores
  | .start stores => StoresFit rsrc 0 stores
  | .idleTime => env.idlewait = true → idleTrap.length ≤ rsrc.length ∧
      ∀ base, FoundIn rsrc 0 rsrc.length idleTrap base → 0x80 ≤ base

/-- Each patch fits the resource as the patches before it leave it. -/
def PatchesFit (env : Environment) : List Patch → ByteString → Prop
  | [], _ => True
  | patch :: rest, rsrc =>
    patch.Fits env rsrc ∧ ∀ after, patch.Does env rsrc after → PatchesFit env rest after

/-! ### Stores -/

@[simp] theorem ByteString.length_put (rsrc : ByteString) (place : Nat) (new : List (BitVec 8)) :
    (rsrc.put place new).length = rsrc.length :=
  List.length_mapIdx

theorem store_iff {rsrc after : ByteString} {place : Nat} {new : List (BitVec 8)} :
    store rsrc place new = some after ↔
      place + new.length ≤ rsrc.length ∧ after = rsrc.put place new := by
  simp only [store, Int.natCast_nonneg, true_and, Int.toNat_natCast]
  split
  next inside =>
    rw [Option.some.injEq]
    exact ⟨fun same => ⟨by omega, same.symm⟩, fun stored => stored.2.symm⟩
  next outside =>
    simp only [reduceCtorEq, false_iff]
    exact fun stored => outside (by omega)

theorem storeAll_iff {stores : List Store} {rsrc after : ByteString} {place : Nat} :
    storeAll rsrc place stores = some after ↔
      StoresFit rsrc place stores ∧ after = rsrc.putAll place stores := by
  induction stores generalizing rsrc with
  | nil => simp [storeAll, StoresFit, ByteString.putAll, eq_comm]
  | cons s stores ih =>
    have length := rsrc.length_put (place + s.offset) s.bytes
    have rest := fun next => @ih next
    simp only [storeAll, StoresFit, ByteString.putAll] at rest ⊢
    simp only [List.foldlM_cons, List.foldl_cons, List.forall_mem_cons, Option.bind_eq_bind,
      Option.bind_eq_some_iff, ← Int.natCast_add, store_iff]
    constructor
    · rintro ⟨next, ⟨inside, rfl⟩, stored⟩
      obtain ⟨fits, rfl⟩ := (rest _).mp stored
      rw [length] at fits
      exact ⟨⟨inside, fits⟩, rfl⟩
    · rintro ⟨⟨inside, fits⟩, rfl⟩
      refine ⟨_, ⟨inside, rfl⟩, (rest _).mpr ⟨?_, rfl⟩⟩
      rw [length]
      exact fits

/-! ### Searches -/

theorem FoundIn.unique {rsrc search : ByteString} {start max place place' : Nat}
    (found : FoundIn rsrc start max search place) (again : FoundIn rsrc start max search place') :
    place = place' :=
  found.first.unique again.first

/-- A search inside the resource returns the place it finds, or 0. -/
theorem findRsrcData_foundIn (rsrc search : ByteString) (start : Nat) (max : BitVec 32)
    (inside : start + max.toNat ≤ rsrc.length) (fits : search.length ≤ max.toNat) :
    (∃ base, findRsrcData rsrc start max search 0 = some base ∧ base ≠ 0 ∧
        FoundIn rsrc start max.toNat search base.toNat) ∨
      findRsrcData rsrc start max search 0 = some 0 ∧
        ∀ place, ¬ FoundIn rsrc start max.toNat search place := by
  have below := max.isLt
  rcases findRsrcData_spec inside fits 0 with ⟨k, found, before, least⟩ | ⟨missed, behind⟩
  · have value : (BitVec.ofNat 32 k).toNat = k := by
      rw [BitVec.toNat_ofNat, Nat.mod_eq_of_lt (by omega)]
    have first : IsLeast {j | search.OccursIn rsrc (start + j)} k := by simpa using least
    rcases Nat.eq_zero_or_pos k with rfl | positive
    · refine .inr ⟨found, fun place other => ?_⟩
      cases first.unique other.first
      exact Nat.lt_irrefl 0 other.behind
    · refine .inl ⟨_, found, fun zero => ?_, ?_⟩
      · rw [zero] at value
        exact absurd value.symm (Nat.pos_iff_ne_zero.mp positive)
      · rw [value]
        exact ⟨first, positive, before⟩
  · refine .inr ⟨missed, fun place found => ?_⟩
    have := behind place (Nat.zero_le _) found.first.1
    have := found.before
    omega

theorem findRsrcData_short {rsrc search : ByteString} (short : rsrc.length < search.length) :
    findRsrcData rsrc 0 rsrc.size search 0 = none := by
  have size := rsrc.size_toNat
  have long : search.length < 2 ^ 32 := search.short
  have bound : (rsrc.size - search.size).toNat = 2 ^ 32 + rsrc.size.toNat - search.length :=
    bound_wrapped (by omega)
  have zero : (0 : BitVec 32).toNat = 0 := rfl
  exact findRsrcData_fails (by omega) (.inr (by omega))

/-- A search through the whole resource fails if the string is too long for it. -/
theorem findRsrcData_whole (rsrc search : ByteString) :
    (search.length ≤ rsrc.length ∧
        ((∃ base, findRsrcData rsrc 0 rsrc.size search 0 = some base ∧ base ≠ 0 ∧
            FoundIn rsrc 0 rsrc.length search base.toNat) ∨
          findRsrcData rsrc 0 rsrc.size search 0 = some 0 ∧
            ∀ place, ¬ FoundIn rsrc 0 rsrc.length search place)) ∨
      (rsrc.length < search.length ∧ findRsrcData rsrc 0 rsrc.size search 0 = none) := by
  have size := rsrc.size_toNat
  rcases Nat.lt_or_ge rsrc.length search.length with short | fits
  · exact .inr ⟨short, findRsrcData_short short⟩
  · have searched := findRsrcData_foundIn rsrc search 0 rsrc.size (by omega) (by omega)
    simp only [Int.ofNat_zero, size] at searched
    exact .inl ⟨fits, searched⟩

/-! ### One patch -/

theorem Patch.does_of_target {env : Environment} {patch : Patch} {before after : ByteString}
    {place : Nat} (target : patch.Target env before place)
    (unique : ∀ place', patch.Target env before place' → place' = place) :
    patch.Does env before after ↔ after = before.putAll place patch.stores := by
  constructor
  · rintro (⟨place', target', rfl⟩ | ⟨nowhere, -⟩)
    · rw [unique place' target']
    · exact absurd target (nowhere place)
  · intro made
    exact .inl ⟨place, target, made⟩

theorem Patch.does_of_nowhere {env : Environment} {patch : Patch} {before after : ByteString}
    (nowhere : ∀ place, ¬ patch.Target env before place) :
    patch.Does env before after ↔ after = before := by
  constructor
  · rintro (⟨place, target, -⟩ | ⟨-, same⟩)
    · exact absurd target (nowhere place)
    · exact same
  · intro same
    exact .inr ⟨nowhere, same⟩

/-- The window before an occurrence begins in front of the resource. -/
theorem idleWindow_outside {rsrc : ByteString} {base : Nat} (early : base < 0x80) :
    findRsrcData rsrc ((base : Int) - 0x80) 0x80 idleLoop 0 = none := by
  have bound : ((0x80 : BitVec 32) - idleLoop.size).toNat = 0x78 := by decide
  have zero : (0 : BitVec 32).toNat = 0 := rfl
  exact findRsrcData_fails (by omega) (.inl (by omega))

/-- The second search, where the window before the first string is inside the resource. -/
theorem idleWindow_iff {env : Environment} {rsrc after : ByteString} {base : Nat}
    (wait : env.idlewait = true) (foundIn : FoundIn rsrc 0 rsrc.length idleTrap base)
    (late : 0x80 ≤ base) :
    ((findRsrcData rsrc ((base : Int) - 0x80) 0x80 idleLoop 0).bind fun k =>
        if k = 0 then some rsrc else storeAll rsrc ((base : Int) - 0x80 + k.toNat) idleStores) =
      some after ↔ Patch.idleTime.Does env rsrc after := by
  have occurs := occursIn_fits foundIn.first.1
  have window : (base : Int) - 0x80 = ((base - 0x80 : Nat) : Int) := by omega
  have eight : (0x80 : BitVec 32).toNat = 0x80 := rfl
  have searched := findRsrcData_foundIn rsrc idleLoop (base - 0x80) 0x80 (by omega) (by decide)
  rw [window]
  rcases searched with ⟨k, found', positive', foundIn'⟩ | ⟨missed', nowhere'⟩
  · rw [found', Option.bind_some, if_neg positive', ← Int.natCast_add, storeAll_iff]
    have target : Patch.idleTime.Target env rsrc (base - 0x80 + k.toNat) :=
      ⟨wait, base, k.toNat, foundIn, foundIn', rfl⟩
    have unique : ∀ place, Patch.idleTime.Target env rsrc place →
        place = base - 0x80 + k.toNat := by
      rintro place ⟨-, base', k', again, again', rfl⟩
      cases foundIn.unique again
      cases foundIn'.unique again'
      rfl
    rw [Patch.does_of_target target unique]
    -- the loop that is patched lies in the window, and so do the stores
    have inside : StoresFit rsrc (base - 0x80 + k.toNat) idleStores := by
      intro s member
      rw [List.mem_singleton.mp member]
      have := foundIn'.before
      have loop : idleLoop.length = 8 := rfl
      have stored : (words [emulOpIdleTime, m68kNop]).bytes.length = 4 := rfl
      have offset : (words [emulOpIdleTime, m68kNop]).offset = 0 := rfl
      omega
    exact ⟨fun made => made.2, fun made => ⟨inside, made⟩⟩
  · rw [missed', Option.bind_some, if_pos rfl]
    have nowhere : ∀ place, ¬ Patch.idleTime.Target env rsrc place := by
      rintro place ⟨-, base', k', again, again', -⟩
      cases foundIn.unique again
      exact nowhere' k' again'
    rw [Patch.does_of_nowhere nowhere, Option.some.injEq]
    exact eq_comm

theorem patchIdleTime_iff {env : Environment} {rsrc after : ByteString} :
    patchIdleTime env rsrc = some after ↔
      Patch.idleTime.Fits env rsrc ∧ Patch.idleTime.Does env rsrc after := by
  cases wait : env.idlewait with
  | false =>
    have nowhere : ∀ place, ¬ Patch.idleTime.Target env rsrc place := by
      rintro place ⟨on, -⟩
      rw [wait] at on
      cases on
    rw [Patch.does_of_nowhere nowhere]
    simp [patchIdleTime, Patch.Fits, wait, eq_comm]
  | true =>
    simp only [patchIdleTime, wait, Bool.not_true, Bool.false_eq_true, if_false, Patch.Fits,
      true_imp_iff]
    rcases findRsrcData_whole rsrc idleTrap with
      ⟨fits, ⟨base, found, positive, foundIn⟩ | ⟨missed, nowhere⟩⟩ | ⟨short, fails⟩
    · rw [found, Option.bind_some, if_neg positive]
      by_cases early : base.toNat < 0x80
      · rw [idleWindow_outside early]
        simp only [Option.bind_none, reduceCtorEq, false_iff]
        rintro ⟨⟨-, late⟩, -⟩
        exact absurd (late base.toNat foundIn) (by omega)
      · have late : ∀ base', FoundIn rsrc 0 rsrc.length idleTrap base' → 0x80 ≤ base' := by
          intro base' again
          rw [← foundIn.unique again]
          omega
        rw [idleWindow_iff wait foundIn (Nat.not_lt.mp early)]
        exact ⟨fun does => ⟨⟨fits, late⟩, does⟩, fun both => both.2⟩
    · rw [missed, Option.bind_some, if_pos rfl]
      have none_found : ∀ place, ¬ Patch.idleTime.Target env rsrc place := by
        rintro place ⟨-, base', k', found, -, -⟩
        exact nowhere base' found
      rw [Patch.does_of_nowhere none_found, Option.some.injEq]
      exact ⟨fun same => ⟨⟨fits, fun base found => absurd found (nowhere base)⟩, same.symm⟩,
        fun made => made.2.symm⟩
    · rw [fails]
      simp only [Option.bind_none, reduceCtorEq, false_iff]
      rintro ⟨⟨fits, -⟩, -⟩
      omega

/-- A patch stays inside the resource exactly if it fits, and then does what it should. -/
theorem applyPatch_iff {env : Environment} {rsrc after : ByteString} {patch : Patch} :
    applyPatch env rsrc patch = some after ↔ patch.Fits env rsrc ∧ patch.Does env rsrc after := by
  cases patch with
  | found dat stores =>
    simp only [applyPatch, Patch.Fits]
    rcases findRsrcData_whole rsrc dat with
      ⟨fits, ⟨base, found, positive, foundIn⟩ | ⟨missed, nowhere⟩⟩ | ⟨short, fails⟩
    · rw [found, Option.bind_some, if_neg positive, storeAll_iff,
        @Patch.does_of_target env (.found dat stores) _ _ _ foundIn fun _ again =>
          again.unique foundIn]
      constructor
      · rintro ⟨inside, made⟩
        refine ⟨⟨fits, fun place again => ?_⟩, made⟩
        rw [← foundIn.unique again]
        exact inside
      · rintro ⟨⟨-, inside⟩, made⟩
        exact ⟨inside _ foundIn, made⟩
    · rw [missed, Option.bind_some, if_pos rfl,
        @Patch.does_of_nowhere env (.found dat stores) _ _ nowhere, Option.some.injEq]
      exact ⟨fun same => ⟨⟨fits, fun place found => absurd found (nowhere place)⟩, same.symm⟩,
        fun made => made.2.symm⟩
    · rw [fails]
      simp only [Option.bind_none, reduceCtorEq, false_iff]
      rintro ⟨⟨fits, -⟩, -⟩
      omega
  | start stores =>
    have target : (Patch.start stores).Target env rsrc 0 := rfl
    rw [Patch.does_of_target target fun _ again => again]
    exact @storeAll_iff stores rsrc _ 0
  | idleTime => exact patchIdleTime_iff

/-! ### All patches -/

/-- No byte outside the resource is touched, and whatever patch is made is made at the first
occurrence of its byte string. -/
structure StaysInside (env : Environment) (type : BitVec 32) (id : BitVec 16)
    (rsrc : ByteString) : Prop where
  inside : ∃ after, checkLoad env type id rsrc = some after
  first : ∀ done patch rest, patches env type id = done ++ patch :: rest →
    ∀ before after, done.foldlM (applyPatch env) rsrc = some before →
      applyPatch env before patch = some after → patch.Does env before after

theorem applyPatches_iff {env : Environment} {ps : List Patch} {rsrc : ByteString} :
    (∃ after, ps.foldlM (applyPatch env) rsrc = some after) ↔ PatchesFit env ps rsrc := by
  -- Induction on the patches; the rest of them begins with the resource as the first left it.
  induction ps generalizing rsrc with
  | nil => exact ⟨fun _ => trivial, fun _ => ⟨rsrc, rfl⟩⟩
  | cons patch ps ih =>
    simp only [List.foldlM_cons, Option.bind_eq_bind, Option.bind_eq_some_iff, PatchesFit]
    constructor
    · rintro ⟨last, after, made, rest⟩
      obtain ⟨fits, does⟩ := applyPatch_iff.mp made
      refine ⟨fits, fun after' does' => ?_⟩
      have again := applyPatch_iff.mpr ⟨fits, does'⟩
      cases made.symm.trans again
      exact ih.mp ⟨last, rest⟩
    · rintro ⟨fits, rest⟩
      obtain ⟨after, does⟩ : ∃ after, patch.Does env rsrc after := by
        by_cases target : ∃ place, patch.Target env rsrc place
        · obtain ⟨place, target⟩ := target
          exact ⟨_, .inl ⟨place, target, rfl⟩⟩
        · exact ⟨rsrc, .inr ⟨fun place here => target ⟨place, here⟩, rfl⟩⟩
      obtain ⟨last, made⟩ := ih.mpr (rest after does)
      exact ⟨last, after, applyPatch_iff.mpr ⟨fits, does⟩, made⟩

/-- `CheckLoad` stays inside the resources its patches fit, and no others. -/
theorem patches_inside_iff (env : Environment) (type : BitVec 32) (id : BitVec 16)
    (rsrc : ByteString) :
    StaysInside env type id rsrc ↔ PatchesFit env (patches env type id) rsrc := by
  rw [← applyPatches_iff]
  constructor
  · exact fun stays => stays.inside
  · intro inside
    exact ⟨inside, fun done patch rest _ before after _ made => (applyPatch_iff.mp made).2⟩

def sampleEnvironment : Environment := ⟨true, 0x400000, 0x600000, 0⟩

/-- The call to be replaced stands near the end of the resource. -/
theorem patch_behind_resource :
    ¬ ∀ (env : Environment) (type : BitVec 32) (id : BitVec 16) (rsrc : ByteString),
      StaysInside env type id rsrc := by
  intro all
  let rsrc : ByteString := ⟨[0x4e, 0x70, 0x59, 0xa2, 0x47, 0x4e], by decide⟩
  obtain ⟨after, inside⟩ := (all sampleEnvironment (fourcc 'l' 'p' 'c' 'h') 24 rsrc).inside
  have fails : (checkLoad sampleEnvironment (fourcc 'l' 'p' 'c' 'h') 24 rsrc).isNone = true := by
    decide +kernel
  rw [inside] at fails
  cases fails

end BasiliskII.Rsrc
