import BasiliskII.Jit.BlockLists

/-!
# Direct jumps between blocks

The word of a direct jump is on the list of its target while the code it is in may run, and holds
the way to wherever the target's direct handler is at the time.
-/
namespace BasiliskII.Jit

open BackLinks

/-! ### Words of code -/

theorem loadLong_storeLong (m : CodeMemory) (a : Nat) (v : BitVec 32) :
    loadLong (storeLong m a v) a = v := by
  have byte (i : Nat) (inside : i < 4) : storeLong m a v (a + i) = v.extractLsb' (8 * i) 8 := by
    rw [storeLong, if_pos ⟨Nat.le_add_right a i, by omega⟩, Nat.add_sub_cancel_left]
  have first := byte 0 (by decide)
  rw [Nat.add_zero] at first
  rw [loadLong, byte 3 (by decide), byte 2 (by decide), byte 1 (by decide), first]
  ext i inside
  simp only [BitVec.getElem_append, BitVec.getElem_extractLsb']
  split_ifs <;> rw [← BitVec.getLsbD_eq_getElem] <;> congr 1 <;> omega

theorem loadLong_congr {m m' : CodeMemory} {a : Nat} (same : ∀ x, a ≤ x → x < a + 4 → m' x = m x) :
    loadLong m' a = loadLong m a := by
  unfold loadLong
  rw [same a (by omega) (by omega), same (a + 1) (by omega) (by omega),
    same (a + 2) (by omega) (by omega), same (a + 3) (by omega) (by omega)]

theorem loadLong_storeLong_apart (m : CodeMemory) {a b : Nat} (v : BitVec 32)
    (apart : a + 4 ≤ b ∨ b + 4 ≤ a) : loadLong (storeLong m a v) b = loadLong m b :=
  loadLong_congr fun x from_b below => if_neg (by omega)

section

variable {s s' : JitState} {bi : Nat}

theorem emit_loadLong (s : JitState) (bytes : List (BitVec 8)) {a : Nat}
    (before : a + 4 ≤ s.target) :
    loadLong (s.emit bytes).code a = loadLong s.code a :=
  loadLong_congr fun x _ below => if_neg (by omega)

/-- Every dependency on a list has a jump word that leads to its target. The blocks that are known
are those that have a list of dependencies. -/
structure Wired (s : JitState) (known : Nat → Prop) (D : Nat → List DepId) : Prop where
  allocated : ∀ b, s.Allocated b → known b
  deps : s.deps.Holds known D
  ends : ∀ {d t}, d ∈ D t → s.live d.1 = true ∧ s.live t = true
  /-- A dependency that is on no list has no links, so that it may be removed again. -/
  idle : ∀ {d}, known d.1 → (∀ t, d ∉ D t) → s.deps.Idle d
  target : ∀ {d w}, s.live d.1 = true → (s.dep d).jmpOff = some w →
    ∃ t, (s.dep d).target = some t ∧ s.live t = true
  word : ∀ {d t}, d ∈ D t → ∃ w, (s.dep d).jmpOff = some w ∧
    loadLong s.code w = displacement w (s.block t).directHandlerToUse ∧ w + 4 ≤ s.target ∧
      (s.current = none → w + 4 ≤ s.currentCompileP)
  apart : ∀ {d d' t t' w w'}, d ∈ D t → d' ∈ D t' → d ≠ d' → (s.dep d).jmpOff = some w →
    (s.dep d').jmpOff = some w' → w + 4 ≤ w' ∨ w' + 4 ≤ w
  recorded : ∀ {b j}, s.live b = true → j ∈ s.recorded b →
    (b, j.i) ∈ D j.target ∧ (s.dep (b, j.i)).jmpOff = some j.jmpaddr
  /-- The dependencies `compile_block` has not come to are on no list. -/
  current : ∀ {b made}, s.current = some (b, made) →
    s.live b = true ∧ ∀ i : Fin 2, made ≤ i.val → ∀ t, (b, i) ∉ D t

variable {known : Nat → Prop} {D : Nat → List DepId}

theorem Wired.congr (wired : Wired s known D) (deps : s'.deps = s.deps) (live : s'.live = s.live)
    (hold : s'.holdBi = s.holdBi) (recorded : s'.recorded = s.recorded)
    (current : s'.current = s.current) (code : s'.code = s.code) (target : s'.target = s.target)
    (compileP : s'.currentCompileP = s.currentCompileP)
    (dep : ∀ b, (s'.block b).dep = (s.block b).dep)
    (use : ∀ b, (s'.block b).directHandlerToUse = (s.block b).directHandlerToUse) :
    Wired s' known D := by
  have allocated : s'.Allocated = s.Allocated := by
    unfold JitState.Allocated JitState.Held
    rw [hold, live]
  have same (d : DepId) : s'.dep d = s.dep d := congrFun (dep d.1) d.2
  constructor
  · rw [allocated]
    exact wired.allocated
  · rw [deps]
    exact wired.deps
  · rw [live]
    exact wired.ends
  · rw [deps]
    exact wired.idle
  · simp only [live, same]
    exact wired.target
  · simp only [same, code, use, target, current, compileP]
    exact wired.word
  · simp only [same]
    exact wired.apart
  · simp only [live, recorded, same]
    exact wired.recorded
  · rw [current, live]
    exact wired.current

theorem Wired.modify (wired : Wired s known D) (bi : Nat) (f : Blockinfo → Blockinfo)
    (dep : (f (s.block bi)).dep = (s.block bi).dep)
    (use : (f (s.block bi)).directHandlerToUse = (s.block bi).directHandlerToUse) :
    Wired (s.modify bi f) known D :=
  wired.congr rfl rfl rfl rfl rfl rfl rfl rfl (fun b => modify_keeps Blockinfo.dep s bi f b dep)
    fun b => modify_keeps Blockinfo.directHandlerToUse s bi f b use

/-! ### `set_dhtu` -/

theorem modify_eq_self (s : JitState) {f : Blockinfo → Blockinfo}
    (same : f (s.block bi) = s.block bi) :
    s.modify bi f = s := by
  unfold JitState.modify
  rw [same, Function.update_eq_self]

/-- The words of one list are adjusted to its block's new handler. -/
theorem Wired.adjusted (wired : Wired s known D) {code : CodeMemory} {dh : Nat}
    (words : ∀ {d t w}, d ∈ D t → (s.dep d).jmpOff = some w → loadLong code w =
      displacement w (if t = bi then dh else (s.block t).directHandlerToUse)) :
    Wired ({ s with code }.modify bi fun b => { b with directHandlerToUse := dh }) known D := by
  have dep (d : DepId) : ({ s with code }.modify bi fun b =>
      { b with directHandlerToUse := dh }).dep d = s.dep d :=
    congrFun (modify_keeps Blockinfo.dep { s with code } bi _ d.1 rfl) d.2
  have use (t : Nat) : (({ s with code }.modify bi fun b =>
      { b with directHandlerToUse := dh }).block t).directHandlerToUse =
        if t = bi then dh else (s.block t).directHandlerToUse := by
    split
    next here =>
      rw [here, modify_self]
    next other => rw [modify_of_ne _ _ other]
  refine ⟨wired.allocated, wired.deps, wired.ends, wired.idle, ?_, ?_, ?_, ?_, wired.current⟩
  · simp only [dep]
    exact wired.target
  · intro d t member
    obtain ⟨w, jmpOff, -, before⟩ := wired.word member
    refine ⟨w, by rw [dep, jmpOff], ?_, before⟩
    rw [use]
    exact words member jmpOff
  · simp only [dep]
    exact wired.apart
  · simp only [dep]
    exact wired.recorded

/-- `set_dhtu` changes words of code and the direct handler, and keeps them in step. -/
theorem setDhtu_spec (wired : Wired s known D) (here : known bi) {fuel dh : Nat}
    (set : s.setDhtu fuel bi dh = some s') :
    ∃ code, s' = { s with code }.modify bi (fun b => { b with directHandlerToUse := dh }) ∧
      Wired s' known D := by
  unfold JitState.setDhtu at set
  split at set
  next =>
    obtain ⟨now, looped, rfl⟩ := Option.map_eq_some_iff.mp set
    -- The dependencies the loop has seen lead to the new handler.
    let I (rest : List DepId) (now : JitState) : Prop :=
      ∃ done code, D bi = done ++ rest ∧ now = { s with code } ∧
        ∀ {d t w}, d ∈ D t → (s.dep d).jmpOff = some w → loadLong code w =
          displacement w (if d ∈ done then dh else (s.block t).directHandlerToUse)
    have start : I (D bi) s := by
      refine ⟨[], s.code, rfl, rfl, fun {d t w} member jmpOff => ?_⟩
      obtain ⟨w', jmpOff', word, -⟩ := wired.word member
      cases jmpOff.symm.trans jmpOff'
      rw [if_neg List.not_mem_nil]
      exact word
    rw [(wired.deps.chain bi here).link_eq] at looped
    have after : I [] now := by
      refine whileNode_invariant I (fun x rest now held => ?_) start looped
      obtain ⟨done, code, eq, rfl, words⟩ := held
      have member : x ∈ D bi := eq ▸ List.mem_append_right _ (.head _)
      obtain ⟨w, jmpOff, -⟩ := wired.word member
      have chain := wired.deps.chain bi here
      rw [eq] at chain
      obtain ⟨_, -, -, behind⟩ := chain.split
      have body : adjustBody dh x { s with code } =
          ({ s with code := storeLong code w (displacement w dh) }, s.deps.link (.next x)) := by
        have same : ({ s with code }.dep x).jmpOff = some w := jmpOff
        unfold adjustBody
        rw [same]
        rfl
      rw [body]
      refine ⟨behind.link_eq, done ++ [x], _, by simp [eq], rfl, fun {d t w'} there jmpOff' => ?_⟩
      rcases Decidable.eq_or_ne d x with rfl | other
      · cases jmpOff.symm.trans jmpOff'
        rw [loadLong_storeLong, if_pos (List.mem_append_right _ (.head _))]
      · rw [loadLong_storeLong_apart code _ (wired.apart member there other.symm jmpOff jmpOff'),
          words there jmpOff']
        simp only [List.mem_append, List.mem_singleton, other, or_false]
    obtain ⟨done, code, eq, rfl, words⟩ := after
    rw [List.append_nil] at eq
    subst eq
    refine ⟨code, rfl, wired.adjusted fun {d t w} member jmpOff => ?_⟩
    rw [words member jmpOff]
    have on : d ∈ D bi ↔ t = bi := by
      constructor
      · exact fun there => wired.deps.unique member there
      · rintro rfl
        exact member
    simp only [on]
  next same =>
    cases set
    rw [Decidable.not_not] at same
    refine ⟨s.code, ?_, wired⟩
    rw [modify_eq_self]
    rw [same]

/-! ### Dependencies that go -/

theorem Wired.removeDep (wired : Wired s known D) {d : DepId} (here : known d.1)
    (unrecorded : ∀ j ∈ s.recorded d.1, j.i ≠ d.2) :
    Wired (s.removeDep d) known fun t => (D t).erase d := by
  have idle (nowhere : ∀ t, d ∉ D t) : s.deps.Idle d := wired.idle here nowhere
  have was {e : DepId} {t : Nat} (member : e ∈ (D t).erase d) : e ∈ D t := List.mem_of_mem_erase member
  refine ⟨wired.allocated, wired.deps.detach idle, fun member => wired.ends (was member), ?_,
    wired.target, fun member => wired.word (was member),
    fun member member' => wired.apart (was member) (was member'), ?_, ?_⟩
  · intro e known_e outside
    exact wired.deps.detach_idle outside idle (wired.idle known_e)
  · intro b j live recorded
    obtain ⟨member, jmpOff⟩ := wired.recorded live recorded
    refine ⟨(List.mem_erase_of_ne fun same => ?_).mpr member, jmpOff⟩
    subst same
    exact unrecorded j recorded rfl
  · intro b made current
    obtain ⟨live, free⟩ := wired.current current
    exact ⟨live, fun i later t member => free i later t (was member)⟩

/-- `remove_deps`, with which the records of the compilation go. -/
theorem Wired.removeDeps (wired : Wired s known D) (here : known bi) :
    ∃ D', Wired { s.removeDeps bi with recorded := Function.update s.recorded bi [] } known D' ∧
      ∀ i t, (bi, i) ∉ D' t := by
  have dropped : Wired { s with recorded := Function.update s.recorded bi [] } known D := by
    refine ⟨wired.allocated, wired.deps, wired.ends, wired.idle, wired.target, wired.word, wired.apart,
      fun {b j} live recorded => wired.recorded live ?_, wired.current⟩
    change j ∈ Function.update s.recorded bi [] b at recorded
    rw [Function.update_apply] at recorded
    split at recorded
    · cases recorded
    · exact recorded
  have none (i : Fin 2) : ∀ j ∈ Function.update s.recorded bi [] bi, j.i ≠ i := by
    rw [Function.update_self]
    exact fun _ absurd => nomatch absurd
  have first := dropped.removeDep (d := (bi, 0)) here (none 0)
  have second := first.removeDep (d := (bi, 1)) here (none 1)
  refine ⟨_, second, fun i t member => ?_⟩
  have both : i = 0 ∨ i = 1 := by omega
  rcases both with rfl | rfl
  · exact (wired.deps.nodup t).not_mem_erase (List.mem_of_mem_erase member)
  · exact ((wired.deps.nodup t).erase _).not_mem_erase member

/-- A block none of whose dependencies are on a list may change them, but for dangling ones. -/
theorem Wired.modify_free (wired : Wired s known D) (free : ∀ i t, (bi, i) ∉ D t)
    (f : Blockinfo → Blockinfo)
    (use : (f (s.block bi)).directHandlerToUse = (s.block bi).directHandlerToUse)
    (gone : ∀ i, ((f (s.block bi)).dep i).jmpOff = none) : Wired (s.modify bi f) known D := by
  have other {d : DepId} {t : Nat} (member : d ∈ D t) : d.1 ≠ bi := by
    rintro rfl
    exact free d.2 t member
  have dep {d : DepId} {t : Nat} (member : d ∈ D t) : (s.modify bi f).dep d = s.dep d := by
    unfold JitState.dep
    rw [modify_of_ne s f (other member)]
  have same_use (t : Nat) : ((s.modify bi f).block t).directHandlerToUse =
      (s.block t).directHandlerToUse :=
    modify_keeps Blockinfo.directHandlerToUse s bi f t use
  refine ⟨wired.allocated, wired.deps, wired.ends, wired.idle, ?_, ?_, ?_, ?_, wired.current⟩
  · intro d w live jmpOff
    rcases Decidable.eq_or_ne d.1 bi with here | apart
    · unfold JitState.dep at jmpOff
      rw [here, modify_self, gone] at jmpOff
      cases jmpOff
    · unfold JitState.dep at jmpOff ⊢
      rw [modify_of_ne s f apart] at jmpOff ⊢
      exact wired.target live jmpOff
  · intro d t member
    rw [dep member, same_use]
    exact wired.word member
  · intro d d' t t' w w' member member' distinct jmpOff jmpOff'
    rw [dep member] at jmpOff
    rw [dep member'] at jmpOff'
    exact wired.apart member member' distinct jmpOff jmpOff'
  · intro b j live recorded
    obtain ⟨member, jmpOff⟩ := wired.recorded live recorded
    exact ⟨member, by rw [dep member]; exact jmpOff⟩

/-! ### `invalidate_block` -/

variable {env : Env}

/-- Nothing but blocks, code, dependencies and records has changed. -/
def Kept (s s' : JitState) : Prop :=
  ∃ block code deps recorded, s' = { s with block, code, deps, recorded }

/-- What `invalidate_block` does to the block. -/
structure Invalidated (env : Env) (bi : Nat) (s s' : JitState) : Prop where
  kept : Kept s s'
  others : ∀ b, b ≠ bi → s'.block b = s.block b
  pcP : (s'.block bi).pcP = (s.block bi).pcP
  handlerToUse : (s'.block bi).handlerToUse = env.popallExecuteNormal
  status : (s'.block bi).status = .invalid
  jmpOff : ∀ i, (s'.dep (bi, i)).jmpOff = none
  recorded : s'.recorded bi = []

theorem invalidateBlock_spec (wired : Wired s known D) (here : known bi) {fuel : Nat}
    (invalidated : s.invalidateBlock env fuel bi = some s') :
    Invalidated env bi s s' ∧ ∃ D', Wired s' known D' := by
  obtain ⟨now, set, rfl⟩ := Option.map_eq_some_iff.mp invalidated
  have start := wired.modify bi (fun b =>
    { b with
      optlevel := 0
      count := 10 - 1
      handler := 0
      handlerToUse := env.popallExecuteNormal
      directHandler := 0 }) rfl rfl
  obtain ⟨code, rfl, set_wired⟩ := setDhtu_spec start here set
  obtain ⟨D', removed, free⟩ := set_wired.removeDeps here
  have ends := removed.modify_free free (fun b =>
    { b with
      status := .invalid
      dep := fun i => { b.dep i with jmpOff := none, target := none } }) rfl fun _ => rfl
  refine ⟨⟨⟨_, _, _, _, rfl⟩, fun b other => ?_, ?_, ?_, ?_, fun i => ?_, ?_⟩, D', ends⟩
  · exact (Function.update_of_ne other ..).trans ((Function.update_of_ne other ..).trans
      (Function.update_of_ne other ..))
  all_goals simp only [JitState.dep, JitState.removeDeps, JitState.removeDep, JitState.modify,
    Function.update_self]

/-! ### Code that is emitted, and jumps in it -/

theorem Wired.emit (wired : Wired s known D) (bytes : List (BitVec 8)) :
    Wired (s.emit bytes) known D := by
  refine ⟨wired.allocated, wired.deps, wired.ends, wired.idle, wired.target, fun member => ?_,
    wired.apart, wired.recorded, wired.current⟩
  obtain ⟨w, jmpOff, word, before, compiled⟩ := wired.word member
  refine ⟨w, jmpOff, ?_, Nat.le_add_right_of_le before, compiled⟩
  rw [emit_loadLong s bytes before]
  exact word

theorem Wired.emitLong (wired : Wired s known D) (v : BitVec 32) :
    Wired (s.emitLong v) known D := by
  refine ⟨wired.allocated, wired.deps, wired.ends, wired.idle, wired.target, fun member => ?_,
    wired.apart, wired.recorded, wired.current⟩
  obtain ⟨w, jmpOff, word, before, compiled⟩ := wired.word member
  refine ⟨w, jmpOff, ?_, Nat.le_add_right_of_le before, compiled⟩
  exact (loadLong_storeLong_apart s.code v (.inr before)).trans word

/-- The end of `create_jmpdep`. -/
def JitState.linkJump (s : JitState) (bi : Nat) (i : Fin 2) (jmpaddr tbi : Nat) : JitState :=
  let s := s.modify bi fun b =>
    { b with dep := Function.update b.dep i ⟨some jmpaddr, some tbi, some bi⟩ }
  { s with
    deps := s.deps.pushFront tbi (bi, i)
    recorded := Function.update s.recorded bi (⟨i, jmpaddr, tbi⟩ :: s.recorded bi) }

theorem linkJump_dep (s : JitState) (bi : Nat) (i : Fin 2) (jmpaddr tbi : Nat) (d : DepId) :
    (s.linkJump bi i jmpaddr tbi).dep d =
      if d = (bi, i) then ⟨some jmpaddr, some tbi, some bi⟩ else s.dep d := by
  obtain ⟨b, k⟩ := d
  simp only [JitState.dep, JitState.linkJump, JitState.modify, Function.update_apply, Prod.mk.injEq]
  by_cases here : b = bi
  · subst here
    by_cases same : k = i <;> simp [same]
  · simp [here]

theorem Wired.linkJump (wired : Wired s known D) {made jmpaddr tbi : Nat} (few : made < 2)
    (current : s.current = some (bi, made)) (live : s.live tbi = true)
    (word : loadLong s.code jmpaddr = displacement jmpaddr (s.block tbi).directHandlerToUse)
    (behind : ∀ {d t w}, d ∈ D t → (s.dep d).jmpOff = some w → w + 4 ≤ jmpaddr)
    (before : jmpaddr + 4 ≤ s.target) :
    ∃ D', Wired { s.linkJump bi ⟨made, few⟩ jmpaddr tbi with current := some (bi, made + 1) }
      known D' := by
  obtain ⟨live_bi, free⟩ := wired.current current
  have free (t : Nat) : ((bi, ⟨made, few⟩) : DepId) ∉ D t := free ⟨made, few⟩ (Nat.le_refl made) t
  have known_t : known tbi := wired.allocated tbi (.inl live)
  set new : DepId := (bi, ⟨made, few⟩)
  have old {d : DepId} {t : Nat} (member : d ∈ Function.update D tbi (new :: D tbi) t) :
      (d = new ∧ t = tbi) ∨ (d ≠ new ∧ d ∈ D t) := by
    rw [Function.update_apply] at member
    split at member
    next here =>
      subst here
      rcases List.mem_cons.mp member with rfl | member
      · exact .inl ⟨rfl, rfl⟩
      · exact .inr ⟨fun same => free t (same ▸ member), member⟩
    next => exact .inr ⟨fun same => free t (same ▸ member), member⟩
  have still {d : DepId} {t : Nat} (member : d ∈ D t) :
      d ∈ Function.update D tbi (new :: D tbi) t := by
    rw [Function.update_apply]
    split
    next here => exact .tail _ (here ▸ member)
    next => exact member
  have dep (d : DepId) : (s.linkJump bi ⟨made, few⟩ jmpaddr tbi).dep d =
      if d = new then ⟨some jmpaddr, some tbi, some bi⟩ else s.dep d :=
    linkJump_dep s bi ⟨made, few⟩ jmpaddr tbi d
  have use (t : Nat) : ((s.linkJump bi ⟨made, few⟩ jmpaddr tbi).block t).directHandlerToUse =
      (s.block t).directHandlerToUse :=
    modify_keeps Blockinfo.directHandlerToUse s bi (fun b =>
      { b with dep := Function.update b.dep ⟨made, few⟩ ⟨some jmpaddr, some tbi, some bi⟩ }) t rfl
  refine ⟨Function.update D tbi (new :: D tbi), wired.allocated,
    wired.deps.pushFront known_t free, ?_, ?_, ?_, ?_, ?_, ?_, ?_⟩
  · intro d t member
    rcases old member with ⟨rfl, rfl⟩ | ⟨-, member⟩
    · exact ⟨live_bi, live⟩
    · exact wired.ends member
  · intro d known_d outside
    have other : d ≠ new := by
      rintro rfl
      exact outside tbi (by rw [Function.update_self]; exact .head _)
    have outside (t : Nat) : d ∉ D t := fun member => outside t (still member)
    obtain ⟨prev, link⟩ := wired.deps.pushFront_outside known_t (n := new) other outside
    obtain ⟨no_prev, no_link⟩ := wired.idle known_d outside
    exact ⟨prev.trans no_prev, link.trans no_link⟩
  · intro d w live_d jmpOff
    rw [dep] at jmpOff ⊢
    split
    · exact ⟨tbi, rfl, live⟩
    next other =>
      rw [if_neg other] at jmpOff
      exact wired.target live_d jmpOff
  · intro d t member
    rcases old member with ⟨rfl, rfl⟩ | ⟨other, member⟩
    · refine ⟨jmpaddr, by rw [dep, if_pos rfl], ?_, before, nofun⟩
      rw [use]
      exact word
    · obtain ⟨w, jmpOff, word, below, -⟩ := wired.word member
      refine ⟨w, by rw [dep, if_neg other, jmpOff], ?_, below, nofun⟩
      rw [use]
      exact word
  · intro d d' t t' w w' member member' distinct jmpOff jmpOff'
    rw [dep] at jmpOff jmpOff'
    rcases old member with ⟨rfl, -⟩ | ⟨other, member⟩
    · rw [if_pos rfl] at jmpOff
      cases jmpOff
      rcases old member' with ⟨rfl, -⟩ | ⟨other', member'⟩
      · exact absurd rfl distinct
      · rw [if_neg other'] at jmpOff'
        exact .inr (behind member' jmpOff')
    · rw [if_neg other] at jmpOff
      rcases old member' with ⟨rfl, -⟩ | ⟨other', member'⟩
      · rw [if_pos rfl] at jmpOff'
        cases jmpOff'
        exact .inl (behind member jmpOff)
      · rw [if_neg other'] at jmpOff'
        exact wired.apart member member' distinct jmpOff jmpOff'
  · intro b j live_b recorded
    have kinds : (b = bi ∧ j = ⟨⟨made, few⟩, jmpaddr, tbi⟩) ∨ j ∈ s.recorded b := by
      change j ∈ Function.update s.recorded bi _ b at recorded
      rw [Function.update_apply] at recorded
      split at recorded
      next here =>
        subst here
        exact (List.mem_cons.mp recorded).imp_left fun same => ⟨rfl, same⟩
      next => exact .inr recorded
    rcases kinds with ⟨rfl, rfl⟩ | recorded
    · exact ⟨by rw [Function.update_self]; exact .head _, by rw [dep, if_pos rfl]⟩
    · obtain ⟨member, jmpOff⟩ := wired.recorded live_b recorded
      have other : ((b, j.i) : DepId) ≠ new := fun same => free j.target (same ▸ member)
      refine ⟨still member, ?_⟩
      rw [dep, if_neg other]
      exact jmpOff
  · intro b made' current'
    cases current'
    refine ⟨live_bi, fun i later t member => ?_⟩
    rcases old member with ⟨same, -⟩ | ⟨-, member⟩
    · have index : i = ⟨made, few⟩ := congrArg Prod.snd same
      rw [index] at later
      exact Nat.not_succ_le_self made later
    · exact (wired.current current).2 i (Nat.le_of_succ_le later) t member

/-! ### Blocks that come -/

theorem prepareBlock_keeps {α : Type*} (field : Blockinfo → α) (s : JitState) (bi b : Nat)
    (keeps : ∀ x p q, field { x with directPen := p, directPcc := q, status := .invalid } = field x) :
    field ((s.prepareBlock env bi).block b) = field (s.block b) := by
  rcases Decidable.eq_or_ne b bi with rfl | other
  · simp only [JitState.prepareBlock, JitState.modify, JitState.emit, Function.update_self]
    exact keeps ..
  · simp only [JitState.prepareBlock, JitState.modify, JitState.emit, Function.update_of_ne other]

theorem prepareBlock_loadLong (s : JitState) (bi : Nat) {a : Nat}
    (before : a + 4 ≤ s.currentCompileP) :
    loadLong (s.prepareBlock env bi).code a = loadLong s.code a ∧
      a + 4 ≤ (s.prepareBlock env bi).target := by
  -- Four pieces of code, each behind the one before.
  let first := { s with target := s.currentCompileP }.emit (env.alignment s.currentCompileP)
  let second := first.emit (env.penStub bi first.target)
  let third := second.emit (env.alignment second.target)
  have in_first : a + 4 ≤ first.target := Nat.le_add_right_of_le before
  have in_second : a + 4 ≤ second.target := Nat.le_add_right_of_le in_first
  have in_third : a + 4 ≤ third.target := Nat.le_add_right_of_le in_second
  refine ⟨?_, Nat.le_add_right_of_le in_third⟩
  calc loadLong (s.prepareBlock env bi).code a
      = loadLong third.code a := emit_loadLong third (env.pccStub bi third.target) in_third
    _ = loadLong second.code a := emit_loadLong second _ in_second
    _ = loadLong first.code a := emit_loadLong first _ in_first
    _ = loadLong s.code a := emit_loadLong { s with target := s.currentCompileP } _ before

/-- A block that is prepared has no dependents and no dependencies. The stubs are emitted behind
all code. -/
theorem Wired.prepareBlock (wired : Wired s known D) (idle : s.current = none)
    (dead : s.live bi = false) {i : Fin 3} :
    Wired ({ s with holdBi := Function.update s.holdBi i (some bi) }.prepareBlock env bi)
      (fun b => known b ∨ b = bi) D := by
  set s' := { s with holdBi := Function.update s.holdBi i (some bi) }.prepareBlock env bi
  have off {d : DepId} {t : Nat} (member : d ∈ D t) : d.1 ≠ bi := by
    rintro rfl
    simp [(wired.ends member).1] at dead
  have deps_head (t : Nat) : s'.deps.link (.head t) =
      if t = bi then none else s.deps.link (.head t) := by
    simp [s', JitState.prepareBlock, JitState.modify, JitState.emit, Links.setLink_link]
  have deps_next (d : DepId) : s'.deps.link (.next d) =
      if d.1 = bi then none else s.deps.link (.next d) := by
    obtain ⟨b, k⟩ := d
    have index : k = 0 ∨ k = 1 := by omega
    rcases index with rfl | rfl <;>
      simp [s', JitState.prepareBlock, JitState.modify, JitState.emit, Links.setLink_link]
  have deps_prev (d : DepId) : s'.deps.prev d = if d.1 = bi then none else s.deps.prev d := by
    obtain ⟨b, k⟩ := d
    have index : k = 0 ∨ k = 1 := by omega
    rcases index with rfl | rfl <;>
      simp [s', JitState.prepareBlock, JitState.modify, JitState.emit, Links.setLink,
        Links.setPrev_prev, eq_comm]
  have live : s'.live = s.live := rfl
  have allocated (b : Nat) (here : s'.Allocated b) : known b ∨ b = bi := by
    rcases here with live | ⟨j, held⟩
    · exact .inl (wired.allocated b (.inl live))
    · change Function.update s.holdBi i (some bi) j = some b at held
      rw [Function.update_apply] at held
      split at held
      · cases held
        exact .inr rfl
      · exact .inl (wired.allocated b (.inr ⟨j, held⟩))
  have dep (d : DepId) : s'.dep d = s.dep d :=
    congrFun (prepareBlock_keeps Blockinfo.dep _ bi d.1 fun _ _ _ => rfl) d.2
  have use (b : Nat) : (s'.block b).directHandlerToUse = (s.block b).directHandlerToUse :=
    prepareBlock_keeps Blockinfo.directHandlerToUse _ bi b fun _ _ _ => rfl
  refine ⟨allocated, ?_, wired.ends, ?_, ?_, ?_, ?_, ?_, ?_⟩
  · refine ⟨fun t known_t => ?_, wired.deps.nodup, wired.deps.unique,
      fun member => .inl (wired.deps.valid member)⟩
    by_cases here : t = bi
    · have empty : D t = [] := by
        refine List.eq_nil_iff_forall_not_mem.mpr fun d member => ?_
        rw [here] at member
        simp [(wired.ends member).2] at dead
      rw [empty]
      exact (deps_head t).trans (if_pos here)
    · refine (wired.deps.chain t (known_t.resolve_right here)).congr (fun q on => ?_) fun d on => ?_
      · rcases on with rfl | ⟨d, member, rfl⟩
        · rw [deps_head, if_neg here]
        · rw [deps_next, if_neg (off member)]
      · rw [deps_prev, if_neg (off on)]
  · intro d known_d outside
    by_cases here : d.1 = bi
    · exact ⟨by rw [deps_prev, if_pos here], by rw [deps_next, if_pos here]⟩
    · obtain ⟨prev, link⟩ := wired.idle (known_d.resolve_right here) outside
      exact ⟨by rw [deps_prev, if_neg here, prev], by rw [deps_next, if_neg here, link]⟩
  · simp only [dep]
    exact wired.target
  · intro d t member
    obtain ⟨w, jmpOff, word, -, before⟩ := wired.word member
    obtain ⟨same, below⟩ := @prepareBlock_loadLong env
      { s with holdBi := Function.update s.holdBi i (some bi) } bi w (before idle)
    refine ⟨w, by rw [dep, jmpOff], ?_, below, fun _ => below⟩
    rw [use]
    exact same.trans word
  · simp only [dep]
    exact wired.apart
  · simp only [dep]
    exact wired.recorded
  · exact fun current => absurd (current.symm.trans idle) (Option.some_ne_none _)

theorem Wired.unhold (wired : Wired s known D) (i : Fin 3) :
    Wired { s with holdBi := Function.update s.holdBi i none } known D := by
  have fewer {j : Fin 3} {b : Nat} (held : Function.update s.holdBi i none j = some b) :
      s.holdBi j = some b := by
    rw [Function.update_apply] at held
    split at held
    · cases held
    · exact held
  refine ⟨fun b allocated => wired.allocated b ?_, wired.deps, wired.ends, wired.idle, wired.target,
    wired.word, wired.apart, wired.recorded, wired.current⟩
  exact allocated.imp_right fun ⟨j, held⟩ => ⟨j, fewer held⟩

theorem Wired.enter (wired : Wired s known D) (here : known bi)
    (jmpOff : ∀ i, (s.dep (bi, i)).jmpOff = none) (recorded : s.recorded bi = []) :
    Wired (s.enter bi) known D := by
  have live (b : Nat) : (s.enter bi).live b = true ↔ b = bi ∨ s.live b = true := by
    change Function.update s.live bi true b = true ↔ _
    rw [Function.update_apply]
    by_cases same : b = bi <;> simp [same]
  refine ⟨?_, wired.deps, fun {d t} member => ?_, wired.idle, ?_, wired.word, wired.apart, ?_, ?_⟩
  · rintro b (now | held)
    · rcases (live b).mp now with rfl | before
      · exact here
      · exact wired.allocated b (.inl before)
    · exact wired.allocated b (.inr held)
  · obtain ⟨source, target⟩ := wired.ends member
    exact ⟨(live d.1).mpr (.inr source), (live t).mpr (.inr target)⟩
  · rintro ⟨b, i⟩ w now jump
    rcases (live b).mp now with rfl | before
    · exact absurd (jump.symm.trans (jmpOff i)) nofun
    · obtain ⟨t, target, live_t⟩ := wired.target (d := (b, i)) before jump
      exact ⟨t, target, (live t).mpr (.inr live_t)⟩
  · intro b j now listed
    rcases (live b).mp now with rfl | before
    · change j ∈ s.recorded b at listed
      rw [recorded] at listed
      cases listed
    · exact wired.recorded before listed
  · intro b made current
    obtain ⟨before, free⟩ := wired.current current
    exact ⟨(live b).mpr (.inr before), free⟩

theorem Wired.none (dead : ∀ b, s.live b = false) (hold : ∀ i, s.holdBi i = none)
    (idle : s.current = none) : Wired s (fun _ => False) fun _ => [] := by
  have unborn {b : Nat} (live : s.live b = true) : False := by
    simp [dead b] at live
  refine ⟨?_, ⟨nofun, fun _ => List.nodup_nil, nofun, nofun⟩, nofun, nofun, fun live => ?_, nofun,
    nofun, fun live => ?_, fun current => ?_⟩
  · rintro b (live | ⟨i, held⟩)
    · exact unborn live
    · rw [hold] at held
      cases held
  · exact (unborn live).elim
  · exact (unborn live).elim
  · rw [idle] at current
    cases current

end

end BasiliskII.Jit
