import BasiliskII.Jit.DirectJumps

/-!
# What the steps of block management keep

Every function of the management keeps the lists, the stock of blocks, the direct jumps and the
handlers of the cache lines as they should be, if it is called for live blocks.
-/
namespace BasiliskII.Jit

open BackLinks

/-- The state is in order, but for the handlers of blocks in the works. -/
structure Sound (env : Env) (works : Nat → Prop) (s : JitState) (M : MainList → List Nat)
    (C : BitVec 16 → List Nat) : Prop where
  listed : Listed s M C
  stocked : Stocked s
  cached : Cached env s C works
  wired : ∃ known D, Wired s known D

/-- What a step that neither starts nor ends a life keeps. -/
structure Steady (s s' : JitState) : Prop where
  live : s'.live = s.live
  current : s'.current = s.current
  pcP : ∀ b, s.live b = true → (s'.block b).pcP = (s.block b).pcP

theorem Steady.refl (s : JitState) : Steady s s := ⟨rfl, rfl, fun _ _ => rfl⟩

theorem Steady.trans {s s' s'' : JitState} (first : Steady s s') (second : Steady s' s'') :
    Steady s s'' :=
  ⟨second.live.trans first.live, second.current.trans first.current, fun b live =>
    (second.pcP b (by rw [first.live]; exact live)).trans (first.pcP b live)⟩

section

variable {env : Env} {works : Nat → Prop} {s s' : JitState} {M : MainList → List Nat}
  {C : BitVec 16 → List Nat} {bi : Nat} {fuel : Nat}

theorem Sound.mono {more : Nat → Prop} (sound : Sound env works s M C)
    (included : ∀ b, works b → more b) : Sound env more s M C :=
  ⟨sound.listed, sound.stocked, sound.cached.mono included, sound.wired⟩

theorem Sound.modify (sound : Sound env works s M C) (bi : Nat) (f : Blockinfo → Blockinfo)
    (pcP : (f (s.block bi)).pcP = (s.block bi).pcP)
    (dep : (f (s.block bi)).dep = (s.block bi).dep)
    (direct : (f (s.block bi)).directHandlerToUse = (s.block bi).directHandlerToUse)
    (use : (f (s.block bi)).handlerToUse = (s.block bi).handlerToUse)
    (status : (f (s.block bi)).status = (s.block bi).status) :
    Sound env works (s.modify bi f) M C := by
  obtain ⟨known, D, wired⟩ := sound.wired
  refine ⟨sound.listed.congr rfl rfl rfl fun b _ => modify_keeps Blockinfo.pcP s bi f b pcP,
    sound.stocked.congr rfl rfl rfl rfl, ?_, known, D, wired.modify bi f dep direct⟩
  exact sound.cached.congr sound.listed rfl rfl
    (fun b _ => modify_keeps Blockinfo.handlerToUse s bi f b use)
    fun b _ => modify_keeps Blockinfo.status s bi f b status

/-- A change to the handler or the status of a block in the works. -/
theorem Sound.work (sound : Sound env works s M C) (bi : Nat) (here : works bi) (f : Blockinfo → Blockinfo)
    (pcP : (f (s.block bi)).pcP = (s.block bi).pcP)
    (dep : (f (s.block bi)).dep = (s.block bi).dep)
    (direct : (f (s.block bi)).directHandlerToUse = (s.block bi).directHandlerToUse)
    (invalid : s.live bi = true → (f (s.block bi)).status = .invalid →
      (f (s.block bi)).handlerToUse = env.popallExecuteNormal) :
    Sound env works (s.modify bi f) M C := by
  obtain ⟨known, D, wired⟩ := sound.wired
  exact ⟨sound.listed.congr rfl rfl rfl fun b _ => modify_keeps Blockinfo.pcP s bi f b pcP,
    sound.stocked.congr rfl rfl rfl rfl, sound.cached.work f here invalid, known, D,
    wired.modify bi f dep direct⟩

theorem Sound.setStatus (sound : Sound env works s M C) (bi : Nat) (status : Status)
    (valid : status = .invalid → (s.block bi).handlerToUse = env.popallExecuteNormal) :
    Sound env works (s.modify bi fun b => { b with status }) M C := by
  obtain ⟨known, D, wired⟩ := sound.wired
  refine ⟨sound.listed.congr rfl rfl rfl fun b _ => modify_keeps Blockinfo.pcP s bi (fun b => { b with status }) b rfl,
    sound.stocked.congr rfl rfl rfl rfl, ⟨fun cl settled => ?_, fun b live invalid => ?_⟩, known, D,
    wired.modify bi _ rfl rfl⟩
  · have same : (s.modify bi fun b => { b with status }).headHandler env (C cl) =
        s.headHandler env (C cl) := by
      unfold JitState.headHandler
      split
      · exact modify_keeps Blockinfo.handlerToUse s bi _ _ rfl
      · rfl
    rw [same]
    exact sound.cached.handler cl settled
  · rcases Decidable.eq_or_ne b bi with rfl | other
    · rw [modify_self] at invalid ⊢
      exact valid invalid
    · rw [modify_of_ne s _ other] at invalid ⊢
      exact sound.cached.invalid b live invalid

theorem Steady.modify (s : JitState) (bi : Nat) (f : Blockinfo → Blockinfo)
    (pcP : (f (s.block bi)).pcP = (s.block bi).pcP) : Steady s (s.modify bi f) :=
  ⟨rfl, rfl, fun b _ => modify_keeps Blockinfo.pcP s bi f b pcP⟩

/-- All `set_dhtu` does to blocks. -/
structure Redirected (s s' : JitState) : Prop where
  kept : Kept s s'
  deps : s'.deps = s.deps
  block : ∀ b, ∃ dh, s'.block b = { s.block b with directHandlerToUse := dh }

theorem Redirected.field {α : Type*} (redirected : Redirected s s') (field : Blockinfo → α) (b : Nat)
    (keeps : ∀ x dh, field { x with directHandlerToUse := dh } = field x) :
    field (s'.block b) = field (s.block b) := by
  obtain ⟨dh, eq⟩ := redirected.block b
  rw [eq, keeps]

theorem Redirected.steady (redirected : Redirected s s') : Steady s s' := by
  have pcP (b : Nat) := redirected.field Blockinfo.pcP b fun _ _ => rfl
  obtain ⟨_, _, _, _, rfl⟩ := redirected.kept
  exact ⟨rfl, rfl, fun b _ => pcP b⟩

/-- `set_dhtu` of a live block -/
theorem Sound.setDhtu (sound : Sound env works s M C) (live : s.live bi = true) {dh : Nat}
    (set : s.setDhtu fuel bi dh = some s') : Sound env works s' M C ∧ Redirected s s' := by
  obtain ⟨known, D, wired⟩ := sound.wired
  obtain ⟨code, eq, wired'⟩ := setDhtu_spec wired (wired.allocated bi (.inl live)) set
  have redirected : Redirected s s' := by
    subst eq
    refine ⟨⟨_, _, _, _, rfl⟩, rfl, fun b => ?_⟩
    rcases Decidable.eq_or_ne b bi with rfl | other
    · exact ⟨dh, modify_self ..⟩
    · exact ⟨_, modify_of_ne _ _ other⟩
  have pcP (b : Nat) := redirected.field Blockinfo.pcP b fun _ _ => rfl
  have use (b : Nat) := redirected.field Blockinfo.handlerToUse b fun _ _ => rfl
  have status (b : Nat) := redirected.field Blockinfo.status b fun _ _ => rfl
  refine ⟨?_, redirected⟩
  subst eq
  refine ⟨sound.listed.congr rfl rfl rfl fun b _ => pcP b, sound.stocked.congr rfl rfl rfl rfl,
    ?_, known, D, wired'⟩
  exact sound.cached.congr sound.listed rfl rfl (fun b _ => use b) fun b _ => status b

theorem Sound.raise (sound : Sound env (fun b => works b ∨ b = bi) s M C)
    (live : s.live bi = true) :
    Sound env works (s.raiseInClList env bi) M (raised C (s.line bi) bi) := by
  obtain ⟨known, D, wired⟩ := sound.wired
  exact ⟨sound.listed.raise live, sound.stocked.congr rfl rfl rfl rfl,
    sound.cached.raise sound.listed live, known, D,
    wired.congr rfl rfl rfl rfl rfl rfl rfl rfl (fun _ => rfl) fun _ => rfl⟩

theorem Sound.move (sound : Sound env works s M C) (live : s.live bi = true) (list : MainList) :
    ∃ M', Sound env works ((s.removeFromList bi).addTo list bi) M' C := by
  obtain ⟨known, D, wired⟩ := sound.wired
  obtain ⟨M', listed⟩ := sound.listed.move live list
  exact ⟨M', listed, sound.stocked.congr rfl rfl rfl rfl,
    sound.cached.congr sound.listed rfl rfl (fun _ _ => rfl) fun _ _ => rfl, known, D,
    wired.congr rfl rfl rfl rfl rfl rfl rfl rfl (fun _ => rfl) fun _ => rfl⟩

/-- `invalidate_block` of a live block, which leaves its cache line's handler alone -/
theorem Sound.invalidateBlock (sound : Sound env works s M C) (live : s.live bi = true)
    (invalidated : s.invalidateBlock env fuel bi = some s') :
    Sound env (fun b => works b ∨ b = bi) s' M C ∧ Steady s s' := by
  obtain ⟨known, D, wired⟩ := sound.wired
  obtain ⟨result, D', wired'⟩ :=
    invalidateBlock_spec wired (wired.allocated bi (.inl live)) invalidated
  have pcP (b : Nat) : (s'.block b).pcP = (s.block b).pcP := by
    rcases Decidable.eq_or_ne b bi with rfl | other
    · exact result.pcP
    · rw [result.others b other]
  obtain ⟨block, code, deps, recorded, rfl⟩ := result.kept
  refine ⟨⟨sound.listed.congr rfl rfl rfl fun b _ => pcP b, sound.stocked.congr rfl rfl rfl rfl,
    ⟨fun cl settled => ?_, fun b live' invalid => ?_⟩, known, D', wired'⟩, rfl, rfl,
    fun b _ => pcP b⟩
  · rw [sound.cached.handler cl fun first here working => settled first here (.inl working)]
    unfold JitState.headHandler
    split
    next first here =>
      rw [result.others first fun same => settled first here (.inr same)]
    next => rfl
  · rcases Decidable.eq_or_ne b bi with rfl | other
    · exact result.handlerToUse
    · have same := result.others b other
      rw [same] at invalid ⊢
      exact sound.cached.invalid b live' invalid

theorem modify_modify (s : JitState) (bi : Nat) (f g : Blockinfo → Blockinfo) :
    (s.modify bi f).modify bi g = s.modify bi fun b => g (f b) := by
  unfold JitState.modify
  dsimp only
  rw [Function.update_idem, Function.update_self]

/-- A handler of a cache line that is kept up to date with that of the block. -/
def JitState.refresh (s : JitState) (bi handler : Nat) : JitState :=
  if s.getBlockinfo (s.line bi) = some bi then s.setHandler (s.line bi) handler else s

theorem refresh_fields (s : JitState) (bi handler : Nat) :
    s.refresh bi handler = { s with handler := (s.refresh bi handler).handler } := by
  unfold JitState.refresh
  split <;> rfl

theorem Sound.refresh (sound : Sound env works s M C) (live : s.live bi = true) (handler : Nat)
    (f : Blockinfo → Blockinfo)
    (pcP : (f (s.block bi)).pcP = (s.block bi).pcP)
    (dep : (f (s.block bi)).dep = (s.block bi).dep)
    (direct : (f (s.block bi)).directHandlerToUse = (s.block bi).directHandlerToUse)
    (use : (f (s.block bi)).handlerToUse = handler)
    (invalid : (f (s.block bi)).status = .invalid → handler = env.popallExecuteNormal) :
    Sound env works ((s.refresh bi handler).modify bi f) M C := by
  obtain ⟨known, D, wired⟩ := sound.wired
  have handler_eq : (s.refresh bi handler).handler =
      if s.getBlockinfo (s.line bi) = some bi then Function.update s.handler (s.line bi) handler
      else s.handler := by
    unfold JitState.refresh
    split <;> rfl
  rw [refresh_fields]
  refine ⟨sound.listed.congr rfl rfl rfl fun b _ => modify_keeps Blockinfo.pcP s bi f b pcP,
    sound.stocked.congr rfl rfl rfl rfl, ?_, known, D, ?_⟩
  · refine sound.cached.refresh sound.listed live handler_eq rfl (fun b other => ?_) ?_ ?_
    · have same := modify_of_ne s f other
      exact ⟨congrArg Blockinfo.handlerToUse same, congrArg Blockinfo.status same⟩
    · exact (congrArg Blockinfo.handlerToUse (modify_self s bi f)).trans use
    · intro status
      exact invalid ((congrArg Blockinfo.status (modify_self s bi f)).symm.trans status)
  · exact (wired.modify bi f dep direct).congr rfl rfl rfl rfl rfl rfl rfl rfl (fun _ => rfl)
      fun _ => rfl

/-- `block_need_recompile` -/
theorem Sound.blockNeedRecompile (sound : Sound env works s M C) (live : s.live bi = true)
    (done : s.blockNeedRecompile env fuel bi = some s') : Sound env works s' M C := by
  obtain ⟨now, set, rfl⟩ := Option.map_eq_some_iff.mp done
  obtain ⟨now_sound, redirected⟩ := sound.setDhtu live set
  have line : now.line bi = s.line bi :=
    redirected.field (fun b => b.pcP.cacheline) bi fun _ _ => rfl
  have live_now : now.live bi = true := by
    rw [redirected.steady.live]
    exact live
  have last := now_sound.refresh live_now env.popallExecuteNormal (fun b =>
    { b with
      directHandler := b.directPen
      handlerToUse := env.popallExecuteNormal
      handler := env.popallExecuteNormal
      status := .needRecomp }) rfl rfl rfl rfl nofun
  unfold JitState.refresh at last
  rw [line] at last
  dsimp only
  have front : (now.modify bi fun b =>
      { b with
        directHandler := b.directPen
        handlerToUse := env.popallExecuteNormal
        handler := env.popallExecuteNormal }).getBlockinfo (s.line bi) =
      now.getBlockinfo (s.line bi) := rfl
  rw [front]
  split at last
  next first =>
    rw [if_pos first]
    have eq' := modify_modify (now.setHandler (s.line bi) env.popallExecuteNormal) bi (fun b =>
      { b with
        directHandler := b.directPen
        handlerToUse := env.popallExecuteNormal
        handler := env.popallExecuteNormal }) fun b => { b with status := .needRecomp }
    rw [← eq'] at last
    exact last
  next other =>
    rw [if_neg other, modify_modify]
    exact last

theorem Sound.flushBlock (sound : Sound env works s M C) (live : s.live bi = true)
    (done : s.flushBlock env fuel bi = some s') :
    Sound env works s' M C ∧ Steady s s' ∧ s'.main = s.main := by
  -- The same for blocks that are given up and for those that are kept.
  have flushed {handler dh : Nat} {status : Status}
      (invalid : (s.block bi).status = .invalid ∨ status = .invalid →
        handler = env.popallExecuteNormal)
      (done : (((s.refresh bi handler).modify bi fun b => { b with handlerToUse := handler }).setDhtu
        fuel bi dh).map (fun s => s.modify bi fun b => { b with status }) = some s') :
      Sound env works s' M C ∧ Steady s s' ∧ s'.main = s.main := by
    obtain ⟨now, set, rfl⟩ := Option.map_eq_some_iff.mp done
    have refreshed := sound.refresh live handler
      (fun b => { b with handlerToUse := handler }) rfl rfl rfl rfl fun was => invalid (.inl was)
    have live' : ((s.refresh bi handler).modify bi fun b =>
        { b with handlerToUse := handler }).live bi = true := by
      rw [refresh_fields]
      exact live
    obtain ⟨now_sound, redirected⟩ := refreshed.setDhtu live' set
    have use := redirected.field Blockinfo.handlerToUse bi fun _ _ => rfl
    have steady := redirected.steady
    have main : now.main = ((s.refresh bi handler).modify bi fun b =>
        { b with handlerToUse := handler }).main := by
      obtain ⟨_, _, _, _, rfl⟩ := redirected.kept
      rfl
    rw [modify_self] at use
    rw [refresh_fields] at steady main
    refine ⟨now_sound.setStatus bi _ fun given_up => use.trans (invalid (.inr given_up)), ?_, main⟩
    have first : Steady s ({ s with handler := (s.refresh bi handler).handler }.modify bi fun b =>
        { b with handlerToUse := handler }) :=
      ⟨rfl, rfl, fun b _ =>
        modify_keeps Blockinfo.pcP s bi (fun b => { b with handlerToUse := handler }) b rfl⟩
    exact (first.trans steady).trans (Steady.modify now bi _ rfl)
  unfold JitState.flushBlock at done
  by_cases given_up : (s.block bi).status = .invalid ∨ (s.block bi).status = .needRecomp
  · simp only [if_pos given_up] at done
    exact flushed (fun _ => rfl) done
  · simp only [if_neg given_up] at done
    refine flushed (fun either => ?_) done
    rcases either with was | now
    · exact absurd (.inl was) given_up
    · cases now

/-! ### `get_blockinfo_addr_new` -/

/-- A new block at an address, or the one there is. -/
structure Found (s s' : JitState) (addr : PcP) (bi : Nat) : Prop where
  live : s'.live bi = true
  pcP : (s'.block bi).pcP = addr
  current : s'.current = s.current
  /-- Looking again changes nothing. -/
  old : (∃ b, s.live b = true ∧ (s.block b).pcP = addr) → s' = s
  alive : ∀ b, s.live b = true → s'.live b = true

theorem enter_live (s : JitState) (bi b : Nat) :
    (s.enter bi).live b = true ↔ b = bi ∨ s.live b = true := by
  change Function.update s.live bi true b = true ↔ _
  rw [Function.update_apply]
  by_cases same : b = bi <;> simp [same]

theorem Stocked.enter (stocked : Stocked s) {i : Fin 3} (held : s.holdBi i = some bi) :
    Stocked ({ s with holdBi := Function.update s.holdBi i none }.enter bi) := by
  have fewer {j : Fin 3} {b : Nat} (still : Function.update s.holdBi i none j = some b) :
      j ≠ i ∧ s.holdBi j = some b := by
    rcases Decidable.eq_or_ne j i with rfl | other
    · rw [Function.update_self] at still
      cases still
    · rw [Function.update_of_ne other] at still
      exact ⟨other, still⟩
  have was {b : Nat}
      (now : ({ s with holdBi := Function.update s.holdBi i none }.enter bi).Allocated b) :
      s.Allocated b := by
    rcases now with live | ⟨j, still⟩
    · rcases (enter_live _ bi b).mp live with rfl | live
      · exact .inr ⟨i, held⟩
      · exact .inl live
    · exact .inr ⟨j, (fewer still).2⟩
  refine ⟨fun {j b} still => ?_, fun {j k b} still still' => ?_, stocked.chunks_nodup,
    fun c there => ?_, fun b now => stocked.below b (was now)⟩
  · obtain ⟨other, before⟩ := fewer still
    refine Bool.eq_false_iff.mpr fun live => ?_
    rcases (enter_live _ bi b).mp live with rfl | live
    · exact other (stocked.held_unique before held)
    · simp [stocked.held_free before] at live
  · exact stocked.held_unique (fewer still).2 (fewer still').2
  · obtain ⟨free, below⟩ := stocked.chunk_free c there
    exact ⟨fun now => free (was now), below⟩

theorem firstHeld_held {i : Fin 3} (first : s.firstHeld = some (i, bi)) : s.holdBi i = some bi := by
  obtain ⟨j, -, eq⟩ := List.exists_of_findSome?_eq_some first
  obtain ⟨b, held, same⟩ := Option.map_eq_some_iff.mp eq
  cases same
  exact held

theorem Sound.getBlockinfoAddrNew (sound : Sound env works s M C) {addr : PcP}
    (done : s.getBlockinfoAddrNew env fuel addr = some (bi, s')) :
    (∃ M' C', Sound env works s' M' C') ∧ Found s s' addr bi := by
  obtain ⟨found, searched, done⟩ := Option.bind_eq_some_iff.mp done
  obtain ⟨known_block, new⟩ := getBlockinfoAddr_found sound.listed searched
  cases found with
  | some b =>
    cases done
    obtain ⟨live, pcP⟩ := known_block bi rfl
    exact ⟨⟨M, C, sound⟩, live, pcP, rfl, fun _ => rfl, fun _ live => live⟩
  | none =>
    have new := new rfl
    obtain ⟨⟨i, b⟩, first, done⟩ := Option.bind_eq_some_iff.mp done
    have held := firstHeld_held first
    have dead := sound.stocked.held_free held
    have other {c : Nat} (live : s.live c = true) : c ≠ b := by
      rintro rfl
      simp [dead] at live
    obtain ⟨known, D, wired⟩ := sound.wired
    have here : known b := wired.allocated b (.inr ⟨i, held⟩)
    obtain ⟨now, invalidated, same⟩ := Option.map_eq_some_iff.mp done
    cases same
    -- The block is neither held nor live while it is invalidated.
    obtain ⟨result, D', wired'⟩ := invalidateBlock_spec
      ((wired.unhold i).modify bi (fun b => { b with pcP := addr }) rfl rfl) here invalidated
    have block {c : Nat} (live : s.live c = true) : now.block c = s.block c :=
      (result.others c (other live)).trans (modify_of_ne _ _ (other live))
    have pcP : (now.block bi).pcP = addr :=
      result.pcP.trans (congrArg Blockinfo.pcP (modify_self ..))
    obtain ⟨blocks, code, deps, recorded, rfl⟩ := result.kept
    set after : JitState := { s with
      holdBi := Function.update s.holdBi i none
      block := blocks, code, deps, recorded }
    have listed : Listed after M C := sound.listed.congr rfl rfl rfl
      fun c live => congrArg Blockinfo.pcP (block live)
    have cached : Cached env after C works := sound.cached.congr sound.listed rfl rfl
      (fun c live => congrArg Blockinfo.handlerToUse (block live))
      fun c live => congrArg Blockinfo.status (block live)
    have fresh (c : Nat) (live : s.live c = true) : (blocks c).pcP ≠ (blocks bi).pcP := fun same =>
      new c live ((congrArg Blockinfo.pcP (block live)).symm.trans (same.trans pcP))
    refine ⟨⟨_, _, listed.enter dead fresh,
      (sound.stocked.enter held).congr rfl rfl rfl rfl, cached.enter result.handlerToUse,
      known, D', wired'.enter here result.jmpOff result.recorded⟩, ?_⟩
    refine ⟨(enter_live _ bi bi).mpr (.inl rfl), pcP, rfl, ?_,
      fun c live => (enter_live _ bi c).mpr (.inr live)⟩
    rintro ⟨c, live, here⟩
    exact absurd here (new c live)

/-! ### `block_check_checksum` -/

/-- Some lists make the state sound, and nothing has come to life or died. -/
def Settled (env : Env) (works : Nat → Prop) (s s' : JitState) : Prop :=
  (∃ M C, Sound env works s' M C) ∧ Steady s s'

theorem Settled.trans {s'' : JitState} (first : Settled env works s s')
    (second : Settled env works s' s'') : Settled env works s s'' :=
  ⟨second.1, first.2.trans second.2⟩

theorem Sound.calledCheckChecksum {check : Nat → JitState → Option (Bool × JitState)}
    (checks : ∀ {tbi : Nat} {s s' : JitState} {isgood : Bool} {M C}, Sound env works s M C →
      s.live tbi = true → check tbi s = some (isgood, s') → Settled env works s s')
    {is : List (Fin 2)} {isgood : Bool} (sound : Sound env works s M C) (live : s.live bi = true)
    (called : Jit.calledCheckChecksum check bi is s = some (isgood, s')) :
    Settled env works s s' := by
  induction is generalizing s M C with
  | nil =>
    cases called
    exact ⟨⟨M, C, sound⟩, Steady.refl _⟩
  | cons i is ih =>
    unfold Jit.calledCheckChecksum at called
    split at called
    · exact ih sound live called
    next w jmpOff =>
      -- A dependency with a jump word has a live target.
      obtain ⟨known, D, wired⟩ := sound.wired
      obtain ⟨t, target, live_t⟩ := wired.target (d := (bi, i)) live jmpOff
      rw [target, Option.bind_some] at called
      obtain ⟨⟨good, now⟩, checked, called⟩ := Option.bind_eq_some_iff.mp called
      have first := checks sound live_t checked
      dsimp only at called
      split at called
      · obtain ⟨M', C', now_sound⟩ := first.1
        exact first.trans (ih now_sound (by rw [first.2.live]; exact live) called)
      · cases called
        exact first

theorem Sound.blockCheckChecksum {sums : Nat → BitVec 32 × BitVec 32} {depth : Nat} {isgood : Bool}
    (sound : Sound env works s M C) (live : s.live bi = true)
    (done : Jit.blockCheckChecksum env fuel sums depth bi s = some (isgood, s')) :
    Settled env works s s' := by
  induction depth generalizing works bi s s' M C isgood with
  | zero => cases done
  | succ depth ih =>
    unfold Jit.blockCheckChecksum at done
    split at done
    · cases done
      exact ⟨⟨M, C, sound⟩, Steady.refl _⟩
    next unchecked =>
      rw [Decidable.not_not] at unchecked
      dsimp only at done
      obtain ⟨⟨good, now⟩, checked, done⟩ := Option.bind_eq_some_iff.mp done
      -- Meanwhile the block is in the works.
      have worked : Settled env (fun b => works b ∨ b = bi) s now := by
        have working := sound.mono fun b (here : works b) => (.inl here : works b ∨ b = bi)
        split at checked
        · obtain ⟨set, redirected, called⟩ := Option.bind_eq_some_iff.mp checked
          have used := working.work bi (.inr rfl)
            (fun b => { b with handlerToUse := b.handler }) rfl rfl rfl fun _ invalid =>
              absurd (unchecked.symm.trans invalid) nofun
          obtain ⟨set_sound, steady⟩ :=
            used.setDhtu (show JitState.live _ bi = true from live) redirected
          have steady := (Steady.modify s bi (fun b => { b with handlerToUse := b.handler }) rfl).trans
            (steady.steady.trans (Steady.modify set bi (fun b => { b with status := .checking }) rfl))
          have rest := (set_sound.setStatus bi .checking nofun).calledCheckChecksum
            (fun sound live done => ih sound live done) (by rw [steady.live]; exact live) called
          exact ⟨rest.1, steady.trans rest.2⟩
        · cases checked
          exact ⟨⟨M, C, working⟩, Steady.refl _⟩
      obtain ⟨⟨M₁, C₁, now_sound⟩, steady⟩ := worked
      have live_now : now.live bi = true := by
        rw [steady.live]
        exact live
      dsimp only at done
      split at done
      · cases done
        obtain ⟨M₂, moved⟩ := now_sound.move live_now .active
        exact ⟨⟨_, _, (moved.raise live_now).setStatus bi _ nofun⟩, steady.trans ⟨rfl, rfl, fun b _ =>
          modify_keeps Blockinfo.pcP now bi (fun b => { b with status := .active }) b rfl⟩⟩
      · obtain ⟨gone, invalidated, same⟩ := Option.map_eq_some_iff.mp done
        cases same
        obtain ⟨gone_sound, steady'⟩ := now_sound.invalidateBlock live_now invalidated
        have live_gone : gone.live bi = true := by
          rw [steady'.live]
          exact live_now
        have working := gone_sound.mono fun b (here : (works b ∨ b = bi) ∨ b = bi) =>
          (here.elim id .inr : works b ∨ b = bi)
        exact ⟨⟨_, _, working.raise live_gone⟩, steady.trans (steady'.trans ⟨rfl, rfl, fun _ _ => rfl⟩)⟩

/-! ### Flushes -/

theorem flushActive_sound {rounds bi2 last : Nat} {r : Link MainList Nat} {rest : List Nat}
    (sound : Sound env works s M C) (chain : s.main.Chain r rest)
    (live : ∀ b ∈ rest, s.live b = true)
    (run : JitState.flushActive env fuel rounds (s.main.link r) bi2 s = some (last, s')) :
    Sound env works s' M C ∧ Steady s s' ∧ last = rest.getLast?.getD bi2 := by
  induction rest generalizing rounds r bi2 s with
  | nil =>
    rw [chain.link_eq] at run
    unfold JitState.flushActive at run
    cases run
    exact ⟨sound, Steady.refl _, rfl⟩
  | cons x rest ih =>
    rw [chain.1.1] at run
    cases rounds with
    | zero => cases run
    | succ rounds =>
      obtain ⟨now, flushed, run⟩ := Option.bind_eq_some_iff.mp run
      obtain ⟨now_sound, steady, main⟩ := sound.flushBlock (live x (.head _)) flushed
      obtain ⟨last_sound, rest_steady, eq⟩ := ih now_sound (by rw [main]; exact chain.2)
        (fun b member => by rw [steady.live]; exact live b (.tail _ member)) run
      refine ⟨last_sound, steady.trans rest_steady, eq.trans ?_⟩
      rw [List.getLast?_cons]
      rfl

/-- `flush_icache_lazy` -/
theorem Sound.flushIcacheLazy (sound : Sound env works s M C)
    (done : s.flushIcacheLazy env fuel = some s') : Settled env works s s' := by
  have chain := sound.listed.main.chain .active trivial
  unfold JitState.flushIcacheLazy at done
  split at done
  · cases done
    exact ⟨⟨M, C, sound⟩, Steady.refl _⟩
  next first found =>
    obtain ⟨⟨last, now⟩, run, same⟩ := Option.map_eq_some_iff.mp done
    cases same
    rw [← found] at run
    have live (b : Nat) (member : b ∈ M .active) : s.live b = true :=
      (sound.listed.live_main b).mpr ⟨.active, member⟩
    obtain ⟨now_sound, steady, eq⟩ := flushActive_sound sound chain live run
    -- The list is not empty, and the loop ends with its last block.
    have active : M .active = (M .active).dropLast ++ [last] := by
      have some_block : M .active ≠ [] := by
        intro empty
        rw [chain.link_eq, empty] at found
        cases found
      rw [eq, List.getLast?_eq_some_getLast some_block, Option.getD_some]
      exact (List.dropLast_append_getLast some_block).symm
    obtain ⟨known, D, wired⟩ := now_sound.wired
    exact ⟨⟨_, C, now_sound.listed.splice active, now_sound.stocked.congr rfl rfl rfl rfl,
      now_sound.cached.congr now_sound.listed rfl rfl (fun _ _ => rfl) fun _ _ => rfl, known, D,
      wired.congr rfl rfl rfl rfl rfl rfl rfl rfl (fun _ => rfl) fun _ => rfl⟩,
      steady.trans ⟨rfl, rfl, fun _ _ => rfl⟩⟩

/-- There is no block, and dispatch starts anew. -/
structure Blank (env : Env) (s : JitState) : Prop where
  dead : ∀ b, s.live b = false
  held : ∀ i, s.holdBi i = none
  chunks_nodup : s.mChunks.Nodup
  chunks_below : ∀ c ∈ s.mChunks, c < s.chunkCount
  handler : ∀ cl, s.handler cl = env.popallExecuteNormal
  tags : ∀ cl, s.tags.link (.head cl) = none
  main : ∀ list, s.main.link (.head list) = none
  current : s.current = none

theorem Blank.sound (blank : Blank env s) : Sound env works s (fun _ => []) fun _ => [] := by
  have unborn {b : Nat} (live : s.live b = true) : False := by
    simp [blank.dead b] at live
  have unallocated {b : Nat} (allocated : s.Allocated b) : False := by
    rcases allocated with live | ⟨i, held⟩
    · exact unborn live
    · simp [blank.held i] at held
  refine ⟨⟨⟨fun list _ => blank.main list, fun _ => List.nodup_nil, nofun, nofun⟩,
    ⟨fun cl _ => blank.tags cl, fun _ => List.nodup_nil, nofun, nofun⟩, fun b => ?_,
    fun b cl => ?_, fun live => (unborn live).elim⟩, ?_,
    ⟨fun cl _ => blank.handler cl, fun b live => (unborn live).elim⟩, _, _,
    Wired.none blank.dead blank.held blank.current⟩
  · exact ⟨fun live => (unborn live).elim, nofun⟩
  · exact ⟨nofun, fun both => (unborn both.1).elim⟩
  · refine ⟨fun {i b} held => ?_, fun {i j b} held => ?_, blank.chunks_nodup, fun c there =>
      ⟨fun allocated => unallocated allocated, blank.chunks_below c there⟩,
      fun b allocated => (unallocated allocated).elim⟩
    · simp [blank.held i] at held
    · simp [blank.held i] at held

theorem Sound.flushIcacheHard (sound : Sound env works s M C)
    (done : s.flushIcacheHard env fuel = some s') : Blank env { s' with current := none } := by
  have flushed := flushIcacheHard_flushed sound.listed sound.stocked sound.cached done
  have held (i : Fin 3) : s'.holdBi i = none := by
    obtain ⟨_, _, _, _, _, rfl⟩ := flushed.rest
    rfl
  exact ⟨flushed.dead, held, flushed.chunks_nodup, flushed.chunks_below, flushed.handler,
    flushed.tags, flushed.main, rfl⟩

theorem flushIcacheHard_current (sound : Sound env works s M C)
    (done : s.flushIcacheHard env fuel = some s') : s'.current = s.current := by
  obtain ⟨_, _, _, _, _, rfl⟩ :=
    (flushIcacheHard_flushed sound.listed sound.stocked sound.cached done).rest
  rfl

/-! ### `compile_block` -/

/-- What `acquire` hands out is neither live nor held, and no longer free. -/
theorem Stocked.acquire (stocked : Stocked s) {now : JitState}
    (acquired : s.acquire env = (bi, now)) :
    (∃ mChunks chunkCount, now = { s with mChunks, chunkCount }) ∧ Stocked now ∧
      ¬ s.Allocated bi ∧ bi ∉ now.mChunks ∧ bi < now.chunkCount := by
  unfold JitState.acquire at acquired
  split at acquired
  next chunk mChunks chunks =>
    cases acquired
    have free := stocked.chunk_free
    have nodup := stocked.chunks_nodup
    rw [chunks] at free nodup
    obtain ⟨unallocated, below⟩ := free bi (.head _)
    obtain ⟨out, rest⟩ := List.nodup_cons.mp nodup
    exact ⟨⟨_, _, rfl⟩, ⟨stocked.held_free, stocked.held_unique, rest,
      fun c there => free c (.tail _ there), stocked.below⟩, unallocated, out, below⟩
  next =>
    cases acquired
    -- All chunks of the new page are behind those there were.
    have fresh {c : Nat} (there : c ∈ (List.range' s.chunkCount env.chunksPerPage).reverse) :
        s.chunkCount ≤ c ∧ c < s.chunkCount + env.chunksPerPage := by
      rw [List.mem_reverse, List.mem_range'_1] at there
      exact there
    have unallocated {c : Nat} (behind : s.chunkCount ≤ c) : ¬ s.Allocated c := fun allocated =>
      absurd (stocked.below c allocated) (Nat.not_lt.mpr behind)
    refine ⟨⟨_, _, rfl⟩, ⟨stocked.held_free, stocked.held_unique, ?_, fun c there => ?_,
      fun b allocated => ?_⟩, unallocated (Nat.le_add_right ..), fun there => ?_, ?_⟩
    · exact List.nodup_reverse.mpr List.nodup_range'
    · obtain ⟨behind, below⟩ := fresh there
      exact ⟨unallocated behind, Nat.lt_succ_of_lt below⟩
    · have below := stocked.below b allocated
      change b < s.chunkCount + env.chunksPerPage + 1
      omega
    · exact Nat.lt_irrefl _ (fresh there).2
    · exact Nat.lt_succ_self _

theorem Stocked.hold (stocked : Stocked s) (i : Fin 3) (unallocated : ¬ s.Allocated bi)
    (used : bi ∉ s.mChunks) (below : bi < s.chunkCount) :
    Stocked { s with holdBi := Function.update s.holdBi i (some bi) } := by
  have held {j : Fin 3} {b : Nat} (now : Function.update s.holdBi i (some bi) j = some b) :
      (j = i ∧ b = bi) ∨ (s.holdBi j = some b ∧ b ≠ bi) := by
    rw [Function.update_apply] at now
    split at now
    next here =>
      cases now
      exact .inl ⟨here, rfl⟩
    next =>
      refine .inr ⟨now, ?_⟩
      rintro rfl
      exact unallocated (.inr ⟨j, now⟩)
  have was {b : Nat} (now : JitState.Allocated
      { s with holdBi := Function.update s.holdBi i (some bi) } b) : b = bi ∨ s.Allocated b := by
    rcases now with live | ⟨j, now⟩
    · exact .inr (.inl live)
    · rcases held now with ⟨-, rfl⟩ | ⟨before, -⟩
      · exact .inl rfl
      · exact .inr (.inr ⟨j, before⟩)
  refine ⟨fun {j b} now => ?_, fun {j k b} now now' => ?_, stocked.chunks_nodup,
    fun c there => ?_, fun b now => ?_⟩
  · rcases held now with ⟨-, rfl⟩ | ⟨before, -⟩
    · exact Bool.eq_false_iff.mpr fun live => unallocated (.inl live)
    · exact stocked.held_free before
  · rcases held now with ⟨rfl, rfl⟩ | ⟨before, other⟩
    · rcases held now' with ⟨rfl, -⟩ | ⟨-, other⟩
      · rfl
      · exact absurd rfl other
    · rcases held now' with ⟨-, rfl⟩ | ⟨before', -⟩
      · exact absurd rfl other
      · exact stocked.held_unique before before'
  · obtain ⟨free, below⟩ := stocked.chunk_free c there
    refine ⟨fun now => ?_, below⟩
    rcases was now with rfl | before
    · exact used there
    · exact free before
  · rcases was now with rfl | before
    · exact below
    · exact stocked.below b before

theorem Sound.acquire (sound : Sound env works s M C) (idle : s.current = none) {now : JitState}
    (acquired : s.acquire env = (bi, now)) (i : Fin 3) :
    Sound env works ({ now with holdBi := Function.update now.holdBi i (some bi) }.prepareBlock env bi)
      M C ∧ now.current = none := by
  obtain ⟨⟨mChunks, chunkCount, rfl⟩, stocked, free, used, below⟩ := sound.stocked.acquire acquired
  have dead : s.live bi = false := Bool.eq_false_iff.mpr fun live => free (.inl live)
  obtain ⟨known, D, wired⟩ := sound.wired
  have other {b : Nat} (live : s.live b = true) : b ≠ bi := by
    rintro rfl
    exact free (.inl live)
  set held : JitState := { s with
    mChunks, chunkCount
    holdBi := Function.update s.holdBi i (some bi) }
  have block {b : Nat} (live : s.live b = true) : (held.prepareBlock env bi).block b = s.block b := by
    simp only [JitState.prepareBlock, JitState.modify, JitState.emit,
      Function.update_of_ne (other live)]
    rfl
  refine ⟨⟨sound.listed.congr rfl rfl rfl fun b live => congrArg Blockinfo.pcP (block live),
    (stocked.hold i free used below).congr rfl rfl rfl rfl, ?_, fun b => known b ∨ b = bi, D, ?_⟩,
    idle⟩
  · exact sound.cached.congr sound.listed rfl rfl
      (fun b live => congrArg Blockinfo.handlerToUse (block live))
      fun b live => congrArg Blockinfo.status (block live)
  · have moved : Wired { s with mChunks, chunkCount } known D :=
      wired.congr rfl rfl rfl rfl rfl rfl rfl rfl (fun _ => rfl) fun _ => rfl
    exact moved.prepareBlock idle dead

theorem Sound.allocBlockinfos (sound : Sound env works s M C) (is : List (Fin 3))
    (idle : s.current = none) :
    Sound env works (s.allocBlockinfos env is) M C ∧ (s.allocBlockinfos env is).current = none := by
  induction is generalizing s with
  | nil => exact ⟨sound, idle⟩
  | cons i is ih =>
    unfold JitState.allocBlockinfos
    split
    · exact ⟨sound, idle⟩
    · obtain ⟨prepared, still⟩ := sound.acquire idle (rfl : s.acquire env = (_, _)) i
      exact ih prepared still

end

end BasiliskII.Jit
