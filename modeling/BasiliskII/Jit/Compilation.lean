import BasiliskII.Jit.BlockSteps

/-!
# What `compile_block` keeps

A compilation takes the block off the lists of its old targets, emits code behind all other code,
and puts each jump word of it on the list of the jump's target.
-/
namespace BasiliskII.Jit

open BackLinks

section

variable {env : Env} {works : Nat → Prop} {s s' : JitState} {M : MainList → List Nat}
  {C : BitVec 16 → List Nat} {bi : Nat} {fuel : Nat}

theorem Sound.emit (sound : Sound env works s M C) (bytes : List (BitVec 8)) :
    Sound env works (s.emit bytes) M C := by
  obtain ⟨known, D, wired⟩ := sound.wired
  exact ⟨sound.listed.congr rfl rfl rfl fun _ _ => rfl, sound.stocked.congr rfl rfl rfl rfl,
    sound.cached.congr sound.listed rfl rfl (fun _ _ => rfl) fun _ _ => rfl, known, D,
    wired.emit bytes⟩

theorem Sound.emitLong (sound : Sound env works s M C) (v : BitVec 32) :
    Sound env works (s.emitLong v) M C := by
  obtain ⟨known, D, wired⟩ := sound.wired
  exact ⟨sound.listed.congr rfl rfl rfl fun _ _ => rfl, sound.stocked.congr rfl rfl rfl rfl,
    sound.cached.congr sound.listed rfl rfl (fun _ _ => rfl) fun _ _ => rfl, known, D,
    wired.emitLong v⟩

/-! ### The start -/

/-- `remove_deps` of a block that is about to be compiled -/
theorem Sound.removeDeps (sound : Sound env works s M C) (live : s.live bi = true) :
    Sound env works { s.removeDeps bi with recorded := Function.update s.recorded bi [] } M C ∧
      ∀ i, (s.removeDeps bi).deps.prev (bi, i) = none := by
  obtain ⟨known, D, wired⟩ := sound.wired
  have here := wired.allocated bi (.inl live)
  obtain ⟨D', removed, free⟩ := wired.removeDeps here
  exact ⟨⟨sound.listed.congr rfl rfl rfl fun _ _ => rfl, sound.stocked.congr rfl rfl rfl rfl,
    sound.cached.congr sound.listed rfl rfl (fun _ _ => rfl) fun _ _ => rfl, known, D', removed⟩,
    fun i => (removed.idle (d := (bi, i)) here fun t => free i t).1⟩

/-- The compilation goes on, begins or ends, and the jumps are in front of where it is. -/
theorem Sound.goOn (sound : Sound env works s M C) {place : Nat} {current : Option (Nat × Nat)}
    (behind : ∀ w, w + 4 ≤ s.target → (s.current = none → w + 4 ≤ s.currentCompileP) →
      current = none → w + 4 ≤ place)
    (unmade : ∀ known D, Wired s known D → ∀ {b made}, current = some (b, made) →
      s.live b = true ∧ ∀ i : Fin 2, made ≤ i.val → ∀ t, (b, i) ∉ D t) :
    Sound env works { s with currentCompileP := place, current } M C := by
  obtain ⟨known, D, wired⟩ := sound.wired
  refine ⟨sound.listed.congr rfl rfl rfl fun _ _ => rfl, sound.stocked.congr rfl rfl rfl rfl,
    sound.cached.congr sound.listed rfl rfl (fun _ _ => rfl) fun _ _ => rfl, known, D,
    wired.allocated, wired.deps, wired.ends, wired.idle, wired.target, fun member => ?_,
    wired.apart, wired.recorded, unmade known D wired⟩
  obtain ⟨w, jmpOff, word, before, compiled⟩ := wired.word member
  exact ⟨w, jmpOff, word, before, behind w before compiled⟩

/-- A compilation begins for a block without dependencies. -/
theorem Sound.begin (sound : Sound env works s M C) (live : s.live bi = true)
    (free : ∀ i, s.deps.prev (bi, i) = none) :
    Sound env works { s with current := some (bi, 0) } M C := by
  refine sound.goOn (fun _ _ _ => nofun) fun known D wired b made begun => ?_
  cases begun
  refine ⟨live, fun i _ t member => ?_⟩
  -- What is on a list is linked to what is before it.
  obtain ⟨r, ⟨-, prev⟩, -⟩ := wired.deps.tied member
  exact absurd (prev.symm.trans (free i)) nofun

/-- The space for code is used up to the end, or starts anew. -/
theorem Sound.makeRoom (sound : Sound env works s M C) (idle : s.current = none)
    (done : (if env.maxCompileStart ≤ s.currentCompileP then s.flushIcacheHard env fuel else some s) =
      some s') : (∃ M C, Sound env works s' M C) ∧ s'.current = none := by
  split at done
  · have none := (flushIcacheHard_current sound done).trans idle
    have blank := sound.flushIcacheHard done
    rw [← none] at blank
    exact ⟨⟨_, _, blank.sound⟩, none⟩
  · cases done
    exact ⟨⟨M, C, sound⟩, idle⟩

/-- From `remove_deps` up to the code of the block -/
theorem Sound.renew (sound : Sound env works s M C) (live : s.live bi = true) {pc : PcP}
    (pcP : (s.block bi).pcP = pc) {optlevel : Nat} {bytes : List (BitVec 8)} {directHandler dh : Nat}
    {now : JitState}
    (set : ((({ s.removeDeps bi with recorded := Function.update s.recorded bi [] }.modify bi
      fun b => { b with optlevel, pcP := pc }).emit bytes).modify bi
        fun b => { b with directHandler }).setDhtu fuel bi dh = some now) :
    Sound env works
      { now.modify bi fun b => { b with status := .compiling } with current := some (bi, 0) } M C := by
  obtain ⟨removed, free⟩ := sound.removeDeps live
  have levelled := removed.modify bi (fun b => { b with optlevel, pcP := pc }) pcP.symm rfl rfl rfl rfl
  have emitted := (levelled.emit bytes).modify bi (fun b => { b with directHandler }) rfl rfl rfl rfl rfl
  obtain ⟨set_sound, redirected⟩ := emitted.setDhtu (show JitState.live _ bi = true from live) set
  refine (set_sound.setStatus bi .compiling nofun).begin ?_ fun i => ?_
  · exact (congrFun redirected.steady.live bi).trans live
  · exact (congrArg (fun deps => deps.prev (bi, i)) redirected.deps).trans (free i)

theorem Sound.compileStart (sound : Sound env works s M C) (idle : s.current = none) {pc : PcP}
    (done : s.compileStart env fuel pc = some s') : ∃ M C, Sound env works s' M C := by
  obtain ⟨room, flushed, done⟩ := Option.bind_eq_some_iff.mp done
  obtain ⟨⟨M₁, C₁, room_sound⟩, room_idle⟩ := sound.makeRoom idle flushed
  obtain ⟨alloc_sound, -⟩ := room_sound.allocBlockinfos (List.finRange 3) room_idle
  obtain ⟨⟨bi, here⟩, found, done⟩ := Option.bind_eq_some_iff.mp done
  obtain ⟨⟨M₂, C₂, here_sound⟩, new⟩ := alloc_sound.getBlockinfoAddrNew found
  dsimp only at done
  split at done
  · cases done
  · obtain ⟨now, set, rfl⟩ := Option.map_eq_some_iff.mp done
    refine ⟨M₂, C₂, Sound.renew (here_sound.modify bi _ rfl rfl rfl rfl rfl) new.live ?_ set⟩
    exact (modify_keeps Blockinfo.pcP here bi _ bi rfl).trans new.pcP

/-! ### The jumps -/

theorem Sound.jump (sound : Sound env works s M C) {made tbi : Nat} (few : made < 2)
    (current : s.current = some (bi, made)) (live : s.live tbi = true) (tail : List (BitVec 8)) :
    let s' := (s.emitLong (displacement s.target (s.block tbi).directHandlerToUse)).emit tail
    Sound env works { s'.linkJump bi ⟨made, few⟩ s.target tbi with current := some (bi, made + 1) }
      M C := by
  intro s'
  obtain ⟨known, D, wired⟩ := sound.wired
  have emitted : Wired s' known D := (wired.emitLong _).emit tail
  have inside : s.target + 4 ≤ s'.target := Nat.le_add_right ..
  have word : loadLong s'.code s.target =
      displacement s.target (s'.block tbi).directHandlerToUse :=
    (emit_loadLong _ tail (Nat.le_refl _)).trans (loadLong_storeLong ..)
  obtain ⟨D', linked⟩ := emitted.linkJump few current live word (fun {d t w} member jmpOff => by
    obtain ⟨w', jmpOff', -, before, -⟩ := wired.word member
    cases jmpOff.symm.trans jmpOff'
    exact before) inside
  have keeps {α : Type} (field : Blockinfo → α) (b : Nat)
      (ignores : ∀ x dep, field { x with dep } = field x) :
      field ((s'.linkJump bi ⟨made, few⟩ s.target tbi).block b) = field (s.block b) :=
    modify_keeps field s' bi (fun b =>
      { b with dep := Function.update b.dep ⟨made, few⟩ ⟨some s.target, some tbi, some bi⟩ }) b
      (ignores ..)
  exact ⟨sound.listed.congr rfl rfl rfl fun b _ => keeps Blockinfo.pcP b fun _ _ => rfl,
    sound.stocked.congr rfl rfl rfl rfl,
    sound.cached.congr sound.listed rfl rfl
      (fun b _ => keeps Blockinfo.handlerToUse b fun _ _ => rfl)
      fun b _ => keeps Blockinfo.status b fun _ _ => rfl, known, D', linked⟩

theorem Sound.compileJump (sound : Sound env works s M C) {target : PcP} {lead tail : List (BitVec 8)}
    {sums : Nat → BitVec 32 × BitVec 32}
    (done : s.compileJump env fuel sums target lead tail = some s') :
    ∃ M C, Sound env works s' M C := by
  unfold JitState.compileJump at done
  split at done
  · cases done
  next bi made current =>
    split at done
    next few =>
      obtain ⟨⟨t₁, found⟩, first, done⟩ := Option.bind_eq_some_iff.mp done
      obtain ⟨⟨M₁, C₁, found_sound⟩, new⟩ := sound.getBlockinfoAddrNew first
      obtain ⟨⟨good, checked⟩, check, done⟩ := Option.bind_eq_some_iff.mp done
      obtain ⟨⟨M₂, C₂, checked_sound⟩, steady⟩ := found_sound.blockCheckChecksum new.live check
      have emitted := checked_sound.emit lead
      -- The target is found again, now and when the jump is recorded.
      have there : ∃ b, (checked.emit lead).live b = true ∧ ((checked.emit lead).block b).pcP = target :=
        ⟨t₁, (congrFun steady.live t₁).trans new.live, (steady.pcP t₁ new.live).trans new.pcP⟩
      obtain ⟨⟨tbi, again⟩, second, done⟩ := Option.bind_eq_some_iff.mp done
      obtain ⟨-, same⟩ := emitted.getBlockinfoAddrNew second
      have eq := same.old there
      subst eq
      obtain ⟨last, created, rfl⟩ := Option.map_eq_some_iff.mp done
      obtain ⟨found, searched, created⟩ := Option.bind_eq_some_iff.mp created
      obtain ⟨tbi', rfl, rfl⟩ := Option.map_eq_some_iff.mp created
      have behind := (emitted.emitLong (displacement (checked.emit lead).target
        ((checked.emit lead).block tbi).directHandlerToUse)).emit tail
      obtain ⟨live', pcP'⟩ := (getBlockinfoAddr_found behind.listed searched).1 tbi' rfl
      have same_block : tbi' = tbi :=
        emitted.listed.pcP live' same.live (pcP'.trans same.pcP.symm)
      rw [same_block]
      refine ⟨M₂, C₂, emitted.jump few ?_ same.live tail⟩
      exact (steady.current.trans new.current).trans current
    next => cases done

/-! ### The end -/

theorem Sound.compiled (sound : Sound env works s M C) :
    Sound env works { s with currentCompileP := s.target } M C :=
  sound.goOn (fun _ before _ _ => before) fun _ _ wired => wired.current

theorem Sound.finish (sound : Sound env works s M C) (compiled : s.currentCompileP = s.target) :
    Sound env works { s with current := none } M C :=
  sound.goOn (fun _ before _ _ => before.trans_eq compiled.symm) fun _ _ _ => nofun

theorem Sound.finalize (sound : Sound env works s M C) (live : s.live bi = true)
    (align entry : List (BitVec 8)) (target : Nat) :
    let aligned := (s.emit align).modify bi fun b =>
      { b with handler := target, handlerToUse := target }
    let entered := (aligned.modify bi fun b => { b with status := .finalizing }).emit entry
    ∃ C', Sound env works ({ entered with currentCompileP := entered.target }.raiseInClList env bi)
      M C' := by
  intro aligned entered
  have working := (sound.mono fun b (here : works b) => (.inl here : works b ∨ b = bi)).emit align
  have handled := working.work bi (.inr rfl) (fun b =>
    { b with handler := target, handlerToUse := target, status := .finalizing }) rfl rfl rfl
    fun _ => nofun
  rw [← modify_modify (s.emit align) bi (fun b =>
    { b with handler := target, handlerToUse := target }) fun b => { b with status := .finalizing }]
    at handled
  exact ⟨_, (handled.emit entry).compiled.raise live⟩

/-- A block goes back to one of the lists, with its checksums if it may change. -/
def JitState.place (s : JitState) (sums : Nat → BitVec 32 × BitVec 32) (inRom : Bool) (bi : Nat) :
    JitState :=
  let s := s.removeFromList bi
  if inRom then s.addToDormant bi
  else
    let (c1, c2) := sums bi
    (s.modify bi fun b => { b with c1, c2 }).addToActive bi

theorem Sound.place (sound : Sound env works s M C) (live : s.live bi = true) (inRom : Bool)
    (sums : Nat → BitVec 32 × BitVec 32) :
    (∃ M', Sound env works (s.place sums inRom bi) M' C) ∧ (s.place sums inRom bi).live bi = true := by
  unfold JitState.place
  dsimp only
  split
  · exact ⟨sound.move live .dormant, live⟩
  · obtain ⟨M', active⟩ := sound.move live .active
    exact ⟨⟨M', active.modify bi (fun b => { b with c1 := (sums bi).1, c2 := (sums bi).2 })
      rfl rfl rfl rfl rfl⟩, live⟩

theorem Blank.blockNeedRecompile (blank : Blank env s)
    (done : s.blockNeedRecompile env fuel bi = some s') : Blank env s' := by
  obtain ⟨now, set, rfl⟩ := Option.map_eq_some_iff.mp done
  have kept : Blank env now := by
    unfold JitState.setDhtu at set
    split at set
    · obtain ⟨looped_to, looped, rfl⟩ := Option.map_eq_some_iff.mp set
      have body (dh : Nat) (x : DepId) (s : JitState) (before : Blank env s) :
          Blank env (adjustBody dh x s).1 := by
        unfold adjustBody
        dsimp only
        split
        · exact ⟨before.dead, before.held, before.chunks_nodup, before.chunks_below,
            before.handler, before.tags, before.main, before.current⟩
        · exact before
      have after := whileNode_keeps (Blank env) (body _) blank looped
      exact ⟨after.dead, after.held, after.chunks_nodup, after.chunks_below, after.handler,
        after.tags, after.main, after.current⟩
    · cases set
      exact blank
  have other (f : Blockinfo → Blockinfo) :
      (now.modify bi f).getBlockinfo (s.line bi) ≠ some bi := by
    intro first
    exact absurd ((kept.tags _).symm.trans first) nofun
  dsimp only
  rw [if_neg (other _)]
  exact ⟨kept.dead, kept.held, kept.chunks_nodup, kept.chunks_below, kept.handler, kept.tags,
    kept.main, kept.current⟩

theorem Sound.close (sound : Sound env works s M C) (compiled : s.currentCompileP = s.target)
    (live : s.live bi = true) {redo : Bool}
    (done : (if env.maxCompileStart ≤ s.currentCompileP then s.flushIcacheHard env fuel else some s).bind
      (fun s =>
        let s := { s.modify bi fun b => { b with status := .active } with current := none }
        if redo then s.blockNeedRecompile env fuel bi else some s) = some s') :
    ∃ M C, Sound env works s' M C := by
  obtain ⟨last, flushed, done⟩ := Option.bind_eq_some_iff.mp done
  dsimp only at done
  split at flushed
  · -- With the last block gone there is no jump either.
    have flushed := sound.flushIcacheHard flushed
    have blank : Blank env { last.modify bi fun b => { b with status := .active } with
        current := none } :=
      ⟨flushed.dead, flushed.held, flushed.chunks_nodup, flushed.chunks_below, flushed.handler,
        flushed.tags, flushed.main, rfl⟩
    split at done
    · exact ⟨_, _, (blank.blockNeedRecompile done).sound⟩
    · cases done
      exact ⟨_, _, blank.sound⟩
  · cases flushed
    have finished := (sound.setStatus bi .active nofun).finish compiled
    split at done
    · exact ⟨_, _, finished.blockNeedRecompile live done⟩
    · cases done
      exact ⟨_, _, finished⟩

theorem Sound.compileEnd (sound : Sound env works s M C) {inRom redo : Bool}
    {entry : List (BitVec 8)} {sums : Nat → BitVec 32 × BitVec 32}
    (done : s.compileEnd env fuel sums inRom redo entry = some s') : ∃ M C, Sound env works s' M C := by
  unfold JitState.compileEnd at done
  split at done
  · cases done
  next bi made current =>
    obtain ⟨known, D, wired⟩ := sound.wired
    obtain ⟨⟨M₀, placed⟩, live⟩ := sound.place (wired.current current).1 inRom sums
    obtain ⟨C', final⟩ := placed.finalize live (env.alignment (s.place sums inRom bi).target) entry
      ((s.place sums inRom bi).emit (env.alignment (s.place sums inRom bi).target)).target
    exact final.close rfl live done

end

end BasiliskII.Jit
