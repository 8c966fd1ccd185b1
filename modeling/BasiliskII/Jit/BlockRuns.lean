import BasiliskII.Jit.Compilation

/-!
# Runs of the block management

Any sequence of steps, from the state `build_comp` leaves. What holds in each state of a run is
stated with the lists that are walked from their heads.
-/
namespace BasiliskII.Jit

open BackLinks StepSystem

/-- What `build_comp` leaves: no block, and dispatch that finds none. -/
def JitState.buildComp (env : Env) (s : JitState) : JitState :=
  { s.resetLists with
    handler := fun _ => env.popallExecuteNormal
    tags :=
      { s.tags with
        link := fun r =>
          match r with
          | .head _ => none
          | .next bi => s.tags.link (.next bi) }
    mChunks := []
    chunkCount := 0
    currentCompileP := env.compiledCode
    live := fun _ => false
    recorded := fun _ => []
    current := none }

/-- A step is an event, with a bound for its loops. -/
def JitState.step (env : Env) (s : JitState) (l : Nat × Event) : Option JitState :=
  s.perform env l.1 l.2

abbrev JitState.Guard (s : JitState) (l : Nat × Event) : Prop := s.Allows l.2

/-- `invalidate_block` leaves the handler of the cache line to its callers. -/
def Event.byItself : Event → Bool
  | .invalidateBlock _ => false
  | _ => true

abbrev JitState.GuardByItself (s : JitState) (l : Nat × Event) : Prop :=
  s.Allows l.2 ∧ l.2.byItself = true

section

variable {env : Env} {works : Nat → Prop} {s s' : JitState} {M : MainList → List Nat}
  {C : BitVec 16 → List Nat} {bi : Nat} {fuel : Nat}

theorem buildComp_blank (env : Env) (s : JitState) : Blank env (s.buildComp env) := by
  refine ⟨fun _ => rfl, fun _ => rfl, List.nodup_nil, nofun, fun _ => rfl, fun _ => rfl, fun list => ?_,
    rfl⟩
  cases list <;> rfl

/-! ### One step -/

theorem Sound.raise_found (sound : Sound env works s M C) (live : s.live bi = true) :
    ∃ M C, Sound env works (s.raiseInClList env bi) M C :=
  ⟨_, _, (sound.mono fun _ here => .inl here).raise live⟩

theorem Sound.checkForCacheMiss (sound : Sound env works s M C) {pc : PcP}
    (done : s.checkForCacheMiss env fuel pc = some s') : ∃ M C, Sound env works s' M C := by
  obtain ⟨found, searched, rfl⟩ := Option.map_eq_some_iff.mp done
  have known_block := (getBlockinfoAddr_found sound.listed searched).1
  cases found with
  | none => exact ⟨M, C, sound⟩
  | some bi =>
    dsimp only
    split
    · exact sound.raise_found (known_block bi rfl).1
    · exact ⟨M, C, sound⟩

theorem Sound.recompileBlock (sound : Sound env works s M C) {pc : PcP}
    (done : s.recompileBlock env fuel pc = some s') : ∃ M C, Sound env works s' M C := by
  obtain ⟨found, searched, done⟩ := Option.bind_eq_some_iff.mp done
  obtain ⟨bi, rfl, rfl⟩ := Option.map_eq_some_iff.mp done
  exact sound.raise_found ((getBlockinfoAddr_found sound.listed searched).1 bi rfl).1

theorem Sound.cacheMiss (sound : Sound env works s M C) {pc : PcP}
    (done : s.cacheMiss env fuel pc = some s') : ∃ M C, Sound env works s' M C := by
  obtain ⟨found, searched, done⟩ := Option.bind_eq_some_iff.mp done
  have known_block := (getBlockinfoAddr_found sound.listed searched).1
  cases found with
  | none =>
    cases done
    exact ⟨M, C, sound⟩
  | some bi =>
    dsimp only at done
    split at done
    · cases done
    · split at done
      · cases done
      · cases done
        exact sound.raise_found (known_block bi rfl).1

theorem Sound.checkChecksum (sound : Sound env works s M C) {pc : PcP}
    {sums : Nat → BitVec 32 × BitVec 32} (done : s.checkChecksum env fuel sums pc = some s') :
    ∃ M C, Sound env works s' M C := by
  obtain ⟨found, searched, done⟩ := Option.bind_eq_some_iff.mp done
  have known_block := (getBlockinfoAddr_found sound.listed searched).1
  cases found with
  | none =>
    cases done
    exact ⟨M, C, sound⟩
  | some bi =>
    dsimp only at done
    split at done
    · exact sound.cacheMiss done
    · obtain ⟨⟨isgood, now⟩, checked, rfl⟩ := Option.map_eq_some_iff.mp done
      exact (sound.blockCheckChecksum (known_block bi rfl).1 checked).1

/-- Whatever is done, the state stays in order, but for the cache line's handler of a block that is
invalidated by itself. -/
theorem Sound.perform (sound : Sound env works s M C) {e : Event} (allowed : s.Allows e)
    (done : s.perform env fuel e = some s') :
    ∃ M C, Sound env (fun b => works b ∨ e = .invalidateBlock b) s' M C := by
  -- All other steps keep what holds.
  have kept : (∃ b, e = .invalidateBlock b) ∨ ∃ M C, Sound env works s' M C := by
    cases e with
    | getBlockinfoAddrNew addr =>
      obtain ⟨⟨bi, now⟩, found, rfl⟩ := Option.map_eq_some_iff.mp done
      exact .inr (sound.getBlockinfoAddrNew found).1
    | setDhtu bi dh => exact .inr ⟨M, C, (sound.setDhtu allowed done).1⟩
    | invalidateBlock bi => exact .inl ⟨bi, rfl⟩
    | blockNeedRecompile bi => exact .inr ⟨M, C, sound.blockNeedRecompile allowed done⟩
    | raiseInClList bi =>
      cases done
      exact .inr (sound.raise_found allowed)
    | blockCheckChecksum bi sums =>
      obtain ⟨⟨isgood, now⟩, checked, rfl⟩ := Option.map_eq_some_iff.mp done
      exact .inr (sound.blockCheckChecksum allowed checked).1
    | moveTo list bi =>
      cases done
      obtain ⟨M', moved⟩ := sound.move allowed list
      exact .inr ⟨M', C, moved⟩
    | checkForCacheMiss pc => exact .inr (sound.checkForCacheMiss done)
    | recompileBlock pc => exact .inr (sound.recompileBlock done)
    | cacheMiss pc => exact .inr (sound.cacheMiss done)
    | checkChecksum pc sums => exact .inr (sound.checkChecksum done)
    | flushIcacheLazy => exact .inr (sound.flushIcacheLazy done).1
    | flushIcacheHard =>
      have idle := (flushIcacheHard_current sound done).trans allowed
      have blank := sound.flushIcacheHard done
      rw [← idle] at blank
      exact .inr ⟨_, _, blank.sound⟩
    | countDown bi =>
      cases done
      exact .inr ⟨M, C, sound.modify bi _ rfl rfl rfl rfl rfl⟩
    | compileStart pc => exact .inr (sound.compileStart allowed done)
    | emit bytes =>
      cases done
      exact .inr ⟨M, C, sound.emit bytes⟩
    | compileJump target lead tail sums => exact .inr (sound.compileJump done)
    | compileEnd inRom redo entry sums => exact .inr (sound.compileEnd done)
  rcases kept with ⟨bi, rfl⟩ | ⟨M', C', kept⟩
  · obtain ⟨invalidated, -⟩ := sound.invalidateBlock allowed done
    refine ⟨M, C, invalidated.mono fun b here => here.imp_right ?_⟩
    rintro rfl
    rfl
  · exact ⟨M', C', kept.mono fun _ here => .inl here⟩

/-! ### Lists and jumps -/

/-- The blocks of the main lists and of the cache lines, and the dependencies on each block. -/
structure JitState.ConsistentWith (s : JitState) (M : MainList → List Nat)
    (C : BitVec 16 → List Nat)
    (D : Nat → List DepId) : Prop where
  main : s.main.Holds (fun _ => True) M
  tags : s.tags.Holds (fun _ => True) C
  deps : s.deps.Holds (fun b => s.live b = true) D
  on_main : ∀ b, s.live b = true → ∃! list, b ∈ M list
  on_line : ∀ b, s.live b = true → ∀ cl, b ∈ C cl ↔ cl = s.line b
  pcP : ∀ b b', s.live b = true → s.live b' = true → (s.block b).pcP = (s.block b').pcP → b = b'
  jump : ∀ b j, s.live b = true → j ∈ s.recorded b → s.live j.target = true ∧
    (∀ d, (d ∈ D j.target ∧ (s.dep d).jmpOff = some j.jmpaddr) ↔ d = (b, j.i)) ∧
    loadLong s.code j.jmpaddr = displacement j.jmpaddr (s.block j.target).directHandlerToUse

def JitState.Consistent (s : JitState) : Prop := ∃ M C D, s.ConsistentWith M C D

theorem Sound.consistent (sound : Sound env works s M C) : s.Consistent := by
  obtain ⟨known, D, wired⟩ := sound.wired
  have listed := sound.listed
  refine ⟨M, C, D, listed.main, listed.tags, ?_, fun b live => ?_, fun b live cl => ?_,
    fun b b' live live' same => listed.pcP live live' same, fun b j live recorded => ?_⟩
  · exact ⟨fun t live => wired.deps.chain t (wired.allocated t (.inl live)), wired.deps.nodup,
      wired.deps.unique, fun member => (wired.ends member).2⟩
  · obtain ⟨list, member⟩ := (listed.live_main b).mp live
    exact ⟨list, member, fun other there => listed.main.unique there member⟩
  · rw [listed.live_tags, eq_comm (a := cl)]
    exact and_iff_right live
  · obtain ⟨member, jmpOff⟩ := wired.recorded live recorded
    refine ⟨(wired.ends member).2, fun d => ⟨fun ⟨there, same⟩ => ?_, ?_⟩, ?_⟩
    · -- Two words at one place would not be apart.
      by_contra other
      have apart := wired.apart there member other same jmpOff
      omega
    · rintro rfl
      exact ⟨member, jmpOff⟩
    · obtain ⟨w, jmpOff', word, -⟩ := wired.word member
      cases jmpOff.symm.trans jmpOff'
      exact word

end

/-- In every state a run of steps reaches, the lists are consistent and the words of recorded jumps
lead to where their targets are entered. -/
theorem block_lists_consistent (env : Env) (memory : JitState) {s : JitState}
    (reached : Reachable (JitState.step env) JitState.Guard (memory.buildComp env) s) :
    s.Consistent := by
  have sound : ∃ M C, Sound env (fun _ => True) s M C := by
    refine reached.invariant (P := fun s => ∃ M C, Sound env (fun _ => True) s M C)
      ⟨_, _, (buildComp_blank env memory).sound⟩ ?_
    rintro s l t ⟨M, C, sound⟩ allowed taken
    obtain ⟨M', C', next⟩ := sound.perform allowed taken
    exact ⟨M', C', next.mono fun _ _ => trivial⟩
  obtain ⟨M, C, sound⟩ := sound
  exact sound.consistent

/-- Memory before `build_comp`. -/
def JitState.zeroed : JitState where
  block _ :=
    { count := 0, directHandlerToUse := 0, handlerToUse := 0, handler := 0, directHandler := 0
      directPen := 0, directPcc := 0, pcP := ⟨0, rfl⟩, c1 := 0, c2 := 0, optlevel := 0
      status := .invalid, dep := fun _ => ⟨none, none, none⟩ }
  main := ⟨fun _ => none, fun _ => none⟩
  tags := ⟨fun _ => none, fun _ => none⟩
  handler _ := 0
  deps := ⟨fun _ => none, fun _ => none⟩
  holdBi _ := none
  mChunks := []
  chunkCount := 0
  code _ := 0
  target := 0
  currentCompileP := 0
  live _ := false
  recorded _ := []
  current := none

def smallCache : Env where
  popallExecuteNormal := 16
  popallCheckChecksum := 32
  compiledCode := 0x1000
  maxCompileStart := 0x8000
  chunksPerPage := 25
  alignment _ := []
  penStub _ _ := [0x68, 0xc3]
  pccStub _ _ := [0x68, 0xc2]

/-- A block is compiled that ends with a jump to another one. -/
def loopCompiled : List (Nat × Event) :=
  [(4, .compileStart ⟨0x2000, rfl⟩), (4, .emit [0x90]),
    (4, .compileJump ⟨0x3000, rfl⟩ [0x0f, 0x8c] [0xe9] fun _ => (1, 1)),
    (4, .compileEnd false false [0x81] fun _ => (1, 1))]

theorem loopCompiled_reaches : ∃ s : JitState,
    Reachable (JitState.step smallCache) JitState.GuardByItself
      (JitState.zeroed.buildComp smallCache) s ∧
    s.live 25 = true ∧ (s.recorded 25).map JumpWord.target = [24] ∧
      s.getBlockinfo 0x2000 = some 25 ∧ (s.block 25).status = .active := by
  have executed : ((exec (guarded (JitState.step smallCache) JitState.GuardByItself)
      (JitState.zeroed.buildComp smallCache) loopCompiled).map fun s =>
        (s.live 25, (s.recorded 25).map JumpWord.target, s.getBlockinfo 0x2000,
          (s.block 25).status)) = some (true, [24], some 25, .active) := by
    decide +kernel
  obtain ⟨s, executed, facts⟩ := Option.map_eq_some_iff.mp executed
  simp only [Prod.mk.injEq] at facts
  exact ⟨s, ⟨_, run_of_guarded_exec executed⟩, facts⟩

theorem block_lists_consistent_loop : ∃ s : JitState,
    s.live 25 = true ∧ (s.recorded 25).map JumpWord.target = [24] ∧ s.Consistent := by
  obtain ⟨s, reached, live, recorded, -⟩ := loopCompiled_reaches
  exact ⟨s, live, recorded, block_lists_consistent smallCache JitState.zeroed
    (reached.weaken fun _ _ allowed => allowed.1)⟩

/-! ### Handlers -/

/-- Dispatch finds the handler of the first block of the cache line, and never the code of one that
is invalid. -/
structure JitState.Dispatches (env : Env) (s : JitState) (cl : BitVec 16) : Prop where
  handler : s.handler cl =
    match s.getBlockinfo cl with
    | some first => (s.block first).handlerToUse
    | none => env.popallExecuteNormal
  invalid : ∀ first, s.getBlockinfo cl = some first → (s.block first).status = .invalid →
    s.handler cl = env.popallExecuteNormal

theorem Sound.dispatches {env : Env} {s : JitState} {M : MainList → List Nat}
    {C : BitVec 16 → List Nat}
    (sound : Sound env (fun _ => False) s M C) (cl : BitVec 16) : s.Dispatches env cl := by
  have head : s.getBlockinfo cl = (C cl).head? := (sound.listed.tags.chain cl trivial).link_eq
  have handler := sound.cached.handler cl fun _ _ => id
  unfold JitState.headHandler at handler
  rw [← head] at handler
  refine ⟨handler, fun first found status => ?_⟩
  rw [found] at handler
  rw [head] at found
  exact handler.trans (sound.cached.invalid first (sound.listed.first_live found).1 status)

theorem handlers_of_first_blocks (env : Env) (memory : JitState) {s : JitState}
    (reached : Reachable (JitState.step env) JitState.GuardByItself (memory.buildComp env) s)
    (cl : BitVec 16) : s.Dispatches env cl := by
  have sound : ∃ M C, Sound env (fun _ => False) s M C := by
    refine reached.invariant (P := fun s => ∃ M C, Sound env (fun _ => False) s M C)
      ⟨_, _, (buildComp_blank env memory).sound⟩ ?_
    rintro s l t ⟨M, C, sound⟩ ⟨allowed, byItself⟩ taken
    obtain ⟨M', C', next⟩ := sound.perform allowed taken
    refine ⟨M', C', next.mono fun b here => ?_⟩
    rcases here with none | bare
    · exact none
    · rw [bare] at byItself
      cases byItself
  obtain ⟨M, C, sound⟩ := sound
  exact sound.dispatches cl

theorem handlers_of_first_blocks_loop : ∃ s : JitState,
    s.getBlockinfo 0x2000 = some 25 ∧ (s.block 25).status = .active ∧
      s.Dispatches smallCache 0x2000 := by
  obtain ⟨s, reached, -, -, first, status⟩ := loopCompiled_reaches
  exact ⟨s, first, status, handlers_of_first_blocks smallCache JitState.zeroed reached 0x2000⟩

end BasiliskII.Jit
