import BasiliskII.Jit.Blocks

/-!
# The lists of blocks

Each live block is on one of the two main lists and on the list of its cache line, no other block
is, and a block that is held or free is not live. The handler of a cache line is a copy of its first
block's; it is out of date only while that block is in the works.
-/
namespace BasiliskII.Jit

open BackLinks

section

variable {s s' : JitState} {bi : Nat}

def JitState.Held (s : JitState) (b : Nat) : Prop := ∃ i, s.holdBi i = some b

def JitState.Allocated (s : JitState) (b : Nat) : Prop := s.live b = true ∨ s.Held b

/-- The main lists and those of the cache lines hold the live blocks. -/
structure Listed (s : JitState) (M : MainList → List Nat) (C : BitVec 16 → List Nat) : Prop where
  main : s.main.Holds (fun _ => True) M
  tags : s.tags.Holds (fun _ => True) C
  live_main : ∀ b, s.live b = true ↔ ∃ list, b ∈ M list
  live_tags : ∀ b cl, b ∈ C cl ↔ s.live b = true ∧ s.line b = cl
  pcP : ∀ {b b'}, s.live b = true → s.live b' = true →
    (s.block b).pcP = (s.block b').pcP → b = b'

/-- Blocks are live, held or free. -/
structure Stocked (s : JitState) : Prop where
  held_free : ∀ {i b}, s.holdBi i = some b → s.live b = false
  held_unique : ∀ {i j b}, s.holdBi i = some b → s.holdBi j = some b → i = j
  chunks_nodup : s.mChunks.Nodup
  chunk_free : ∀ c ∈ s.mChunks, ¬ s.Allocated c ∧ c < s.chunkCount
  below : ∀ b, s.Allocated b → b < s.chunkCount

/-- What dispatch finds for a cache line with these blocks. -/
def JitState.headHandler (env : Env) (s : JitState) (blocks : List Nat) : Nat :=
  match blocks.head? with
  | some first => (s.block first).handlerToUse
  | none => env.popallExecuteNormal

/-- The handlers are those of the first blocks, but for blocks in the works. -/
structure Cached (env : Env) (s : JitState) (C : BitVec 16 → List Nat)
    (works : Nat → Prop) : Prop where
  handler : ∀ cl, (∀ first, (C cl).head? = some first → ¬ works first) →
    s.handler cl = s.headHandler env (C cl)
  invalid : ∀ b, s.live b = true → (s.block b).status = .invalid →
    (s.block b).handlerToUse = env.popallExecuteNormal

/-! ### Changes to a block -/

@[simp] theorem modify_self (s : JitState) (bi : Nat) (f : Blockinfo → Blockinfo) :
    (s.modify bi f).block bi = f (s.block bi) :=
  Function.update_self ..

theorem modify_of_ne (s : JitState) (f : Blockinfo → Blockinfo) {b : Nat} (other : b ≠ bi) :
    (s.modify bi f).block b = s.block b :=
  Function.update_of_ne other ..

theorem modify_keeps {α : Type*} (field : Blockinfo → α) (s : JitState) (bi : Nat)
    (f : Blockinfo → Blockinfo) (b : Nat) (keeps : field (f (s.block bi)) = field (s.block bi)) :
    field ((s.modify bi f).block b) = field (s.block b) := by
  rcases Decidable.eq_or_ne b bi with rfl | other
  · rw [modify_self, keeps]
  · rw [modify_of_ne s f other]

variable {M : MainList → List Nat} {C : BitVec 16 → List Nat}

theorem Listed.congr (listed : Listed s M C) (main : s'.main = s.main) (tags : s'.tags = s.tags)
    (live : s'.live = s.live)
    (pcP : ∀ b, s.live b = true → (s'.block b).pcP = (s.block b).pcP) : Listed s' M C := by
  constructor
  · rw [main]
    exact listed.main
  · rw [tags]
    exact listed.tags
  · rw [live]
    exact listed.live_main
  · intro b cl
    rw [live, listed.live_tags b cl]
    refine and_congr_right fun h => ?_
    unfold JitState.line
    rw [pcP b h]
  · intro b b' h h' same
    rw [live] at h h'
    rw [pcP b h, pcP b' h'] at same
    exact listed.pcP h h' same

theorem Stocked.congr (stocked : Stocked s) (hold : s'.holdBi = s.holdBi)
    (live : s'.live = s.live) (chunks : s'.mChunks = s.mChunks)
    (count : s'.chunkCount = s.chunkCount) : Stocked s' := by
  have allocated : s'.Allocated = s.Allocated := by
    unfold JitState.Allocated JitState.Held
    rw [hold, live]
  constructor
  · rw [hold, live]
    exact stocked.held_free
  · rw [hold]
    exact stocked.held_unique
  · rw [chunks]
    exact stocked.chunks_nodup
  · rw [chunks, allocated, count]
    exact stocked.chunk_free
  · rw [allocated, count]
    exact stocked.below

variable {env : Env} {works : Nat → Prop}

theorem Listed.first_live (listed : Listed s M C) {cl : BitVec 16} {b : Nat}
    (first : (C cl).head? = some b) : s.live b = true ∧ s.line b = cl :=
  (listed.live_tags b cl).mp (List.mem_of_head? first)

theorem Cached.congr (cached : Cached env s C works) (listed : Listed s M C)
    (handler : s'.handler = s.handler) (live : s'.live = s.live)
    (use : ∀ b, s.live b = true → (s'.block b).handlerToUse = (s.block b).handlerToUse)
    (status : ∀ b, s.live b = true → (s'.block b).status = (s.block b).status) :
    Cached env s' C works := by
  constructor
  · intro cl settled
    have same : s'.headHandler env (C cl) = s.headHandler env (C cl) := by
      unfold JitState.headHandler
      split
      next first here => exact use first (listed.first_live here).1
      next => rfl
    rw [handler, same]
    exact cached.handler cl settled
  · intro b h
    rw [live] at h
    rw [status b h, use b h]
    exact cached.invalid b h

theorem Cached.work (cached : Cached env s C works) (f : Blockinfo → Blockinfo) (here : works bi)
    (invalid : s.live bi = true → (f (s.block bi)).status = .invalid →
      (f (s.block bi)).handlerToUse = env.popallExecuteNormal) :
    Cached env (s.modify bi f) C works := by
  constructor
  · intro cl settled
    have same : (s.modify bi f).headHandler env (C cl) = s.headHandler env (C cl) := by
      unfold JitState.headHandler
      split
      next first eq =>
        rw [modify_of_ne s f]
        rintro rfl
        exact settled first eq here
      next => rfl
    rw [same]
    exact cached.handler cl settled
  · intro b live
    rcases Decidable.eq_or_ne b bi with rfl | other
    · rw [modify_self]
      exact invalid live
    · rw [modify_of_ne s f other]
      exact cached.invalid b live

/-- A block gets another handler, and its cache line too if it is the first there. -/
theorem Cached.refresh (cached : Cached env s C works) (listed : Listed s M C)
    (live : s.live bi = true) {h : Nat}
    (handler : s'.handler =
      if s.getBlockinfo (s.line bi) = some bi then Function.update s.handler (s.line bi) h
      else s.handler)
    (live' : s'.live = s.live)
    (others : ∀ b, b ≠ bi → (s'.block b).handlerToUse = (s.block b).handlerToUse ∧
      (s'.block b).status = (s.block b).status)
    (use : (s'.block bi).handlerToUse = h)
    (invalid : (s'.block bi).status = .invalid → h = env.popallExecuteNormal) :
    Cached env s' C works := by
  have first_of (cl : BitVec 16) : s.getBlockinfo cl = (C cl).head? :=
    (listed.tags.chain cl trivial).link_eq
  constructor
  · intro cl settled
    rw [handler]
    by_cases here : (C cl).head? = some bi
    · obtain ⟨-, line⟩ := listed.first_live here
      rw [line, first_of, if_pos here, Function.update_self, JitState.headHandler, here]
      exact use.symm
    · have same : s'.headHandler env (C cl) = s.headHandler env (C cl) := by
        unfold JitState.headHandler
        split
        next first eq => exact (others first (by rintro rfl; exact here eq)).1
        next => rfl
      rw [same, ← cached.handler cl settled]
      split
      next front =>
        rw [first_of] at front
        refine Function.update_of_ne ?_ ..
        rintro rfl
        exact here front
      next => rfl
  · intro b live_b
    rw [live'] at live_b
    rcases Decidable.eq_or_ne b bi with rfl | other
    · rw [use]
      exact invalid
    · rw [(others b other).1, (others b other).2]
      exact cached.invalid b live_b

/-! ### Finding a block -/

theorem findFrom_eq (addr : PcP) {fuel : Nat} {r : Link (BitVec 16) Nat} {xs : List Nat}
    {found : Option Nat} (chain : s.tags.Chain r xs)
    (searched : s.findFrom addr fuel (s.tags.link r) = some found) :
    found = xs.find? fun b => (s.block b).pcP = addr := by
  induction xs generalizing fuel r with
  | nil =>
    rw [Links.Chain.link_eq chain] at searched
    unfold JitState.findFrom at searched
    cases searched
    rfl
  | cons x xs ih =>
    rw [chain.1.1] at searched
    cases fuel with
    | zero => cases searched
    | succ fuel =>
      unfold JitState.findFrom at searched
      split at searched
      next here =>
        cases searched
        rw [List.find?_cons_of_pos (by simpa using here)]
      next other =>
        rw [List.find?_cons_of_neg (by simpa using other)]
        exact ih chain.2 searched

/-- `get_blockinfo_addr` finds the live block of an address, if there is one. -/
theorem getBlockinfoAddr_found (listed : Listed s M C) {fuel : Nat} {addr : PcP}
    {found : Option Nat} (searched : s.getBlockinfoAddr fuel addr = some found) :
    (∀ bi, found = some bi → s.live bi = true ∧ (s.block bi).pcP = addr) ∧
      (found = none → ∀ b, s.live b = true → (s.block b).pcP ≠ addr) := by
  have eq := findFrom_eq addr (listed.tags.chain addr.cacheline trivial) searched
  subst eq
  refine ⟨fun bi found => ?_, fun none b live same => ?_⟩
  · have member := List.mem_of_find?_eq_some found
    have here := List.find?_some found
    exact ⟨((listed.live_tags bi _).mp member).1, by simpa using here⟩
  · have member : b ∈ C addr.cacheline := (listed.live_tags b _).mpr ⟨live, by rw [← same]⟩
    have other := List.find?_eq_none.mp none b member
    simp [same] at other

/-! ### Moving a block -/

theorem Listed.on_line (listed : Listed s M C) (live : s.live bi = true) : bi ∈ C (s.line bi) :=
  (listed.live_tags bi _).mpr ⟨live, rfl⟩

/-- The cache line's list after `raise_in_cl_list`. -/
def raised (C : BitVec 16 → List Nat) (cl : BitVec 16) (bi : Nat) : BitVec 16 → List Nat :=
  Function.update C cl (bi :: (C cl).erase bi)

theorem mem_raised {cl : BitVec 16} (member : bi ∈ C cl) (b : Nat) (cl' : BitVec 16) :
    b ∈ raised C cl bi cl' ↔ b ∈ C cl' := by
  unfold raised
  rcases Decidable.eq_or_ne cl' cl with rfl | other
  · rw [Function.update_self]
    exact (List.perm_cons_erase member).symm.mem_iff
  · rw [Function.update_of_ne other]

theorem Listed.raise (listed : Listed s M C) (live : s.live bi = true) :
    Listed (s.raiseInClList env bi) M (raised C (s.line bi) bi) := by
  have member := listed.on_line live
  refine ⟨listed.main, ?_, listed.live_main, fun b cl => ?_, listed.pcP⟩
  · -- The block leaves its list and comes back.
    have out := listed.tags.unlink member
    have free (cl : BitVec 16) :
        bi ∉ Function.update C (s.line bi) ((C (s.line bi)).erase bi) cl := by
      rcases Decidable.eq_or_ne cl (s.line bi) with rfl | other
      · rw [Function.update_self]
        exact (listed.tags.nodup _).not_mem_erase
      · rw [Function.update_of_ne other]
        exact fun there => other (listed.tags.unique there member)
    have back := out.pushFront trivial free (h := s.line bi)
    rw [Function.update_self, Function.update_idem] at back
    exact back
  · exact (mem_raised member b cl).trans (listed.live_tags b cl)

theorem raiseInClList_handler (s : JitState) (bi : Nat) :
    (s.raiseInClList env bi).handler =
      Function.update s.handler (s.line bi) (s.block bi).handlerToUse :=
  Function.update_idem ..

theorem Cached.mono {more : Nat → Prop} (cached : Cached env s C works)
    (included : ∀ b, works b → more b) : Cached env s C more :=
  ⟨fun cl settled => cached.handler cl fun first here working =>
    settled first here (included first working), cached.invalid⟩

theorem Cached.raise (cached : Cached env s C fun b => works b ∨ b = bi) (listed : Listed s M C)
    (live : s.live bi = true) :
    Cached env (s.raiseInClList env bi) (raised C (s.line bi) bi) works := by
  refine ⟨fun cl settled => ?_, cached.invalid⟩
  rw [raiseInClList_handler]
  unfold raised at settled ⊢
  rcases Decidable.eq_or_ne cl (s.line bi) with rfl | other
  · rw [Function.update_self, Function.update_self]
    rfl
  · rw [Function.update_of_ne other, Function.update_of_ne other]
    rw [Function.update_of_ne other] at settled
    refine cached.handler cl fun first here => ?_
    rintro (working | rfl)
    · exact settled first here working
    · exact other (((listed.live_tags first cl).mp (List.mem_of_head? here)).2.symm)

/-- `remove_from_list`, and `add_to_active` or `add_to_dormant` behind it -/
theorem Listed.move (listed : Listed s M C) (live : s.live bi = true) (list : MainList) :
    ∃ M', Listed ((s.removeFromList bi).addTo list bi) M' C := by
  obtain ⟨from_list, member⟩ := (listed.live_main bi).mp live
  have out := listed.main.unlink member
  have left (other : MainList) (b : Nat) :
      b ∈ Function.update M from_list ((M from_list).erase bi) other ↔ b ≠ bi ∧ b ∈ M other := by
    rcases Decidable.eq_or_ne other from_list with rfl | apart
    · rw [Function.update_self]
      exact (listed.main.nodup other).mem_erase_iff
    · rw [Function.update_of_ne apart]
      refine ⟨fun there => ⟨?_, there⟩, fun there => there.2⟩
      rintro rfl
      exact apart (listed.main.unique there member)
  have back := out.pushFront trivial (h := list) fun other there => ((left other bi).mp there).1 rfl
  refine ⟨_, back, listed.tags, fun b => ?_, listed.live_tags, listed.pcP⟩
  refine (listed.live_main b).trans ⟨?_, ?_⟩
  · rintro ⟨other, there⟩
    rcases Decidable.eq_or_ne b bi with rfl | apart
    · exact ⟨list, by rw [Function.update_self]; exact .head _⟩
    · refine ⟨other, ?_⟩
      have still := (left other b).mpr ⟨apart, there⟩
      rcases Decidable.eq_or_ne other list with rfl | elsewhere
      · rw [Function.update_self]
        exact .tail _ still
      · rw [Function.update_of_ne elsewhere]
        exact still
  · rintro ⟨other, there⟩
    rcases Decidable.eq_or_ne other list with rfl | elsewhere
    · rw [Function.update_self] at there
      rcases List.mem_cons.mp there with rfl | there
      · exact ⟨from_list, member⟩
      · exact ⟨other, ((left other b).mp there).2⟩
    · rw [Function.update_of_ne elsewhere] at there
      exact ⟨other, ((left other b).mp there).2⟩

/-! ### A block that becomes live -/

/-- The last steps of `get_blockinfo_addr_new`. -/
def JitState.enter (s : JitState) (bi : Nat) : JitState :=
  let s := (s.addToActive bi).addToClList bi
  { s with live := Function.update s.live bi true }

theorem Listed.enter (listed : Listed s M C) (free : s.live bi = false)
    (new : ∀ b, s.live b = true → (s.block b).pcP ≠ (s.block bi).pcP) :
    Listed (s.enter bi) (Function.update M .active (bi :: M .active))
      (Function.update C (s.line bi) (bi :: C (s.line bi))) := by
  have dead : s.live bi ≠ true := by simp [free]
  have off_main (list : MainList) : bi ∉ M list := fun there =>
    dead ((listed.live_main bi).mpr ⟨list, there⟩)
  have off_line (cl : BitVec 16) : bi ∉ C cl := fun there =>
    dead ((listed.live_tags bi cl).mp there).1
  have live_iff (b : Nat) : (s.enter bi).live b = true ↔ b = bi ∨ s.live b = true := by
    change Function.update s.live bi true b = true ↔ _
    rw [Function.update_apply]
    by_cases here : b = bi <;> simp [here]
  refine ⟨listed.main.pushFront trivial off_main, listed.tags.pushFront trivial off_line,
    fun b => ?_, fun b cl => ?_, fun {b b'} h h' same => ?_⟩
  · rw [live_iff, listed.live_main b]
    constructor
    · rintro (rfl | ⟨list, there⟩)
      · exact ⟨.active, by rw [Function.update_self]; exact .head _⟩
      · refine ⟨list, ?_⟩
        rw [Function.update_apply]
        split
        next here => exact .tail _ (here ▸ there)
        next => exact there
    · rintro ⟨list, there⟩
      rw [Function.update_apply] at there
      split at there
      · exact (List.mem_cons.mp there).imp_right fun there => ⟨_, there⟩
      · exact .inr ⟨list, there⟩
  · rw [live_iff]
    change b ∈ Function.update C (s.line bi) (bi :: C (s.line bi)) cl ↔ _ ∧ s.line b = cl
    rw [Function.update_apply]
    split
    next here =>
      subst here
      rw [List.mem_cons, listed.live_tags]
      constructor
      · rintro (rfl | ⟨live, line⟩)
        · exact ⟨.inl rfl, rfl⟩
        · exact ⟨.inr live, line⟩
      · rintro ⟨rfl | live, line⟩
        · exact .inl rfl
        · exact .inr ⟨live, line⟩
    next elsewhere =>
      rw [listed.live_tags]
      constructor
      · rintro ⟨live, line⟩
        exact ⟨.inr live, line⟩
      · rintro ⟨rfl | live, line⟩
        · exact absurd line.symm elsewhere
        · exact ⟨live, line⟩
  · rcases (live_iff b).mp h with rfl | live
    · rcases (live_iff b').mp h' with rfl | live'
      · rfl
      · exact absurd same.symm (new b' live')
    · rcases (live_iff b').mp h' with rfl | live'
      · exact absurd same (new b live)
      · exact listed.pcP live live' same

theorem Cached.enter (cached : Cached env s C works)
    (use : (s.block bi).handlerToUse = env.popallExecuteNormal) :
    Cached env (s.enter bi) (Function.update C (s.line bi) (bi :: C (s.line bi))) works := by
  constructor
  · intro cl settled
    change Function.update s.handler (s.line bi) (s.block bi).handlerToUse cl = _
    rcases Decidable.eq_or_ne cl (s.line bi) with rfl | other
    · rw [Function.update_self, Function.update_self]
      rfl
    · rw [Function.update_of_ne other] at settled ⊢
      rw [Function.update_of_ne other]
      exact cached.handler cl settled
  · intro b live status
    change Function.update s.live bi true b = true at live
    rw [Function.update_apply] at live
    split at live
    next here =>
      rw [here]
      exact use
    next => exact cached.invalid b live status

/-! ### A list that is moved as a whole -/

theorem Listed.splice (listed : Listed s M C) {front : List Nat} {last : Nat}
    (eq : M .active = front ++ [last]) :
    Listed { s with main := s.main.splice .active .dormant last }
      (Function.update (Function.update M .dormant (M .active ++ M .dormant)) .active []) C := by
  have spliced := listed.main.splice (by decide : MainList.active ≠ .dormant) trivial trivial eq
  refine ⟨spliced, listed.tags, fun b => ?_, listed.live_tags, listed.pcP⟩
  refine (listed.live_main b).trans ⟨?_, ?_⟩
  · rintro ⟨list, there⟩
    refine ⟨.dormant, ?_⟩
    rw [Function.update_of_ne (by decide), Function.update_self]
    cases list with
    | active => exact List.mem_append_left _ there
    | dormant => exact List.mem_append_right _ there
  · rintro ⟨list, there⟩
    cases list with
    | active =>
      rw [Function.update_self] at there
      cases there
    | dormant =>
      rw [Function.update_of_ne (by decide), Function.update_self] at there
      rcases List.mem_append.mp there with there | there
      · exact ⟨.active, there⟩
      · exact ⟨.dormant, there⟩

/-! ### The hard flush -/

/-- What the loops have done when these blocks are gone, the latest first. -/
structure Discarded (env : Env) (gone : List Nat) (s s' : JitState) : Prop where
  rest : ∃ handler tags main live,
    s' = { s with handler, tags, main, live, mChunks := gone ++ s.mChunks }
  live : ∀ b, s'.live b = true ↔ s.live b = true ∧ b ∉ gone
  lines : ∀ cl, (∃ b ∈ gone, s.line b = cl) →
    s'.handler cl = env.popallExecuteNormal ∧ s'.tags.link (.head cl) = none
  others : ∀ cl, (∀ b ∈ gone, s.line b ≠ cl) →
    s'.handler cl = s.handler cl ∧ s'.tags.link (.head cl) = s.tags.link (.head cl)
  heads : ∀ list, s'.main.link (.head list) = s.main.link (.head list)
  nexts : ∀ b, b ∉ gone → s'.main.link (.next b) = s.main.link (.next b)

theorem Discarded.body {gone : List Nat} (discarded : Discarded env gone s s') (x : Nat) :
    Discarded env (x :: gone) s (discardBody env x s').1 := by
  have line : s'.line x = s.line x := by
    obtain ⟨_, _, _, _, rfl⟩ := discarded.rest
    rfl
  have handler (cl : BitVec 16) : (discardBody env x s').1.handler cl =
      if cl = s.line x then env.popallExecuteNormal else s'.handler cl := by
    rw [← line]
    exact Function.update_apply ..
  have head (cl : BitVec 16) : (discardBody env x s').1.tags.link (.head cl) =
      if cl = s.line x then none else s'.tags.link (.head cl) := by
    rw [← line]
    change (s'.tags.setLink (.head (s'.line x)) none).link (.head cl) = _
    simp only [Links.setLink_link, Link.head.injEq]
  have main : (discardBody env x s').1.main = s'.main.setLink (.next x) s'.mChunks.head? := rfl
  constructor
  · obtain ⟨_, _, _, _, rfl⟩ := discarded.rest
    exact ⟨_, _, _, _, rfl⟩
  · intro b
    change Function.update s'.live x false b = true ↔ _
    rw [Function.update_apply, List.mem_cons, not_or]
    split
    next here => simp [here]
    next other => simp [discarded.live b, other]
  · rintro cl ⟨b, there, rfl⟩
    rw [handler, head]
    split
    · exact ⟨rfl, rfl⟩
    next other =>
      rcases List.mem_cons.mp there with rfl | there
      · exact absurd rfl other
      · exact discarded.lines _ ⟨b, there, rfl⟩
  · intro cl apart
    rw [handler, head, if_neg (apart x (.head _)).symm, if_neg (apart x (.head _)).symm]
    exact discarded.others cl fun b there => apart b (.tail _ there)
  · intro list
    rw [main, Links.setLink_link, if_neg nofun]
    exact discarded.heads list
  · intro b there
    rw [List.mem_cons, not_or] at there
    rw [main, Links.setLink_link, if_neg (by simpa using there.1)]
    exact discarded.nexts b there.2

theorem discard_loop (listed : Listed s M C) (list : MainList) {gone : List Nat}
    (apart : ∀ b ∈ M list, b ∉ gone) {start s'' : JitState} (before : Discarded env gone s start)
    {fuel : Nat} (looped : whileNode (discardBody env) fuel (start.main.link (.head list)) start =
      some s'') : Discarded env ((M list).reverse ++ gone) s s'' := by
  let I (rest : List Nat) (now : JitState) : Prop :=
    ∃ done, M list = done ++ rest ∧ Discarded env (done.reverse ++ gone) s now
  rw [before.heads, (listed.main.chain list trivial).link_eq] at looped
  have after : I [] s'' := by
    refine whileNode_invariant I (fun x rest now held => ?_) ⟨[], rfl, before⟩ looped
    obtain ⟨done, eq, discarded⟩ := held
    have chain := listed.main.chain list trivial
    have nodup := listed.main.nodup list
    rw [eq] at chain nodup
    have kept : x ∉ done.reverse ++ gone := by
      rw [List.mem_append, List.mem_reverse, not_or]
      exact ⟨fun there => List.disjoint_of_nodup_append nodup there (.head _),
        apart x (eq ▸ List.mem_append_right _ (.head _))⟩
    obtain ⟨_, -, -, behind⟩ := chain.split
    refine ⟨(discarded.nexts x kept).trans behind.link_eq, done ++ [x], by simp [eq], ?_⟩
    rw [List.reverse_append]
    exact discarded.body x
  obtain ⟨done, eq, discarded⟩ := after
  rw [List.append_nil] at eq
  rwa [eq]

/-- After a hard flush there is no block, and dispatch starts anew. -/
structure Flushed (env : Env) (s s' : JitState) : Prop where
  rest : ∃ handler tags main mChunks live, s' = { s with
    handler, tags, main, mChunks, live
    holdBi := fun _ => none
    currentCompileP := env.compiledCode }
  dead : ∀ b, s'.live b = false
  chunks_nodup : s'.mChunks.Nodup
  chunks_below : ∀ c ∈ s'.mChunks, c < s'.chunkCount
  handler : ∀ cl, s'.handler cl = env.popallExecuteNormal
  tags : ∀ cl, s'.tags.link (.head cl) = none
  main : ∀ list, s'.main.link (.head list) = none

theorem flushIcacheHard_flushed (listed : Listed s M C) (stocked : Stocked s)
    (cached : Cached env s C works) {fuel : Nat} (flushed : s.flushIcacheHard env fuel = some s') :
    Flushed env s s' := by
  obtain ⟨middle, active, flushed⟩ := Option.bind_eq_some_iff.mp flushed
  obtain ⟨last, dormant, rfl⟩ := Option.map_eq_some_iff.mp flushed
  have nothing : Discarded env [] s s :=
    ⟨⟨_, _, _, _, rfl⟩, by simp, by simp, by simp, by simp, by simp⟩
  have first := discard_loop listed .active (fun _ _ => List.not_mem_nil) nothing active
  rw [List.append_nil] at first
  have second := discard_loop listed .dormant (fun b there gone =>
    MainList.noConfusion (listed.main.unique there (List.mem_reverse.mp gone))) first dormant
  set gone := (M .dormant).reverse ++ (M .active).reverse
  have gone_iff (b : Nat) : b ∈ gone ↔ s.live b = true := by
    rw [listed.live_main, List.mem_append, List.mem_reverse, List.mem_reverse]
    constructor
    · rintro (there | there)
      · exact ⟨_, there⟩
      · exact ⟨_, there⟩
    · rintro ⟨list, there⟩
      cases list with
      | active => exact .inr there
      | dormant => exact .inl there
  have gone_nodup : gone.Nodup := by
    refine List.nodup_append'.mpr ⟨List.nodup_reverse.mpr (listed.main.nodup _),
      List.nodup_reverse.mpr (listed.main.nodup _), fun b there there' => ?_⟩
    rw [List.mem_reverse] at there there'
    exact MainList.noConfusion (listed.main.unique there there')
  -- A cache line without a block has nothing to lose.
  have lines (cl : BitVec 16) : last.handler cl = env.popallExecuteNormal ∧
      last.tags.link (.head cl) = none := by
    by_cases busy : ∃ b ∈ gone, s.line b = cl
    · exact second.lines cl busy
    · have empty : C cl = [] := by
        refine List.eq_nil_iff_forall_not_mem.mpr fun b there => busy ?_
        obtain ⟨live, line⟩ := (listed.live_tags b cl).mp there
        exact ⟨b, (gone_iff b).mpr live, line⟩
      obtain ⟨handler, head⟩ := second.others cl fun b there line => busy ⟨b, there, line⟩
      rw [handler, head, (listed.tags.chain cl trivial).link_eq, cached.handler cl (by simp [empty]),
        empty]
      exact ⟨rfl, rfl⟩
  obtain ⟨_, _, _, _, eq⟩ := second.rest
  have chunks : last.mChunks = gone ++ s.mChunks := by rw [eq]
  have count : last.chunkCount = s.chunkCount := by rw [eq]
  constructor
  · rw [eq]
    exact ⟨_, _, _, _, _, rfl⟩
  · intro b
    refine Bool.eq_false_iff.mpr fun live => ?_
    obtain ⟨was, kept⟩ := (second.live b).mp live
    exact kept ((gone_iff b).mpr was)
  · change last.mChunks.Nodup
    rw [chunks]
    refine List.nodup_append'.mpr ⟨gone_nodup, stocked.chunks_nodup, fun b there there' => ?_⟩
    exact (stocked.chunk_free b there').1 (.inl ((gone_iff b).mp there))
  · intro c there
    change c ∈ last.mChunks at there
    change c < last.chunkCount
    rw [chunks] at there
    rw [count]
    rcases List.mem_append.mp there with there | there
    · exact stocked.below c (.inl ((gone_iff c).mp there))
    · exact (stocked.chunk_free c there).2
  · exact fun cl => (lines cl).1
  · exact fun cl => (lines cl).2
  · intro list
    cases list <;> rfl

end

end BasiliskII.Jit
