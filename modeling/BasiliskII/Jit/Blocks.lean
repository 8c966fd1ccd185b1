import BasiliskII.Library.BackLinks
import BasiliskII.Library.StepSystem
import Mathlib.Algebra.Group.Nat.Defs
import Mathlib.Algebra.GroupWithZero.Nat
import Mathlib.Order.Lattice

/-!
# Blocks of the JIT compiler

The management of `blockinfo`s in compemu_support.cpp: the lists they are on, the jumps from one
to another, the checksums of a lazy flush, and what `compile_block` does with all of them. The code
it generates is a parameter but for the words of direct jumps. Three parts of the state are there
to speak about it only: which blocks are live, the jump words recorded since a block's latest
compilation, and the block that is being compiled.
-/
namespace BasiliskII.Jit

open BackLinks

/-- The host's address of 68k code. It is even, so that no list head of `cache_tags` is where a
handler is. -/
structure PcP where
  value : BitVec 32
  even : value.getLsbD 0 = false
  deriving DecidableEq

/-- `cacheline(x)` -/
def PcP.cacheline (pc : PcP) : BitVec 16 := pc.value.setWidth 16

/-! ### Code in memory -/

abbrev CodeMemory := Nat → BitVec 8

def loadLong (m : CodeMemory) (a : Nat) : BitVec 32 := m (a + 3) ++ m (a + 2) ++ m (a + 1) ++ m a

def storeLong (m : CodeMemory) (a : Nat) (v : BitVec 32) : CodeMemory := fun x =>
  if a ≤ x ∧ x < a + 4 then v.extractLsb' (8 * (x - a)) 8 else m x

/-- The operand of a jump to `a` when the operand is at `jmpOff`. -/
def displacement (jmpOff a : Nat) : BitVec 32 := BitVec.ofNat 32 a - BitVec.ofNat 32 (jmpOff + 4)

/-! ### Blocks -/

inductive Status
  | invalid | active | needRecomp | needCheck | checking | compiling | finalizing
  deriving DecidableEq, Repr

/-- A `dependency` without its links. -/
structure Dependency where
  jmpOff : Option Nat
  target : Option Nat
  source : Option Nat

/-- A `blockinfo` without its links. NULL handlers are 0. -/
structure Blockinfo where
  count : Int
  directHandlerToUse : Nat
  handlerToUse : Nat
  handler : Nat
  directHandler : Nat
  directPen : Nat
  directPcc : Nat
  pcP : PcP
  c1 : BitVec 32
  c2 : BitVec 32
  optlevel : Nat
  status : Status
  dep : Fin 2 → Dependency

inductive MainList
  | active | dormant
  deriving DecidableEq, Repr

/-- A dependency is named by its block and its index. -/
abbrev DepId := Nat × Fin 2

/-- A jump word `create_jmpdep` records. -/
structure JumpWord where
  i : Fin 2
  jmpaddr : Nat
  target : Nat

structure JitState where
  block : Nat → Blockinfo
  /-- `active`, `dormant`, `next` and `prev_p` -/
  main : Links MainList Nat
  /-- `cache_tags[cl+1].bi`, `next_same_cl` and `prev_same_cl_p` -/
  tags : Links (BitVec 16) Nat
  /-- `cache_tags[cl].handler` -/
  handler : BitVec 16 → Nat
  /-- `deplist`, and `next` and `prev_p` of the dependencies -/
  deps : Links Nat DepId
  holdBi : Fin 3 → Option Nat
  /-- The free chunks of `BlockInfoAllocator`, and how many it ever had. -/
  mChunks : List Nat
  chunkCount : Nat
  code : CodeMemory
  target : Nat
  currentCompileP : Nat
  /-- Handed out by `get_blockinfo_addr_new` and not freed since. -/
  live : Nat → Bool
  /-- Recorded since the latest compilation, unless the block was invalidated since. -/
  recorded : Nat → List JumpWord
  /-- The block `compile_block` is about, with its number of jumps so far. -/
  current : Option (Nat × Nat)

/-- What the compiler finds around it. -/
structure Env where
  popallExecuteNormal : Nat
  popallCheckChecksum : Nat
  compiledCode : Nat
  maxCompileStart : Nat
  /-- `4096 / sizeof(blockinfo)` -/
  chunksPerPage : Nat
  /-- What `prepare_block` emits for a block at an address: to align it, and its two stubs. -/
  alignment : Nat → List (BitVec 8)
  penStub : Nat → Nat → List (BitVec 8)
  pccStub : Nat → Nat → List (BitVec 8)

def JitState.modify (s : JitState) (bi : Nat) (f : Blockinfo → Blockinfo) : JitState :=
  { s with block := Function.update s.block bi (f (s.block bi)) }

abbrev JitState.dep (s : JitState) (d : DepId) : Dependency := (s.block d.1).dep d.2

abbrev JitState.line (s : JitState) (bi : Nat) : BitVec 16 := (s.block bi).pcP.cacheline

/-- `cache_tags[cl+1].bi` -/
def JitState.getBlockinfo (s : JitState) (cl : BitVec 16) : Option Nat := s.tags.link (.head cl)

/-- `cache_tags[cl].handler = handler` -/
def JitState.setHandler (s : JitState) (cl : BitVec 16) (handler : Nat) : JitState :=
  { s with handler := Function.update s.handler cl handler }

def JitState.emit (s : JitState) (bytes : List (BitVec 8)) : JitState :=
  { s with
    code := fun a => if s.target ≤ a then bytes[a - s.target]?.getD (s.code a) else s.code a
    target := s.target + bytes.length }

def JitState.emitLong (s : JitState) (v : BitVec 32) : JitState :=
  { s with code := storeLong s.code s.target v, target := s.target + 4 }

variable (env : Env) (fuel : Nat)

/-- `while (bi) { if (bi->pc_p==addr) return bi; bi=bi->next_same_cl; } return NULL;` -/
def JitState.findFrom (s : JitState) (addr : PcP) : Nat → Option Nat → Option (Option Nat)
  | _, none => some none
  | 0, some _ => none
  | fuel + 1, some bi =>
    if (s.block bi).pcP = addr then some (some bi)
    else s.findFrom addr fuel (s.tags.link (.next bi))

def JitState.getBlockinfoAddr (s : JitState) (addr : PcP) : Option (Option Nat) :=
  s.findFrom addr fuel (s.getBlockinfo addr.cacheline)

/-! ### The lists -/

def JitState.removeFromClList (s : JitState) (bi : Nat) : JitState :=
  let cl := s.line bi
  let s := { s with tags := s.tags.unlink bi }
  s.setHandler cl <|
    match s.getBlockinfo cl with
    | some first => (s.block first).handlerToUse
    | none => env.popallExecuteNormal

def JitState.removeFromList (s : JitState) (bi : Nat) : JitState :=
  { s with main := s.main.unlink bi }

def JitState.addToClList (s : JitState) (bi : Nat) : JitState :=
  let cl := s.line bi
  { s with tags := s.tags.pushFront cl bi }.setHandler cl (s.block bi).handlerToUse

def JitState.raiseInClList (s : JitState) (bi : Nat) : JitState :=
  (s.removeFromClList env bi).addToClList bi

/-- `add_to_active` and `add_to_dormant` -/
def JitState.addTo (list : MainList) (s : JitState) (bi : Nat) : JitState :=
  { s with main := s.main.pushFront list bi }

def JitState.addToActive (s : JitState) (bi : Nat) : JitState := s.addTo .active bi

def JitState.addToDormant (s : JitState) (bi : Nat) : JitState := s.addTo .dormant bi

def JitState.removeDep (s : JitState) (d : DepId) : JitState :=
  { s with deps := s.deps.detach d }

def JitState.removeDeps (s : JitState) (bi : Nat) : JitState :=
  (s.removeDep (bi, 0)).removeDep (bi, 1)

def JitState.adjustJmpdep (s : JitState) (jmpOff a : Nat) : JitState :=
  { s with code := storeLong s.code jmpOff (displacement jmpOff a) }

/-! ### Soft flush handling support functions -/

/-- One round of the loop in `set_dhtu`. -/
def adjustBody (dh : Nat) (x : DepId) (s : JitState) : JitState × Option DepId :=
  let s :=
    match (s.dep x).jmpOff with
    | some jmpOff => s.adjustJmpdep jmpOff dh
    | none => s
  (s, s.deps.link (.next x))

def JitState.setDhtu (s : JitState) (bi dh : Nat) : Option JitState :=
  if dh ≠ (s.block bi).directHandlerToUse then
    (whileNode (adjustBody dh) fuel (s.deps.link (.head bi)) s).map fun s =>
      s.modify bi fun b => { b with directHandlerToUse := dh }
  else some s

def optcount : List Int := [10, 0, 0, 0, 0, 0, -1, -1, -1, -1]

def JitState.invalidateBlock (s : JitState) (bi : Nat) : Option JitState :=
  let s := s.modify bi fun b =>
    { b with
      optlevel := 0
      count := 10 - 1
      handler := 0
      handlerToUse := env.popallExecuteNormal
      directHandler := 0 }
  (s.setDhtu fuel bi (s.block bi).directPen).map fun s =>
    let s := s.modify bi fun b =>
      { b with
        status := .invalid
        dep := fun i => { b.dep i with jmpOff := none, target := none } }
    { s.removeDeps bi with recorded := Function.update s.recorded bi [] }

/-- `none` when there is no block for the target, which aborts. -/
def JitState.createJmpdep (s : JitState) (bi : Nat) (i : Fin 2) (jmpaddr : Nat) (target : PcP) :
    Option JitState :=
  (s.getBlockinfoAddr fuel target).bind fun found => found.map fun tbi =>
    let s := s.modify bi fun b =>
      { b with dep := Function.update b.dep i ⟨some jmpaddr, some tbi, some bi⟩ }
    { s with
      deps := s.deps.pushFront tbi (bi, i)
      recorded := Function.update s.recorded bi (⟨i, jmpaddr, tbi⟩ :: s.recorded bi) }

def JitState.blockNeedRecompile (s : JitState) (bi : Nat) : Option JitState :=
  let cl := s.line bi
  (s.setDhtu fuel bi (s.block bi).directPen).map fun s =>
    let s := s.modify bi fun b =>
      { b with
        directHandler := b.directPen
        handlerToUse := env.popallExecuteNormal
        handler := env.popallExecuteNormal }
    let s := if s.getBlockinfo cl = some bi then s.setHandler cl env.popallExecuteNormal else s
    s.modify bi fun b => { b with status := .needRecomp }

/-! ### Management of blockinfos -/

/-- `BlockInfoAllocator.acquire()`. A new page is chained up to its last chunk. -/
def JitState.acquire (s : JitState) : Nat × JitState :=
  match s.mChunks with
  | chunk :: mChunks => (chunk, { s with mChunks })
  | [] =>
    (s.chunkCount + env.chunksPerPage,
      { s with
        mChunks := (List.range' s.chunkCount env.chunksPerPage).reverse
        chunkCount := s.chunkCount + env.chunksPerPage + 1 })

/-- `free_blockinfo`, which chains the chunk by its `next`. -/
def JitState.freeBlockinfo (s : JitState) (bi : Nat) : JitState :=
  { s with
    main := s.main.setLink (.next bi) s.mChunks.head?
    mChunks := bi :: s.mChunks
    live := Function.update s.live bi false }

def JitState.prepareBlock (s : JitState) (bi : Nat) : JitState :=
  let s := { s with target := s.currentCompileP }
  let s := s.emit (env.alignment s.target)
  let s := s.modify bi fun b => { b with directPen := s.target }
  let s := s.emit (env.penStub bi s.target)
  let s := s.emit (env.alignment s.target)
  let s := s.modify bi fun b => { b with directPcc := s.target }
  let s := s.emit (env.pccStub bi s.target)
  let s := { s with currentCompileP := s.target }
  let deps := s.deps.setLink (.head bi) none
  let deps := (deps.setPrev (some (bi, 0)) none).setLink (.next (bi, 0)) none
  let deps := (deps.setPrev (some (bi, 1)) none).setLink (.next (bi, 1)) none
  { s with deps }.modify bi fun b => { b with status := .invalid }

/-- `alloc_blockinfos`, from the given places of `hold_bi` on. -/
def JitState.allocBlockinfos : List (Fin 3) → JitState → JitState
  | [], s => s
  | i :: is, s =>
    if (s.holdBi i).isSome then s
    else
      let (bi, s) := s.acquire env
      let s := { s with holdBi := Function.update s.holdBi i (some bi) }
      allocBlockinfos is (s.prepareBlock env bi)

/-- The first block that is held. -/
def JitState.firstHeld (s : JitState) : Option (Fin 3 × Nat) :=
  (List.finRange 3).findSome? fun i => (s.holdBi i).map fun bi => (i, bi)

/-- `get_blockinfo_addr_new`; `none` when there is no free one, which aborts. -/
def JitState.getBlockinfoAddrNew (s : JitState) (addr : PcP) : Option (Nat × JitState) :=
  (s.getBlockinfoAddr fuel addr).bind fun found =>
    match found with
    | some bi => some (bi, s)
    | none =>
      s.firstHeld.bind fun (i, bi) =>
        let s := { s with holdBi := Function.update s.holdBi i none }
        let s := s.modify bi fun b => { b with pcP := addr }
        (s.invalidateBlock env fuel bi).map fun s =>
          let s := (s.addToActive bi).addToClList bi
          (bi, { s with live := Function.update s.live bi true })

/-! ### Checksums -/

/-- `called_check_checksum`, with `block_check_checksum` as `check`. A dependency that has a jump
word has a target. -/
def calledCheckChecksum (check : Nat → JitState → Option (Bool × JitState)) (bi : Nat) :
    List (Fin 2) → JitState → Option (Bool × JitState)
  | [], s => some (true, s)
  | i :: is, s =>
    match (s.dep (bi, i)).jmpOff with
    | none => calledCheckChecksum check bi is s
    | some _ =>
      (s.dep (bi, i)).target.bind fun tbi =>
        (check tbi s).bind fun (isgood, s) =>
          if isgood then calledCheckChecksum check bi is s else some (false, s)

variable (calcChecksum : Nat → BitVec 32 × BitVec 32)

/-- Whether the checksums of a block are as they were. -/
def JitState.isGood (s : JitState) (bi : Nat) : Bool :=
  let b := s.block bi
  let (c1, c2) := if b.c1 ≠ 0 ∨ b.c2 ≠ 0 then calcChecksum bi else (1, 1)
  c1 = b.c1 && c2 = b.c2

/-- `block_check_checksum`, for at most `depth` calls inside one another. -/
def blockCheckChecksum : Nat → Nat → JitState → Option (Bool × JitState)
  | 0, _, _ => none
  | depth + 1, bi, s =>
    if (s.block bi).status ≠ .needCheck then some (true, s)
    else
      let checked :=
        if s.isGood calcChecksum bi then
          -- This block is still OK. So we reactivate.
          let s := s.modify bi fun b => { b with handlerToUse := b.handler }
          (s.setDhtu fuel bi (s.block bi).directHandler).bind fun s =>
            let s := s.modify bi fun b => { b with status := .checking }
            calledCheckChecksum (blockCheckChecksum depth) bi [0, 1] s
        else some (false, s)
      checked.bind fun (isgood, s) =>
        if isgood then
          let s := ((s.removeFromList bi).addToActive bi).raiseInClList env bi
          some (true, s.modify bi fun b => { b with status := .active })
        else
          -- This block actually changed.
          (s.invalidateBlock env fuel bi).map fun s => (false, s.raiseInClList env bi)

/-- `check_for_cache_miss`, from `execute_normal` -/
def JitState.checkForCacheMiss (s : JitState) (pc : PcP) : Option JitState :=
  (s.getBlockinfoAddr fuel pc).map fun found =>
    match found with
    | some bi => if s.getBlockinfo pc.cacheline ≠ some bi then s.raiseInClList env bi else s
    | none => s

/-- `recompile_block` up to `execute_normal`; `none` when there is no block, which aborts. -/
def JitState.recompileBlock (s : JitState) (pc : PcP) : Option JitState :=
  (s.getBlockinfoAddr fuel pc).bind fun found => found.map fun bi => s.raiseInClList env bi

/-- `cache_miss` up to `execute_normal`; `none` for an unexplained cache miss, which aborts. -/
def JitState.cacheMiss (s : JitState) (pc : PcP) : Option JitState :=
  (s.getBlockinfoAddr fuel pc).bind fun found =>
    match found with
    | none => some s
    | some bi =>
      match s.getBlockinfo pc.cacheline with
      | none => none
      | some bi2 => if bi = bi2 then none else some (s.raiseInClList env bi)

/-- `check_checksum` up to `execute_normal` -/
def JitState.checkChecksum (s : JitState) (pc : PcP) : Option JitState :=
  (s.getBlockinfoAddr fuel pc).bind fun found =>
    match found with
    | none => some s
    | some bi =>
      if s.getBlockinfo pc.cacheline ≠ some bi then s.cacheMiss env fuel pc
      else (blockCheckChecksum env fuel calcChecksum fuel bi s).map Prod.snd

/-! ### Flushes -/

/-- What a lazy flush does to a block of the active list. -/
def JitState.flushBlock (s : JitState) (bi : Nat) : Option JitState :=
  let cl := s.line bi
  let b := s.block bi
  let (status, handler, dh) :=
    if b.status = .invalid ∨ b.status = .needRecomp then
      (Status.invalid, env.popallExecuteNormal, b.directPen)
    else (Status.needCheck, env.popallCheckChecksum, b.directPcc)
  let s := if s.getBlockinfo cl = some bi then s.setHandler cl handler else s
  let s := s.modify bi fun b => { b with handlerToUse := handler }
  (s.setDhtu fuel bi dh).map fun s => s.modify bi fun b => { b with status }

/-- The loop of `flush_icache_lazy`, with the last block it has seen. -/
def JitState.flushActive : Nat → Option Nat → Nat → JitState → Option (Nat × JitState)
  | _, none, bi2, s => some (bi2, s)
  | 0, some _, _, _ => none
  | rounds + 1, some bi, _, s =>
    (s.flushBlock env fuel bi).bind fun s => flushActive rounds (s.main.link (.next bi)) bi s

def JitState.flushIcacheLazy (s : JitState) : Option JitState :=
  match s.main.link (.head .active) with
  | none => some s
  | some first =>
    (JitState.flushActive env fuel fuel (some first) first s).map fun (bi2, s) =>
      { s with main := s.main.splice .active .dormant bi2 }

/-- One round of the loops in `flush_icache_hard`. -/
def discardBody (bi : Nat) (s : JitState) : JitState × Option Nat :=
  let cl := s.line bi
  let s := s.setHandler cl env.popallExecuteNormal
  let s := { s with tags := s.tags.setLink (.head cl) none }
  let next := s.main.link (.next bi)
  (s.freeBlockinfo bi, next)

def JitState.resetLists (s : JitState) : JitState :=
  { s with
    holdBi := fun _ => none
    main := (s.main.setLink (.head .active) none).setLink (.head .dormant) none }

def JitState.flushIcacheHard (s : JitState) : Option JitState :=
  (whileNode (discardBody env) fuel (s.main.link (.head .active)) s).bind fun s =>
    (whileNode (discardBody env) fuel (s.main.link (.head .dormant)) s).map fun s =>
      { s.resetLists with currentCompileP := env.compiledCode }

/-! ### `compile_block` -/

/-- `optlev++; while (!optcount[optlev]) optlev++;` -/
def nextOptlev (optlev : Nat) : Nat :=
  ((List.range 10).find? fun l => optlev < l && optcount[l]? != some 0).getD 10

/-- Up to the code of the block. `none` for the aborts: a block that is not the first of its cache
line, or one that is not due. -/
def JitState.compileStart (s : JitState) (pc : PcP) : Option JitState :=
  (if env.maxCompileStart ≤ s.currentCompileP then s.flushIcacheHard env fuel else some s).bind
    fun s =>
  ((s.allocBlockinfos env (List.finRange 3)).getBlockinfoAddrNew env fuel pc).bind fun (bi, s) =>
  let b := s.block bi
  if b.status ≠ .invalid ∧
      (s.getBlockinfo pc.cacheline ≠ some bi ∨ (b.count ≠ -1 ∧ b.status ≠ .needRecomp)) then none
  else
    let optlev := if b.count = -1 then nextOptlev b.optlevel else b.optlevel
    let s := s.modify bi fun b =>
      { b with count := if b.count = -1 then optcount[optlev]?.getD 0 - 1 else b.count }
    let s := { s.removeDeps bi with recorded := Function.update s.recorded bi [] }
    let s := s.modify bi fun b => { b with optlevel := optlev, pcP := pc }
    let s := s.emit (env.alignment s.target)
    let s := s.modify bi fun b => { b with directHandler := s.target }
    (s.setDhtu fuel bi s.target).map fun s =>
      { s.modify bi fun b => { b with status := .compiling } with current := some (bi, 0) }

/-- A direct jump of the block, with the code up to its word and the code behind it. -/
def JitState.compileJump (s : JitState) (target : PcP) (lead tail : List (BitVec 8)) :
    Option JitState :=
  match s.current with
  | none => none
  | some (bi, made) =>
    if few : made < 2 then
      (s.getBlockinfoAddrNew env fuel target).bind fun (tbi, s) =>
      -- `match_states(tbi)`
      (blockCheckChecksum env fuel calcChecksum fuel tbi s).bind fun (_, s) =>
      let s := s.emit lead
      let tba := s.target
      -- `get_handler(target)`
      (s.getBlockinfoAddrNew env fuel target).bind fun (tbi, s) =>
      let s := s.emitLong (displacement tba (s.block tbi).directHandlerToUse)
      let s := s.emit tail
      (s.createJmpdep fuel bi ⟨made, few⟩ tba target).map fun s =>
        { s with current := some (bi, made + 1) }
    else none

/-- From the end of the block's code on: the handler that checks the PC, and a flush when there is
no space left. `redo` is `redo_current_block`. -/
def JitState.compileEnd (s : JitState) (inRom redo : Bool) (entry : List (BitVec 8)) :
    Option JitState :=
  match s.current with
  | none => none
  | some (bi, _) =>
    let s := s.removeFromList bi
    let s :=
      if inRom then s.addToDormant bi
      else
        let (c1, c2) := calcChecksum bi
        (s.modify bi fun b => { b with c1, c2 }).addToActive bi
    let s := s.emit (env.alignment s.target)
    let s := s.modify bi fun b => { b with handler := s.target, handlerToUse := s.target }
    let s := s.modify bi fun b => { b with status := .finalizing }
    let s := s.emit entry
    let s := { s with currentCompileP := s.target }
    let s := s.raiseInClList env bi
    (if env.maxCompileStart ≤ s.currentCompileP then s.flushIcacheHard env fuel else some s).bind
      fun s =>
    let s := { s.modify bi fun b => { b with status := .active } with current := none }
    if redo then s.blockNeedRecompile env fuel bi else some s

/-! ### Steps -/

inductive Event
  | getBlockinfoAddrNew (addr : PcP)
  | setDhtu (bi dh : Nat)
  | invalidateBlock (bi : Nat)
  | blockNeedRecompile (bi : Nat)
  | raiseInClList (bi : Nat)
  | blockCheckChecksum (bi : Nat) (calcChecksum : Nat → BitVec 32 × BitVec 32)
  /-- `remove_from_list` and `add_to_active` or `add_to_dormant` -/
  | moveTo (list : MainList) (bi : Nat)
  | checkForCacheMiss (pc : PcP)
  | recompileBlock (pc : PcP)
  | cacheMiss (pc : PcP)
  | checkChecksum (pc : PcP) (calcChecksum : Nat → BitVec 32 × BitVec 32)
  | flushIcacheLazy
  | flushIcacheHard
  /-- Native code counts a block down. -/
  | countDown (bi : Nat)
  | compileStart (pc : PcP)
  | emit (bytes : List (BitVec 8))
  | compileJump (target : PcP) (lead tail : List (BitVec 8))
      (calcChecksum : Nat → BitVec 32 × BitVec 32)
  | compileEnd (inRom redo : Bool) (entry : List (BitVec 8))
      (calcChecksum : Nat → BitVec 32 × BitVec 32)

/-- Steps about a block are taken for live ones, hard flushes not inside of `compile_block`, and
code is emitted only there. -/
def JitState.Allows (s : JitState) : Event → Prop
  | .setDhtu bi _ | .invalidateBlock bi | .blockNeedRecompile bi | .raiseInClList bi
  | .blockCheckChecksum bi _ | .moveTo _ bi | .countDown bi => s.live bi = true
  | .flushIcacheHard | .compileStart _ => s.current = none
  | .emit _ => s.current ≠ none
  | _ => True

instance JitState.decidableAllows (s : JitState) : (e : Event) → Decidable (s.Allows e)
  | .setDhtu bi _ | .invalidateBlock bi | .blockNeedRecompile bi | .raiseInClList bi
  | .blockCheckChecksum bi _ | .moveTo _ bi | .countDown bi =>
    inferInstanceAs (Decidable (s.live bi = true))
  | .flushIcacheHard | .compileStart _ => inferInstanceAs (Decidable (s.current = none))
  | .emit _ => inferInstanceAs (Decidable (s.current ≠ none))
  | .getBlockinfoAddrNew _ | .checkForCacheMiss _ | .recompileBlock _ | .cacheMiss _
  | .checkChecksum .. | .flushIcacheLazy | .compileJump .. | .compileEnd .. =>
    inferInstanceAs (Decidable True)

def JitState.perform (s : JitState) : Event → Option JitState
  | .getBlockinfoAddrNew addr => (s.getBlockinfoAddrNew env fuel addr).map Prod.snd
  | .setDhtu bi dh => s.setDhtu fuel bi dh
  | .invalidateBlock bi => s.invalidateBlock env fuel bi
  | .blockNeedRecompile bi => s.blockNeedRecompile env fuel bi
  | .raiseInClList bi => some (s.raiseInClList env bi)
  | .blockCheckChecksum bi sums => (Jit.blockCheckChecksum env fuel sums fuel bi s).map Prod.snd
  | .moveTo list bi => some ((s.removeFromList bi).addTo list bi)
  | .checkForCacheMiss pc => s.checkForCacheMiss env fuel pc
  | .recompileBlock pc => s.recompileBlock env fuel pc
  | .cacheMiss pc => s.cacheMiss env fuel pc
  | .checkChecksum pc sums => s.checkChecksum env fuel sums pc
  | .flushIcacheLazy => s.flushIcacheLazy env fuel
  | .flushIcacheHard => s.flushIcacheHard env fuel
  | .countDown bi => some (s.modify bi fun b => { b with count := b.count - 1 })
  | .compileStart pc => s.compileStart env fuel pc
  | .emit bytes => some (s.emit bytes)
  | .compileJump target lead tail sums => s.compileJump env fuel sums target lead tail
  | .compileEnd inRom redo entry sums => s.compileEnd env fuel sums inRom redo entry

end BasiliskII.Jit
