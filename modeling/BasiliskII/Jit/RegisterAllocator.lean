import BasiliskII.Library.ByteLanes
import BasiliskII.Library.SwapRemove
import BasiliskII.Library.StepSystem
import Mathlib.Data.Fin.Basic
import Mathlib.Logic.Function.Basic

/-!
# Register allocation of the JIT compiler

Registers of the 68k are virtual ones, which native registers hold for a while: `live` of
compemu_support.cpp says which, with how many of their bytes, and with offsets that are still to be
added. What the code emitted on the way does to the native registers and to the virtual ones'
places in memory is in the state too, as if it ran at once.
-/
namespace BasiliskII.Jit

open ByteLanes SwapRemove

abbrev VReg := Fin 32

/-- `PC_P` -/
def pcReg : VReg := 16

def flagx : VReg := 17

def flagtmp : VReg := 18

/-- `NEXT_HANDLER` -/
def nextHandler : VReg := 19

inductive VStatus
  | inmem | clean | dirty | undef | isconst
  deriving DecidableEq

/-- `reg_status`, where -1 is no `realreg` -/
structure RegStatus (N : Nat) where
  val : BitVec 32
  status : VStatus
  realreg : Option (Fin N)
  realind : Nat
  validsize : Nat
  dirtysize : Nat

/-- `n_status`, with `nholds` entries of `holds` -/
structure NStatus where
  touched : BitVec 32
  holds : List VReg
  locked : BitVec 8

/-- The native registers of codegen_x86.cpp. -/
structure Host (N : Nat) where
  canbyte : Fin N → Bool
  canword : Fin N → Bool
  alwaysUsed : Fin N → Bool
  /-- The byte `raw_mov_b_mr` stores for a register. -/
  storedByte : (Fin N → BitVec 32) → Fin N → BitVec 8
  stored_of_canbyte : ∀ regs n, canbyte n = true → storedByte regs n = (regs n).setWidth 8

/-- The byte stored for the register is its lowest one. -/
def Host.ByteReg {N : Nat} (host : Host N) (n : Fin N) : Prop :=
  ∀ regs, host.storedByte regs n = (regs n).setWidth 8

def x86_64 : Host 16 where
  canbyte n := n.val ≠ 4
  canword n := n.val ≠ 4
  alwaysUsed n := n.val = 4
  storedByte regs n := (regs n).setWidth 8
  stored_of_canbyte _ _ _ := rfl

/-- The bytes of %esp, %ebp, %esi and %edi are encoded for the second bytes of the first four. -/
def i386 : Host 8 where
  canbyte n := n.val < 4
  canword n := n.val ≠ 4
  alwaysUsed n := n.val = 4
  storedByte regs n :=
    if n.val < 4 then (regs n).setWidth 8 else (regs ⟨n.val - 4, by omega⟩).extractLsb' 8 8
  stored_of_canbyte _ _ can := if_pos (of_decide_eq_true can)

/-- `live`, with the contents of the native registers and of `*live.state[r].mem` -/
structure Live (N : Nat) where
  state : VReg → RegStatus N
  nat : Fin N → NStatus
  touchcnt : BitVec 32
  regs : Fin N → BitVec 32
  mem : VReg → BitVec 32

section

variable {N : Nat}

def Live.modify (s : Live N) (r : VReg) (f : RegStatus N → RegStatus N) : Live N :=
  { s with state := Function.update s.state r (f (s.state r)) }

def Live.modifyNat (s : Live N) (n : Fin N) (f : NStatus → NStatus) : Live N :=
  { s with nat := Function.update s.nat n (f (s.nat n)) }

def Live.setReg (s : Live N) (n : Fin N) (c : BitVec 32) : Live N :=
  { s with regs := Function.update s.regs n c }

def Live.setMem (s : Live N) (r : VReg) (c : BitVec 32) : Live N :=
  { s with mem := Function.update s.mem r c }

/-- `live.nat[n].touched=touchcnt++` -/
def Live.touch (s : Live N) (n : Fin N) : Live N :=
  { s.modifyNat n fun x => { x with touched := s.touchcnt } with touchcnt := s.touchcnt + 1 }

def Live.isinreg (s : Live N) (r : VReg) : Bool :=
  (s.state r).status = .clean || (s.state r).status = .dirty

def Live.isconst (s : Live N) (r : VReg) : Bool := (s.state r).status = .isconst

def Live.nholds (s : Live N) (n : Fin N) : Nat := (s.nat n).holds.length

variable (host : Host N)

/-- `raw_mov_b_mr`, `raw_mov_w_mr` or `raw_mov_l_mr` to `live.state[r].mem`, by its `dirtysize` -/
def Live.store (s : Live N) (r : VReg) (rr : Fin N) : Option (Live N) :=
  match (s.state r).dirtysize with
  | 1 => some (s.setMem r (splice 1 ((host.storedByte s.regs rr).setWidth 32) (s.mem r)))
  | 2 => some (s.setMem r (splice 2 (s.regs rr) (s.mem r)))
  | 4 => some (s.setMem r (s.regs rr))
  | _ => none

/-- `adjust_nreg` -/
def Live.adjustNreg (s : Live N) (n : Fin N) (val : BitVec 32) : Live N :=
  s.setReg n (s.regs n + val)

/-- The part of `tomem` that adds the offset, where nothing else needs the register. -/
def Live.applyOffset (s : Live N) (r : VReg) (rr : Fin N) : Live N :=
  let val := (s.state r).val
  if s.isinreg r ∧ val ≠ 0 ∧ s.nholds rr = 1 ∧ (s.nat rr).locked = 0 then
    (s.adjustNreg rr val).modify r fun st => { st with val := 0, dirtysize := 4, status := .dirty }
  else s

/-- The part of `tomem` that stores the register. -/
def Live.writeback (s : Live N) (r : VReg) (rr : Fin N) : Option (Live N) :=
  if (s.state r).status = .dirty then
    (s.store host r rr).map fun s => s.modify r fun st =>
      { st with status := .clean, dirtysize := 0 }
  else some s

/-- A `realreg` of -1 is that of a register that is neither clean nor dirty. -/
def Live.tomem (r : VReg) (s : Live N) : Option (Live N) :=
  match (s.state r).realreg with
  | none => some s
  | some rr => (s.applyOffset r rr).writeback host r rr

/-- The end of `evict`: the last entry takes the place of the one that is removed. -/
def Live.detach (s : Live N) (r : VReg) (rr : Fin N) : Live N :=
  let holds := (s.nat rr).holds
  let thisind := (s.state r).realind
  let s := s.modifyNat rr fun n => { n with holds := swapRemove holds thisind }
  let s :=
    match holds.getLast? with
    | some topreg =>
      if holds.length - 1 ≠ thisind then s.modify topreg fun st => { st with realind := thisind }
      else s
    | none => s
  s.modify r fun st => { st with realreg := none, status := .inmem }

/-- `none` for the abort: the register is locked. -/
def Live.evict (r : VReg) (s : Live N) : Option (Live N) :=
  if ¬ s.isinreg r then some s
  else
    (s.tomem host r).bind fun s =>
      match (s.state r).realreg with
      | none => some s
      | some rr =>
        if (s.nat rr).locked ≠ 0 ∧ s.nholds rr = 1 then none
        else some (s.detach r rr)

/-- `while (i) { --i; evict(live.nat[r].holds[i]); }`; there are entries up to `i` all the time. -/
def Live.evictFrom (r : Fin N) : Nat → Live N → Option (Live N)
  | 0, s => some s
  | i + 1, s =>
    match (s.nat r).holds[i]? with
    | some vr => (s.evict host vr).bind (evictFrom r i)
    | none => evictFrom r i s

def Live.freeNreg (r : Fin N) (s : Live N) : Option (Live N) :=
  (s.evictFrom host r (s.nholds r)).bind fun s => if s.nholds r ≠ 0 then none else some s

def Live.isclean (s : Live N) (r : VReg) : Live N :=
  if ¬ s.isinreg r then s
  else s.modify r fun st => { st with validsize := 4, dirtysize := 0, val := 0, status := .clean }

def Live.disassociate (r : VReg) (s : Live N) : Option (Live N) := (s.isclean r).evict host r

def Live.setConst (r : VReg) (val : BitVec 32) (s : Live N) : Option (Live N) :=
  (s.disassociate host r).map fun s => s.modify r fun st => { st with val, status := .isconst }

/-! ### alloc_reg_hinted -/

def Host.suits (size : Nat) (i : Fin N) : Bool :=
  (size = 1 && host.canbyte i) || (size = 2 && host.canword i) || size = 4

/-- The loop over the native registers, with `bestreg` and `when`. -/
def Live.bestreg (s : Live N) (size : Nat) (hint : Option (Fin N)) :
    List (Fin N) → Option (Fin N) → Int → Option (Fin N)
  | [], best, _ => best
  | i :: is, best, limit =>
    let badness := if s.nholds i = 0 then 0 else (s.nat i).touched.toInt
    let badness := if hint = some i then badness - 200000000 else badness
    if (s.nat i).locked = 0 ∧ badness < limit ∧ host.suits size i then
      if s.nholds i = 0 ∧ hint = none ∨ hint = some i then some i
      else bestreg s size hint is (some i) badness
    else bestreg s size hint is best limit

def bswap32 (v : BitVec 32) : BitVec 32 :=
  v.extractLsb' 0 8 ++ v.extractLsb' 8 8 ++ v.extractLsb' 16 8 ++ v.extractLsb' 24 8

/-- `raw_zero_extend_16_rr` -/
def zeroExtend16 (v : BitVec 32) : BitVec 32 := (v.setWidth 16).setWidth 32

/-- The valid half of the register is completed from memory by way of `bestreg`. -/
def Live.mergeHalves (s : Live N) (r : VReg) (rr bestreg : Fin N) : Live N :=
  let s := s.setReg bestreg (s.mem r)
  let s := s.setReg bestreg (bswap32 (s.regs bestreg))
  let s := s.setReg rr (zeroExtend16 (s.regs rr))
  let s := s.setReg bestreg (zeroExtend16 (s.regs bestreg))
  let s := s.setReg bestreg (bswap32 (s.regs bestreg))
  let s := s.setReg rr (s.regs rr + s.regs bestreg)
  s.modify r fun st => { st with validsize := 4 }

/-- `do_load_reg`; FLAGX is byte sized. -/
def Live.loadReg (s : Live N) (n : Fin N) (r : VReg) : Live N :=
  s.setReg n <|
    if r = flagx then
      if host.canbyte n then splice 1 (s.mem r) (s.regs n)
      else if host.canword n then splice 2 (s.mem r) (s.regs n)
      else s.mem r
    else s.mem r

/-- What becomes of the record of a register that is in none, and of `bestreg`. -/
def Live.fill (s : Live N) (r : VReg) (bestreg : Fin N) (size : Nat) (willclobber : Bool) :
    Live N :=
  if ¬ willclobber then
    let s :=
      if (s.state r).status ≠ .undef then
        if s.isconst r then
          (s.setReg bestreg (s.state r).val).modify r fun st =>
            { st with val := 0, dirtysize := 4, status := .dirty }
        else
          (s.loadReg host bestreg r).modify r fun st => { st with dirtysize := 0, status := .clean }
      else s.modify r fun st => { st with val := 0, dirtysize := 0, status := .clean }
    s.modify r fun st => { st with validsize := 4 }
  else if ¬ s.isconst r ∨ size = 4 then
    s.modify r fun st =>
      { st with validsize := size, dirtysize := size, val := 0, status := .dirty }
  else
    (s.setReg bestreg (s.state r).val).modify r fun st =>
      { st with val := 0, validsize := 4, dirtysize := 4, status := .dirty }

/-- The last entry of `bestreg` is the register. -/
def Live.enter (s : Live N) (r : VReg) (bestreg : Fin N) : Live N :=
  let s := s.modify r fun st => { st with realreg := some bestreg, realind := s.nholds bestreg }
  (s.touch bestreg).modifyNat bestreg fun n => { n with holds := n.holds ++ [r] }

/-- The end of `alloc_reg_hinted` -/
def Live.take (s : Live N) (r : VReg) (bestreg : Fin N) (size : Nat) (willclobber : Bool) :
    Live N :=
  (s.fill host r bestreg size willclobber).enter r bestreg

def Live.allocRegHinted (r : VReg) (size : Nat) (willclobber : Bool) (hint : Option (Fin N))
    (s : Live N) : Option (Fin N × Live N) :=
  (s.bestreg host size hint (List.finRange N) none 2000000000).bind fun bestreg =>
  (if 0 < s.nholds bestreg then s.freeNreg host bestreg else some s).bind fun s =>
  match s.isinreg r, (s.state r).realreg with
  | true, some rr =>
    if willclobber ∨ size ≤ (s.state r).validsize then none
    else if s.nholds rr ≠ 1 then none
    else if size = 4 ∧ (s.state r).validsize = 2 then
      some (rr, (s.mergeHalves r rr bestreg).touch rr)
    else (s.evict host r).map fun s => (bestreg, s.take host r bestreg size willclobber)
  | _, _ => some (bestreg, s.take host r bestreg size willclobber)

/-! ### Locks and moves -/

def Live.unlock2 (n : Fin N) (s : Live N) : Option (Live N) :=
  if (s.nat n).locked = 0 then none
  else some (s.modifyNat n fun x => { x with locked := x.locked - 1 })

def Live.setlock (n : Fin N) (s : Live N) : Live N :=
  s.modifyNat n fun x => { x with locked := x.locked + 1 }

/-- The loop of `mov_nregs` over the entries, with their indices. -/
def Live.relocate (d : Fin N) (holds : List (VReg × Nat)) (s : Live N) : Live N :=
  holds.foldl (fun s (vs, i) =>
    s.modify vs fun st => { st with realreg := some d, realind := i }) s

def Live.transfer (d n : Fin N) (s : Live N) : Live N :=
  let holds := (s.nat n).holds
  let s := (s.setReg d (s.regs n)).relocate d holds.zipIdx
  (s.modifyNat d fun x => { x with holds }).modifyNat n fun x => { x with holds := [] }

def Live.movNregs (d n : Fin N) (s : Live N) : Option (Live N) :=
  if n = d then some s
  else (if 0 < s.nholds d then s.freeNreg host d else some s).map (transfer d n)

/-! ### make_exclusive -/

/-- The loop that evicts all others, from the index `i` on: every round either leaves an entry
behind or removes one, so that `nholds` rounds are enough. -/
def Live.evictOthers (r : VReg) (rr : Fin N) : Nat → Nat → Live N → Option (Live N)
  | 0, _, s => some s
  | rounds + 1, i, s =>
    match (s.nat rr).holds[i]? with
    | none => some s
    | some vr =>
      if vr ≠ r then (s.evict host vr).bind (evictOthers r rr rounds i)
      else evictOthers r rr rounds (i + 1) s

/-- How many other registers in `rr` are dirty or have an offset. -/
def Live.ndirt (s : Live N) (r : VReg) (rr : Fin N) : Nat :=
  (s.nat rr).holds.countP fun vr =>
    vr ≠ r && ((s.state vr).status = .dirty || (s.state vr).val ≠ 0)

/-- All the old state info is kept, and contents that are not overwritten are copied. -/
def Live.restore (r : VReg) (rr nr : Fin N) (size : Nat) (oldstate : RegStatus N) (s : Live N) :
    Live N :=
  let nind := (s.state r).realind
  let s := s.modify r fun _ => { oldstate with realreg := some nr, realind := nind }
  if size < oldstate.validsize then
    if oldstate.val ≠ 0 then
      (s.setReg nr (s.regs rr + oldstate.val)).modify r fun st =>
        { st with val := 0, dirtysize := 4, status := .dirty }
    else s.setReg nr (s.regs rr)
  else s

/-- The register is split off `rr` into one of its own. -/
def Live.splitOff (r : VReg) (rr : Fin N) (size : Nat) (spec : Option (Fin N)) (s : Live N) :
    Option (Live N) :=
  let oldstate := s.state r
  ((s.setlock rr).disassociate host r).bind fun s =>
  (if oldstate.status = .dirty then s.allocRegHinted host r oldstate.dirtysize true spec
    else s.allocRegHinted host r 4 true spec).bind fun (nr, s) =>
  (s.restore r rr nr size oldstate).unlock2 rr

def Live.makeExclusive (r : VReg) (size : Nat) (spec : Option (Fin N)) (s : Live N) :
    Option (Live N) :=
  match s.isinreg r, (s.state r).realreg with
  | true, some rr =>
    if s.nholds rr = 1 then some s
    else if s.ndirt r rr = 0 ∧ size < (s.state r).validsize ∧ (s.nat rr).locked = 0 then
      (s.evictOthers host r rr (s.nholds rr) 0).bind fun s =>
        if s.nholds rr ≠ 1 then none else some s
    else s.splitOff host r rr size spec
  | _, _ => some s

/-! ### Offsets -/

def Live.addOffset (r : VReg) (off : BitVec 32) (s : Live N) : Live N :=
  s.modify r fun st => { st with val := st.val + off }

/-- The end of `remove_offset`: the register is alone in its native one. -/
def Live.foldOffset (r : VReg) (s : Live N) : Option (Live N) :=
  let val := (s.state r).val
  if val = 0 then some s
  else
    match (s.state r).realreg with
    | none => none
    | some rr =>
      if s.nholds rr = 1 then
        some ((s.adjustNreg rr val).modify r fun st =>
          { st with dirtysize := 4, val := 0, status := .dirty })
      else none

def Live.removeOffset (r : VReg) (spec : Option (Fin N)) (s : Live N) : Option (Live N) :=
  if s.isconst r ∨ (s.state r).val = 0 then some s
  else
    (if s.isinreg r ∧ (s.state r).validsize < 4 then s.evict host r else some s).bind fun s =>
    (if ¬ s.isinreg r then (s.allocRegHinted host r 4 false spec).map Prod.snd
      else some s).bind fun s =>
    if (s.state r).validsize ≠ 4 then none
    else (s.makeExclusive host r 0 none).bind fun s => s.foldOffset r

/-! ### readreg, writereg and rmw -/

/-- Whether a size may be had from a native register as it is. -/
def Host.answers (size : Nat) (spec : Option (Fin N)) (n : Fin N) : Option Bool :=
  match size with
  | 1 => some (host.canbyte n || spec.isSome)
  | 2 => some (host.canword n || spec.isSome)
  | 4 => some true
  | _ => none

/-- `mov_nregs` to the register that is asked for. -/
def Live.moveTo (spec : Option (Fin N)) (answer : Fin N) (s : Live N) : Option (Fin N × Live N) :=
  match spec with
  | none => some (answer, s)
  | some spec => (s.movNregs host spec answer).map fun s => (spec, s)

/-- The native register the virtual one is in, as long as it has the bytes and suits the size; if
not, the virtual one is evicted. `rmw_general` wants it to be alone there. -/
def Live.tryreg (r : VReg) (size : Nat) (spec : Option (Fin N)) (alone : Bool) (s : Live N) :
    Option (Option (Fin N) × Live N) :=
  match s.isinreg r, (s.state r).realreg with
  | true, some n =>
    if size ≤ (s.state r).validsize then
      if alone ∧ s.nholds n ≠ 1 then none
      else
        (host.answers size spec n).bind fun fits =>
          if fits then some (some n, s) else (s.evict host r).map fun s => (none, s)
    else some (none, s)
  | _, _ => some (none, s)

/-- Either the value was in memory to start with, or it was evicted and is in memory now. -/
def Live.orAlloc (r : VReg) (size : Nat) (willclobber : Bool) (spec : Option (Fin N)) :
    Option (Fin N) × Live N → Option (Fin N × Live N)
  | (some n, s) => some (n, s)
  | (none, s) => s.allocRegHinted host r size willclobber spec

def Live.lockAnswer (n : Fin N) (s : Live N) : Live N := (s.setlock n).touch n

def Live.readregGeneral (r : VReg) (size : Nat) (spec : Option (Fin N)) (canOffset : Bool)
    (s : Live N) : Option (Fin N × Live N) :=
  (if ¬ canOffset then s.removeOffset host r spec else some s).bind fun s =>
  (s.tryreg host r size spec false).bind fun found =>
  (Live.orAlloc host r (if spec.isSome then 4 else size) false spec found).bind fun (answer, s) =>
  (s.moveTo host spec answer).map fun (answer, s) => (answer, Live.lockAnswer answer s)

/-- `dirtysize` and `validsize` are at least these. -/
def Live.widen (r : VReg) (size : Nat) (s : Live N) : Live N :=
  s.modify r fun st =>
    { st with dirtysize := max size st.dirtysize, validsize := max size st.validsize }

/-- The part of `writereg_general` for a register that is in a native one. -/
def Live.tryWrite (r : VReg) (size : Nat) (spec : Option (Fin N)) (s : Live N) :
    Option (Option (Fin N) × Live N) :=
  match s.isinreg r, (s.state r).realreg with
  | true, some n =>
    if s.nholds n ≠ 1 then none
    else
      (host.answers size spec n).bind fun fits =>
        if fits then some (some n, s.widen r size) else (s.evict host r).map fun s => (none, s)
  | _, _ => some (none, s)

/-- The end of `writereg_general`. -/
def Live.written (r : VReg) (size : Nat) (answer : Fin N) (s : Live N) : Option (Live N) :=
  let s :=
    if (s.state r).status = .undef then s.modify r fun st => { st with validsize := 4 } else s
  let s := Live.lockAnswer answer (s.widen r size)
  if size ≠ 4 ∧ (s.state r).val ≠ 0 then none
  else
    some <| s.modify r fun st =>
      { st with val := if size = 4 then 0 else st.val, status := .dirty }

def Live.writeregGeneral (r : VReg) (size : Nat) (spec : Option (Fin N)) (s : Live N) :
    Option (Fin N × Live N) :=
  (if size < 4 then s.removeOffset host r spec else some s).bind fun s =>
  (s.makeExclusive host r size spec).bind fun s =>
  (s.tryWrite host r size spec).bind fun found =>
  (Live.orAlloc host r size true spec found).bind fun (answer, s) =>
  (s.moveTo host spec answer).bind fun (answer, s) =>
  (Live.written r size answer s).map fun s => (answer, s)

/-- The end of `rmw_general`. -/
def Live.modified (r : VReg) (wsize : Nat) (answer : Fin N) (s : Live N) : Option (Live N) :=
  let s := (s.widen r wsize).modify r fun st => { st with status := .dirty }
  let s := Live.lockAnswer answer s
  if (s.state r).val ≠ 0 then none else some s

def Live.rmwGeneral (r : VReg) (wsize rsize : Nat) (spec : Option (Fin N)) (s : Live N) :
    Option (Fin N × Live N) :=
  (s.removeOffset host r spec).bind fun s =>
  (s.makeExclusive host r 0 spec).bind fun s =>
  if wsize < rsize then none
  else
    (s.tryreg host r rsize spec true).bind fun found =>
    (Live.orAlloc host r (if spec.isSome then 4 else rsize) false spec found).bind
      fun (answer, s) =>
    (s.moveTo host spec answer).bind fun (answer, s) =>
    (Live.modified r wsize answer s).map fun s => (answer, s)

/-! ### mov_l_rr and lea_l_brr -/

def Live.movLRr (d r : VReg) (s : Live N) : Option (Live N) :=
  if d = r then some s
  else if s.isconst r then s.setConst host d (s.state r).val
  else
    (s.disassociate host d).bind fun s =>
    (s.readregGeneral host r 4 none true).bind fun (n, s) =>
    let s := s.modify d fun _ =>
      { val := (s.state r).val
        status := .dirty
        realreg := some n
        realind := s.nholds n
        validsize := 4
        dirtysize := 4 }
    (s.modifyNat n fun x => { x with holds := x.holds ++ [d] }).unlock2 n

/-- `lea_l_brr` with equal operands -/
def Live.leaLBrr (r : VReg) (offset : BitVec 32) (s : Live N) : Option (Live N) :=
  if s.isconst r then s.setConst host r ((s.state r).val + offset)
  else some (s.addOffset r offset)

/-! ### init_comp -/

def Live.initComp (s : Live N) (compPcP : BitVec 32) : Live N :=
  { s with
    state := fun i =>
      { s.state i with
        realreg := none
        val := if i = pcReg then compPcP else 0
        status :=
          if i < 16 ∨ i = flagx ∨ i = flagtmp then VStatus.inmem
          else if i = pcReg then VStatus.isconst
          else VStatus.undef }
    nat := fun n => { touched := 0, holds := [], locked := if host.alwaysUsed n then 1 else 0 }
    touchcnt := 1 }

end

end BasiliskII.Jit
