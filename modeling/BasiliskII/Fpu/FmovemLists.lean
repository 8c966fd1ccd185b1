import BasiliskII.Fpu.FmovemRoundTrip
import Mathlib.Data.List.Basic

/-!
# The register lists of FMOVEM

Which registers a list names, and what FMOVEM has to do with them, against the loops of fpu_soft.cpp.
The number of the data register of a dynamic list loses its highest bit there, and a load from -(An)
goes upwards.
-/
namespace BasiliskII.Fpu

open ByteMemory Cpu

def storesRegisters (i : Instruction) : Prop := i.extra &&& 0x2000 ≠ 0

instance storesRegisters.decidable (i : Instruction) : Decidable (storesRegisters i) :=
  inferInstanceAs (Decidable (_ ≠ _))

/-- Predecrement lists are for stores to -(An). -/
def LegalList (i : Instruction) : Prop := descending i = true ↔ storesRegisters i ∧ i.mode = 4

/-- The list as the manual has it: of the extension word or of the data register bits 6-4 name. -/
def namedList (i : Instruction) (regs : Regs) : BitVec 8 :=
  if i.extra.getLsbD 11 then (regs.dreg (i.extra.extractLsb' 4 3)).setWidth 8
  else i.extra.setWidth 8

/-- Predecrement lists have FP0 at bit 0, the others at bit 7. -/
def named (i : Instruction) (regs : Regs) (reg : BitVec 3) : Bool :=
  (namedList i regs).getLsbD (if descending i then reg.toNat else 7 - reg.toNat)

/-- The registers of the list, FP0 first. -/
def namedOrder (i : Instruction) (regs : Regs) : List (BitVec 3) := regsUp.filter (named i regs)

/-- The operand begins at the effective address, and ends there for -(An). -/
def operandBase (i : Instruction) (regs : Regs) (ad : BitVec 32) : BitVec 32 :=
  if i.mode = 4 then ad - size (namedOrder i regs).length else ad

def movedAreg (i : Instruction) (regs : Regs) : BitVec 32 :=
  if i.mode = 4 then regs.areg i.reg - size (namedOrder i regs).length
  else if i.mode = 3 then regs.areg i.reg + size (namedOrder i regs).length
  else regs.areg i.reg

/-- Registers that come from the blocks of an operand, and the others as they were. -/
def LoadedFrom (mem : Memory 32) (base : BitVec 32) (order : List (BitVec 3))
    (before after : BitVec 3 → Floatx80) : Prop :=
  ∀ reg, after reg =
    if order.contains reg then
      let ad := base + size (order.idxOf reg)
      makeExtended (getLong mem ad) (getLong mem (ad + 4)) (getLong mem (ad + 8))
    else before reg

/-- Twelve bytes for each register that is named, in order; An moved by their size; and nothing else
touched. -/
structure Transferred (i : Instruction) (ad : BitVec 32) (st st' : State) : Prop where
  regs : st'.regs = st.regs.setAreg i.reg (movedAreg i st.regs)
  store : storesRegisters i → st'.fp = st.fp ∧
    Stored st.mem st.fp (operandBase i st.regs ad) (namedOrder i st.regs) st'.mem
  load : ¬storesRegisters i → st'.mem = st.mem ∧
    LoadedFrom st.mem (operandBase i st.regs ad) (namedOrder i st.regs) st.fp st'.fp

/-- FMOVEM does what it has to, whatever the FPU registers and memory hold. -/
def TransfersRight (i : Instruction) (regs : Regs) : Prop :=
  ∀ ad, getFpAd i regs = some ad → ∀ fp mem,
    ∃ st', fmovem i ⟨regs, fp, mem⟩ = some st' ∧ Transferred i ad ⟨regs, fp, mem⟩ st'

/-- The data register whose number lacks bit 6 has the same list. -/
def ListRight (i : Instruction) (regs : Regs) : Prop :=
  i.extra.getLsbD 11 = true → (regs.dreg ((i.extra.extractLsb' 4 2).setWidth 3)).setWidth 8 =
    (regs.dreg (i.extra.extractLsb' 4 3)).setWidth 8

/-! ### The list of the code -/

theorem listRight_iff (i : Instruction) (regs : Regs) :
    ListRight i regs ↔ (registerList i regs).setWidth 8 = namedList i regs := by
  have byte (x : BitVec 32) : (x &&& 0xff).setWidth 8 = x.setWidth 8 := by
    rw [BitVec.setWidth_and]
    exact BitVec.and_allOnes
  have word : ((i.extra &&& 0xff).setWidth 32).setWidth 8 = i.extra.setWidth 8 := by
    rw [BitVec.setWidth_setWidth_of_le _ (by decide), BitVec.setWidth_and]
    exact BitVec.and_allOnes
  unfold ListRight registerList namedList
  split
  next dynamic => rw [byte, imp_iff_right dynamic]
  next static => exact iff_of_true (fun dynamic => absurd dynamic static) word

theorem selects_eq (i : Instruction) (regs : Regs) (reg : BitVec 3) : selects i regs reg =
    ((registerList i regs).setWidth 8).getLsbD (if descending i then reg.toNat else 7 - reg.toNat) := by
  have small := reg.isLt
  unfold selects
  rw [BitVec.getLsbD_setWidth]
  split
  · rw [decide_eq_true (by omega), Bool.true_and]
  · rw [decide_eq_true (by omega), Bool.true_and]

theorem listRight_iff_selects (i : Instruction) (regs : Regs) :
    ListRight i regs ↔ ∀ reg, selects i regs reg = named i regs reg := by
  rw [listRight_iff]
  constructor
  · intro same reg
    rw [selects_eq, same, named]
  · intro same
    apply BitVec.eq_of_getLsbD_eq
    intro k inside
    -- The register whose bit is number `k`.
    have bit := same (BitVec.ofNat 3 (if descending i then k else 7 - k))
    rw [selects_eq, named, BitVec.toNat_ofNat] at bit
    by_cases down : descending i = true
    · rwa [if_pos down, if_pos down, Nat.mod_eq_of_lt (by omega)] at bit
    · rwa [if_neg down, if_neg down, Nat.mod_eq_of_lt (by omega),
        show 7 - (7 - k) = k by omega] at bit

variable {i : Instruction} {regs : Regs}

theorem ListRight.layoutOrder (right : ListRight i regs) : layoutOrder i regs = namedOrder i regs :=
  List.filter_congr fun reg _ => (listRight_iff_selects i regs).mp right reg

theorem mem_namedOrder (i : Instruction) (regs : Regs) (reg : BitVec 3) :
    reg ∈ namedOrder i regs ↔ named i regs reg = true := by
  have all : ∀ k : BitVec 3, k ∈ regsUp := by decide
  rw [namedOrder, List.mem_filter, and_iff_right (all reg)]

theorem namedOrder_length (i : Instruction) (regs : Regs) : (namedOrder i regs).length ≤ 8 :=
  List.length_filter_le ..

/-! ### Loads -/

theorem LoadedFrom.nil (mem : Memory 32) (base : BitVec 32) (fp : BitVec 3 → Floatx80) :
    LoadedFrom mem base [] fp fp := fun _ => rfl

variable {mem : Memory 32} {order : List (BitVec 3)}

theorem LoadedFrom.cons {base : BitVec 32} {reg : BitVec 3} {fp after : BitVec 3 → Floatx80}
    (new : reg ∉ order)
    (rest : LoadedFrom mem (base + 12) order (setFp fp reg (makeExtended (getLong mem base)
      (getLong mem (base + 4)) (getLong mem (base + 8)))) after) :
    LoadedFrom mem base (reg :: order) fp after := by
  intro k
  rw [rest k]
  simp only [List.contains_iff_mem]
  by_cases here : k = reg
  · subst here
    rw [if_neg new, if_pos (List.mem_cons_self ..), List.idxOf_cons_self]
    simp only [size, Nat.mul_zero, setFp, if_true]
    rw [show base + BitVec.ofNat 32 0 = base from BitVec.add_zero base]
  · by_cases later : k ∈ order
    · rw [if_pos later, if_pos (List.mem_cons_of_mem _ later), List.idxOf_cons_ne _ (Ne.symm here),
        size_succ, ← BitVec.add_assoc]
    · have outside : k ∉ reg :: order := fun member => (List.mem_cons.mp member).elim here later
      rw [if_neg later, if_neg outside, setFp, if_neg here]

theorem selected_subset (regs : List (BitVec 3)) (list : BitVec 32) :
    selected regs list ⊆ regs := by
  induction regs generalizing list with
  | nil => exact List.Subset.refl _
  | cons reg regs ih =>
    rw [selected]
    split
    · exact List.cons_subset_cons reg (ih _)
    · exact List.subset_cons_of_subset reg (ih _)

theorem loadUp_loads (mem : Memory 32) {regs : List (BitVec 3)} (distinct : regs.Nodup)
    (list ad : BitVec 32) (fp : BitVec 3 → Floatx80) :
    (loadUp mem regs list (ad, fp)).1 = ad + size (selected regs list).length ∧
      LoadedFrom mem ad (selected regs list) fp (loadUp mem regs list (ad, fp)).2 := by
  induction regs generalizing list ad fp with
  | nil => exact ⟨(BitVec.add_zero ad).symm, .nil mem ad fp⟩
  | cons reg regs ih =>
    have new : reg ∉ selected regs (list <<< 1) := fun member =>
      (List.nodup_cons.mp distinct).1 (selected_subset regs _ member)
    rw [loadUp_cons, selected]
    split
    next bit =>
      obtain ⟨final, loaded⟩ := ih (List.nodup_cons.mp distinct).2 (list <<< 1) (ad + 12)
        (setFp fp reg (makeExtended (getLong mem ad) (getLong mem (ad + 4)) (getLong mem (ad + 8))))
      refine ⟨?_, loaded.cons new⟩
      rw [final, List.length_cons, size_succ, BitVec.add_assoc]
    next skipped => exact ih (List.nodup_cons.mp distinct).2 (list <<< 1) ad fp

variable {ad : BitVec 32}

theorem fmovem_loads {st : State} (address : getFpAd i st.regs = some ad)
    (load : ¬storesRegisters i) (up : descending i = false) : ∃ fp, fmovem i st = some
        { st with regs := updateAreg i st.regs (ad + size (layoutOrder i st.regs).length), fp } ∧
      LoadedFrom st.mem ad (layoutOrder i st.regs) st.fp fp := by
  have same := (selected_layoutOrder i st.regs).2 up
  obtain ⟨at_end, loaded⟩ := loadUp_loads st.mem (by decide : regsUp.Nodup)
    (registerList i st.regs) ad st.fp
  rw [same] at at_end loaded
  refine ⟨_, ?_, loaded⟩
  unfold storesRegisters at load
  simp only [fmovem, address, Option.bind_eq_bind, Option.bind_some, if_neg load, up,
    Bool.false_eq_true, if_false, at_end]

/-! ### Addresses -/

theorem getFpAd_areg (address : getFpAd i regs = some ad) (register : i.mode = 3 ∨ i.mode = 4) :
    ad = regs.areg i.reg := by
  unfold getFpAd at address
  rcases register with post | pre
  · rw [post] at address
    exact (Option.some.inj address).symm
  · rw [pre] at address
    exact (Option.some.inj address).symm

theorem updateAreg_moved {last : BitVec 32} (address : getFpAd i regs = some ad)
    (pre : i.mode = 4 → last = ad - size (namedOrder i regs).length)
    (post : i.mode = 3 → last = ad + size (namedOrder i regs).length) :
    updateAreg i regs last = regs.setAreg i.reg (movedAreg i regs) := by
  rw [updateAreg_eq, movedAreg]
  by_cases is_pre : i.mode = 4
  · rw [if_pos (.inr is_pre), if_pos is_pre, pre is_pre, getFpAd_areg address (.inr is_pre)]
  · rw [if_neg is_pre]
    by_cases is_post : i.mode = 3
    · rw [if_pos (.inl is_post), if_pos is_post, post is_post, getFpAd_areg address (.inl is_post)]
    · rw [if_neg (not_or_intro is_post is_pre), if_neg is_post, Regs.setAreg_self]

/-- A load from -(An) that names a register. -/
def LoadsBackwards (i : Instruction) (regs : Regs) : Prop :=
  ¬storesRegisters i ∧ i.mode = 4 ∧ namedOrder i regs ≠ []

theorem transfersRight_of (legal : LegalList i) (right : ListRight i regs)
    (forwards : ¬LoadsBackwards i regs) : TransfersRight i regs := by
  intro ad address fp mem
  by_cases store : storesRegisters i
  · obtain ⟨mem', result, stored⟩ := fmovem_store i (show getFpAd i (State.mk regs fp mem).regs = _ from address) store
    rw [right.layoutOrder] at result stored
    have base_same : base i ad (namedOrder i regs).length = operandBase i regs ad := by
      unfold base operandBase
      exact if_congr (legal.trans (and_iff_right store)) rfl rfl
    refine ⟨_, result, ?_, fun _ => ⟨rfl, base_same ▸ stored⟩, fun load => absurd store load⟩
    refine updateAreg_moved address (fun pre => ?_) fun post => ?_
    · exact if_pos (legal.mpr ⟨store, pre⟩)
    · refine if_neg fun down => ?_
      rw [(legal.mp down).2] at post
      exact absurd post (by decide)
  · have up : descending i = false := Bool.eq_false_iff.mpr fun down => store (legal.mp down).1
    obtain ⟨fp', result, loaded⟩ := fmovem_loads (show getFpAd i (State.mk regs fp mem).regs = _ from address) store up
    rw [right.layoutOrder] at result loaded
    have nothing (pre : i.mode = 4) : namedOrder i regs = [] :=
      not_not.mp fun some_named => forwards ⟨store, pre, some_named⟩
    refine ⟨_, result, ?_, fun store' => absurd store' store, fun _ => ⟨rfl, ?_⟩⟩
    · refine updateAreg_moved address (fun pre => ?_) fun _ => rfl
      rw [nothing pre]
      exact (BitVec.add_zero ad).trans (BitVec.sub_zero ad).symm
    · unfold operandBase
      split
      next pre =>
        have start : ad - size (namedOrder i regs).length = ad := by
          rw [nothing pre]
          exact BitVec.sub_zero ad
        rw [start]
        exact loaded
      · exact loaded

/-! ### Contents that tell lists apart -/

/-- One in the register, and zero in the others. -/
def oneIn (reg : BitVec 3) : BitVec 3 → Floatx80 :=
  fun k => if k = reg then ⟨0x3fff, 0x8000000000000000⟩ else ⟨0, 0⟩

def zeros : Memory 32 := fun _ => 0

theorem getLong_zeros (ad : BitVec 32) : getLong zeros ad = 0 := by
  unfold getLong getWord zeros
  decide

theorem layout_block {fp : BitVec 3 → Floatx80} (layout : Layout mem fp ad order) {k : Nat}
    (inside : k < order.length) : BlockAt mem (ad + size k) (fp order[k]) := by
  induction order generalizing ad k with
  | nil => exact absurd inside (Nat.not_lt_zero k)
  | cons reg order ih =>
    cases k with
    | zero =>
      rw [show ad + size 0 = ad from BitVec.add_zero ad]
      exact layout.1
    | succ k =>
      rw [size_succ, ← BitVec.add_assoc]
      exact ih layout.2 (Nat.lt_of_succ_lt_succ inside)

theorem append_zero {n m : Nat} {x : BitVec n} {y : BitVec m} (none_set : x ++ y = 0) :
    x = 0 ∧ y = 0 := by
  have value := congrArg BitVec.toNat none_set
  have zero : (0 : BitVec (n + m)).toNat = 0 := BitVec.toNat_ofNat 0 _
  rw [BitVec.toNat_append, zero, Nat.or_eq_zero_iff, Nat.shiftLeft_eq] at value
  have high : x.toNat = 0 :=
    (Nat.mul_eq_zero.mp value.1).resolve_right (Nat.ne_of_gt (Nat.two_pow_pos m))
  exact ⟨BitVec.eq_of_toNat_eq (high.trans (BitVec.toNat_ofNat 0 n).symm),
    BitVec.eq_of_toNat_eq (value.2.trans (BitVec.toNat_ofNat 0 m).symm)⟩

theorem bytes_of_long_zero (none_set : getLong mem ad = 0) :
    ∀ j < 4, mem (ad + BitVec.ofNat 32 j) = 0 := by
  obtain ⟨first, second⟩ := append_zero none_set
  obtain ⟨a, b⟩ := append_zero first
  obtain ⟨c, d⟩ := append_zero second
  intro j inside
  match j, inside with
  | 0, _ => exact (congrArg mem (BitVec.add_zero ad)).trans a
  | 1, _ => exact b
  | 2, _ => exact c
  | 3, _ =>
    rw [BitVec.add_assoc] at d
    exact d

theorem bytes_of_block_zero (block : BlockAt mem ad ⟨0, 0⟩) :
    ∀ j < 12, mem (ad + BitVec.ofNat 32 j) = 0 := by
  have first := bytes_of_long_zero (block.wrd1.trans rfl)
  have second := bytes_of_long_zero (block.wrd2.trans rfl)
  have third := bytes_of_long_zero (block.wrd3.trans rfl)
  have apart (k j : Nat) (behind : k ≤ j) :
      ad + BitVec.ofNat 32 k + BitVec.ofNat 32 (j - k) = ad + BitVec.ofNat 32 j := by
    rw [BitVec.add_assoc, ofNat_add_ofNat, Nat.add_sub_cancel' behind]
  intro j inside
  by_cases low : j < 4
  · exact first j low
  · by_cases middle : j < 8
    · rw [← apart 4 j (by omega)]
      exact second (j - 4) (by omega)
    · rw [← apart 8 j (by omega)]
      exact third (j - 8) (by omega)

/-- The register is in the list if and only if storing it leaves a mark in memory. -/
theorem stored_oneIn {base : BitVec 32} {mem' : Memory 32} {reg : BitVec 3}
    (stored : Stored zeros (oneIn reg) base order mem') : reg ∈ order ↔ mem' ≠ zeros := by
  constructor
  · intro member same
    obtain ⟨k, inside, here⟩ := List.mem_iff_getElem.mp member
    have block := layout_block stored.layout inside
    rw [here, oneIn, if_pos rfl, same] at block
    have mark : getLong zeros (base + size k) = 0x3fff0000 := block.wrd1
    exact absurd ((getLong_zeros _).symm.trans mark) (by decide)
  · intro marked
    by_contra outside
    refine marked (funext fun x => ?_)
    have place : x = base + BitVec.ofNat 32 (x - base).toNat := by
      rw [BitVec.ofNat_toNat, BitVec.setWidth_eq]
      grind
    by_cases behind : 12 * order.length ≤ (x - base).toNat
    · have apart : Apart base (12 * order.length) x 1 := ⟨behind, (x - base).isLt⟩
      have same := stored.same x 1 apart 0 (by decide)
      rwa [show x + BitVec.ofNat 32 0 = x from BitVec.add_zero x] at same
    · have inside : (x - base).toNat / 12 < order.length := by omega
      have block := layout_block stored.layout inside
      have other : order[(x - base).toNat / 12] ≠ reg := fun same =>
        outside (same ▸ List.getElem_mem inside)
      rw [oneIn, if_neg other] at block
      have none_set := bytes_of_block_zero block ((x - base).toNat % 12) (Nat.mod_lt _ (by decide))
      rw [size, BitVec.add_assoc, ofNat_add_ofNat, Nat.div_add_mod, ← place] at none_set
      exact none_set

def ones : BitVec 3 → Floatx80 := fun _ => ⟨0x3fff, 0x8000000000000000⟩

/-- The register is in the list if and only if loading it from zeros changes it. -/
theorem loaded_zeros {base : BitVec 32} {fp' : BitVec 3 → Floatx80}
    (loaded : LoadedFrom zeros base order ones fp') (reg : BitVec 3) :
    reg ∈ order ↔ fp' reg ≠ ones reg := by
  rw [loaded reg]
  simp only [List.contains_iff_mem]
  rw [getLong_zeros, getLong_zeros, getLong_zeros]
  split
  next member => exact iff_of_true member (by unfold ones; decide)
  next outside => exact iff_of_false outside (not_not_intro rfl)

theorem listRight_of_mem (same : ∀ reg, reg ∈ layoutOrder i regs ↔ reg ∈ namedOrder i regs) :
    ListRight i regs := by
  rw [listRight_iff_selects]
  intro reg
  rw [Bool.eq_iff_iff, ← mem_layoutOrder, ← mem_namedOrder]
  exact same reg

theorem TransfersRight.listRight (legal : LegalList i) (right : TransfersRight i regs)
    (address : getFpAd i regs = some ad) : ListRight i regs := by
  refine listRight_of_mem fun reg => ?_
  by_cases store : storesRegisters i
  · obtain ⟨st', result, transferred⟩ := right ad address (oneIn reg) zeros
    obtain ⟨mem', result', stored⟩ := fmovem_store i (show getFpAd i (State.mk regs (oneIn reg) zeros).regs = _ from address) store
    cases result.symm.trans result'
    exact (stored_oneIn stored).trans (stored_oneIn (transferred.store store).2).symm
  · have up : descending i = false := Bool.eq_false_iff.mpr fun down => store (legal.mp down).1
    obtain ⟨st', result, transferred⟩ := right ad address ones zeros
    obtain ⟨fp', result', loaded⟩ := fmovem_loads (show getFpAd i (State.mk regs ones zeros).regs = _ from address) store up
    cases result.symm.trans result'
    exact (loaded_zeros loaded reg).trans (loaded_zeros (transferred.load store).2 reg).symm

theorem TransfersRight.forwards (legal : LegalList i) (right : TransfersRight i regs)
    (address : getFpAd i regs = some ad) : ¬LoadsBackwards i regs := by
  rintro ⟨load, pre, some_named⟩
  have up : descending i = false := Bool.eq_false_iff.mpr fun down => load (legal.mp down).1
  obtain ⟨st', result, transferred⟩ := right ad address ones zeros
  obtain ⟨fp', result', _⟩ := fmovem_loads (show getFpAd i (State.mk regs ones zeros).regs = _ from address) load up
  cases result.symm.trans result'
  have moved := congrArg (fun r : Regs => r.areg i.reg) transferred.regs
  have few := namedOrder_length i regs
  have some_reg := List.length_pos_of_ne_nil some_named
  have bytes : (size (namedOrder i regs).length).toNat = 12 * (namedOrder i regs).length := by
    rw [size, BitVec.toNat_ofNat, Nat.mod_eq_of_lt (by omega)]
  -- An has gone up where it has to go down.
  simp only [updateAreg_eq, pre, or_true, if_true, Regs.setAreg_same, movedAreg,
    (right.listRight legal address).layoutOrder, getFpAd_areg address (.inr pre)] at moved
  generalize size (namedOrder i regs).length = moves at moved bytes
  bv_omega

/-- FMOVEM does what it has to if the list is that of the right data register, and it does not load
from -(An). -/
theorem fmovem_transfers_iff (i : Instruction) (regs : Regs) (legal : LegalList i) :
    TransfersRight i regs ↔
      getFpAd i regs = none ∨ ListRight i regs ∧ ¬LoadsBackwards i regs := by
  cases address : getFpAd i regs with
  | none =>
    refine iff_of_true (fun ad found => ?_) (.inl rfl)
    rw [address] at found
    cases found
  | some ad =>
    rw [or_iff_right (Option.some_ne_none ad)]
    exact ⟨fun right => ⟨right.listRight legal address, right.forwards legal address⟩,
      fun both => transfersRight_of legal both.1 both.2⟩

theorem pushFp01_transfers : TransfersRight pushFp01 userRegs := by
  refine (fmovem_transfers_iff pushFp01 userRegs (by unfold LegalList; decide)).mpr (.inr ⟨?_, ?_⟩)
  · exact fun dynamic => absurd dynamic (by decide)
  · exact fun backwards => backwards.1 (by decide)

/-- FMOVEM of the list in D4 to (A0). -/
def storeList4 : Instruction := ⟨0xf210, 0xf840, noStream⟩

def list4Regs : Regs := userRegs.setDreg 4 0x80

theorem storeList4_wrong : ¬∀ i regs, LegalList i → TransfersRight i regs := by
  intro claim
  have legal : LegalList storeList4 := by unfold LegalList; decide
  rcases (fmovem_transfers_iff storeList4 list4Regs legal).mp (claim storeList4 list4Regs legal) with
    illegal | ⟨list, _⟩
  · exact absurd illegal (by decide)
  · exact absurd (list (by decide)) (by decide)

end BasiliskII.Fpu
