import BasiliskII.Fpu.Fmovem
import Mathlib.Algebra.Group.Nat.Defs

/-!
# FMOVEM to memory and back

Both directions of the register list leave the same layout in memory: blocks of
three longs, in ascending order of the registers' numbers. Reading a layout back
reloads each register, so that FMOVEM restores exactly the registers that are
`Exact`.
-/
namespace BasiliskII.Fpu

open ByteMemory Cpu

/-- The registers of a list, in the order the loops meet them. -/
def selected : List (BitVec 3) → BitVec 32 → List (BitVec 3)
  | [], _ => []
  | reg :: regs, list =>
    if list &&& 0x80 ≠ 0 then reg :: selected regs (list <<< 1) else selected regs (list <<< 1)

/-- A register as three longs. -/
structure BlockAt (mem : Memory 32) (ad : BitVec 32) (src : Floatx80) : Prop where
  wrd1 : getLong mem ad = (extractExtended src).1
  wrd2 : getLong mem (ad + 4) = (extractExtended src).2.1
  wrd3 : getLong mem (ad + 8) = (extractExtended src).2.2

/-- The blocks of the registers, one behind the other. -/
def Layout (mem : Memory 32) (fp : BitVec 3 → Floatx80) : BitVec 32 → List (BitVec 3) → Prop
  | _, [] => True
  | ad, reg :: regs => BlockAt mem ad (fp reg) ∧ Layout mem fp (ad + 12) regs

variable {ad : BitVec 32} {src : Floatx80}

theorem BlockAt.congr {mem mem' : Memory 32} (block : BlockAt mem ad src)
    (same : SameBytes mem mem' ad 12) : BlockAt mem' ad src where
  wrd1 := (getLong_congr (same.mono (by decide))).trans block.wrd1
  wrd2 := (getLong_congr (same.shift 4 (by decide))).trans block.wrd2
  wrd3 := (getLong_congr (same.shift 8 (by decide))).trans block.wrd3

theorem BlockAt.reload {mem : Memory 32} (block : BlockAt mem ad src) :
    makeExtended (getLong mem ad) (getLong mem (ad + 4)) (getLong mem (ad + 8)) = reload src := by
  rw [block.wrd1, block.wrd2, block.wrd3]
  rfl

-- The three writes of a block, in either order.

theorem longs_apart (ad : BitVec 32) :
    Apart ad 4 (ad + 4) 4 ∧ Apart (ad + 4) 4 ad 4 ∧ Apart ad 4 (ad + 8) 4 ∧ Apart (ad + 8) 4 ad 4 ∧
      Apart (ad + 4) 4 (ad + 8) 4 ∧ Apart (ad + 8) 4 (ad + 4) 4 := by
  unfold Apart
  refine ⟨?_, ?_, ?_, ?_, ?_, ?_⟩ <;> constructor <;> bv_omega

/-- The longs of a block, as the loop over ascending registers writes them. -/
def blockUp (mem : Memory 32) (ad : BitVec 32) (src : Floatx80) : Memory 32 :=
  putLong (putLong (putLong mem ad (extractExtended src).1) (ad + 4) (extractExtended src).2.1)
    (ad + 8) (extractExtended src).2.2

/-- The same block, written from its end. -/
def blockDown (mem : Memory 32) (ad : BitVec 32) (src : Floatx80) : Memory 32 :=
  putLong (putLong (putLong mem (ad + 8) (extractExtended src).2.2) (ad + 4)
    (extractExtended src).2.1) ad (extractExtended src).1

variable (mem : Memory 32)

theorem blockAt_up (ad : BitVec 32) (src : Floatx80) : BlockAt (blockUp mem ad src) ad src := by
  obtain ⟨_, second_first, _, third_first, _, third_second⟩ := longs_apart ad
  unfold blockUp
  constructor
  · rw [getLong_congr (putLong_sameBytes _ _ third_first),
      getLong_congr (putLong_sameBytes _ _ second_first), getLong_putLong (by decide)]
  · rw [getLong_congr (putLong_sameBytes _ _ third_second), getLong_putLong (by decide)]
  · rw [getLong_putLong (by decide)]

theorem blockAt_down (ad : BitVec 32) (src : Floatx80) : BlockAt (blockDown mem ad src) ad src := by
  obtain ⟨first_second, _, first_third, _, second_third, _⟩ := longs_apart ad
  unfold blockDown
  constructor
  · rw [getLong_putLong (by decide)]
  · rw [getLong_congr (putLong_sameBytes _ _ first_second), getLong_putLong (by decide)]
  · rw [getLong_congr (putLong_sameBytes _ _ first_third),
      getLong_congr (putLong_sameBytes _ _ second_third), getLong_putLong (by decide)]

theorem block_sameBytes {mem : Memory 32} {b : BitVec 32} {k : Nat} (apart : Apart ad 12 b k)
    (src : Floatx80) :
    SameBytes mem (blockUp mem ad src) b k ∧ SameBytes mem (blockDown mem ad src) b k := by
  have first : Apart ad 4 b k := apart.left (by decide)
  have second : Apart (ad + 4) 4 b k := (apart.drop (i := 4) (by decide)).left (by decide)
  have third : Apart (ad + 8) 4 b k := (apart.drop (i := 8) (by decide)).left (by decide)
  constructor
  · exact ((putLong_sameBytes _ _ first).trans (putLong_sameBytes _ _ second)).trans
      (putLong_sameBytes _ _ third)
  · exact ((putLong_sameBytes _ _ third).trans (putLong_sameBytes _ _ second)).trans
      (putLong_sameBytes _ _ first)

variable (fp : BitVec 3 → Floatx80)

theorem storeUp_cons (reg : BitVec 3) (regs : List (BitVec 3)) (list ad : BitVec 32)
    (mem : Memory 32) :
    storeUp fp (reg :: regs) list (ad, mem) =
      storeUp fp regs (list <<< 1)
        (if list &&& 0x80 ≠ 0 then (ad + 12, blockUp mem ad (fp reg)) else (ad, mem)) := by
  have third : ad + 4 + 4 = ad + 8 := by grind
  have behind : ad + 8 + 4 = ad + 12 := by grind
  simp only [storeUp, third, behind]
  rfl

theorem storeDown_cons (reg : BitVec 3) (regs : List (BitVec 3)) (list ad : BitVec 32)
    (mem : Memory 32) :
    storeDown fp (reg :: regs) list (ad, mem) =
      storeDown fp regs (list <<< 1)
        (if list &&& 0x80 ≠ 0 then (ad - 12, blockDown mem (ad - 12) (fp reg)) else (ad, mem)) := by
  have third : ad - 4 = ad - 12 + 8 := by grind
  have second : ad - 12 + 8 - 4 = ad - 12 + 4 := by grind
  have first : ad - 12 + 4 - 4 = ad - 12 := by grind
  simp only [storeDown, third, second, first]
  rfl

theorem loadUp_cons (reg : BitVec 3) (regs : List (BitVec 3)) (list ad : BitVec 32)
    (fp : BitVec 3 → Floatx80) :
    loadUp mem (reg :: regs) list (ad, fp) =
      loadUp mem regs (list <<< 1)
        (if list &&& 0x80 ≠ 0 then
          (ad + 12, setFp fp reg (makeExtended (getLong mem ad) (getLong mem (ad + 4))
            (getLong mem (ad + 8))))
        else (ad, fp)) := by
  have third : ad + 4 + 4 = ad + 8 := by grind
  have behind : ad + 8 + 4 = ad + 12 := by grind
  simp only [loadUp, third, behind]

theorem loadDown_cons (reg : BitVec 3) (regs : List (BitVec 3)) (list ad : BitVec 32)
    (fp : BitVec 3 → Floatx80) :
    loadDown mem (reg :: regs) list (ad, fp) =
      loadDown mem regs (list <<< 1)
        (if list &&& 0x80 ≠ 0 then
          (ad - 12, setFp fp reg (makeExtended (getLong mem (ad - 12)) (getLong mem (ad - 12 + 4))
            (getLong mem (ad - 12 + 8))))
        else (ad, fp)) := by
  have third : ad - 4 = ad - 12 + 8 := by grind
  have second : ad - 12 + 8 - 4 = ad - 12 + 4 := by grind
  have first : ad - 12 + 4 - 4 = ad - 12 := by grind
  simp only [loadDown, third, second, first]

theorem selected_length (regs : List (BitVec 3)) (list : BitVec 32) :
    (selected regs list).length ≤ regs.length := by
  induction regs generalizing list with
  | nil => exact Nat.le_refl _
  | cons reg regs ih =>
    have rest := ih (list <<< 1)
    rw [selected]
    split <;> simp only [List.length_cons] <;> omega

/-- What a loop that stores has done: the layout is at `base` and nothing else has changed. -/
structure Stored (mem : Memory 32) (fp : BitVec 3 → Floatx80) (base : BitVec 32)
    (regs : List (BitVec 3)) (mem' : Memory 32) : Prop where
  layout : Layout mem' fp base regs
  same : ∀ b k, Apart base (12 * regs.length) b k → SameBytes mem mem' b k

/-- The bytes of `n` registers. -/
def size (n : Nat) : BitVec 32 := BitVec.ofNat 32 (12 * n)

theorem size_succ (n : Nat) : size (n + 1) = 12 + size n := by
  rw [size, size, Nat.mul_succ, Nat.add_comm, BitVec.ofNat_add]
  rfl

theorem storeUp_spec (regs : List (BitVec 3)) (list ad : BitVec 32) (mem : Memory 32)
    (fits : 12 * regs.length < 2 ^ 32) :
    (storeUp fp regs list (ad, mem)).1 = ad + size (selected regs list).length ∧
      Stored mem fp ad (selected regs list) (storeUp fp regs list (ad, mem)).2 := by
  induction regs generalizing list ad mem with
  | nil =>
    refine ⟨?_, trivial, fun b k _ i inside => rfl⟩
    simp [storeUp, selected, size]
  | cons reg regs ih =>
    have fewer := selected_length regs (list <<< 1)
    simp only [List.length_cons] at fits
    rw [storeUp_cons, selected]
    split
    next bit =>
      obtain ⟨final, layout, same⟩ :=
        ih (list <<< 1) (ad + 12) (blockUp mem ad (fp reg)) (by omega)
      have block : Apart (ad + 12) (12 * (selected regs (list <<< 1)).length) ad 12 :=
        apart_below ad (k := 12) (by omega) (by decide)
      refine ⟨?_, ⟨(blockAt_up mem ad (fp reg)).congr (same ad 12 block), layout⟩, ?_⟩
      · rw [final, List.length_cons, size_succ, BitVec.add_assoc]
      · intro b k apart
        rw [List.length_cons, Nat.mul_succ] at apart
        have rest : Apart (ad + 12) (12 * (selected regs (list <<< 1)).length) b k :=
          (apart.drop (i := 12) (by omega)).left (by omega)
        exact (block_sameBytes (apart.left (by omega)) (fp reg)).1.trans (same b k rest)
    next skipped => exact ih (list <<< 1) ad mem (by omega)

theorem layout_append (ad : BitVec 32) (first second : List (BitVec 3)) :
    Layout mem fp ad (first ++ second) ↔
      Layout mem fp ad first ∧ Layout mem fp (ad + size first.length) second := by
  induction first generalizing ad with
  | nil => simp [Layout, size]
  | cons reg first ih =>
    rw [List.cons_append, Layout, Layout, ih, List.length_cons, size_succ, BitVec.add_assoc,
      and_assoc]

theorem storeDown_spec (regs : List (BitVec 3)) (list ad : BitVec 32) (mem : Memory 32)
    (fits : 12 * regs.length < 2 ^ 32) :
    (storeDown fp regs list (ad, mem)).1 = ad - size (selected regs list).length ∧
      Stored mem fp (ad - size (selected regs list).length) (selected regs list).reverse
        (storeDown fp regs list (ad, mem)).2 := by
  induction regs generalizing list ad mem with
  | nil =>
    refine ⟨?_, trivial, fun b k _ i inside => rfl⟩
    simp [storeDown, selected, size]
  | cons reg regs ih =>
    have fewer := selected_length regs (list <<< 1)
    simp only [List.length_cons] at fits
    rw [storeDown_cons, selected]
    split
    next bit =>
      obtain ⟨final, layout, same⟩ :=
        ih (list <<< 1) (ad - 12) (blockDown mem (ad - 12) (fp reg)) (by omega)
      rw [List.length_reverse] at same
      have base : ad - size (reg :: selected regs (list <<< 1)).length =
          ad - (12 : BitVec 32) - size (selected regs (list <<< 1)).length := by
        rw [List.length_cons, size_succ]
        grind
      rw [base]
      generalize selected regs (list <<< 1) = rest at *
      have behind : ad - (12 : BitVec 32) - size rest.length + size rest.length = ad - 12 := by
        grind
      have block : Apart (ad - 12 - size rest.length) (12 * rest.length) (ad - 12) 12 := by
        have apart := apart_behind (ad - 12 - size rest.length) (n := 12 * rest.length) (k := 12)
          (by omega) (by decide)
        rwa [← size, behind] at apart
      refine ⟨final, ?_, ?_⟩
      · rw [List.reverse_cons, layout_append, List.length_reverse, behind]
        exact ⟨layout, (blockAt_down mem (ad - 12) (fp reg)).congr (same _ 12 block), trivial⟩
      · intro b k apart
        rw [List.length_reverse, List.length_cons, Nat.mul_succ] at apart
        have first : Apart (ad - 12) 12 b k := by
          have dropped := apart.drop (i := 12 * rest.length) (by omega)
          rw [← size, behind] at dropped
          exact dropped.left (by omega)
        exact (block_sameBytes first (fp reg)).2.trans (same b k (apart.left (by omega)))
    next skipped => exact ih (list <<< 1) ad mem (by omega)

/-- What a loop that loads has done. -/
def Loaded (orig before : BitVec 3 → Floatx80) (regs : List (BitVec 3))
    (after : BitVec 3 → Floatx80) : Prop :=
  ∀ reg, after reg = if reg ∈ regs then reload (orig reg) else before reg

theorem Loaded.cons {orig before after : BitVec 3 → Floatx80} {reg : BitVec 3}
    {regs : List (BitVec 3)} (loaded : Loaded orig (setFp before reg (reload (orig reg))) regs after) :
    Loaded orig before (reg :: regs) after := by
  intro k
  rw [loaded k]
  by_cases later : k ∈ regs
  · rw [if_pos later, if_pos (List.mem_cons_of_mem _ later)]
  · by_cases here : k = reg
    · simp [here, setFp]
    · simp [later, here, setFp]

theorem loadUp_spec (orig : BitVec 3 → Floatx80) (regs : List (BitVec 3)) (list ad : BitVec 32)
    (fp : BitVec 3 → Floatx80) (layout : Layout mem orig ad (selected regs list)) :
    (loadUp mem regs list (ad, fp)).1 = ad + size (selected regs list).length ∧
      Loaded orig fp (selected regs list) (loadUp mem regs list (ad, fp)).2 := by
  induction regs generalizing list ad fp with
  | nil =>
    refine ⟨?_, fun k => rfl⟩
    simp [loadUp, selected, size]
  | cons reg regs ih =>
    rw [loadUp_cons]
    rw [selected] at layout ⊢
    split at layout
    next bit =>
      obtain ⟨block, rest⟩ := layout
      rw [if_pos bit, if_pos bit, block.reload]
      obtain ⟨final, loaded⟩ := ih (list <<< 1) (ad + 12) (setFp fp reg (reload (orig reg))) rest
      refine ⟨?_, loaded.cons⟩
      rw [final, List.length_cons, size_succ, BitVec.add_assoc]
    next skipped =>
      rw [if_neg skipped, if_neg skipped]
      exact ih (list <<< 1) ad fp layout

theorem loadDown_spec (orig : BitVec 3 → Floatx80) (regs : List (BitVec 3)) (list ad : BitVec 32)
    (fp : BitVec 3 → Floatx80)
    (layout : Layout mem orig (ad - size (selected regs list).length) (selected regs list).reverse) :
    (loadDown mem regs list (ad, fp)).1 = ad - size (selected regs list).length ∧
      Loaded orig fp (selected regs list) (loadDown mem regs list (ad, fp)).2 := by
  induction regs generalizing list ad fp with
  | nil =>
    refine ⟨?_, fun k => rfl⟩
    simp [loadDown, selected, size]
  | cons reg regs ih =>
    rw [loadDown_cons]
    rw [selected] at layout ⊢
    split at layout
    next bit =>
      rw [if_pos bit, if_pos bit]
      have base : ad - size (reg :: selected regs (list <<< 1)).length =
          ad - (12 : BitVec 32) - size (selected regs (list <<< 1)).length := by
        rw [List.length_cons, size_succ]
        grind
      rw [base] at layout ⊢
      rw [List.reverse_cons, layout_append, List.length_reverse, BitVec.sub_add_cancel] at layout
      obtain ⟨rest, block, _⟩ := layout
      rw [block.reload]
      obtain ⟨final, loaded⟩ := ih (list <<< 1) (ad - 12) (setFp fp reg (reload (orig reg))) rest
      exact ⟨final, loaded.cons⟩
    next skipped =>
      rw [if_neg skipped, if_neg skipped]
      exact ih (list <<< 1) ad fp layout

-- Lists of one instruction and the other.

theorem and_bit7_ne_zero (list : BitVec 32) : list &&& 0x80 ≠ 0 ↔ list.getLsbD 7 = true := by
  have single := BitVec.and_twoPow list 7
  have literal : BitVec.twoPow 32 7 = 0x80 := by decide
  rw [literal] at single
  rw [single]
  split
  next bit => exact iff_of_true (by decide) bit
  next bit => exact iff_of_false (by decide) bit

theorem selected_eq_filter (p : BitVec 3 → Bool) (regs : List (BitVec 3)) (list : BitVec 32)
    (bits : ∀ (i : Nat) reg, regs[i]? = some reg → BitVec.getLsbD (list <<< i) 7 = p reg) :
    selected regs list = regs.filter p := by
  induction regs generalizing list with
  | nil => rfl
  | cons reg regs ih =>
    have rest : selected regs (list <<< 1) = regs.filter p := by
      apply ih
      intro i other at_i
      rw [← BitVec.shiftLeft_add, Nat.add_comm]
      exact bits (i + 1) other at_i
    have first : list.getLsbD 7 = p reg := by
      have bit := bits 0 reg rfl
      rwa [BitVec.shiftLeft_zero] at bit
    simp only [selected, rest, and_bit7_ne_zero, first, List.filter_cons]

/-- The register list of `i` has the register. -/
def selects (i : Instruction) (regs : Regs) (reg : BitVec 3) : Bool :=
  (registerList i regs).getLsbD (if descending i then reg.toNat else 7 - reg.toNat)

variable {regs : Regs}

theorem selected_down {i : Instruction} (down : descending i = true) :
    selected regsDown (registerList i regs) = regsDown.filter (selects i regs) := by
  apply selected_eq_filter
  intro k reg at_k
  have inside : k < 8 := (List.getElem?_eq_some_iff.mp at_k).1
  simp only [selects, down, if_true, BitVec.getLsbD_shiftLeft]
  match k, inside with
  | 0, _ | 1, _ | 2, _ | 3, _ | 4, _ | 5, _ | 6, _ | 7, _ =>
    cases at_k
    rfl

theorem selected_up {i : Instruction} (up : descending i = false) :
    selected regsUp (registerList i regs) = regsUp.filter (selects i regs) := by
  apply selected_eq_filter
  intro k reg at_k
  have inside : k < 8 := (List.getElem?_eq_some_iff.mp at_k).1
  simp only [selects, up, BitVec.getLsbD_shiftLeft]
  match k, inside with
  | 0, _ | 1, _ | 2, _ | 3, _ | 4, _ | 5, _ | 6, _ | 7, _ =>
    cases at_k
    rfl

/-- Where the layout of an instruction that starts at `ad` begins. -/
def base (i : Instruction) (ad : BitVec 32) (count : Nat) : BitVec 32 :=
  if descending i then ad - size count else ad

def final (i : Instruction) (ad : BitVec 32) (count : Nat) : BitVec 32 :=
  if descending i then ad - size count else ad + size count

/-- The registers of the list, in ascending order. -/
def layoutOrder (i : Instruction) (regs : Regs) : List (BitVec 3) := regsUp.filter (selects i regs)

variable (i : Instruction)

theorem selected_layoutOrder (regs : Regs) :
    (descending i = true →
      (selected regsDown (registerList i regs)).reverse = layoutOrder i regs) ∧
    (descending i = false → selected regsUp (registerList i regs) = layoutOrder i regs) := by
  constructor
  · intro down
    rw [selected_down down, layoutOrder, ← List.filter_reverse]
    rfl
  · exact selected_up

theorem mem_layoutOrder (regs : Regs) (reg : BitVec 3) :
    reg ∈ layoutOrder i regs ↔ selects i regs reg = true := by
  have all : ∀ k : BitVec 3, k ∈ regsUp := by decide
  simp [layoutOrder, all reg]

theorem fmovem_store {st : State} (address : getFpAd i st.regs = some ad)
    (store : i.extra &&& 0x2000 ≠ 0) :
    ∃ mem, fmovem i st = some
        { st with
          regs := updateAreg i st.regs (final i ad (layoutOrder i st.regs).length), mem } ∧
      Stored st.mem st.fp (base i ad (layoutOrder i st.regs).length) (layoutOrder i st.regs) mem := by
  have order := selected_layoutOrder i st.regs
  simp only [fmovem, address, Option.bind_eq_bind, Option.bind_some, if_pos store]
  cases down : descending i with
  | true =>
    have same := order.1 down
    obtain ⟨at_end, stored⟩ := storeDown_spec st.fp regsDown (registerList i st.regs) ad st.mem
      (by decide)
    have count : (selected regsDown (registerList i st.regs)).length =
        (layoutOrder i st.regs).length := by rw [← same, List.length_reverse]
    rw [same, count] at stored
    rw [count] at at_end
    refine ⟨(storeDown st.fp regsDown (registerList i st.regs) (ad, st.mem)).2, ?_, ?_⟩
    · simp only [if_true, at_end, final, down]
    · simpa only [base, down, if_true] using stored
  | false =>
    have same := order.2 down
    obtain ⟨at_end, stored⟩ := storeUp_spec st.fp regsUp (registerList i st.regs) ad st.mem
      (by decide)
    rw [same] at stored at_end
    refine ⟨(storeUp st.fp regsUp (registerList i st.regs) (ad, st.mem)).2, ?_, ?_⟩
    · simp only [Bool.false_eq_true, if_false, at_end, final, down]
    · simpa only [base, down, Bool.false_eq_true, if_false] using stored

theorem fmovem_load (st : State) {orig : BitVec 3 → Floatx80}
    (address : getFpAd i st.regs = some ad) (load : i.extra &&& 0x2000 = 0)
    (layout : Layout st.mem orig (base i ad (layoutOrder i st.regs).length)
      (layoutOrder i st.regs)) :
    ∃ fp, fmovem i st = some
        { st with
          regs := updateAreg i st.regs (final i ad (layoutOrder i st.regs).length), fp } ∧
      Loaded orig st.fp (layoutOrder i st.regs) fp := by
  have order := selected_layoutOrder i st.regs
  have not_store : ¬ i.extra &&& 0x2000 ≠ 0 := fun store => store load
  simp only [fmovem, address, Option.bind_eq_bind, Option.bind_some, if_neg not_store]
  cases down : descending i with
  | true =>
    have same := order.1 down
    have count : (selected regsDown (registerList i st.regs)).length =
        (layoutOrder i st.regs).length := by rw [← same, List.length_reverse]
    rw [base, if_pos down, ← same, List.length_reverse] at layout
    obtain ⟨at_end, loaded⟩ :=
      loadDown_spec st.mem orig regsDown (registerList i st.regs) ad st.fp layout
    rw [count] at at_end
    refine ⟨(loadDown st.mem regsDown (registerList i st.regs) (ad, st.fp)).2, ?_, fun reg => ?_⟩
    · simp only [if_true, at_end, final, down]
    · rw [loaded reg, ← same]
      simp only [List.mem_reverse]
  | false =>
    have same := order.2 down
    have up : ¬ descending i = true := by simp [down]
    rw [base, if_neg up, ← same] at layout
    obtain ⟨at_end, loaded⟩ :=
      loadUp_spec st.mem orig regsUp (registerList i st.regs) ad st.fp layout
    rw [same] at at_end loaded
    refine ⟨(loadUp st.mem regsUp (registerList i st.regs) (ad, st.fp)).2, ?_, loaded⟩
    simp only [Bool.false_eq_true, if_false, at_end, final, down]

theorem mode_bits (opcode : BitVec 16) :
    opcode &&& (0x38 : BitVec 16) = (opcode.extractLsb' 3 3).setWidth 16 <<< 3 := by
  apply BitVec.eq_of_getLsbD_eq
  intro i inside
  have mask : ∀ j : Fin 16, (0x38 : BitVec 16).getLsbD j = decide (3 ≤ j.val ∧ j.val < 6) := by
    decide
  have bit : (0x38 : BitVec 16).getLsbD i = decide (3 ≤ i ∧ i < 6) := mask ⟨i, inside⟩
  rw [BitVec.getLsbD_and, bit, BitVec.getLsbD_shiftLeft, BitVec.getLsbD_setWidth,
    BitVec.getLsbD_extractLsb']
  by_cases low : i < 3
  · simp [low, show ¬ 3 ≤ i by omega]
  · by_cases high : i < 6
    · simp [low, high, inside, show 3 ≤ i by omega, show i - 3 < 3 by omega,
        show i - 3 < 16 by omega, show 3 + (i - 3) = i by omega]
    · simp [high, show ¬ i - 3 < 3 by omega]

theorem updateAreg_eq (regs : Regs) (ad : BitVec 32) :
    updateAreg i regs ad =
      if i.mode = 3 ∨ i.mode = 4 then regs.setAreg i.reg ad else regs := by
  have shifted : ∀ mode : BitVec 3, (mode.setWidth 16 <<< 3 = (0x18 : BitVec 16) ↔ mode = 3) ∧
      (mode.setWidth 16 <<< 3 = (0x20 : BitVec 16) ↔ mode = 4) := by decide
  have post : i.opcode &&& (0x38 : BitVec 16) = 0x18 ↔ i.mode = 3 := by
    rw [mode_bits]
    exact (shifted _).1
  have pre : i.opcode &&& (0x38 : BitVec 16) = 0x20 ↔ i.mode = 4 := by
    rw [mode_bits]
    exact (shifted _).2
  simp only [updateAreg, post, pre]
  by_cases is_post : i.mode = 3
  · simp only [is_post, if_true, true_or]
    rfl
  · simp only [is_post, if_false, false_or]

/-- An instruction that stores and one that loads what it has stored: `-(An)` and `(An)+`, or
both at the same address. -/
inductive Paired (regs : Regs) (store load : Instruction) : Prop
  | predecrement (store_mode : store.mode = 4) (load_mode : load.mode = 3)
      (same_reg : load.reg = store.reg) (down : descending store = true)
      (up : descending load = false)
  | control (ad : BitVec 32) (store_mode : store.mode ≠ 3 ∧ store.mode ≠ 4)
      (load_mode : load.mode ≠ 3 ∧ load.mode ≠ 4) (store_ad : getFpAd store regs = some ad)
      (load_ad : getFpAd load regs = some ad) (same_order : descending store = descending load)

theorem layoutOrder_congr {store load : Instruction} {regs' : Regs}
    (same_list : ∀ reg, selects store regs reg = selects load regs reg)
    (same_dreg : regs'.dreg = regs.dreg) : layoutOrder load regs' = layoutOrder store regs := by
  apply List.filter_congr
  intro reg _
  rw [same_list reg]
  simp only [selects, registerList, same_dreg]

/-- The load finds the layout of the store, and ends where the store began. -/
theorem Paired.load_address {store load : Instruction} (paired : Paired regs store load)
    (count : Nat) :
    ∃ ad ad', getFpAd store regs = some ad ∧
      getFpAd load (updateAreg store regs (final store ad count)) = some ad' ∧
      base load ad' count = base store ad count ∧
      (updateAreg store regs (final store ad count)).dreg = regs.dreg ∧
      updateAreg load (updateAreg store regs (final store ad count)) (final load ad' count) =
        regs := by
  cases paired with
  | predecrement store_mode load_mode same_reg down up =>
    have store_ad : getFpAd store regs = some (regs.areg store.reg) := by
      rw [getFpAd, store_mode]
      rfl
    have not_down : ¬ descending load = true := by simp [up]
    simp only [updateAreg_eq, store_mode, load_mode, true_or, or_true, if_true, same_reg]
    refine ⟨_, regs.areg store.reg - size count, store_ad, ?_, ?_, rfl, ?_⟩
    · rw [getFpAd, load_mode, same_reg, final, if_pos down]
      exact congrArg some (Regs.setAreg_same _ _ _)
    · simp only [base, if_pos down, if_neg not_down]
    · rw [final, final, if_neg not_down, BitVec.sub_add_cancel, Regs.setAreg_setAreg,
        Regs.setAreg_self]
  | control ad store_mode load_mode store_ad load_ad same_order =>
    have store_kept : ∀ target, updateAreg store regs target = regs := by
      intro target
      rw [updateAreg_eq, if_neg (not_or.mpr store_mode)]
    have load_kept : ∀ target, updateAreg load regs target = regs := by
      intro target
      rw [updateAreg_eq, if_neg (not_or.mpr load_mode)]
    refine ⟨ad, ad, store_ad, ?_, ?_, ?_, ?_⟩
    · rw [store_kept, load_ad]
    · rw [base, base, same_order]
    · rw [store_kept]
    · rw [store_kept, load_kept]

/-- FMOVEM to memory and back reloads the registers of the list and leaves the others and the
CPU registers alone. -/
theorem fmovem_reloads {store load : Instruction} {st : State}
    (stores : store.extra &&& 0x2000 ≠ 0) (loads : load.extra &&& 0x2000 = 0)
    (paired : Paired st.regs store load)
    (same_list : ∀ reg, selects store st.regs reg = selects load st.regs reg)
    (between : BitVec 3 → Floatx80) :
    ∃ stored loaded, fmovem store st = some stored ∧
      fmovem load { stored with fp := between } = some loaded ∧
      stored.fp = st.fp ∧ loaded.regs = st.regs ∧
      ∀ reg, loaded.fp reg =
        if selects store st.regs reg then reload (st.fp reg) else between reg := by
  obtain ⟨ad, ad', store_ad, load_ad, same_base, same_dreg, restored⟩ :=
    paired.load_address (layoutOrder store st.regs).length
  obtain ⟨mem, stored, layout, _⟩ := fmovem_store store store_ad stores
  have same_order := layoutOrder_congr same_list same_dreg
  generalize updateAreg store st.regs (final store ad (layoutOrder store st.regs).length) = after
    at load_ad same_dreg restored stored same_order
  have load_layout : Layout mem st.fp (base load ad' (layoutOrder load after).length)
      (layoutOrder load after) := by
    rw [same_order, same_base]
    exact layout
  obtain ⟨fp, loaded, loaded_fp⟩ := fmovem_load load ⟨after, between, mem⟩ load_ad loads load_layout
  replace loaded_fp : Loaded st.fp between (layoutOrder load after) fp := loaded_fp
  rw [same_order] at loaded_fp
  refine ⟨_, _, stored, loaded, rfl, ?_, fun reg => (loaded_fp reg).trans ?_⟩
  · show updateAreg load after (final load ad' (layoutOrder load after).length) = st.regs
    rw [same_order]
    exact restored
  · simp only [mem_layoutOrder]

/-- FMOVEM to memory and back restores the registers of the list if and only if each of them is
`Exact`; the others and the CPU registers, An among them, are left as they were. -/
theorem fmovem_restores_iff {store load : Instruction} {st : State}
    (stores : store.extra &&& 0x2000 ≠ 0) (loads : load.extra &&& 0x2000 = 0)
    (paired : Paired st.regs store load)
    (same_list : ∀ reg, selects store st.regs reg = selects load st.regs reg)
    (between : BitVec 3 → Floatx80) :
    ∃ stored loaded, fmovem store st = some stored ∧
      fmovem load { stored with fp := between } = some loaded ∧
      stored.fp = st.fp ∧ loaded.regs = st.regs ∧
      (∀ reg, selects store st.regs reg = false → loaded.fp reg = between reg) ∧
      ((∀ reg, selects store st.regs reg = true → loaded.fp reg = st.fp reg) ↔
        ∀ reg, selects store st.regs reg = true → Exact (st.fp reg)) := by
  obtain ⟨stored, loaded, first, second, same_fp, same_regs, reloaded⟩ :=
    fmovem_reloads stores loads paired same_list between
  refine ⟨stored, loaded, first, second, same_fp, same_regs, fun reg outside => ?_, ?_⟩
  · rw [reloaded reg, outside]
    rfl
  · have each : ∀ reg, selects store st.regs reg = true →
        (loaded.fp reg = st.fp reg ↔ Exact (st.fp reg)) := by
      intro reg chosen
      rw [reloaded reg, if_pos chosen, reload_eq_self_iff]
    constructor
    · exact fun same reg chosen => (each reg chosen).mp (same reg chosen)
    · exact fun exact_fp reg chosen => (each reg chosen).mpr (exact_fp reg chosen)

-- FMOVEM FP0-FP1,-(A0) and FMOVEM (A0)+,FP0-FP1.

def noStream : Stream := ⟨0, 0, 0, fun _ _ => 0⟩

def pushFp01 : Instruction := ⟨0xf220, 0xe003, noStream⟩

def popFp01 : Instruction := ⟨0xf218, 0xd0c0, noStream⟩

def userRegs : Regs where
  dreg := fun _ => 0
  areg := fun _ => 0x1000
  pc := 0
  intmask := 0
  vbr := 0
  usp := 0
  isp := 0
  msp := 0
  sr := 0
  t1 := false
  t0 := false
  s := false
  m := false
  flags := ⟨false, false, false, false, false⟩

def stateWith (fp : BitVec 3 → Floatx80) : State := ⟨userRegs, fp, fun _ => 0⟩

theorem fp01_same_list : ∀ reg, selects pushFp01 userRegs reg = selects popFp01 userRegs reg := by
  decide

theorem fp01_paired : Paired userRegs pushFp01 popFp01 :=
  .predecrement (by decide) (by decide) (by decide) (by decide) (by decide)

/-- One is restored after FP0 and FP1 have been used for something else. -/
theorem one_restored : ∃ stored loaded,
    fmovem pushFp01 (stateWith fun _ => ⟨0x3fff, 0x8000000000000000⟩) = some stored ∧
    fmovem popFp01 { stored with fp := fun _ => ⟨0, 0⟩ } = some loaded ∧
    loaded.fp 1 = ⟨0x3fff, 0x8000000000000000⟩ := by
  obtain ⟨stored, loaded, first, second, _, _, _, restored⟩ :=
    @fmovem_restores_iff pushFp01 popFp01 (stateWith fun _ => ⟨0x3fff, 0x8000000000000000⟩)
      (by decide) (by decide) fp01_paired fp01_same_list (fun _ => ⟨0, 0⟩)
  refine ⟨stored, loaded, first, second, ?_⟩
  have one_exact : Exact ⟨0x3fff, 0x8000000000000000⟩ := by decide
  exact restored.mpr (fun _ _ => one_exact) 1 (by decide)

/-- FP0 comes back as something else when both registers hold `src`. -/
def ChangedBy (src : Floatx80) : Prop :=
  ∃ stored loaded, fmovem pushFp01 (stateWith fun _ => src) = some stored ∧
    fmovem popFp01 stored = some loaded ∧ stored.fp 0 = src ∧ loaded.fp 0 ≠ src

theorem changedBy_of_reload (changed : reload src ≠ src) : ChangedBy src := by
  obtain ⟨stored, loaded, first, second, same_fp, _, reloaded⟩ :=
    @fmovem_reloads pushFp01 popFp01 (stateWith fun _ => src) (by decide) (by decide)
      fp01_paired fp01_same_list (fun _ => src)
  have in_list : selects pushFp01 userRegs 0 = true := by decide
  have kept : { stored with fp := fun _ => src } = stored := by
    have same : stored.fp = fun _ => src := same_fp
    rw [← same]
  rw [kept] at second
  refine ⟨stored, loaded, first, second, congrFun same_fp 0, ?_⟩
  rw [reloaded 0]
  exact fun same => changed ((if_pos in_list).symm.trans same)

/-- Negative zero, both infinities, a NaN and the smallest denormal. -/
theorem infinity_not_restored :
    ChangedBy ⟨0x8000, 0⟩ ∧ ChangedBy ⟨0x7fff, 0x8000000000000000⟩ ∧ ChangedBy ⟨0xffff, 0⟩ ∧
      ChangedBy ⟨0x7fff, 1⟩ ∧ ChangedBy ⟨0, 1⟩ := by
  refine ⟨?_, ?_, ?_, ?_, ?_⟩
  all_goals
    apply changedBy_of_reload
    decide

end BasiliskII.Fpu
