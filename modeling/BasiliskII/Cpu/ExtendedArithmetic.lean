import BasiliskII.Cpu.CompareAndSwap
import BasiliskII.Library.RippleCarry
import Mathlib.Data.List.Basic

/-!
# ADDX and SUBX

The handlers gencpu.c emits for the instructions that take X as a carry in, and
chains of them over numbers of several operands. `flag_addx` and `flag_subx`
make the carry from the three signs; Z is only ever cleared.
-/
namespace BasiliskII.Cpu

open ByteMemory RippleCarry

/-- The value `GET_XFLG ? 1 : 0`. -/
def Flags.extend (f : Flags) (n : Nat) : BitVec n := if f.x then 1 else 0

/-- i_ADDX, with `flag_addx` and `flag_zn`. -/
def addx {n : Nat} (f : Flags) (src dst : BitVec n) : BitVec n × Flags :=
  let newv := dst + src + f.extend n
  let flgs := src.msb
  let flgo := dst.msb
  let flgn := newv.msb
  let c := flgs ^^ ((flgs ^^ flgo) && (flgo ^^ flgn))
  (newv, { x := c, n := flgn, z := f.z && newv = 0#n, v := (flgs ^^ flgn) && (flgo ^^ flgn), c })

/-- i_SUBX, with `flag_subx` and `flag_zn`. -/
def subx {n : Nat} (f : Flags) (src dst : BitVec n) : BitVec n × Flags :=
  let newv := dst - src - f.extend n
  let flgs := src.msb
  let flgo := dst.msb
  let flgn := newv.msb
  let c := flgs ^^ ((flgs ^^ flgn) && (flgo ^^ flgn))
  (newv, { x := c, n := flgn, z := f.z && newv = 0#n, v := (flgs ^^ flgo) && (flgo ^^ flgn), c })

/-- The two forms of the instructions: data registers, or `-(Ay),-(Ax)`. -/
inductive ExtendedMode
  | dreg | apdi
  deriving DecidableEq, Repr

structure ExtendedInstr where
  mode : ExtendedMode
  srcreg : BitVec 3
  dstreg : BitVec 3

/-- What an instruction makes of its source, its destination and the flags. -/
abbrev ExtendedOp (size : Size) :=
  Flags → BitVec size.bits → BitVec size.bits → BitVec size.bits × Flags

/-- The handler of ADDX, SUBX, ABCD or SBCD. -/
def extended (cpu : CPUType) (size : Size) (op : ExtendedOp size) (i : ExtendedInstr)
    (st : Machine) : Machine :=
  match i.mode with
  | .dreg =>
    let src := st.regs.low size i.srcreg
    let dst := st.regs.low size i.dstreg
    let (newv, flags) := op st.regs.flags src dst
    let regs := { st.regs with flags }.storeDreg size i.dstreg (newv.setWidth 32)
    ({ st.begin with st := ⟨regs, st.mem⟩ } : Handler).syncPc.st
  | .apdi =>
    let ((_, src), h) := MemMode.apdi.operand cpu i.srcreg size st.begin
    let ((dsta, dst), h) := MemMode.apdi.operand cpu i.dstreg size h
    let (newv, flags) := op h.st.regs.flags src dst
    let mem := size.put h.st.mem dsta (newv.setWidth 32)
    ({ h with st := ⟨{ h.st.regs with flags }, mem⟩ } : Handler).syncPc.st

-- What an instruction reads and writes.

def ExtendedInstr.source (i : ExtendedInstr) (size : Size) (st : Machine) : BitVec size.bits :=
  match i.mode with
  | .dreg => st.regs.low size i.srcreg
  | .apdi => size.get st.mem (st.regs.areg i.srcreg - size.step i.srcreg)

def ExtendedInstr.destination (i : ExtendedInstr) (size : Size) (st : Machine) :
    BitVec size.bits :=
  match i.mode with
  | .dreg => st.regs.low size i.dstreg
  | .apdi =>
    let regs := st.regs.setAreg i.srcreg (st.regs.areg i.srcreg - size.step i.srcreg)
    size.get st.mem (regs.areg i.dstreg - size.step i.dstreg)

/-- What the destination holds once the instruction is done. -/
def ExtendedInstr.result (i : ExtendedInstr) (size : Size) (st : Machine) : BitVec size.bits :=
  match i.mode with
  | .dreg => st.regs.low size i.dstreg
  | .apdi => size.get st.mem (st.regs.areg i.dstreg)

theorem Size.get_put (size : Size) (mem : Memory 32) (a : BitVec 32) (value : BitVec size.bits) :
    size.get (size.put mem a (value.setWidth 32)) a = value := by
  have narrow : (value.setWidth 32).setWidth size.bits = value := by
    rw [BitVec.setWidth_setWidth_of_le value size.bits_le, BitVec.setWidth_eq]
  cases size with
  | byte => exact (if_pos rfl).trans narrow
  | word => exact (getWord_putWord (by decide) mem a _).trans narrow
  | long => exact (getLong_putLong (by decide) mem a _).trans (BitVec.setWidth_eq value)

/-- An instruction writes what its operation makes of what it has read. -/
theorem extended_spec (cpu : CPUType) {size : Size} (op : ExtendedOp size) (i : ExtendedInstr)
    (st : Machine) :
    op st.regs.flags (i.source size st) (i.destination size st) =
      (i.result size (extended cpu size op i st), (extended cpu size op i st).regs.flags) := by
  obtain ⟨mode, srcreg, dstreg⟩ := i
  cases mode with
  | dreg =>
    have low := Regs.storeDreg_low { st.regs with
        flags := (op st.regs.flags (st.regs.low size srcreg) (st.regs.low size dstreg)).2 } size dstreg
      ((op st.regs.flags (st.regs.low size srcreg) (st.regs.low size dstreg)).1.setWidth 32) dstreg
    rw [if_pos rfl, BitVec.setWidth_setWidth_of_le _ size.bits_le, BitVec.setWidth_eq] at low
    exact Prod.ext low.symm rfl
  | apdi =>
    apply Prod.ext
    · simp only [ExtendedInstr.result, extended, Handler.syncPc_mem, Handler.syncPc_areg,
        MemMode.operand, MemMode.fixUp, MemMode.address, Regs.setAreg_same, Size.get_put]
      rfl
    · rfl

/-- The operands and the results of a run of instructions, in its order. -/
def extendedSteps (cpu : CPUType) (size : Size) (op : ExtendedOp size) (st : Machine) :
    List ExtendedInstr → List (BitVec size.bits × BitVec size.bits × BitVec size.bits)
  | [] => []
  | i :: rest =>
    (i.source size st, i.destination size st, i.result size (extended cpu size op i st)) ::
      extendedSteps cpu size op (extended cpu size op i st) rest

def extendedRun (cpu : CPUType) (size : Size) (op : ExtendedOp size) (st : Machine)
    (instrs : List ExtendedInstr) : Machine :=
  instrs.foldl (fun st i => extended cpu size op i st) st

theorem extendedRun_chain (cpu : CPUType) (size : Size) (op : ExtendedOp size) (st : Machine)
    (instrs : List ExtendedInstr) :
    Chain op st.regs.flags (extendedSteps cpu size op st instrs)
      (extendedRun cpu size op st instrs).regs.flags := by
  induction instrs generalizing st with
  | nil => exact .nil _
  | cons i rest ih =>
    have made := extended_spec cpu op i st
    have chain := ih (extended cpu size op i st)
    have flags : (extended cpu size op i st).regs.flags =
        (op st.regs.flags (i.source size st) (i.destination size st)).2 := by rw [made]
    have result : i.result size (extended cpu size op i st) =
        (op st.regs.flags (i.source size st) (i.destination size st)).1 := by rw [made]
    rw [flags] at chain
    rw [extendedSteps, result]
    exact .cons _ _ _ chain

-- A number in memory, from the top down.

/-- Limb `i` of the number below `a`, the least significant limb first. -/
def limbAt (size : Size) (reg : BitVec 3) (a : BitVec 32) (i : Nat) : BitVec 32 :=
  a - BitVec.ofNat 32 (i + 1) * size.step reg

theorem limbAt_zero (size : Size) (reg : BitVec 3) (a : BitVec 32) :
    limbAt size reg a 0 = a - size.step reg := by
  rw [limbAt, Nat.zero_add, BitVec.one_mul]

theorem limbAt_succ (size : Size) (reg : BitVec 3) (a : BitVec 32) (i : Nat) :
    limbAt size reg a (i + 1) = limbAt size reg (a - size.step reg) i := by
  rw [limbAt, limbAt, BitVec.ofNat_add (i + 1) 1]
  grind

theorem Size.put_sameBytes (size : Size) (mem : Memory 32) {a b : BitVec 32} {k : Nat}
    (value : BitVec 32) (apart : Apart a size.bytes b k) :
    SameBytes mem (size.put mem a value) b k := by
  cases size with
  | byte => exact ByteMemory.put_sameBytes mem _ apart
  | word => exact putWord_sameBytes mem _ apart
  | long => exact putLong_sameBytes mem _ apart

theorem Size.get_congr (size : Size) {mem mem' : Memory 32} {b : BitVec 32}
    (same : SameBytes mem mem' b size.bytes) : size.get mem' b = size.get mem b := by
  cases size with
  | byte =>
    have byte := same 0 Nat.zero_lt_one
    rwa [BitVec.add_zero] at byte
  | word => exact getWord_congr same
  | long => exact getLong_congr same

section

variable (cpu : CPUType) {size : Size} (op : ExtendedOp size) {x y : BitVec 3} (st : Machine)

/-- The memory form moves both registers and writes below the second. -/
theorem extended_apdi (different : x ≠ y) :
    (extended cpu size op ⟨.apdi, x, y⟩ st).regs.areg x = st.regs.areg x - size.step x ∧
      (extended cpu size op ⟨.apdi, x, y⟩ st).regs.areg y = st.regs.areg y - size.step y ∧
      ∃ value, (extended cpu size op ⟨.apdi, x, y⟩ st).mem =
        size.put st.mem (st.regs.areg y - size.step y) value := by
  have source := Regs.setAreg_other st.regs (st.regs.areg x - size.step x) different.symm
  simp only [extended, MemMode.operand, MemMode.address, MemMode.fixUp, Machine.begin,
    Handler.syncPc_areg, Handler.syncPc_mem, source, Regs.setAreg_same,
    Regs.setAreg_other _ _ different, true_and]
  exact ⟨_, rfl⟩

/-- What is apart from the limbs of the destination stays. -/
theorem extendedRun_sameBytes (different : x ≠ y) {b : BitVec 32} {k : Nat} (n : Nat)
    (apart : ∀ j < n, Apart (limbAt size y (st.regs.areg y) j) size.bytes b k) :
    SameBytes st.mem (extendedRun cpu size op st (List.replicate n ⟨.apdi, x, y⟩)).mem b k := by
  induction n generalizing st with
  | zero => exact fun _ _ => rfl
  | succ n ih =>
    obtain ⟨-, moved, value, written⟩ := extended_apdi cpu op st different
    have first := apart 0 (Nat.succ_pos n)
    rw [limbAt_zero] at first
    have here : SameBytes st.mem (extended cpu size op ⟨.apdi, x, y⟩ st).mem b k := by
      rw [written]
      exact size.put_sameBytes st.mem value first
    apply here.trans
    apply ih
    intro j below
    rw [moved, ← limbAt_succ]
    exact apart (j + 1) (Nat.succ_lt_succ below)

theorem limbs_apart (size : Size) (reg : BitVec 3) (a : BitVec 32) {n i j : Nat}
    (fits : n * (size.step reg).toNat ≤ 2 ^ 32) (inside : i < n) (inside' : j < n)
    (different : i ≠ j) :
    Apart (limbAt size reg a i) size.bytes (limbAt size reg a j) size.bytes := by
  have step : size.bytes ≤ (size.step reg).toNat := by
    cases size with
    | byte =>
      rw [Size.step]
      split <;> decide
    | word => exact Nat.le_refl 2
    | long => exact Nat.le_refl 4
  have place (k : Nat) :
      limbAt size reg a k = a - BitVec.ofNat 32 ((k + 1) * (size.step reg).toNat) := by
    rw [limbAt, BitVec.ofNat_mul, BitVec.ofNat_toNat, BitVec.setWidth_eq]
  have offset : limbAt size reg a j - limbAt size reg a i =
      BitVec.ofNat 32 ((i + 1) * (size.step reg).toNat) -
        BitVec.ofNat 32 ((j + 1) * (size.step reg).toNat) := by
    rw [place, place]
    grind
  -- The two places are at least a step apart, below the top of memory.
  have top_i : (i + 1) * (size.step reg).toNat ≤ 2 ^ 32 := (Nat.mul_le_mul_right _ inside).trans fits
  have top_j : (j + 1) * (size.step reg).toNat ≤ 2 ^ 32 := (Nat.mul_le_mul_right _ inside').trans fits
  have gap : (i + 1) * (size.step reg).toNat + (size.step reg).toNat ≤
        (j + 1) * (size.step reg).toNat ∨
      (j + 1) * (size.step reg).toNat + (size.step reg).toNat ≤
        (i + 1) * (size.step reg).toNat := by
    rw [← Nat.succ_mul, ← Nat.succ_mul]
    rcases Nat.lt_or_gt_of_ne different with before | behind
    · exact .inl (Nat.mul_le_mul_right _ (by omega))
    · exact .inr (Nat.mul_le_mul_right _ (by omega))
  have low_i : (size.step reg).toNat ≤ (i + 1) * (size.step reg).toNat :=
    Nat.le_mul_of_pos_left _ (Nat.succ_pos i)
  have low_j : (size.step reg).toNat ≤ (j + 1) * (size.step reg).toNat :=
    Nat.le_mul_of_pos_left _ (Nat.succ_pos j)
  rw [Apart, offset, BitVec.toNat_sub, BitVec.toNat_ofNat, BitVec.toNat_ofNat]
  omega

/-- A chain of the memory form reads the limbs that were in memory at first and leaves those it
makes in the destination, as long as it does not overwrite limbs of the source it has yet to
read. -/
theorem extendedSteps_memory (different : x ≠ y) (n : Nat)
    (fits : n * (size.step y).toNat ≤ 2 ^ 32)
    (ahead : ∀ i j, i < j → j < n → Apart (limbAt size y (st.regs.areg y) i) size.bytes
      (limbAt size x (st.regs.areg x) j) size.bytes) :
    extendedSteps cpu size op st (List.replicate n ⟨.apdi, x, y⟩) =
      (List.range n).map fun i =>
        (size.get st.mem (limbAt size x (st.regs.areg x) i),
          size.get st.mem (limbAt size y (st.regs.areg y) i),
          size.get (extendedRun cpu size op st (List.replicate n ⟨.apdi, x, y⟩)).mem
            (limbAt size y (st.regs.areg y) i)) := by
  induction n generalizing st with
  | zero => rfl
  | succ n ih =>
    obtain ⟨moved_x, moved_y, value, written⟩ := extended_apdi cpu op st different
    have fewer : n * (size.step y).toNat ≤ 2 ^ 32 :=
      (Nat.mul_le_mul_right _ (Nat.le_succ n)).trans fits
    have rest := ih (extended cpu size op ⟨.apdi, x, y⟩ st) fewer (by
      intro i j before inside
      rw [moved_x, moved_y, ← limbAt_succ, ← limbAt_succ]
      exact ahead (i + 1) (j + 1) (Nat.succ_lt_succ before) (Nat.succ_lt_succ inside))
    have run : extendedRun cpu size op st (List.replicate (n + 1) ⟨.apdi, x, y⟩) =
        extendedRun cpu size op (extended cpu size op ⟨.apdi, x, y⟩ st)
          (List.replicate n ⟨.apdi, x, y⟩) := rfl
    rw [List.replicate_succ, extendedSteps, rest, List.range_succ_eq_map, List.map_cons,
      List.map_map, ← List.replicate_succ, run]
    -- The first limb, then the others, which the first write has left alone.
    congr 1
    · have kept := extendedRun_sameBytes cpu op (extended cpu size op ⟨.apdi, x, y⟩ st) different
        (b := limbAt size y (st.regs.areg y) 0) (k := size.bytes) n (by
          intro j below
          rw [moved_y, ← limbAt_succ]
          exact limbs_apart size y _ fits (Nat.succ_lt_succ below) (Nat.succ_pos n)
            (Nat.succ_ne_zero j))
      have destination : (ExtendedInstr.mk .apdi x y).destination size st =
          size.get st.mem (limbAt size y (st.regs.areg y) 0) := by
        simp only [ExtendedInstr.destination, limbAt_zero,
          Regs.setAreg_other _ _ different.symm]
      rw [Size.get_congr size kept, destination]
      simp only [ExtendedInstr.source, ExtendedInstr.result, moved_y, limbAt_zero]
    · apply List.map_congr_left
      intro i member
      have inside := List.mem_range.mp member
      have source := Size.get_congr size (size.put_sameBytes st.mem value
        (ahead 0 (i + 1) (Nat.succ_pos i) (Nat.succ_lt_succ inside)))
      have destination := Size.get_congr size (size.put_sameBytes st.mem value
        (limbs_apart size y (st.regs.areg y) fits (Nat.succ_pos n) (Nat.succ_lt_succ inside)
          (Nat.succ_ne_zero i).symm))
      rw [limbAt_zero] at source destination
      rw [moved_x, moved_y, written, ← limbAt_succ, ← limbAt_succ, source, destination]
      rfl

-- A number in data registers.

theorem extended_dreg_low (i : ExtendedInstr) (register : i.mode = .dreg) (k : BitVec 3) :
    (extended cpu size op i st).regs.low size k =
      if k = i.dstreg then i.result size (extended cpu size op i st) else st.regs.low size k := by
  obtain ⟨mode, srcreg, dstreg⟩ := i
  subst register
  split
  next here => rw [here]; rfl
  next other =>
    apply (Regs.storeDreg_low _ size dstreg _ k).trans
    rw [if_neg other]
    rfl

theorem extendedRun_low (instrs : List ExtendedInstr)
    (registers : ∀ i ∈ instrs, i.mode = .dreg) (k : BitVec 3)
    (other : ∀ i ∈ instrs, k ≠ i.dstreg) :
    (extendedRun cpu size op st instrs).regs.low size k = st.regs.low size k := by
  induction instrs generalizing st with
  | nil => rfl
  | cons i rest ih =>
    have here := extended_dreg_low cpu op st i (registers i List.mem_cons_self) k
    rw [if_neg (other i List.mem_cons_self)] at here
    rw [← here]
    exact ih _ (fun j member => registers j (List.mem_cons_of_mem i member))
      (fun j member => other j (List.mem_cons_of_mem i member))

/-- A chain of the register form reads the limbs that were in the registers at first and leaves
those it makes, as long as no destination is used again. -/
theorem extendedSteps_registers (instrs : List ExtendedInstr)
    (registers : ∀ i ∈ instrs, i.mode = .dreg)
    (distinct : instrs.Pairwise fun i j => i.dstreg ≠ j.srcreg ∧ i.dstreg ≠ j.dstreg) :
    extendedSteps cpu size op st instrs =
      instrs.map fun i => (st.regs.low size i.srcreg, st.regs.low size i.dstreg,
        (extendedRun cpu size op st instrs).regs.low size i.dstreg) := by
  induction instrs generalizing st with
  | nil => rfl
  | cons i rest ih =>
    obtain ⟨apart, distinct⟩ := List.pairwise_cons.mp distinct
    have register := registers i List.mem_cons_self
    have others : ∀ j ∈ rest, j.mode = .dreg :=
      fun j member => registers j (List.mem_cons_of_mem i member)
    have low := extended_dreg_low cpu op st i register
    have run : extendedRun cpu size op st (i :: rest) =
        extendedRun cpu size op (extended cpu size op i st) rest := rfl
    have kept := extendedRun_low cpu op (extended cpu size op i st) rest others i.dstreg
      (fun j member => (apart j member).2)
    rw [low, if_pos rfl] at kept
    rw [extendedSteps, ih _ others distinct, List.map_cons, run, kept]
    congr 1
    · simp only [ExtendedInstr.source, ExtendedInstr.destination, register]
    · apply List.map_congr_left
      intro j member
      rw [low, low, if_neg (apart j member).1.symm, if_neg (apart j member).2.symm]

end

-- What a chain of ADDX or SUBX is to leave, from X = 0 and Z = 1.

section

variable {w : Nat} (steps : List (BitVec w × BitVec w × BitVec w))

/-- The operands and the result of a chain, as wide words. -/
def wideSource : BitVec (w * steps.length) := wide steps.length (steps.map (·.1))

def wideDestination : BitVec (w * steps.length) := wide steps.length (steps.map (·.2.1))

def wideResult : BitVec (w * steps.length) := wide steps.length (steps.map (·.2.2))

/-- The sum modulo the base, and the flags; C, V and N are those of the top round. -/
structure ChainSum (f : Flags) : Prop where
  sum : wideResult steps = wideDestination steps + wideSource steps
  x : f.x = (wideDestination steps).uaddOverflow (wideSource steps)
  z : f.z = true ↔ ∀ step ∈ steps, step.2.2 = 0
  c : steps ≠ [] → f.c = f.x
  v : steps ≠ [] → f.v = (wideDestination steps).saddOverflow (wideSource steps)
  n : steps ≠ [] → f.n = (wideResult steps).msb

/-- The difference modulo the base, and the flags. -/
structure ChainDifference (f : Flags) : Prop where
  difference : wideResult steps = wideDestination steps - wideSource steps
  x : f.x = (wideDestination steps).usubOverflow (wideSource steps)
  z : f.z = true ↔ ∀ step ∈ steps, step.2.2 = 0
  c : steps ≠ [] → f.c = f.x
  v : steps ≠ [] → f.v = (wideDestination steps).ssubOverflow (wideSource steps)
  n : steps ≠ [] → f.n = (wideResult steps).msb

end

-- A round.

theorem Flags.extend_toNat (f : Flags) {n : Nat} (positive : 0 < n) :
    (f.extend n).toNat = f.x.toNat := by
  have one : 1 % 2 ^ n = 1 := Nat.mod_eq_of_lt (Nat.one_lt_two_pow positive.ne')
  unfold Flags.extend
  cases f.x with
  | false => exact BitVec.toNat_ofNat 0 n
  | true => exact (BitVec.toNat_ofNat 1 n).trans one

theorem two_pow_half {n : Nat} (positive : 0 < n) : 2 ^ n = 2 * 2 ^ (n - 1) := by
  rw [← Nat.pow_succ', Nat.succ_eq_add_one, Nat.sub_add_cancel positive]

/-- A carry is told by the signs of two summands and of their sum. -/
theorem carry_of_signs {n : Nat} (positive : 0 < n) (x y sum : BitVec n) (into out : Bool)
    (exact : sum.toNat + 2 ^ n * out.toNat = x.toNat + y.toNat + into.toNat) :
    out = (x.msb ^^ ((x.msb ^^ y.msb) && (y.msb ^^ sum.msb))) := by
  have x_lt := x.isLt
  have y_lt := y.isLt
  have sum_lt := sum.isLt
  have half := two_pow_half positive
  have into_le : into.toNat ≤ 1 := Bool.toNat_le into
  rw [BitVec.msb_eq_decide, BitVec.msb_eq_decide, BitVec.msb_eq_decide]
  generalize 2 ^ (n - 1) = bit at half
  generalize 2 ^ n = base at half x_lt y_lt sum_lt exact
  cases out with
  | false =>
    rw [Bool.toNat_false, Nat.mul_zero] at exact
    by_cases hx : bit ≤ x.toNat <;> by_cases hy : bit ≤ y.toNat <;>
      by_cases hs : bit ≤ sum.toNat <;> simp only [hx, hy, hs, decide_true, decide_false] <;>
      first | rfl | omega
  | true =>
    rw [Bool.toNat_true, Nat.mul_one] at exact
    by_cases hx : bit ≤ x.toNat <;> by_cases hy : bit ≤ y.toNat <;>
      by_cases hs : bit ≤ sum.toNat <;> simp only [hx, hy, hs, decide_true, decide_false] <;>
      first | rfl | omega

theorem exists_carry {n : Nat} (positive : 0 < n) (f : Flags) (x y : BitVec n) :
    ∃ out : Bool, (x + y + f.extend n).toNat + 2 ^ n * out.toNat =
      x.toNat + y.toNat + f.x.toNat := by
  have x_lt := x.isLt
  have y_lt := y.isLt
  have extend_le : f.x.toNat ≤ 1 := Bool.toNat_le f.x
  rw [BitVec.toNat_add, BitVec.toNat_add, f.extend_toNat positive, Nat.mod_add_mod]
  by_cases fits : x.toNat + y.toNat + f.x.toNat < 2 ^ n
  · exact ⟨false, by rw [Nat.mod_eq_of_lt fits, Bool.toNat_false]; omega⟩
  · refine ⟨true, ?_⟩
    rw [Nat.mod_eq_sub_mod (by omega), Nat.mod_eq_of_lt (by omega), Bool.toNat_true]
    omega

/-- The minterm of `flag_addx` is the carry of the sum, -/
theorem addx_exact {n : Nat} (positive : 0 < n) (f : Flags) (src dst : BitVec n) :
    (addx f src dst).1.toNat + 2 ^ n * (addx f src dst).2.x.toNat =
      src.toNat + dst.toNat + f.x.toNat := by
  obtain ⟨out, exact⟩ := exists_carry positive f src dst
  have carry := carry_of_signs positive src dst _ f.x out exact
  rw [BitVec.add_comm src dst] at exact carry
  rw [carry] at exact
  exact exact

/-- and that of `flag_subx` the carry of the sum that gives the destination back. -/
theorem subx_exact {n : Nat} (positive : 0 < n) (f : Flags) (src dst : BitVec n) :
    dst.toNat + 2 ^ n * (subx f src dst).2.x.toNat =
      src.toNat + (subx f src dst).1.toNat + f.x.toNat := by
  have back : src + (subx f src dst).1 + f.extend n = dst := by
    rw [subx]
    grind
  obtain ⟨out, exact⟩ := exists_carry positive f src (subx f src dst).1
  rw [back] at exact
  have carry := carry_of_signs positive src _ dst f.x out exact
  rw [Bool.xor_comm (subx f src dst).1.msb dst.msb] at carry
  rw [carry] at exact
  exact exact

-- The chains.

section

variable {w : Nat} {steps : List (BitVec w × BitVec w × BitVec w)} {f last : Flags}

theorem wide_map_toNat (p : BitVec w × BitVec w × BitVec w → BitVec w) :
    (wide steps.length (steps.map p)).toNat =
      Nat.ofDigits (2 ^ w) (steps.map (fun t => (p t).toNat)) := by
  rw [wide_toNat _ (List.length_map p), number, List.map_map]
  rfl

theorem wide_map_msb (positive : 0 < w) (p : BitVec w × BitVec w × BitVec w → BitVec w)
    (before : List (BitVec w × BitVec w × BitVec w)) (top : BitVec w × BitVec w × BitVec w) :
    (wide (before ++ [top]).length ((before ++ [top]).map p)).msb = (p top).msb := by
  rw [List.map_append, List.map_singleton, List.length_append]
  exact wide_msb positive (before.map p) (p top) (List.length_map p)

theorem wide_sum {n : Nat} (x y sum : BitVec n) (out : Bool)
    (exact : sum.toNat + 2 ^ n * out.toNat = x.toNat + y.toNat) :
    sum = x + y ∧ out = x.uaddOverflow y := by
  have sum_lt := sum.isLt
  constructor
  · apply BitVec.eq_of_toNat_eq
    rw [BitVec.toNat_add, ← exact, Nat.add_mul_mod_self_left, Nat.mod_eq_of_lt sum_lt]
  · rw [BitVec.uaddOverflow, ← exact]
    cases out with
    | false => exact (decide_eq_false (by rw [Bool.toNat_false]; omega)).symm
    | true => exact (decide_eq_true (by rw [Bool.toNat_true]; omega)).symm

theorem all_zero_iff (flag : Bool) (set : flag = (true && steps.all (fun t => decide (t.2.2 = 0)))) :
    flag = true ↔ ∀ step ∈ steps, step.2.2 = 0 := by
  rw [set, Bool.true_and, List.all_eq_true]
  simp only [decide_eq_true_eq]

theorem chain_balance {op : Flags → BitVec w → BitVec w → BitVec w × Flags}
    (chain : Chain op f steps last) (x : f.x = false)
    (left right right' : BitVec w × BitVec w × BitVec w → BitVec w)
    (round : ∀ s src dst,
      (left (src, dst, (op s src dst).1)).toNat + 2 ^ w * (op s src dst).2.x.toNat =
        (right (src, dst, (op s src dst).1)).toNat + (right' (src, dst, (op s src dst).1)).toNat +
          s.x.toNat) :
    (wide steps.length (steps.map left)).toNat + 2 ^ (w * steps.length) * last.x.toNat =
      (wide steps.length (steps.map right)).toNat + (wide steps.length (steps.map right')).toNat := by
  have rounds := chain.balance (2 ^ w) (fun f => f.x.toNat) (fun t => (left t).toNat)
    (fun t => (right t).toNat + (right' t).toNat) (fun _ => True)
    (fun s src dst _ _ => round s src dst) (fun _ _ => ⟨trivial, trivial⟩)
  rw [ofDigits_map_add, ← Nat.pow_mul, x, Bool.toNat_false, Nat.add_zero] at rounds
  rw [wide_map_toNat, wide_map_toNat, wide_map_toNat, rounds]

/-- The flags of the chain are those of the top round, whose signs are those of the wide words. -/
theorem chain_top (positive : 0 < w) {op : Flags → BitVec w → BitVec w → BitVec w × Flags}
    (chain : Chain op f steps last) (some_round : steps ≠ []) :
    ∃ s src dst, last = (op s src dst).2 ∧ (wideSource steps).msb = src.msb ∧
      (wideDestination steps).msb = dst.msb ∧ (wideResult steps).msb = (op s src dst).1.msb := by
  obtain ⟨before, t, rfl⟩ := (List.eq_nil_or_concat' steps).resolve_left some_round
  obtain ⟨s, -, round⟩ := chain.of_concat
  refine ⟨s, t.1, t.2.1, ?_, wide_map_msb positive _ before t, wide_map_msb positive _ before t, ?_⟩
  · rw [round]
  · rw [round]
    exact wide_map_msb positive _ before t

theorem addx_chain (positive : 0 < w) (chain : Chain addx f steps last) (x : f.x = false)
    (z : f.z = true) : ChainSum steps last := by
  have balance := chain_balance chain x (·.2.2) (·.2.1) (·.1) fun s src dst => by
    rw [Nat.add_comm dst.toNat]
    exact addx_exact positive s src dst
  obtain ⟨sum, carry⟩ := wide_sum _ _ _ _ balance
  have zero := chain.sticky Flags.z (fun r => decide (r = 0)) (fun _ _ _ => rfl)
  rw [z] at zero
  have top : steps ≠ [] → last.c = last.x ∧
      last.v = (wideDestination steps).saddOverflow (wideSource steps) ∧
      last.n = (wideResult steps).msb := by
    intro some_round
    obtain ⟨s, src, dst, rfl, source, destination, result⟩ := chain_top positive chain some_round
    have sum' : wideDestination steps + wideSource steps = wideResult steps := sum.symm
    rw [BitVec.saddOverflow_eq, sum', source, destination, result]
    refine ⟨rfl, ?_, rfl⟩
    simp only [addx]
    generalize (dst + src + s.extend w).msb = n
    generalize src.msb = s
    generalize dst.msb = d
    revert n s d
    decide
  exact
    { sum, x := carry
      z := all_zero_iff last.z zero
      c := fun some_round => (top some_round).1
      v := fun some_round => (top some_round).2.1
      n := fun some_round => (top some_round).2.2 }

theorem subx_chain (positive : 0 < w) (chain : Chain subx f steps last) (x : f.x = false)
    (z : f.z = true) : ChainDifference steps last := by
  have balance : (wideDestination steps).toNat + 2 ^ (w * steps.length) * last.x.toNat =
      (wideSource steps).toNat + (wideResult steps).toNat :=
    chain_balance chain x (·.2.1) (·.1) (·.2.2) (subx_exact positive)
  -- The destination is the sum of the source and the difference.
  obtain ⟨sum, carry⟩ := wide_sum _ _ _ _ balance
  have difference : wideResult steps = wideDestination steps - wideSource steps := by
    rw [sum]
    grind
  have borrow : last.x = (wideDestination steps).usubOverflow (wideSource steps) := by
    have result_lt := (wideResult steps).isLt
    have destination_lt := (wideDestination steps).isLt
    rw [BitVec.usubOverflow]
    cases out : last.x with
    | false =>
      rw [out, Bool.toNat_false] at balance
      exact (decide_eq_false (by omega)).symm
    | true =>
      rw [out, Bool.toNat_true] at balance
      exact (decide_eq_true (by omega)).symm
  have zero := chain.sticky Flags.z (fun r => decide (r = 0)) (fun _ _ _ => rfl)
  rw [z] at zero
  have top : steps ≠ [] → last.c = last.x ∧
      last.v = (wideDestination steps).ssubOverflow (wideSource steps) ∧
      last.n = (wideResult steps).msb := by
    intro some_round
    obtain ⟨s, src, dst, rfl, source, destination, result⟩ := chain_top positive chain some_round
    rw [BitVec.ssubOverflow_eq, ← difference, source, destination, result]
    refine ⟨rfl, ?_, rfl⟩
    simp only [subx]
    generalize (dst - src - s.extend w).msb = n
    generalize src.msb = s
    generalize dst.msb = d
    revert n s d
    decide
  exact
    { difference, x := borrow
      z := all_zero_iff last.z zero
      c := fun some_round => (top some_round).1
      v := fun some_round => (top some_round).2.1
      n := fun some_round => (top some_round).2.2 }

end

end BasiliskII.Cpu
