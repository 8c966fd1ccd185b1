import BasiliskII.Cpu.AddressingModes
import BasiliskII.Cpu.LongDivision

/-!
# CAS and CAS2

The handlers gencpu.c emits for the two instructions. CAS2, which has no byte
form, reads eight fields from one extension long.
-/
namespace BasiliskII.Cpu

open ByteMemory

/-- `flag_cmp` of `genflags`: the difference is tested at the size of the operands. -/
def Flags.cmp {n : Nat} (f : Flags) (src dst : BitVec n) : Flags :=
  let newv := dst - src
  let flgs := src.msb
  let flgo := dst.msb
  let flgn := newv.msb
  { f with z := newv = 0#n, v := flgs != flgo && flgn != flgo, c := src > dst, n := flgn }

/-- The low part of a data register, as a comparison of this size sees it. -/
def Regs.low (regs : Regs) (size : Size) (num : BitVec 3) : BitVec size.bits :=
  (regs.dreg num).setWidth size.bits

/-- The part of a data register above an operand of this size. -/
def Regs.high (regs : Regs) (size : Size) (num : BitVec 3) : BitVec 32 :=
  regs.dreg num &&& ~~~size.bitMask

def casRu (src : BitVec 16) : BitVec 3 := src.extractLsb' 6 3

def casRc (src : BitVec 16) : BitVec 3 := src.extractLsb' 0 3

/-- The extension word and the memory operand, with its address. -/
def casOperand (cpu : CPUType) (size : Size) (mode : MemMode) (dstreg : BitVec 3) (st : Machine) :
    BitVec 16 × (BitVec 32 × BitVec size.bits) × Handler :=
  let (src, h) := st.begin.nextIword
  (src, mode.operand cpu dstreg size h)

def cas (cpu : CPUType) (size : Size) (mode : MemMode) (dstreg : BitVec 3) (st : Machine) :
    Machine :=
  let (src, (dsta, dst), h) := casOperand cpu size mode dstreg st
  let flags := h.st.regs.flags.cmp (h.st.regs.low size (casRc src)) dst
  let regs := { h.st.regs with flags }
  let st :=
    if flags.z then ⟨regs, size.put h.st.mem dsta (regs.dreg (casRu src))⟩
    -- The whole of the register, whatever the size.
    else ⟨regs.setDreg (casRc src) (dst.signExtend 32), h.st.mem⟩
  ({ h with st } : Handler).syncPc.st

-- The fields of the extension long of CAS2.

def cas2Rn1 (extra : BitVec 32) : BitVec 4 := extra.extractLsb' 28 4

def cas2Rn2 (extra : BitVec 32) : BitVec 4 := extra.extractLsb' 12 4

def cas2Du1 (extra : BitVec 32) : BitVec 3 := extra.extractLsb' 22 3

def cas2Du2 (extra : BitVec 32) : BitVec 3 := extra.extractLsb' 6 3

def cas2Dc1 (extra : BitVec 32) : BitVec 3 := extra.extractLsb' 16 3

def cas2Dc2 (extra : BitVec 32) : BitVec 3 := extra.extractLsb' 0 3

/-- The second comparison is made where the first finds no difference. -/
def cas2Flags (size : Size) (extra : BitVec 32) (regs : Regs) (dst1 dst2 : BitVec size.bits) :
    Flags :=
  let flags := regs.flags.cmp (regs.low size (cas2Dc1 extra)) dst1
  if flags.z then flags.cmp (regs.low size (cas2Dc2 extra)) dst2 else flags

def cas2 (size : Size) (st : Machine) : Machine :=
  let (extra, h) := st.begin.nextIlong
  let regs := h.st.regs
  let rn1 := regs.reg (cas2Rn1 extra)
  let rn2 := regs.reg (cas2Rn2 extra)
  let dst1 := size.get h.st.mem rn1
  let dst2 := size.get h.st.mem rn2
  let flags := cas2Flags size extra regs dst1 dst2
  let mem :=
    if flags.z then
      let mem := size.put h.st.mem rn1 (regs.dreg (cas2Du1 extra))
      -- The second update goes to the first address, too.
      size.put mem rn1 (regs.dreg (cas2Du2 extra))
    else h.st.mem
  let regs := { regs with flags }
  let regs :=
    if !flags.z then
      -- The fields are those of the update registers.
      let regs := regs.storeDreg size (cas2Du1 extra) (dst1.setWidth 32)
      regs.storeDreg size (cas2Du2 extra) (dst2.setWidth 32)
    else regs
  ({ h with st := ⟨regs, mem⟩ } : Handler).syncPc.st

-- What the two instructions are to do.

/-- Beside the data registers, the flags and the PC nothing in the register file has changed. -/
def OtherRegsKept (before after : Regs) : Prop :=
  after = { before with dreg := after.dreg, flags := after.flags, pc := after.pc }

/-- CAS of the operand at `dsta`, where `before` is the machine once the operand is fetched. -/
structure CasRight (size : Size) (ru rc : BitVec 3) (dsta : BitVec 32) (before after : Machine) :
    Prop where
  others : OtherRegsKept before.regs after.regs
  swapped : size.get before.mem dsta = before.regs.low size rc →
    after.mem = size.put before.mem dsta (before.regs.dreg ru) ∧ after.regs.dreg = before.regs.dreg
  failed : size.get before.mem dsta ≠ before.regs.low size rc →
    after.mem = before.mem ∧ ∀ k, after.regs.high size k = before.regs.high size k ∧
      after.regs.low size k =
        if k = rc then size.get before.mem dsta else before.regs.low size k

/-- CAS2 of the operands at `rn1` and `rn2`. -/
structure Cas2Right (size : Size) (extra rn1 rn2 : BitVec 32) (before after : Machine) : Prop where
  others : OtherRegsKept before.regs after.regs
  swapped : size.get before.mem rn1 = before.regs.low size (cas2Dc1 extra) ∧
      size.get before.mem rn2 = before.regs.low size (cas2Dc2 extra) →
    after.mem = size.put (size.put before.mem rn1 (before.regs.dreg (cas2Du1 extra))) rn2
        (before.regs.dreg (cas2Du2 extra)) ∧ after.regs.dreg = before.regs.dreg
  failed : ¬ (size.get before.mem rn1 = before.regs.low size (cas2Dc1 extra) ∧
      size.get before.mem rn2 = before.regs.low size (cas2Dc2 extra)) →
    after.mem = before.mem ∧ ∀ k, after.regs.high size k = before.regs.high size k ∧
      -- One register for both is loaded with either operand.
      (k = cas2Dc1 extra ∧ after.regs.low size k = size.get before.mem rn1 ∨
        k = cas2Dc2 extra ∧ after.regs.low size k = size.get before.mem rn2 ∨
        k ≠ cas2Dc1 extra ∧ k ≠ cas2Dc2 extra ∧ after.regs.low size k = before.regs.low size k)

-- The parts of a data register.

theorem Size.merge_low (size : Size) (old value : BitVec 32) :
    ((old &&& ~~~size.bitMask) ||| (value &&& size.bitMask)).setWidth size.bits =
      value.setWidth size.bits := by
  apply BitVec.eq_of_getLsbD_eq
  intro i below
  have inside : i < 32 := Nat.lt_of_lt_of_le below size.bits_le
  simp only [BitVec.getLsbD_setWidth, BitVec.getLsbD_or, BitVec.getLsbD_and, BitVec.getLsbD_not,
    size.bitMask_bit]
  simp [below]

theorem Size.merge_high (size : Size) (old value : BitVec 32) :
    ((old &&& ~~~size.bitMask) ||| (value &&& size.bitMask)) &&& ~~~size.bitMask =
      old &&& ~~~size.bitMask := by
  apply BitVec.eq_of_getLsbD_eq
  intro i inside
  simp only [BitVec.getLsbD_and, BitVec.getLsbD_or, BitVec.getLsbD_not,
    size.bitMask_bit]
  by_cases below : i < size.bits <;> simp [below]

theorem Regs.storeDreg_low (regs : Regs) (size : Size) (num : BitVec 3) (value : BitVec 32)
    (k : BitVec 3) :
    (regs.storeDreg size num value).low size k =
      if k = num then value.setWidth size.bits else regs.low size k := by
  simp only [Regs.low, Regs.storeDreg, Regs.setDreg]
  split
  · rw [size.merge_low]
  · rfl

theorem Regs.storeDreg_high (regs : Regs) (size : Size) (num : BitVec 3) (value : BitVec 32)
    (k : BitVec 3) : (regs.storeDreg size num value).high size k = regs.high size k := by
  simp only [Regs.high, Regs.storeDreg, Regs.setDreg]
  split
  next here => rw [size.merge_high, here]
  · rfl

-- CAS.

theorem Flags.cmp_zero {n : Nat} (f : Flags) (src dst : BitVec n) :
    (f.cmp src dst).z = true ↔ dst = src := by
  simp only [Flags.cmp, decide_eq_true_iff]
  constructor
  · intro zero
    calc dst = dst - src + src := (BitVec.sub_add_cancel dst src).symm
      _ = src := by rw [zero, BitVec.zero_add]
  · rintro rfl
    exact BitVec.sub_self dst

section

variable (cpu : CPUType) (size : Size) (mode : MemMode) (dstreg : BitVec 3) (st : Machine)

/-- The machine once the operand of CAS is fetched. -/
def casFetched : Machine := (casOperand cpu size mode dstreg st).2.2.st

def casAddress : BitVec 32 := (casOperand cpu size mode dstreg st).2.1.1

/-- The registers the extension word names, for the update and for the comparison. -/
def casUpdate : BitVec 3 := casRu (casOperand cpu size mode dstreg st).1

def casCompare : BitVec 3 := casRc (casOperand cpu size mode dstreg st).1

/-- What CAS has read. -/
def casRead : BitVec size.bits :=
  size.get (casFetched cpu size mode dstreg st).mem (casAddress cpu size mode dstreg st)

theorem casOperand_value :
    (casOperand cpu size mode dstreg st).2.1.2 = casRead cpu size mode dstreg st := by
  have keeps := (mode.operand_keeps cpu dstreg size st.begin.nextIword.2).1
  have only := (mode.address_onlyPc cpu dstreg size st.begin.nextIword.2).mem
  simp only [casRead, casFetched, casAddress, casOperand, keeps]
  simp only [MemMode.operand, only]

/-- The comparison succeeds. -/
def CasEqual : Prop :=
  casRead cpu size mode dstreg st =
    (casFetched cpu size mode dstreg st).regs.low size (casCompare cpu size mode dstreg st)

theorem cas_swapped (equal : CasEqual cpu size mode dstreg st) :
    (cas cpu size mode dstreg st).mem =
        size.put (casFetched cpu size mode dstreg st).mem (casAddress cpu size mode dstreg st)
          ((casFetched cpu size mode dstreg st).regs.dreg (casUpdate cpu size mode dstreg st)) ∧
      (cas cpu size mode dstreg st).regs.dreg = (casFetched cpu size mode dstreg st).regs.dreg := by
  rw [CasEqual, ← casOperand_value] at equal
  have zero := (Flags.cmp_zero (casFetched cpu size mode dstreg st).regs.flags _ _).mpr equal
  simp only [casFetched, casAddress, casUpdate, casCompare, cas] at zero ⊢
  simp only [if_pos zero, Handler.syncPc_mem, Handler.syncPc_dreg, and_self]

theorem cas_failed (different : ¬ CasEqual cpu size mode dstreg st) :
    (cas cpu size mode dstreg st).mem = (casFetched cpu size mode dstreg st).mem ∧
      (cas cpu size mode dstreg st).regs.dreg =
        ((casFetched cpu size mode dstreg st).regs.setDreg (casCompare cpu size mode dstreg st)
          ((casRead cpu size mode dstreg st).signExtend 32)).dreg := by
  rw [CasEqual, ← casOperand_value] at different
  rw [← casOperand_value]
  have nonzero := (Flags.cmp_zero (casFetched cpu size mode dstreg st).regs.flags _ _).not.mpr
    different
  simp only [casFetched, casCompare, cas] at nonzero ⊢
  simp only [if_neg nonzero, Handler.syncPc_mem, Handler.syncPc_dreg, Regs.setDreg, and_self]

theorem cas_others :
    OtherRegsKept (casFetched cpu size mode dstreg st).regs (cas cpu size mode dstreg st).regs := by
  simp only [cas]
  split <;> rfl

theorem setWidth_signExtend_operand (value : BitVec size.bits) :
    (value.signExtend 32).setWidth size.bits = value := by
  apply BitVec.eq_of_getLsbD_eq
  intro i below
  have inside : i < 32 := Nat.lt_of_lt_of_le below size.bits_le
  rw [BitVec.getLsbD_setWidth, BitVec.getLsbD_signExtend]
  simp [below, inside]

/-- A failing CAS loads all of the compare register: it does what it should when the comparison
succeeds, or the register already has the sign of the operand above it. -/
theorem cas_right_iff :
    CasRight size (casUpdate cpu size mode dstreg st) (casCompare cpu size mode dstreg st)
        (casAddress cpu size mode dstreg st) (casFetched cpu size mode dstreg st)
        (cas cpu size mode dstreg st) ↔
      CasEqual cpu size mode dstreg st ∨
        (casFetched cpu size mode dstreg st).regs.high size (casCompare cpu size mode dstreg st) =
          (casRead cpu size mode dstreg st).signExtend 32 &&& ~~~size.bitMask := by
  by_cases equal : CasEqual cpu size mode dstreg st
  · refine iff_of_true ⟨cas_others cpu size mode dstreg st, fun _ => ?_, fun different => ?_⟩
      (.inl equal)
    · exact cas_swapped cpu size mode dstreg st equal
    · exact absurd equal different
  · obtain ⟨mem, dreg⟩ := cas_failed cpu size mode dstreg st equal
    have high : ∀ k, (cas cpu size mode dstreg st).regs.high size k =
        if k = casCompare cpu size mode dstreg st then
          (casRead cpu size mode dstreg st).signExtend 32 &&& ~~~size.bitMask
        else (casFetched cpu size mode dstreg st).regs.high size k := by
      intro k
      simp only [Regs.high, dreg, Regs.setDreg]
      split <;> rfl
    have low : ∀ k, (cas cpu size mode dstreg st).regs.low size k =
        if k = casCompare cpu size mode dstreg st then casRead cpu size mode dstreg st
        else (casFetched cpu size mode dstreg st).regs.low size k := by
      intro k
      simp only [Regs.low, dreg, Regs.setDreg]
      split
      · exact setWidth_signExtend_operand size _
      · rfl
    constructor
    · intro right
      have kept := ((right.failed equal).2 (casCompare cpu size mode dstreg st)).1
      rw [high, if_pos rfl] at kept
      exact .inr kept.symm
    · rintro (same | extended)
      · exact absurd same equal
      · refine ⟨cas_others cpu size mode dstreg st, fun same => absurd same equal,
          fun _ => ⟨mem, fun k => ⟨?_, low k⟩⟩⟩
        rw [high]
        split
        next here => rw [here, extended]
        · rfl

end

-- The bytes CAS2 writes.

/-- Byte `i` of an operand in memory, the most significant first. -/
def Size.byteAt (size : Size) (value : BitVec 32) (i : Nat) : BitVec 8 :=
  value.extractLsb' (8 * (size.bytes - 1 - i)) 8

theorem extractLsb'_nested (x : BitVec 32) (s n i k : Nat) (inside : i + k ≤ n) :
    (x.extractLsb' s n).extractLsb' i k = x.extractLsb' (s + i) k := by
  apply BitVec.eq_of_getLsbD_eq
  intro j below
  have within : i + j < n := by omega
  simp only [BitVec.getLsbD_extractLsb', below, within, decide_true, Bool.true_and, Nat.add_assoc]

theorem Size.put_inside (size : Size) (mem : Memory 32) (a value : BitVec 32) {i : Nat}
    (inside : i < size.bytes) :
    size.put mem a value (a + BitVec.ofNat 32 i) = size.byteAt value i := by
  cases size with
  | byte =>
    obtain rfl : i = 0 := Nat.lt_one_iff.mp inside
    simp [Size.put, ByteMemory.put, Size.byteAt, Size.bytes, BitVec.setWidth_eq_extractLsb']
  | word =>
    simp only [Size.put, putWord, BitVec.setWidth_eq_extractLsb' (by decide : 16 ≤ 32),
      extractLsb'_nested value 0 16 0 8 (by decide), extractLsb'_nested value 0 16 8 8 (by decide)]
    obtain rfl | rfl : i = 0 ∨ i = 1 := by
      have : i < 2 := inside
      omega
    · simp [ByteMemory.put, Size.byteAt, Size.bytes]
    · simp [ByteMemory.put, Size.byteAt, Size.bytes]
  | long =>
    have last : a + 2 + 1 = a + 3 := by
      rw [BitVec.add_assoc]
      rfl
    simp only [Size.put, putLong, putWord, last, extractLsb'_nested value 0 16 0 8 (by decide),
      extractLsb'_nested value 0 16 8 8 (by decide), extractLsb'_nested value 16 16 0 8 (by decide),
      extractLsb'_nested value 16 16 8 8 (by decide)]
    obtain rfl | rfl | rfl | rfl : i = 0 ∨ i = 1 ∨ i = 2 ∨ i = 3 := by
      have : i < 4 := inside
      omega
    · simp [ByteMemory.put, Size.byteAt, Size.bytes]
    · simp [ByteMemory.put, Size.byteAt, Size.bytes]
    · simp [ByteMemory.put, Size.byteAt, Size.bytes]
    · simp [ByteMemory.put, Size.byteAt, Size.bytes]

theorem Size.put_outside (size : Size) (mem : Memory 32) (a value : BitVec 32) {x : BitVec 32}
    (outside : ∀ i < size.bytes, x ≠ a + BitVec.ofNat 32 i) : size.put mem a value x = mem x := by
  cases size with
  | byte =>
    have first := outside 0 (by decide)
    rw [BitVec.add_zero] at first
    exact if_neg first
  | word =>
    have first := outside 0 (by decide)
    rw [BitVec.add_zero] at first
    have second : x ≠ a + 1 := outside 1 (by decide)
    simp only [Size.put, putWord, ByteMemory.put, if_neg first, if_neg second]
  | long =>
    have first := outside 0 (by decide)
    rw [BitVec.add_zero] at first
    have second : x ≠ a + 1 := outside 1 (by decide)
    have third : x ≠ a + 2 := outside 2 (by decide)
    have fourth : x ≠ a + 2 + 1 := by
      rw [BitVec.add_assoc]
      exact outside 3 (by decide)
    simp only [Size.put, putLong, putWord, ByteMemory.put, if_neg first, if_neg second,
      if_neg third, if_neg fourth]

/-- The second write of CAS2 lands on the first. It leaves the bytes it should when each byte of
the first operand that the second does not cover is the same in both updates, and each byte of the
second operand is what the first write of `u` or memory has there. -/
structure WritesAgree (size : Size) (mem : Memory 32) (rn1 rn2 v u : BitVec 32) : Prop where
  first : ∀ i < size.bytes,
    (∀ j < size.bytes, rn1 + BitVec.ofNat 32 i ≠ rn2 + BitVec.ofNat 32 j) →
      size.byteAt u i = size.byteAt v i
  covered : ∀ i < size.bytes, ∀ j < size.bytes,
    rn2 + BitVec.ofNat 32 j = rn1 + BitVec.ofNat 32 i → size.byteAt u i = size.byteAt u j
  missed : ∀ j < size.bytes,
    (∀ i < size.bytes, rn2 + BitVec.ofNat 32 j ≠ rn1 + BitVec.ofNat 32 i) →
      mem (rn2 + BitVec.ofNat 32 j) = size.byteAt u j

theorem writesAgree_iff (size : Size) (mem : Memory 32) (rn1 rn2 v u : BitVec 32) :
    size.put (size.put mem rn1 v) rn1 u = size.put (size.put mem rn1 v) rn2 u ↔
      WritesAgree size mem rn1 rn2 v u := by
  constructor
  · intro same
    refine ⟨fun i inside apart => ?_, fun i inside j second meet => ?_, fun j second apart => ?_⟩
    · have here := congrFun same (rn1 + BitVec.ofNat 32 i)
      rwa [size.put_inside _ _ _ inside, size.put_outside _ rn2 _ apart,
        size.put_inside _ _ _ inside] at here
    · have here := congrFun same (rn2 + BitVec.ofNat 32 j)
      rwa [size.put_inside _ rn2 _ second, meet, size.put_inside _ rn1 _ inside] at here
    · have here := congrFun same (rn2 + BitVec.ofNat 32 j)
      rwa [size.put_inside _ rn2 _ second, size.put_outside _ rn1 _ apart,
        size.put_outside _ rn1 _ apart] at here
  · intro agree
    funext x
    by_cases second : ∃ j, j < size.bytes ∧ x = rn2 + BitVec.ofNat 32 j
    · obtain ⟨j, below, rfl⟩ := second
      rw [size.put_inside _ rn2 _ below]
      by_cases first : ∃ i, i < size.bytes ∧ rn2 + BitVec.ofNat 32 j = rn1 + BitVec.ofNat 32 i
      · obtain ⟨i, inside, meet⟩ := first
        rw [meet, size.put_inside _ rn1 _ inside]
        exact agree.covered i inside j below meet
      · have apart : ∀ i < size.bytes, rn2 + BitVec.ofNat 32 j ≠ rn1 + BitVec.ofNat 32 i :=
          fun i inside meet => first ⟨i, inside, meet⟩
        rw [size.put_outside _ rn1 _ apart, size.put_outside _ rn1 _ apart]
        exact agree.missed j below apart
    · have outside : ∀ j < size.bytes, x ≠ rn2 + BitVec.ofNat 32 j :=
        fun j below meet => second ⟨j, below, meet⟩
      rw [size.put_outside _ rn2 _ outside]
      by_cases first : ∃ i, i < size.bytes ∧ x = rn1 + BitVec.ofNat 32 i
      · obtain ⟨i, inside, rfl⟩ := first
        rw [size.put_inside _ rn1 _ inside, size.put_inside _ rn1 _ inside]
        exact agree.first i inside outside
      · have apart : ∀ i < size.bytes, x ≠ rn1 + BitVec.ofNat 32 i :=
          fun i inside meet => first ⟨i, inside, meet⟩
        rw [size.put_outside _ rn1 _ apart]

section

variable (size : Size) (st : Machine)

def cas2Extra : BitVec 32 := getLong st.mem (st.regs.pc + 2)

def cas2Address1 : BitVec 32 := st.regs.reg (cas2Rn1 (cas2Extra st))

def cas2Address2 : BitVec 32 := st.regs.reg (cas2Rn2 (cas2Extra st))

def cas2Read1 : BitVec size.bits := size.get st.mem (cas2Address1 st)

def cas2Read2 : BitVec size.bits := size.get st.mem (cas2Address2 st)

/-- Both comparisons succeed. -/
def Cas2Equal : Prop :=
  cas2Read1 size st = st.regs.low size (cas2Dc1 (cas2Extra st)) ∧
    cas2Read2 size st = st.regs.low size (cas2Dc2 (cas2Extra st))

theorem cas2Flags_zero :
    (cas2Flags size (cas2Extra st) st.regs (cas2Read1 size st) (cas2Read2 size st)).z = true ↔
      Cas2Equal size st := by
  have first := Flags.cmp_zero st.regs.flags (st.regs.low size (cas2Dc1 (cas2Extra st)))
    (cas2Read1 size st)
  simp only [cas2Flags]
  split
  next equal => rw [Flags.cmp_zero, Cas2Equal, and_iff_right (first.mp equal)]
  next different =>
    rw [Cas2Equal]
    exact iff_of_false different (fun both => different (first.mpr both.1))

theorem cas2_swapped (equal : Cas2Equal size st) :
    (cas2 size st).mem =
        size.put (size.put st.mem (cas2Address1 st) (st.regs.dreg (cas2Du1 (cas2Extra st))))
          (cas2Address1 st) (st.regs.dreg (cas2Du2 (cas2Extra st))) ∧
      (cas2 size st).regs.dreg = st.regs.dreg := by
  have zero := (cas2Flags_zero size st).mpr equal
  simp only [cas2Extra, cas2Address1, cas2Read1, cas2Read2, cas2Address2] at zero ⊢
  simp only [cas2, Machine.begin, Handler.nextIlong, zero, Handler.syncPc_mem, Handler.syncPc_dreg,
    if_true, Bool.not_true, Bool.false_eq_true, if_false, and_self]

/-- A failing CAS2 loads the update registers. -/
theorem cas2_failed (different : ¬ Cas2Equal size st) :
    (cas2 size st).mem = st.mem ∧
      (cas2 size st).regs.dreg =
        ((st.regs.storeDreg size (cas2Du1 (cas2Extra st))
          ((cas2Read1 size st).setWidth 32)).storeDreg size (cas2Du2 (cas2Extra st))
            ((cas2Read2 size st).setWidth 32)).dreg := by
  have nonzero := (cas2Flags_zero size st).not.mpr different
  rw [Bool.not_eq_true] at nonzero
  simp only [cas2Extra, cas2Address1, cas2Read1, cas2Read2, cas2Address2] at nonzero ⊢
  simp only [cas2, Machine.begin, Handler.nextIlong, nonzero, Handler.syncPc_mem,
    Handler.syncPc_dreg, Bool.not_false, Bool.false_eq_true, if_false, if_true]
  exact ⟨trivial, rfl⟩

theorem cas2_others : OtherRegsKept st.regs (cas2 size st).regs := by
  simp only [cas2]
  split <;> rfl

/-- Loading the update registers has the effect of loading the compare registers: each update
register either is a compare register of the same operand or already holds its operand, and each
compare register left out holds its own. -/
structure LoadsAgree : Prop where
  du1 : cas2Du1 (cas2Extra st) ≠ cas2Du2 (cas2Extra st) →
    cas2Du1 (cas2Extra st) = cas2Dc1 (cas2Extra st) ∨
      cas2Du1 (cas2Extra st) = cas2Dc2 (cas2Extra st) ∧ cas2Read1 size st = cas2Read2 size st ∨
      cas2Du1 (cas2Extra st) ≠ cas2Dc1 (cas2Extra st) ∧
        cas2Du1 (cas2Extra st) ≠ cas2Dc2 (cas2Extra st) ∧
        st.regs.low size (cas2Du1 (cas2Extra st)) = cas2Read1 size st
  du2 : cas2Du2 (cas2Extra st) = cas2Dc2 (cas2Extra st) ∨
      cas2Du2 (cas2Extra st) = cas2Dc1 (cas2Extra st) ∧ cas2Read1 size st = cas2Read2 size st ∨
      cas2Du2 (cas2Extra st) ≠ cas2Dc1 (cas2Extra st) ∧
        cas2Du2 (cas2Extra st) ≠ cas2Dc2 (cas2Extra st) ∧
        st.regs.low size (cas2Du2 (cas2Extra st)) = cas2Read2 size st
  dc1 : cas2Dc1 (cas2Extra st) ≠ cas2Du1 (cas2Extra st) →
    cas2Dc1 (cas2Extra st) ≠ cas2Du2 (cas2Extra st) →
    st.regs.low size (cas2Dc1 (cas2Extra st)) = cas2Read1 size st ∨
      cas2Dc1 (cas2Extra st) = cas2Dc2 (cas2Extra st) ∧
        st.regs.low size (cas2Dc1 (cas2Extra st)) = cas2Read2 size st
  dc2 : cas2Dc2 (cas2Extra st) ≠ cas2Du1 (cas2Extra st) →
    cas2Dc2 (cas2Extra st) ≠ cas2Du2 (cas2Extra st) →
    st.regs.low size (cas2Dc2 (cas2Extra st)) = cas2Read2 size st ∨
      cas2Dc2 (cas2Extra st) = cas2Dc1 (cas2Extra st) ∧
        st.regs.low size (cas2Dc2 (cas2Extra st)) = cas2Read1 size st

/-- What each register holds at the operand's size after a failing CAS2. -/
theorem cas2_failed_low (different : ¬ Cas2Equal size st) (k : BitVec 3) :
    (cas2 size st).regs.high size k = st.regs.high size k ∧
      (cas2 size st).regs.low size k =
        if k = cas2Du2 (cas2Extra st) then cas2Read2 size st
        else if k = cas2Du1 (cas2Extra st) then cas2Read1 size st
        else st.regs.low size k := by
  have dreg := (cas2_failed size st different).2
  have narrow : ∀ v : BitVec size.bits, (v.setWidth 32).setWidth size.bits = v := by
    intro v
    rw [BitVec.setWidth_setWidth_of_le v size.bits_le, BitVec.setWidth_eq]
  constructor
  · rw [Regs.high, dreg]
    exact (Regs.storeDreg_high _ size _ _ k).trans (Regs.storeDreg_high _ size _ _ k)
  · rw [Regs.low, dreg]
    refine (Regs.storeDreg_low _ size _ _ k).trans ?_
    rw [Regs.storeDreg_low, narrow, narrow]

theorem loadsAgree_iff :
    (∀ k, k = cas2Dc1 (cas2Extra st) ∧
          (if k = cas2Du2 (cas2Extra st) then cas2Read2 size st
            else if k = cas2Du1 (cas2Extra st) then cas2Read1 size st
            else st.regs.low size k) = cas2Read1 size st ∨
        k = cas2Dc2 (cas2Extra st) ∧
          (if k = cas2Du2 (cas2Extra st) then cas2Read2 size st
            else if k = cas2Du1 (cas2Extra st) then cas2Read1 size st
            else st.regs.low size k) = cas2Read2 size st ∨
        k ≠ cas2Dc1 (cas2Extra st) ∧ k ≠ cas2Dc2 (cas2Extra st) ∧
          (if k = cas2Du2 (cas2Extra st) then cas2Read2 size st
            else if k = cas2Du1 (cas2Extra st) then cas2Read1 size st
            else st.regs.low size k) = st.regs.low size k) ↔
      LoadsAgree size st := by
  constructor
  · intro loaded
    exact ⟨by grind, by grind, by grind, by grind⟩
  · intro agree k
    have du1 := agree.du1
    have du2 := agree.du2
    have dc1 := agree.dc1
    have dc2 := agree.dc2
    grind

/-- CAS2 writes both updates at the first address and, failing, loads the update registers. It
does what it should just when neither makes a difference. -/
theorem cas2_right_iff :
    Cas2Right size (cas2Extra st) (cas2Address1 st) (cas2Address2 st) st (cas2 size st) ↔
      (Cas2Equal size st →
        WritesAgree size st.mem (cas2Address1 st) (cas2Address2 st)
          (st.regs.dreg (cas2Du1 (cas2Extra st))) (st.regs.dreg (cas2Du2 (cas2Extra st)))) ∧
      (¬ Cas2Equal size st → LoadsAgree size st) := by
  constructor
  · intro right
    refine ⟨fun equal => ?_, fun different => ?_⟩
    · rw [← writesAgree_iff, ← (cas2_swapped size st equal).1]
      exact (right.swapped equal).1
    · rw [← loadsAgree_iff]
      intro k
      have loaded := ((right.failed different).2 k).2
      rwa [(cas2_failed_low size st different k).2] at loaded
  · rintro ⟨writes, loads⟩
    refine ⟨cas2_others size st, fun equal => ?_, fun different => ?_⟩
    · obtain ⟨mem, dreg⟩ := cas2_swapped size st equal
      exact ⟨mem.trans ((writesAgree_iff _ _ _ _ _ _).mpr (writes equal)), dreg⟩
    · refine ⟨(cas2_failed size st different).1, fun k => ?_⟩
      obtain ⟨high, low⟩ := cas2_failed_low size st different k
      rw [low]
      exact ⟨high, (loadsAgree_iff size st).mpr (loads different) k⟩

end

/-- CAS and CAS2 do what they should under the conditions of `cas_right_iff` and
`cas2_right_iff`, and only then. -/
theorem compare_and_swap_right_iff (cpu : CPUType) (size : Size) (mode : MemMode)
    (dstreg : BitVec 3) (st : Machine) :
    (CasRight size (casUpdate cpu size mode dstreg st) (casCompare cpu size mode dstreg st)
        (casAddress cpu size mode dstreg st) (casFetched cpu size mode dstreg st)
        (cas cpu size mode dstreg st) ↔
      CasEqual cpu size mode dstreg st ∨
        (casFetched cpu size mode dstreg st).regs.high size
            (casCompare cpu size mode dstreg st) =
          (casRead cpu size mode dstreg st).signExtend 32 &&& ~~~size.bitMask) ∧
      (Cas2Right size (cas2Extra st) (cas2Address1 st) (cas2Address2 st) st (cas2 size st) ↔
        (Cas2Equal size st →
          WritesAgree size st.mem (cas2Address1 st) (cas2Address2 st)
            (st.regs.dreg (cas2Du1 (cas2Extra st))) (st.regs.dreg (cas2Du2 (cas2Extra st)))) ∧
        (¬ Cas2Equal size st → LoadsAgree size st)) :=
  ⟨cas_right_iff cpu size mode dstreg st, cas2_right_iff size st⟩

/-- All registers are 0 and memory holds `0x80` throughout. -/
def negativeBytes : Machine := ⟨zeroRegs, fun _ => 0x80⟩

/-- A failing CAS.B clears or sets the high part of the compare register. -/
theorem cas_byte_loads_long :
    ¬ ∀ (cpu : CPUType) (size : Size) (mode : MemMode) (dstreg : BitVec 3) (st : Machine),
      CasRight size (casUpdate cpu size mode dstreg st) (casCompare cpu size mode dstreg st)
        (casAddress cpu size mode dstreg st) (casFetched cpu size mode dstreg st)
        (cas cpu size mode dstreg st) := by
  intro right
  have loaded := ((right .mc68020 .byte .aind 0 negativeBytes).failed (by decide)).2 0
  exact absurd loaded.1 (by decide)

end BasiliskII.Cpu
