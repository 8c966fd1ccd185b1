import BasiliskII.Cpu.ExtendedArithmetic

/-!
# ABCD and SBCD

The decimal counterparts of ADDX and SUBX, on bytes of two digits each. The
digits are adjusted in temporaries of 16 bits. A 68040 leaves N and V alone.
-/
namespace BasiliskII.Cpu

open ByteMemory RippleCarry

/-- `xBCD_KEEPS_NV_FLAGS` -/
def bcdKeepsNV : Nat := 4

/-- `genflags` and the setting of V, behind the arithmetic. -/
def decimalFlags (cpu : CPUType) (f : Flags) (c v : Bool) (newv : BitVec 16) : Flags :=
  let z := f.z && newv.setWidth 8 = 0#8
  if cpu.level ≥ bcdKeepsNV then { f with x := c, c, z }
  else { x := c, n := (newv.setWidth 8).msb, z, v, c }

/-- i_ABCD -/
def abcd (cpu : CPUType) (f : Flags) (src dst : BitVec 8) : BitVec 8 × Flags :=
  let src := src.signExtend 32
  let dst := dst.signExtend 32
  let newvLo := ((src &&& 0xf#32) + (dst &&& 0xf#32) + f.extend 32).setWidth 16
  let newvHi := ((src &&& 0xf0#32) + (dst &&& 0xf0#32)).setWidth 16
  -- A carry of the ones is in the tens already.
  let tmpNewv := newvHi + newvLo
  let newv := if newvLo > 9#16 then tmpNewv + 6 else tmpNewv
  let cflg := decide (newv &&& 0x3f0#16 > 0x90#16)
  let newv := if cflg then newv + 0x60 else newv
  (newv.setWidth 8,
    decimalFlags cpu f cflg (tmpNewv &&& 0x80#16 = 0#16 ∧ newv &&& 0x80#16 ≠ 0#16) newv)

/-- i_SBCD -/
def sbcd (cpu : CPUType) (f : Flags) (src dst : BitVec 8) : BitVec 8 × Flags :=
  let src := src.signExtend 32
  let dst := dst.signExtend 32
  let newvLo := ((dst &&& 0xf#32) - (src &&& 0xf#32) - f.extend 32).setWidth 16
  let newvHi := ((dst &&& 0xf0#32) - (src &&& 0xf0#32)).setWidth 16
  let tmpNewv := newvHi + newvLo
  let borrow := decide (newvLo &&& 0xf0#16 ≠ 0#16)
  let newv := if borrow then tmpNewv - 6 else tmpNewv
  let bcd : BitVec 32 := if borrow then 6 else 0
  -- The tens are corrected by the borrow of the bytes, without the correction of the ones.
  let newv :=
    if ((dst &&& 0xff#32) - (src &&& 0xff#32) - f.extend 32) &&& 0x100#32 > 0xff#32 then newv - 0x60
    else newv
  let cflg :=
    decide (((dst &&& 0xff#32) - (src &&& 0xff#32) - bcd - f.extend 32) &&& 0x300#32 > 0xff#32)
  (newv.setWidth 8,
    decimalFlags cpu f cflg (tmpNewv &&& 0x80#16 ≠ 0#16 ∧ newv &&& 0x80#16 = 0#16) newv)

-- Packed decimal numbers.

/-- Both digits of a byte are decimal. -/
def ValidBcd (b : BitVec 8) : Prop := b.toNat / 16 ≤ 9 ∧ b.toNat % 16 ≤ 9

instance (b : BitVec 8) : Decidable (ValidBcd b) := inferInstanceAs (Decidable (_ ∧ _))

def bcdValue (b : BitVec 8) : Nat := b.toNat / 16 * 10 + b.toNat % 16

/-- The number the bytes make up, the least significant first. -/
def decimal (bytes : List (BitVec 8)) : Nat := Nat.ofDigits 100 (bytes.map bcdValue)

section

variable (steps : List (BitVec 8 × BitVec 8 × BitVec 8))

def decimalSource : Nat := decimal (steps.map (·.1))

def decimalDestination : Nat := decimal (steps.map (·.2.1))

def decimalResult : Nat := decimal (steps.map (·.2.2))

/-- What a chain of ABCD is to leave, from X = 0 and Z = 1. -/
structure DecimalSum (f : Flags) : Prop where
  digits : ∀ step ∈ steps, ValidBcd step.2.2
  sum : decimalResult steps = (decimalSource steps + decimalDestination steps) % 100 ^ steps.length
  x : f.x = decide (100 ^ steps.length ≤ decimalSource steps + decimalDestination steps)
  c : steps ≠ [] → f.c = f.x
  z : f.z = true ↔ decimalResult steps = 0

/-- What a chain of SBCD is to leave. -/
structure DecimalDifference (f : Flags) : Prop where
  digits : ∀ step ∈ steps, ValidBcd step.2.2
  difference : (decimalResult steps : Int) =
    ((decimalDestination steps : Int) - decimalSource steps) % (100 ^ steps.length : Nat)
  x : f.x = decide (decimalDestination steps < decimalSource steps)
  c : steps ≠ [] → f.c = f.x
  z : f.z = true ↔ decimalResult steps = 0

end

-- A round.

theorem byte_masks : ∀ b : BitVec 8,
    b.signExtend 32 &&& 0xf#32 = BitVec.ofNat 32 (b.toNat % 16) ∧
      b.signExtend 32 &&& 0xf0#32 = BitVec.ofNat 32 (b.toNat / 16 * 16) ∧
      b.signExtend 32 &&& 0xff#32 = BitVec.ofNat 32 b.toNat := by
  decide

theorem Flags.extend_eq (f : Flags) (n : Nat) : f.extend n = BitVec.ofNat n f.x.toNat := by
  unfold Flags.extend
  cases f.x <;> rfl

theorem decimalFlags_x (cpu : CPUType) (f : Flags) (c v : Bool) (newv : BitVec 16) :
    (decimalFlags cpu f c v newv).x = c := by
  unfold decimalFlags
  split <;> rfl

theorem decimalFlags_c (cpu : CPUType) (f : Flags) (c v : Bool) (newv : BitVec 16) :
    (decimalFlags cpu f c v newv).c = c := by
  unfold decimalFlags
  split <;> rfl

theorem decimalFlags_z (cpu : CPUType) (f : Flags) (c v : Bool) (newv : BitVec 16) :
    (decimalFlags cpu f c v newv).z = (f.z && newv.setWidth 8 = 0#8) := by
  unfold decimalFlags
  split <;> rfl

theorem abcd_digits : ∀ ones < 20, ∀ tens < 19,
    let tmpNewv := BitVec.ofNat 16 (tens * 16) + BitVec.ofNat 16 ones
    let newv := if BitVec.ofNat 16 ones > 9#16 then tmpNewv + 6 else tmpNewv
    let cflg := decide (newv &&& 0x3f0#16 > 0x90#16)
    let newv := (if cflg then newv + 0x60 else newv).setWidth 8
    ValidBcd newv ∧ bcdValue newv + 100 * cflg.toNat = tens * 10 + ones := by
  decide +kernel

theorem abcd_exact (cpu : CPUType) (f : Flags) {src dst : BitVec 8} (valid_src : ValidBcd src)
    (valid_dst : ValidBcd dst) :
    ValidBcd (abcd cpu f src dst).1 ∧
      bcdValue (abcd cpu f src dst).1 + 100 * (abcd cpu f src dst).2.x.toNat =
        bcdValue src + bcdValue dst + f.x.toNat := by
  obtain ⟨src_lo, src_hi, -⟩ := byte_masks src
  obtain ⟨dst_lo, dst_hi, -⟩ := byte_masks dst
  have extend_le : f.x.toNat ≤ 1 := Bool.toNat_le f.x
  obtain ⟨src_tens, src_ones⟩ := valid_src
  obtain ⟨dst_tens, dst_ones⟩ := valid_dst
  have ones : ((src.signExtend 32 &&& 0xf#32) + (dst.signExtend 32 &&& 0xf#32) +
      f.extend 32).setWidth 16 =
        BitVec.ofNat 16 (src.toNat % 16 + dst.toNat % 16 + f.x.toNat) := by
    rw [src_lo, dst_lo, f.extend_eq, ← BitVec.ofNat_add, ← BitVec.ofNat_add,
      BitVec.setWidth_ofNat_of_le (by decide)]
  have tens : ((src.signExtend 32 &&& 0xf0#32) + (dst.signExtend 32 &&& 0xf0#32)).setWidth 16 =
      BitVec.ofNat 16 ((src.toNat / 16 + dst.toNat / 16) * 16) := by
    rw [src_hi, dst_hi, ← BitVec.ofNat_add, BitVec.setWidth_ofNat_of_le (by decide), Nat.add_mul]
  have digits := abcd_digits (src.toNat % 16 + dst.toNat % 16 + f.x.toNat) (by omega)
    (src.toNat / 16 + dst.toNat / 16) (by omega)
  have sum : (src.toNat / 16 + dst.toNat / 16) * 10 +
      (src.toNat % 16 + dst.toNat % 16 + f.x.toNat) = bcdValue src + bcdValue dst + f.x.toNat := by
    rw [bcdValue, bcdValue]
    omega
  rw [sum, ← ones, ← tens] at digits
  simp only [abcd, decimalFlags_x]
  exact digits

/-- The adjustment of a difference of ones, from -10 on, and of tens, from -9 on. -/
theorem sbcd_digits : ∀ ones < 20, ∀ tens < 19,
    let lo := BitVec.ofNat 32 ones - 10#32
    let hi := BitVec.ofNat 32 (tens * 16) - 144#32
    let tmpNewv := hi.setWidth 16 + lo.setWidth 16
    let borrow := decide (lo.setWidth 16 &&& 0xf0#16 ≠ 0#16)
    let newv := if borrow then tmpNewv - 6 else tmpNewv
    let bcd : BitVec 32 := if borrow then 6 else 0
    let newv := (if (hi + lo) &&& 0x100#32 > 0xff#32 then newv - 0x60 else newv).setWidth 8
    let cflg := decide ((hi + lo - bcd) &&& 0x300#32 > 0xff#32)
    ValidBcd newv ∧ tens * 10 + ones + 100 * cflg.toNat = bcdValue newv + 100 := by
  decide +kernel

theorem sbcd_exact (cpu : CPUType) (f : Flags) {src dst : BitVec 8} (valid_src : ValidBcd src)
    (valid_dst : ValidBcd dst) :
    ValidBcd (sbcd cpu f src dst).1 ∧
      bcdValue dst + 100 * (sbcd cpu f src dst).2.x.toNat =
        bcdValue src + bcdValue (sbcd cpu f src dst).1 + f.x.toNat := by
  obtain ⟨src_lo, src_hi, src_all⟩ := byte_masks src
  obtain ⟨dst_lo, dst_hi, dst_all⟩ := byte_masks dst
  have extend_le : f.x.toNat ≤ 1 := Bool.toNat_le f.x
  obtain ⟨src_tens, src_ones⟩ := valid_src
  obtain ⟨dst_tens, dst_ones⟩ := valid_dst
  have ones : (dst.signExtend 32 &&& 0xf#32) - (src.signExtend 32 &&& 0xf#32) - f.extend 32 =
      BitVec.ofNat 32 (10 + dst.toNat % 16 - src.toNat % 16 - f.x.toNat) - 10#32 := by
    rw [dst_lo, src_lo, f.extend_eq]
    apply BitVec.eq_of_toNat_eq
    simp only [BitVec.toNat_sub, BitVec.toNat_ofNat]
    omega
  have tens : (dst.signExtend 32 &&& 0xf0#32) - (src.signExtend 32 &&& 0xf0#32) =
      BitVec.ofNat 32 ((9 + dst.toNat / 16 - src.toNat / 16) * 16) - 144#32 := by
    rw [dst_hi, src_hi]
    apply BitVec.eq_of_toNat_eq
    simp only [BitVec.toNat_sub, BitVec.toNat_ofNat]
    omega
  have parts : ∀ b : BitVec 8, b.signExtend 32 &&& 0xff#32 =
      (b.signExtend 32 &&& 0xf0#32) + (b.signExtend 32 &&& 0xf#32) := by
    decide
  have whole (bcd : BitVec 32) :
      (dst.signExtend 32 &&& 0xff#32) - (src.signExtend 32 &&& 0xff#32) - bcd - f.extend 32 =
        ((dst.signExtend 32 &&& 0xf0#32) - (src.signExtend 32 &&& 0xf0#32)) +
          ((dst.signExtend 32 &&& 0xf#32) - (src.signExtend 32 &&& 0xf#32) - f.extend 32) - bcd := by
    rw [parts, parts]
    grind
  have whole' := whole 0#32
  rw [BitVec.sub_zero, BitVec.sub_zero] at whole'
  have digits := sbcd_digits (10 + dst.toNat % 16 - src.toNat % 16 - f.x.toNat) (by omega)
    (9 + dst.toNat / 16 - src.toNat / 16) (by omega)
  rw [← ones, ← tens] at digits
  obtain ⟨valid, difference⟩ := digits
  simp only [sbcd, decimalFlags_x, whole, whole']
  refine ⟨valid, ?_⟩
  rw [bcdValue, bcdValue]
  omega

-- The chains.

section

variable {steps : List (BitVec 8 × BitVec 8 × BitVec 8)} {f last : Flags}

theorem bcdValue_lt {b : BitVec 8} (valid : ValidBcd b) : bcdValue b < 100 := by
  obtain ⟨tens, ones⟩ := valid
  rw [bcdValue]
  omega

theorem bcdValue_eq_zero_iff (b : BitVec 8) : bcdValue b = 0 ↔ b = 0 := by
  have zero : (0 : BitVec 8).toNat = 0 := rfl
  rw [bcdValue, ← BitVec.toNat_inj, zero]
  omega

theorem decimal_map (p : BitVec 8 × BitVec 8 × BitVec 8 → BitVec 8) :
    decimal (steps.map p) = Nat.ofDigits 100 (steps.map (fun t => bcdValue (p t))) := by
  rw [decimal, List.map_map]
  rfl

theorem decimal_lt (p : BitVec 8 × BitVec 8 × BitVec 8 → BitVec 8)
    (valid : ∀ t ∈ steps, ValidBcd (p t)) : decimal (steps.map p) < 100 ^ steps.length := by
  have digits : ∀ d ∈ steps.map (fun t => bcdValue (p t)), d < 100 := by
    intro d member
    obtain ⟨t, among, rfl⟩ := List.mem_map.mp member
    exact bcdValue_lt (valid t among)
  have below := Nat.ofDigits_lt_base_pow_length (by decide : 1 < 100) digits
  rwa [List.length_map, ← decimal_map] at below

theorem decimal_zero_iff (flag : Bool)
    (set : flag = (true && steps.all (fun t => decide (t.2.2 = 0)))) :
    flag = true ↔ decimalResult steps = 0 := by
  rw [all_zero_iff flag set, decimalResult, decimal_map,
    ofDigits_map_eq_zero_iff (by decide : 0 < 100)]
  simp only [bcdValue_eq_zero_iff]

/-- The carry of the last round goes to C and to X. -/
theorem decimal_carry {op : Flags → BitVec 8 → BitVec 8 → BitVec 8 × Flags}
    (chain : Chain op f steps last) (round : ∀ f src dst, (op f src dst).2.c = (op f src dst).2.x)
    (some_round : steps ≠ []) : last.c = last.x := by
  obtain ⟨before, t, rfl⟩ := (List.eq_nil_or_concat' steps).resolve_left some_round
  obtain ⟨s, -, top⟩ := chain.of_concat
  have flags : (op s t.1 t.2.1).2 = last := by rw [top]
  rw [← flags]
  exact round s t.1 t.2.1

variable (cpu : CPUType)

theorem abcd_chain (chain : Chain (abcd cpu) f steps last) (x : f.x = false) (z : f.z = true)
    (valid : ∀ step ∈ steps, ValidBcd step.1 ∧ ValidBcd step.2.1) : DecimalSum steps last := by
  have rounds := chain.balance 100 (fun f => f.x.toNat) (fun t => bcdValue t.2.2)
    (fun t => bcdValue t.1 + bcdValue t.2.1) ValidBcd
    (fun s _ _ valid_src valid_dst => (abcd_exact cpu s valid_src valid_dst).2) valid
  have balance : decimalResult steps + 100 ^ steps.length * last.x.toNat =
      decimalSource steps + decimalDestination steps := by
    rw [ofDigits_map_add, x, Bool.toNat_false, Nat.add_zero] at rounds
    rw [decimalResult, decimalSource, decimalDestination, decimal_map, decimal_map, decimal_map,
      rounds]
  have digits := chain.results ValidBcd ValidBcd
    (fun s _ _ valid_src valid_dst => (abcd_exact cpu s valid_src valid_dst).1) valid
  have below : decimalResult steps < 100 ^ steps.length := decimal_lt (fun t => t.2.2) digits
  have zero := chain.sticky Flags.z (fun r => decide (r = 0))
    (fun _ _ _ => decimalFlags_z cpu _ _ _ _)
  rw [z] at zero
  constructor
  · exact digits
  · rw [← balance, Nat.add_mul_mod_self_left, Nat.mod_eq_of_lt below]
  · rw [← balance]
    cases last.x with
    | false => exact (decide_eq_false (by rw [Bool.toNat_false]; omega)).symm
    | true => exact (decide_eq_true (by rw [Bool.toNat_true]; omega)).symm
  · apply decimal_carry chain
    intro f src dst
    exact (decimalFlags_c cpu f _ _ _).trans (decimalFlags_x cpu f _ _ _).symm
  · exact decimal_zero_iff last.z zero

theorem sbcd_chain (chain : Chain (sbcd cpu) f steps last) (x : f.x = false) (z : f.z = true)
    (valid : ∀ step ∈ steps, ValidBcd step.1 ∧ ValidBcd step.2.1) :
    DecimalDifference steps last := by
  have rounds := chain.balance 100 (fun f => f.x.toNat) (fun t => bcdValue t.2.1)
    (fun t => bcdValue t.1 + bcdValue t.2.2) ValidBcd
    (fun s _ _ valid_src valid_dst => (sbcd_exact cpu s valid_src valid_dst).2) valid
  have balance : decimalDestination steps + 100 ^ steps.length * last.x.toNat =
      decimalSource steps + decimalResult steps := by
    rw [ofDigits_map_add, x, Bool.toNat_false, Nat.add_zero] at rounds
    rw [decimalResult, decimalSource, decimalDestination, decimal_map, decimal_map, decimal_map,
      rounds]
  have digits := chain.results ValidBcd ValidBcd
    (fun s _ _ valid_src valid_dst => (sbcd_exact cpu s valid_src valid_dst).1) valid
  have below : decimalResult steps < 100 ^ steps.length := decimal_lt (fun t => t.2.2) digits
  have zero := chain.sticky Flags.z (fun r => decide (r = 0))
    (fun _ _ _ => decimalFlags_z cpu _ _ _ _)
  rw [z] at zero
  have destination_below : decimalDestination steps < 100 ^ steps.length :=
    decimal_lt (fun t => t.2.1) (fun t member => (valid t member).2)
  constructor
  · exact digits
  · generalize 100 ^ steps.length = base at *
    have difference : (decimalDestination steps : Int) - decimalSource steps =
        decimalResult steps + (base : Int) * -(last.x.toNat : Int) := by
      have cast := congrArg (Nat.cast (R := Int)) balance
      push_cast at cast
      linarith
    rw [difference, Int.add_mul_emod_self_left]
    exact (Int.emod_eq_of_lt (by omega) (by exact_mod_cast below)).symm
  · cases out : last.x with
    | false =>
      rw [out, Bool.toNat_false] at balance
      exact (decide_eq_false (by omega)).symm
    | true =>
      rw [out, Bool.toNat_true] at balance
      exact (decide_eq_true (by omega)).symm
  · apply decimal_carry chain
    intro f src dst
    exact (decimalFlags_c cpu f _ _ _).trans (decimalFlags_x cpu f _ _ _).symm
  · exact decimal_zero_iff last.z zero

end

/-- A run leaves each limb it makes in its place: in data registers that are not used again, -/
structure LeavesLimbs (cpu : CPUType) {size : Size} (op : ExtendedOp size) (st : Machine) :
    Prop where
  registers : ∀ instrs : List ExtendedInstr, (∀ i ∈ instrs, i.mode = .dreg) →
    (instrs.Pairwise fun i j => i.dstreg ≠ j.srcreg ∧ i.dstreg ≠ j.dstreg) →
    extendedSteps cpu size op st instrs =
      instrs.map fun i => (st.regs.low size i.srcreg, st.regs.low size i.dstreg,
        (extendedRun cpu size op st instrs).regs.low size i.dstreg)
  /-- or in memory, if it does not overwrite what it has yet to read. -/
  memory : ∀ (x y : BitVec 3) (n : Nat), x ≠ y → n * (size.step y).toNat ≤ 2 ^ 32 →
    (∀ i j, i < j → j < n → Apart (limbAt size y (st.regs.areg y) i) size.bytes
      (limbAt size x (st.regs.areg x) j) size.bytes) →
    extendedSteps cpu size op st (List.replicate n ⟨.apdi, x, y⟩) =
      (List.range n).map fun i =>
        (size.get st.mem (limbAt size x (st.regs.areg x) i),
          size.get st.mem (limbAt size y (st.regs.areg y) i),
          size.get (extendedRun cpu size op st (List.replicate n ⟨.apdi, x, y⟩)).mem
            (limbAt size y (st.regs.areg y) i))

/-- Chains of the four instructions add and subtract numbers of any length. -/
theorem extended_chains (cpu : CPUType) (st : Machine) (x : st.regs.flags.x = false)
    (z : st.regs.flags.z = true) :
    (∀ (size : Size) (instrs : List ExtendedInstr),
      ChainSum (extendedSteps cpu size addx st instrs)
          (extendedRun cpu size addx st instrs).regs.flags ∧
        ChainDifference (extendedSteps cpu size subx st instrs)
          (extendedRun cpu size subx st instrs).regs.flags) ∧
    (∀ instrs : List ExtendedInstr,
      (∀ step ∈ extendedSteps cpu .byte (abcd cpu) st instrs,
        ValidBcd step.1 ∧ ValidBcd step.2.1) →
      DecimalSum (extendedSteps cpu .byte (abcd cpu) st instrs)
        (extendedRun cpu .byte (abcd cpu) st instrs).regs.flags) ∧
    (∀ instrs : List ExtendedInstr,
      (∀ step ∈ extendedSteps cpu .byte (sbcd cpu) st instrs,
        ValidBcd step.1 ∧ ValidBcd step.2.1) →
      DecimalDifference (extendedSteps cpu .byte (sbcd cpu) st instrs)
        (extendedRun cpu .byte (sbcd cpu) st instrs).regs.flags) ∧
    ∀ (size : Size) (op : ExtendedOp size), LeavesLimbs cpu op st := by
  refine ⟨fun size instrs => ⟨?_, ?_⟩, fun instrs valid => ?_, fun instrs valid => ?_,
    fun size op => ⟨?_, ?_⟩⟩
  · exact addx_chain size.bits_pos (extendedRun_chain cpu size addx st instrs) x z
  · exact subx_chain size.bits_pos (extendedRun_chain cpu size subx st instrs) x z
  · exact abcd_chain cpu (extendedRun_chain cpu .byte (abcd cpu) st instrs) x z valid
  · exact sbcd_chain cpu (extendedRun_chain cpu .byte (sbcd cpu) st instrs) x z valid
  · exact extendedSteps_registers cpu op st
  · exact fun x y n different => extendedSteps_memory cpu op st different n

/-- D0 and D1 hold 99, X is clear and Z set. -/
def ninetyNines : Machine :=
  ⟨{ zeroRegs with dreg := fun _ => 0x99, flags := { zeroRegs.flags with z := true } }, fun _ => 0⟩

/-- 99 and 99 with ABCD, and with SBCD. -/
theorem ninetyNines_added :
    ninetyNines.regs.flags.x = false ∧ ninetyNines.regs.flags.z = true ∧
      DecimalSum
        (extendedSteps .mc68040 .byte (abcd .mc68040) ninetyNines [⟨.dreg, 0, 1⟩])
        (extendedRun .mc68040 .byte (abcd .mc68040) ninetyNines
          [⟨.dreg, 0, 1⟩]).regs.flags ∧
      DecimalDifference
        (extendedSteps .mc68040 .byte (sbcd .mc68040) ninetyNines [⟨.dreg, 0, 1⟩])
        (extendedRun .mc68040 .byte (sbcd .mc68040) ninetyNines
          [⟨.dreg, 0, 1⟩]).regs.flags ∧
      extendedSteps .mc68040 .byte (abcd .mc68040) ninetyNines [⟨.dreg, 0, 1⟩] =
        [(0x99, 0x99, 0x98)] := by
  have chains := extended_chains .mc68040 ninetyNines rfl rfl
  have nines : ValidBcd 0x99 := by decide
  have added : extendedSteps .mc68040 .byte (abcd .mc68040) ninetyNines [⟨.dreg, 0, 1⟩] =
      [(0x99, 0x99, 0x98)] := by decide
  have subtracted : extendedSteps .mc68040 .byte (sbcd .mc68040) ninetyNines [⟨.dreg, 0, 1⟩] =
      [(0x99, 0x99, 0)] := by decide
  refine ⟨rfl, rfl, chains.2.1 _ ?_, chains.2.2.1 _ ?_, added⟩
  · rw [added]
    exact List.forall_mem_singleton.mpr ⟨nines, nines⟩
  · rw [subtracted]
    exact List.forall_mem_singleton.mpr ⟨nines, nines⟩

end BasiliskII.Cpu
