import BasiliskII.Fpu.Arithmetic

/-!
# Illegal instructions of the FPU

`fpuop_arithmetic` raises the F-line exception for what it does not know, so that a handler can
emulate it. It fetches operands before it looks at the operation, and sets the PC back by the
opcode and the first extension word only.
-/
namespace BasiliskII.Fpu

open ByteMemory Cpu

/-- FPP with one of the effective addresses. -/
def fppOpcode (ea : BitVec 6) : BitVec 16 := 0xf200 ||| ea.setWidth 16

/-- The modes with extension words. -/
def Extended (opcode : BitVec 16) : Prop :=
  eaMode opcode = 5 ∨ eaMode opcode = 6 ∨ eaMode opcode = 7 ∧ eaReg opcode < 4

/-- The modes that move An or the PC by the size of the operand. -/
def Stepped (opcode : BitVec 16) : Prop :=
  eaMode opcode = 3 ∨ eaMode opcode = 4 ∨ eaMode opcode = 7 ∧ eaReg opcode = 4

/-- Fetching the operand moves An or the PC. -/
def Moves (opcode extra : BitVec 16) : Prop :=
  Extended opcode ∨ Stepped opcode ∧ operandSize extra ≠ 7

instance Moves.decidable (opcode extra : BitVec 16) : Decidable (Moves opcode extra) :=
  inferInstanceAs (Decidable ((_ ∨ _ ∨ _ ∧ _) ∨ (_ ∨ _ ∨ _ ∧ _) ∧ _ ≠ _))

/-- It is fetched before the instruction turns out to be illegal: a store of an unknown size, or an
operation on a memory operand that is not supported. -/
def FetchedFirst (is_integral : Bool) (extra : BitVec 16) : Prop :=
  extra.extractLsb' 13 3 = 3 ∧ operandSize extra = 7 ∨
    extra.extractLsb' 13 3 = 2 ∧ extra &&& 0xfc00 ≠ 0x5c00 ∧
      decodeOperation is_integral (extra.setWidth 7) = none

/-- One exception, at the instruction, with everything as the instruction found it. -/
structure Emulable (m : FpuMachine) (run : FpuMachine × List ExceptionCall) : Prop where
  once : run.2 = [⟨0xb, 0, ⟨m.regs, m.mem⟩⟩]
  stacked : getLong run.1.mem (run.1.regs.a7 + 2) = m.regs.pc
  registers : run.1.fpu.registers = m.fpu.registers
  fpsr : getFpsr run.1.fpu = getFpsr m.fpu
  fpcr : getFpcr run.1.fpu = getFpcr m.fpu

/-! ### Operands -/

theorem indexLength_pos (dp : BitVec 16) : 0 < indexLength dp := by
  unfold indexLength
  split <;> omega

theorem behind_ne (pc : BitVec 32) {length : Nat} (some_read : 0 < length) (few : length ≤ 12) :
    pc + BitVec.ofNat 32 length ≠ pc := by
  intro same
  have value := congrArg BitVec.toNat (BitVec.add_right_eq_self.mp same)
  rw [BitVec.toNat_ofNat, Nat.mod_eq_of_lt (by omega)] at value
  exact Nat.ne_of_gt some_read value

theorem mode_cases (mode : BitVec 3) :
    mode = 0 ∨ mode = 1 ∨ mode = 2 ∨ mode = 3 ∨ mode = 4 ∨ mode = 5 ∨ mode = 6 ∨ mode = 7 := by
  revert mode
  decide

theorem sz1_length (size : BitVec 3) (known : size ≠ 7) :
    ∃ length, sz1 size = BitVec.ofNat 32 length ∧ 0 < length ∧ length ≤ 12 := by
  obtain rfl | rfl | rfl | rfl | rfl | rfl | rfl | rfl := mode_cases size
  · exact ⟨4, rfl, by decide, by decide⟩
  · exact ⟨4, rfl, by decide, by decide⟩
  · exact ⟨12, rfl, by decide, by decide⟩
  · exact ⟨12, rfl, by decide, by decide⟩
  · exact ⟨2, rfl, by decide, by decide⟩
  · exact ⟨8, rfl, by decide, by decide⟩
  · exact ⟨1, rfl, by decide, by decide⟩
  · contradiction

theorem sz2_length (size : BitVec 3) (known : size ≠ 7) :
    ∃ length, sz2 size = BitVec.ofNat 32 length ∧ 0 < length ∧ length ≤ 12 := by
  unfold sz2
  split
  · exact ⟨2, rfl, by decide, by decide⟩
  · exact sz1_length size known

theorem aregStep_length (opcode extra : BitVec 16) (known : operandSize extra ≠ 7) :
    ∃ length, aregStep opcode extra = BitVec.ofNat 32 length ∧ 0 < length ∧ length ≤ 12 := by
  unfold aregStep
  split
  · exact sz2_length _ known
  · exact sz1_length _ known

theorem aregStep_unknown (opcode extra : BitVec 16) (unknown : operandSize extra = 7) :
    aregStep opcode extra = 0#32 := by
  unfold aregStep
  rw [unknown]
  split <;> rfl

/-- `length` bytes have been read from the instruction stream, and nothing else was done. -/
structure ReadBehind (st st' : Machine) : Prop where
  only : OnlyPc st st'
  behind : ∃ length, 0 < length ∧ length ≤ 12 ∧
    st'.regs.pc = st.regs.pc + BitVec.ofNat 32 length

theorem ReadBehind.iword (st : Machine) : ReadBehind st st.nextIword.2 :=
  ⟨st.incpc_onlyPc 2, 2, by decide, by decide, rfl⟩

theorem ReadBehind.ilong (st : Machine) : ReadBehind st st.nextIlong.2 :=
  ⟨st.incpc_onlyPc 4, 4, by decide, by decide, rfl⟩

theorem ReadBehind.dispEa020 (base : BitVec 32) (dp : BitVec 16) (st : Machine) :
    ReadBehind st (getDispEa020 base dp st.nextIword.2).2 where
  only := (st.incpc_onlyPc 2).trans (getDispEa020_onlyPc ..)
  behind :=
    ⟨indexLength dp, indexLength_pos dp, Nat.le_trans (indexLength_le dp) (by decide),
      getDispEa020_pc base dp st⟩

theorem ReadBehind.regs_ne {st st' : Machine} (read : ReadBehind st st') : st'.regs ≠ st.regs := by
  obtain ⟨length, some_read, few, pc⟩ := read.behind
  intro same
  rw [same] at pc
  exact behind_ne _ some_read few pc.symm

theorem fetchFpAd_spec {opcode : BitVec 16} {st st' : Machine} {ad : BitVec 32}
    (fetched : fetchFpAd opcode st = some (ad, st')) :
    ¬Extended opcode ∧ st' = st ∨ Extended opcode ∧ ReadBehind st st' := by
  have still {mode : BitVec 3} (here : eaMode opcode = mode)
      (short : mode ≠ 5 ∧ mode ≠ 6 ∧ mode ≠ 7) : ¬Extended opcode := by
    unfold Extended
    rw [here]
    rintro (extended | extended | ⟨extended, -⟩)
    · exact short.1 extended
    · exact short.2.1 extended
    · exact short.2.2 extended
  unfold fetchFpAd at fetched
  dsimp only at fetched
  split at fetched
  next => contradiction
  next => contradiction
  next mode => exact .inl ⟨still mode (by decide), (Prod.mk.inj (Option.some.inj fetched)).2.symm⟩
  next mode => exact .inl ⟨still mode (by decide), (Prod.mk.inj (Option.some.inj fetched)).2.symm⟩
  next mode => exact .inl ⟨still mode (by decide), (Prod.mk.inj (Option.some.inj fetched)).2.symm⟩
  next mode =>
    obtain rfl := (Prod.mk.inj (Option.some.inj fetched)).2
    exact .inr ⟨.inl mode, .iword st⟩
  next mode =>
    obtain rfl := congrArg Prod.snd (Option.some.inj fetched)
    exact .inr ⟨.inr (.inl mode), .dispEa020 _ _ st⟩
  next h0 h1 h2 h3 h4 h5 h6 =>
    have seven : eaMode opcode = 7 := by
      obtain mode | mode | mode | mode | mode | mode | mode | mode := mode_cases (eaMode opcode)
      · exact (h0 mode).elim
      · exact (h1 mode).elim
      · exact (h2 mode).elim
      · exact (h3 mode).elim
      · exact (h4 mode).elim
      · exact (h5 mode).elim
      · exact (h6 mode).elim
      · exact mode
    have low {reg : BitVec 3} (here : eaReg opcode = reg) (few : reg < 4) : Extended opcode :=
      .inr (.inr ⟨seven, here ▸ few⟩)
    split at fetched
    next reg =>
      obtain rfl := (Prod.mk.inj (Option.some.inj fetched)).2
      exact .inr ⟨low reg (by decide), .iword st⟩
    next reg =>
      obtain rfl := congrArg Prod.snd (Option.some.inj fetched)
      exact .inr ⟨low reg (by decide), .ilong st⟩
    next reg =>
      obtain rfl := (Prod.mk.inj (Option.some.inj fetched)).2
      exact .inr ⟨low reg (by decide), .iword st⟩
    next reg =>
      obtain rfl := congrArg Prod.snd (Option.some.inj fetched)
      exact .inr ⟨low reg (by decide), .dispEa020 _ _ st⟩
    next => contradiction

theorem fetchFpAd_extended {opcode : BitVec 16} (extended : Extended opcode) (st : Machine) :
    fetchFpAd opcode st ≠ none := by
  have reg_cases : ∀ reg : BitVec 3, reg < 4 → reg = 0 ∨ reg = 1 ∨ reg = 2 ∨ reg = 3 := by decide
  unfold fetchFpAd
  obtain mode | mode | ⟨mode, reg⟩ := extended
  · rw [show opcode.extractLsb' 3 3 = 5 from mode]
    nofun
  · rw [show opcode.extractLsb' 3 3 = 6 from mode]
    nofun
  · rw [show opcode.extractLsb' 3 3 = 7 from mode]
    obtain reg | reg | reg | reg := reg_cases _ reg <;>
      rw [show opcode.setWidth 3 = _ from reg] <;> nofun

/-! ### What an operand moves -/

theorem setAreg_ne (regs : Regs) (num : BitVec 3) {value : BitVec 32}
    (different : value ≠ regs.areg num) : regs.setAreg num value ≠ regs := by
  intro same
  have held := congrArg (fun r : Regs => r.areg num) same
  rw [Regs.setAreg_same] at held
  exact different held

theorem sub_ofNat_ne (value : BitVec 32) {length : Nat} (some_bytes : 0 < length)
    (few : length ≤ 12) : value - BitVec.ofNat 32 length ≠ value := by
  intro same
  apply behind_ne (value - BitVec.ofNat 32 length) some_bytes few
  rw [BitVec.sub_add_cancel, same]

theorem Stepped.not_extended {opcode : BitVec 16} (stepped : Stepped opcode) : ¬Extended opcode := by
  obtain mode | mode | ⟨mode, reg⟩ := stepped
  · simp [Extended, mode]
  · simp [Extended, mode]
  · simp [Extended, mode, reg]

/-- Moving An or the PC is seen unless it is by nothing. -/
theorem stepped_moves_iff {opcode extra : BitVec 16} (stepped : Stepped opcode) :
    Moves opcode extra ↔ operandSize extra ≠ 7 := by
  rw [Moves, or_iff_right stepped.not_extended, and_iff_right stepped]

/-- An operand in memory is fetched without a trace unless it moves a register. -/
theorem operandAddress_spec {opcode extra : BitVec 16} {st st' : Machine} {ad : BitVec 32}
    (fetched : operandAddress opcode extra st = some (ad, st')) :
    st'.mem = st.mem ∧ (st'.regs = st.regs ↔ ¬Moves opcode extra) := by
  unfold operandAddress at fetched
  dsimp only at fetched
  split at fetched
  next mode =>
    obtain rfl := (Prod.mk.inj (Option.some.inj fetched)).2
    refine ⟨rfl, ?_⟩
    rw [stepped_moves_iff (.inl mode), not_not]
    constructor
    · intro same
      by_contra known
      obtain ⟨length, step, some_bytes, few⟩ := aregStep_length opcode extra known
      exact setAreg_ne _ _ (step ▸ behind_ne _ some_bytes few) same
    · intro unknown
      rw [aregStep_unknown _ _ unknown, BitVec.add_zero]
      exact Regs.setAreg_self ..
  next =>
    split at fetched
    next mode =>
      obtain rfl := (Prod.mk.inj (Option.some.inj fetched)).2
      refine ⟨rfl, ?_⟩
      rw [stepped_moves_iff (.inr (.inl mode)), not_not]
      constructor
      · intro same
        by_contra known
        obtain ⟨length, step, some_bytes, few⟩ := aregStep_length opcode extra known
        exact setAreg_ne _ _ (step ▸ sub_ofNat_ne _ some_bytes few) same
      · intro unknown
        rw [aregStep_unknown _ _ unknown, BitVec.sub_zero]
        exact Regs.setAreg_self ..
    next =>
      split at fetched
      next mode =>
        obtain rfl := (Prod.mk.inj (Option.some.inj fetched)).2
        refine ⟨rfl, ?_⟩
        rw [stepped_moves_iff (.inr (.inr mode)), not_not]
        constructor
        · intro same
          by_contra known
          obtain ⟨length, step, some_bytes, few⟩ := sz2_length _ known
          apply behind_ne st.regs.pc some_bytes few
          rw [← step]
          exact congrArg Regs.pc same
        · intro unknown
          have size : sz2 (operandSize extra) = 0 := by
            rw [unknown]
            rfl
          rw [size]
          exact congrArg (fun pc => { st.regs with pc }) (BitVec.add_zero st.regs.pc)
      next not_step not_down not_immediate =>
        have not_stepped : ¬Stepped opcode := by
          rintro (mode | mode | mode)
          · exact not_step mode
          · exact not_down mode
          · exact not_immediate mode
        have moves : Moves opcode extra ↔ Extended opcode := by
          rw [Moves, or_iff_left (not_stepped ·.1)]
        rw [moves]
        obtain ⟨still, rfl⟩ | ⟨extended, read⟩ := fetchFpAd_spec fetched
        · exact ⟨rfl, iff_of_true rfl still⟩
        · exact ⟨read.only.mem, iff_of_false read.regs_ne (not_not_intro extended)⟩

theorem operandAddress_moves {opcode extra : BitVec 16} (moves : Moves opcode extra) (st : Machine) :
    operandAddress opcode extra st ≠ none := by
  unfold operandAddress
  dsimp only
  split
  · nofun
  · split
    · nofun
    · split
      · nofun
      next not_step not_down not_immediate =>
        obtain extended | ⟨mode | mode | mode, -⟩ := moves
        · exact fetchFpAd_extended extended st
        · exact absurd mode not_step
        · exact absurd mode not_down
        · exact absurd mode not_immediate

theorem Moves.mode_ne {opcode extra : BitVec 16} (moves : Moves opcode extra) : eaMode opcode ≠ 0 := by
  intro zero
  obtain (mode | mode | ⟨mode, -⟩) | ⟨mode | mode | ⟨mode, -⟩, -⟩ := moves <;>
    exact absurd (zero.symm.trans mode) (by decide)

/-! ### Fetching and storing -/

/-- Nothing has changed but flags that FPSR does not show. -/
def OnlyFlags (fpu fpu' : FpuState) : Prop :=
  fpu' = { fpu with floatExceptionFlags := fpu'.floatExceptionFlags }

theorem OnlyFlags.refl (fpu : FpuState) : OnlyFlags fpu fpu := rfl

theorem withStatus_onlyFlags {α : Type} (f : Soft α) (fpu : FpuState) :
    OnlyFlags fpu (withStatus f fpu).2 := rfl

section

variable (sf : Softfloat) (c : CLibrary) {opcode extra : BitVec 16}

theorem getFpValue_spec (m : FpuMachine) :
    OnlyFlags m.fpu (getFpValue sf c opcode extra m).2.fpu ∧
      (getFpValue sf c opcode extra m).2.mem = m.mem ∧
      ((getFpValue sf c opcode extra m).2.regs = m.regs ↔
        ¬(extra &&& 0x4000 ≠ 0 ∧ Moves opcode extra)) := by
  unfold getFpValue
  dsimp only
  split
  next register =>
    exact ⟨.refl _, rfl, iff_of_true rfl fun moves => moves.1 register⟩
  next memory =>
    split
    next mode =>
      have still : ¬(extra &&& 0x4000 ≠ 0 ∧ Moves opcode extra) := fun moves => moves.2.mode_ne mode
      split
      · exact ⟨.refl _, rfl, iff_of_true rfl still⟩
      · exact ⟨withStatus_onlyFlags _ _, rfl, iff_of_true rfl still⟩
    next =>
      rw [and_iff_right memory]
      split
      next illegal =>
        have still : ¬Moves opcode extra := fun moves => operandAddress_moves moves _ illegal
        exact ⟨.refl _, rfl, iff_of_true rfl still⟩
      next ad st fetched =>
        obtain ⟨mem, regs⟩ := operandAddress_spec fetched
        split
        · exact ⟨.refl _, mem, regs⟩
        · exact ⟨withStatus_onlyFlags _ _, mem, regs⟩

theorem readOperand_known {size : BitVec 3} (known : size ≠ 7) (mem : Memory 32) (ad : BitVec 32) :
    readOperand sf c size mem ad ≠ none := by
  obtain rfl | rfl | rfl | rfl | rfl | rfl | rfl | rfl := mode_cases size
  case inr.inr.inr.inr.inr.inr.inr => contradiction
  all_goals nofun

theorem getFpValue_none {m : FpuMachine} (known : operandSize extra ≠ 7)
    (no_operand : (getFpValue sf c opcode extra m).1 = none) :
    (getFpValue sf c opcode extra m).2.regs = m.regs := by
  unfold getFpValue at no_operand ⊢
  dsimp only at no_operand ⊢
  split
  · rfl
  next memory =>
    rw [if_neg memory] at no_operand
    split
    · split <;> rfl
    next mode =>
      rw [if_neg mode] at no_operand
      split
      · rfl
      next ad st fetched =>
        rw [fetched] at no_operand
        dsimp only at no_operand
        split at no_operand
        next unknown => exact absurd unknown (readOperand_known sf c known _ _)
        · contradiction

theorem writeOperand_known {size : BitVec 3} (known : size ≠ 7) (value : Floatx80) (ad : BitVec 32)
    (mem : Memory 32) : writeOperand sf c size value ad mem ≠ none := by
  obtain rfl | rfl | rfl | rfl | rfl | rfl | rfl | rfl := mode_cases size
  case inr.inr.inr.inr.inr.inr.inr => contradiction
  all_goals nofun

/-- Storing fails before anything is moved, or for want of the size. -/
theorem putFpValue_false {value : Floatx80} {m m' : FpuMachine}
    (failed : putFpValue sf c opcode extra value m = (false, m')) :
    m'.fpu = m.fpu ∧ m'.mem = m.mem ∧
      (m'.regs = m.regs ↔ ¬(operandSize extra = 7 ∧ Moves opcode extra)) := by
  unfold putFpValue at failed
  dsimp only at failed
  split at failed
  · cases failed
  · split at failed
    next mode =>
      have still : ¬(operandSize extra = 7 ∧ Moves opcode extra) := fun moves => moves.2.mode_ne mode
      split at failed
      · obtain rfl := (Prod.mk.inj failed).2
        exact ⟨rfl, rfl, iff_of_true rfl still⟩
      · cases failed
    next =>
      split at failed
      next illegal =>
        obtain rfl := (Prod.mk.inj failed).2
        have still : ¬(operandSize extra = 7 ∧ Moves opcode extra) :=
          fun moves => operandAddress_moves moves.2 _ illegal
        exact ⟨rfl, rfl, iff_of_true rfl still⟩
      next ad st fetched =>
        obtain ⟨mem, regs⟩ := operandAddress_spec fetched
        split at failed
        next no_size =>
          obtain rfl := (Prod.mk.inj failed).2
          have unknown : operandSize extra = 7 := by
            by_contra known
            exact writeOperand_known sf c known value ad st.mem no_size
          rw [and_iff_right unknown]
          exact ⟨rfl, mem, regs⟩
        · cases failed

theorem putFpValue_unknown {value : Floatx80} {m : FpuMachine} (memory : extra &&& 0x4000 ≠ 0)
    (unknown : operandSize extra = 7) : (putFpValue sf c opcode extra value m).1 = false := by
  have no_dreg (d : BitVec 32) : writeDreg sf (operandSize extra) value d = none := by
    rw [unknown]
    rfl
  have no_operand (ad : BitVec 32) (mem : Memory 32) :
      writeOperand sf c (operandSize extra) value ad mem = none := by
    rw [unknown]
    rfl
  unfold putFpValue
  dsimp only
  rw [if_neg memory]
  split
  · rw [no_dreg]
  · split
    · rfl
    · rw [no_operand]

/-! ### The instruction -/

/-- Bit 14 of the extension word: the operand is at the effective address. -/
theorem effectiveAddress_iff : extra &&& 0x4000 ≠ 0 ↔ (extra.extractLsb' 13 3).getLsbD 1 = true := by
  have single : (0x4000 : BitVec 16) = BitVec.twoPow 16 14 := by decide
  have bit : (extra.extractLsb' 13 3).getLsbD 1 = extra.getLsbD 14 := by simp
  rw [single, BitVec.and_twoPow, bit]
  split
  next set => exact iff_of_true (by decide) set
  next clear => exact iff_of_false (fun nonzero => nonzero rfl) clear

theorem loads_known (load : extra.extractLsb' 13 3 = 2) (not_constant : extra &&& 0xfc00 ≠ 0x5c00) :
    operandSize extra ≠ 7 := by
  intro unknown
  apply not_constant
  have upper : extra &&& 0xfc00#16 = extra >>> 10 <<< 10 := by
    have mask : ∀ i < 16, (0xfc00#16).getLsbD i = decide (10 ≤ i) := by decide
    apply BitVec.eq_of_getLsbD_eq
    intro i inside
    rw [BitVec.getLsbD_and, mask i inside, BitVec.getLsbD_shiftLeft, BitVec.getLsbD_ushiftRight]
    by_cases high : 10 ≤ i
    · simp [high, inside, Nat.not_lt.mpr high]
    · simp [high, Nat.lt_of_not_le high]
  have fields : extra >>> 10 = 0x17#16 := by
    have three := congrArg BitVec.toNat load
    have size := congrArg BitVec.toNat unknown
    rw [operandSize, BitVec.extractLsb'_toNat, Nat.shiftRight_eq_div_pow] at size
    rw [BitVec.extractLsb'_toNat, Nat.shiftRight_eq_div_pow] at three
    apply BitVec.eq_of_toNat_eq
    rw [BitVec.toNat_ushiftRight, Nat.shiftRight_eq_div_pow]
    change extra.toNat / 2 ^ 13 % 8 = 2 at three
    change extra.toNat / 2 ^ 10 % 8 = 7 at size
    change extra.toNat / 2 ^ 10 = 0x17
    have bound := extra.isLt
    omega
  exact upper.trans (by rw [fields]; decide)

variable (is_integral : Bool)

theorem fmovemOutcome_illegal {m m' : FpuMachine} {pc : BitVec 32} {after : Option FpuMachine}
    (illegal : fmovemOutcome m pc after = .illegal m') : m' = m.rewound := by
  cases after with
  | none => exact (FpuOutcome.illegal.inj illegal).symm
  | some => cases illegal

/-- Setting the PC back brings the registers of the instruction back if they were left alone. -/
theorem rewound_regs_iff (m m' : FpuMachine) : m'.rewound.regs = m.rewound.regs ↔ m'.regs = m.regs := by
  constructor
  · intro same
    have pc : m'.regs.pc - 4 = m.regs.pc - 4 := congrArg Regs.pc same
    have restored : { m'.rewound.regs with pc := m'.rewound.regs.pc + 4 } =
        { m.rewound.regs with pc := m.rewound.regs.pc + 4 } := by rw [same]
    simpa only [FpuMachine.rewound, BitVec.sub_add_cancel] using restored
  · intro same
    rw [FpuMachine.rewound, FpuMachine.rewound, same]

/-- Calls `op_illg` with the machine as the instruction found it, but for the registers that `moved`
says have been moved by then. -/
def CallsWith (m m' : FpuMachine) (moved : Prop) : Prop :=
  OnlyFlags m.fpu m'.fpu ∧ m'.mem = m.mem ∧ (m'.regs = m.rewound.regs ↔ ¬moved)

theorem fmoveCase_illegal {m m' : FpuMachine}
    (illegal : fmoveCase sf c opcode extra m = .illegal m') :
    CallsWith m m' (operandSize extra = 7 ∧ Moves opcode extra) := by
  unfold fmoveCase at illegal
  split at illegal
  next found failed =>
    obtain rfl := FpuOutcome.illegal.inj illegal
    obtain ⟨fpu, mem, regs⟩ := putFpValue_false sf c failed
    exact ⟨fpu ▸ OnlyFlags.refl _, mem, (rewound_regs_iff m found).trans regs⟩
  · cases illegal

theorem operationCase_illegal {m m' : FpuMachine}
    (class_known : extra &&& 0x4000 ≠ 0 → extra.extractLsb' 13 3 = 2)
    (illegal : operationCase sf c is_integral opcode extra m = .illegal m') :
    extra &&& 0xfc00 ≠ 0x5c00 ∧ CallsWith m m' (decodeOperation is_integral (extra.setWidth 7) = none ∧
      extra &&& 0x4000 ≠ 0 ∧ Moves opcode extra) := by
  obtain ⟨fpu, mem, regs⟩ := @getFpValue_spec sf c opcode extra m
  unfold operationCase at illegal
  dsimp only at illegal
  split at illegal
  · cases illegal
  next not_constant =>
    refine ⟨not_constant, ?_⟩
    split at illegal
    next found no_operand =>
      obtain rfl := FpuOutcome.illegal.inj illegal
      rw [no_operand] at fpu mem regs
      have in_place : found.regs = m.regs := by
        by_cases memory : extra &&& 0x4000 ≠ 0
        · have known := loads_known (class_known memory) not_constant
          have same := getFpValue_none sf c known (congrArg Prod.fst no_operand)
          rwa [no_operand] at same
        · exact regs.mpr fun moves => memory moves.1
      have still := regs.mp in_place
      exact ⟨fpu, mem, iff_of_true ((rewound_regs_iff m found).mpr in_place) fun moved => still moved.2⟩
    next src found operand =>
      split at illegal
      · cases illegal
      next unsupported =>
        obtain rfl := FpuOutcome.illegal.inj illegal
        rw [operand] at fpu mem regs
        rw [CallsWith, and_iff_right unsupported]
        exact ⟨fpu, mem, (rewound_regs_iff m found).trans regs⟩

/-- What `op_illg` is called with. -/
theorem fpuopArithmetic_illegal {m m' : FpuMachine}
    (illegal : fpuopArithmetic sf c is_integral opcode extra m = .illegal m') :
    CallsWith m m' (FetchedFirst is_integral extra ∧ Moves opcode extra) := by
  have rewound {P : Prop} (still : ¬P) : CallsWith m m.rewound P := ⟨.refl _, rfl, iff_of_true rfl still⟩
  -- In the classes other than those two nothing has been fetched.
  have other {class_ : BitVec 3} (here : extra.extractLsb' 13 3 = class_) (neither : class_ ≠ 3 ∧ class_ ≠ 2) :
      ¬(FetchedFirst is_integral extra ∧ Moves opcode extra) := by
    rintro ⟨⟨class', -⟩ | ⟨class', -⟩, -⟩
    · exact neither.1 (here.symm.trans class')
    · exact neither.2 (here.symm.trans class')
  unfold fpuopArithmetic at illegal
  dsimp only at illegal
  split at illegal
  next fmove =>
    have calls := fmoveCase_illegal sf c illegal
    have fetched : FetchedFirst is_integral extra ↔ operandSize extra = 7 := by
      simp [FetchedFirst, fmove]
    rwa [fetched]
  next control =>
    rw [fmovemOutcome_illegal illegal]
    exact rewound (other control (by decide))
  next control =>
    rw [fmovemOutcome_illegal illegal]
    exact rewound (other control (by decide))
  next data =>
    rw [fmovemOutcome_illegal illegal]
    exact rewound (other data (by decide))
  next data =>
    rw [fmovemOutcome_illegal illegal]
    exact rewound (other data (by decide))
  next register =>
    have not_memory : ¬extra &&& 0x4000 ≠ 0 := by
      rw [effectiveAddress_iff, register]
      decide
    obtain ⟨-, fpu, mem, regs⟩ :=
      operationCase_illegal sf c is_integral (fun memory => absurd memory not_memory) illegal
    have in_place := regs.mpr fun moved => not_memory moved.2.1
    exact ⟨fpu, mem, iff_of_true in_place (other register (by decide))⟩
  next load =>
    obtain ⟨not_constant, calls⟩ := operationCase_illegal sf c is_integral (fun _ => load) illegal
    have memory : extra &&& 0x4000 ≠ 0 := by
      rw [effectiveAddress_iff, load]
      decide
    have fetched : FetchedFirst is_integral extra ↔
        decodeOperation is_integral (extra.setWidth 7) = none := by
      constructor
      · rintro (⟨fmove, -⟩ | ⟨-, -, unsupported⟩)
        · exact absurd (load.symm.trans fmove) (by decide)
        · exact unsupported
      · exact fun unsupported => .inr ⟨load, not_constant, unsupported⟩
    rw [and_iff_right memory] at calls
    rwa [fetched]
  next no_fmove _ _ _ _ _ no_load =>
    obtain rfl := FpuOutcome.illegal.inj illegal
    apply rewound
    rintro ⟨⟨fmove, -⟩ | ⟨load, -⟩, -⟩
    · exact no_fmove fmove
    · exact no_load load

theorem fpuopArithmetic_fetched (fetched : FetchedFirst is_integral extra) (m : FpuMachine) :
    ∃ m', fpuopArithmetic sf c is_integral opcode extra m = .illegal m' := by
  obtain ⟨fmove, unknown⟩ | ⟨load, not_constant, unsupported⟩ := fetched
  · have run : fpuopArithmetic sf c is_integral opcode extra m = fmoveCase sf c opcode extra m := by
      simp only [fpuopArithmetic, fmove]
      rfl
    have memory : extra &&& 0x4000 ≠ 0 := by
      rw [effectiveAddress_iff, fmove]
      decide
    have failed := @putFpValue_unknown sf c opcode extra (m.fpu.registers (extra.extractLsb' 7 3)) m
      memory unknown
    rw [run, fmoveCase]
    split
    next m' _ => exact ⟨_, rfl⟩
    next m' stored =>
      rw [stored] at failed
      contradiction
  · have run : fpuopArithmetic sf c is_integral opcode extra m =
        operationCase sf c is_integral opcode extra m := by
      simp only [fpuopArithmetic, load]
      rfl
    rw [run, operationCase, if_neg not_constant, unsupported]
    split
    · exact ⟨_, rfl⟩
    · exact ⟨_, rfl⟩

end

/-! ### The exception -/

variable (sf : Softfloat) (c : CLibrary) (is_integral : Bool) (cpu : CPUType) (fault : Fault)

theorem fppOpcode_fline (ea : BitVec 6) : fppOpcode ea &&& 0xf000 = 0xf000 := by
  revert ea
  decide

/-- The extension word of an instruction. -/
def extraWord (m : FpuMachine) : BitVec 16 := getWord m.mem (m.regs.pc + 2)

/-- The machine `fpuop_arithmetic` is called with. -/
def atExtra (m : FpuMachine) : FpuMachine :=
  { m with regs := { m.regs with pc := m.regs.pc + (2 + 2) } }

theorem atExtra_rewound (m : FpuMachine) : (atExtra m).rewound.regs = m.regs := by
  have back : m.regs.pc + (2 + 2) - 4 = m.regs.pc := by bv_omega
  exact congrArg (fun pc => { m.regs with pc }) back

/-- The machine after the operation, and what is raised for it. -/
def FpuOutcome.handled (cpu : CPUType) (fault : Fault) (opcode : BitVec 16) :
    FpuOutcome → FpuMachine × List ExceptionCall
  | .done m => (m, [])
  | .illegal m =>
    let e := opIllg cpu fault opcode ⟨m.regs, m.mem⟩
    (⟨e.st.regs, m.fpu, e.st.mem⟩, e.calls)

theorem fpp_eq (ea : BitVec 6) (m : FpuMachine) : fpp sf c is_integral cpu fault (fppOpcode ea) m =
    (fpuopArithmetic sf c is_integral (fppOpcode ea) (extraWord m) (atExtra m)).handled cpu fault
      (fppOpcode ea) :=
  rfl

theorem fpp_done {ea : BitVec 6} {m m' : FpuMachine}
    (done : fpuopArithmetic sf c is_integral (fppOpcode ea) (extraWord m) (atExtra m) = .done m') :
    fpp sf c is_integral cpu fault (fppOpcode ea) m = (m', []) := by
  rw [fpp_eq, done]
  rfl

/-- One F-line exception, where `op_illg` was called. -/
theorem fpp_illegal {ea : BitVec 6} {m m' : FpuMachine}
    (illegal : fpuopArithmetic sf c is_integral (fppOpcode ea) (extraWord m) (atExtra m) = .illegal m') :
    fpp sf c is_integral cpu fault (fppOpcode ea) m =
      let st := exception cpu fault 0xb 0 ⟨m'.regs, m'.mem⟩
      (⟨st.regs, m'.fpu, st.mem⟩, [⟨0xb, 0, ⟨m'.regs, m'.mem⟩⟩]) := by
  rw [fpp_eq, illegal]
  dsimp only [FpuOutcome.handled]
  rw [opIllg_of_fline cpu fault (fppOpcode_fline ea)]
  rfl

/-- An illegal instruction can be emulated unless its operand, fetched first, moves a register. -/
theorem illegal_emulable_iff (ea : BitVec 6) (m : FpuMachine) :
    ((fpp sf c is_integral cpu fault (fppOpcode ea) m).2 ≠ [] →
        Emulable m (fpp sf c is_integral cpu fault (fppOpcode ea) m)) ↔
      ¬(FetchedFirst is_integral (extraWord m) ∧ Moves (fppOpcode ea) (extraWord m)) := by
  constructor
  · rintro emulable ⟨fetched, moves⟩
    obtain ⟨m', illegal⟩ :=
      @fpuopArithmetic_fetched sf c (fppOpcode ea) _ is_integral fetched (atExtra m)
    have run := fpp_illegal sf c is_integral cpu fault illegal
    obtain ⟨-, -, regs⟩ := fpuopArithmetic_illegal sf c is_integral illegal
    rw [run] at emulable
    have found := (emulable (List.cons_ne_nil _ _)).once
    have same : m'.regs = m.regs := by
      have call := (List.cons.inj found).1
      exact congrArg (fun call => call.found.regs) call
    exact regs.mp (same.trans (atExtra_rewound m).symm) ⟨fetched, moves⟩
  · intro still raised
    cases outcome : fpuopArithmetic sf c is_integral (fppOpcode ea) (extraWord m) (atExtra m) with
    | done m' =>
      rw [fpp_done sf c is_integral cpu fault outcome] at raised
      contradiction
    | illegal m' =>
      obtain ⟨fpu, mem, regs⟩ := fpuopArithmetic_illegal sf c is_integral outcome
      have in_place : m'.regs = m.regs := (regs.mpr still).trans (atExtra_rewound m)
      have memory : m'.mem = m.mem := mem
      rw [fpp_illegal sf c is_integral cpu fault outcome, in_place, memory]
      constructor
      · rfl
      · exact exception_stackedPc cpu fault (by decide) 0 _
      · rw [fpu]; rfl
      · rw [fpu]; rfl
      · rw [fpu]; rfl

/-! An unsupported operation on (A0)+. -/
namespace UnknownOperation

/-- The instruction 0xf218 0x4005, with a long operand. -/
def machine : FpuMachine where
  regs := ⟨fun _ => 0, fun _ => 0, 0, 0, 0, 0, 0, 0, 0, false, false, true, false,
    ⟨false, false, false, false, false⟩⟩
  fpu := ⟨fun _ => ⟨0, 0⟩, ⟨0, 0⟩, quotientOf 0, 0, 0, 0, 0, 0, 0, 0⟩
  mem := putLong (fun _ => 0) 0 0xf2184005

end UnknownOperation

/-- FP1 from (A0)+ with operation code 5: A0 is stepped before the exception. -/
theorem postincrement_not_emulable :
    ¬∀ sf c is_integral cpu fault ea m,
      (fpp sf c is_integral cpu fault (fppOpcode ea) m).2 ≠ [] →
        Emulable m (fpp sf c is_integral cpu fault (fppOpcode ea) m) := by
  intro claim
  let sf : Softfloat := ⟨fun _ => pure ⟨0, 0⟩, fun _ => pure ⟨0, 0⟩, fun _ => pure 0, fun _ => pure 0,
    fun _ => pure 0, fun _ => pure 0, pure, pure, fun a _ => pure a, fun a _ => pure a,
    fun a _ => pure a, fun a _ => pure a, fun a _ => pure a⟩
  let c : CLibrary := ⟨fun _ d => (d, none), fun d _ => (d, none), fun d _ => d, fun d _ => d,
    fun d _ => d, fun _ => 0, fun _ => []⟩
  have emulable := claim sf c true .mc68040 ⟨0, 0, 0⟩ 0x18 UnknownOperation.machine
  refine (illegal_emulable_iff sf c true .mc68040 ⟨0, 0, 0⟩ 0x18 _).mp emulable ⟨?_, ?_⟩
  · exact .inr (by decide)
  · decide

end BasiliskII.Fpu
