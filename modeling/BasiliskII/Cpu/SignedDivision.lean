import BasiliskII.Cpu.LongDivision
import BasiliskII.Cpu.Shifts
import BasiliskII.Library.CInteger
import BasiliskII.Library.SignedWidth

/-!
# The host divisions of DIVS

DIVS.W as gencpu.c emits it and the signed variant of `m68k_divl`, with the
divisions of C they execute. A handler that divides the most negative dividend
by -1 has no meaning, `none` here; hosts trap.
-/
namespace BasiliskII.Cpu

/-- The quotient does not fit a word. -/
def divsOverflows (newv : BitVec 32) : Bool :=
  newv &&& 0xffff8000#32 ≠ 0 ∧ newv &&& 0xffff8000#32 ≠ 0xffff8000#32

/-- DIVS.W by `src` of the data register `num`, or the exception and the registers it finds. -/
def divs (regs : Regs) (num : BitVec 3) (src : BitVec 16) : Option (Except (Nat × Regs) Regs) :=
  let dst := regs.dreg num
  if src = 0 then
    some (.error (divideByZero, { regs with flags := { regs.flags with v := false } }))
  else do
    let (newv, rem) ← CInteger.divide dst (src.signExtend 32)
    let rem := rem.setWidth 16
    -- The test comes after the division.
    if divsOverflows newv then return .ok regs.divOverflow
    let rem := if rem.slt 0 ≠ dst.slt 0 then -rem else rem
    let flags := regs.flags.logical .word newv
    let newv := newv &&& 0xffff ||| rem.setWidth 32 <<< 16
    return .ok ({ regs with flags }.setDreg num newv)

/-- The 64-bit branch of `m68k_divl` with its divisions as the host meets them. -/
def m68kDivlHost (regs : Regs) (src : BitVec 32) (extra : BitVec 16) : Option (Except Nat Regs) :=
  if src = 0 then some (.error divideByZero)
  else if extraSigned extra then do
    let a := divlDividend regs extra ((regs.dreg (extraDq extra)).signExtend 64)
    let (quot, rem) ← CInteger.divide a (src.signExtend 64)
    if divlQuadOverflows quot then return .ok regs.divOverflow
    let rem := if (rem.setWidth 32).slt 0 ≠ a.slt 0 then -rem else rem
    return .ok (regs.divStore extra (quot.setWidth 32) (rem.setWidth 32))
  else some (m68kDivl regs src extra)

/-- A quotient of `w` bits, as a number. -/
def SignedFits (w : Nat) (quot : Int) : Prop := -2 ^ (w - 1) ≤ quot ∧ quot < 2 ^ (w - 1)

/-- V tells that the quotient does not fit, and then no register has changed. -/
structure OverflowTold (before after : Regs) (fits : Prop) : Prop where
  told : after.flags.v = true ↔ ¬ fits
  kept : ¬ fits → after.dreg = before.dreg ∧ after.areg = before.areg

variable (regs : Regs)

theorem overflowTold_overflow {fits : Prop} (large : ¬ fits) :
    OverflowTold regs regs.divOverflow fits :=
  ⟨by simp [Regs.divOverflow, large], fun _ => ⟨rfl, rfl⟩⟩

theorem overflowTold_stored {after : Regs} {fits : Prop} (small : fits)
    (clear : after.flags.v = false) : OverflowTold regs after fits :=
  ⟨by simp [clear, small], fun large => absurd small large⟩

theorem divsOverflows_iff (newv : BitVec 32) :
    divsOverflows newv = true ↔ ¬ SignedFits 16 newv.toInt := by
  have newv_lt := newv.isLt
  have bits := toNat_and_high newv 0xffff8000#32 15 (by decide)
  have zero : newv &&& 0xffff8000#32 = 0 ↔ newv.toNat / 2 ^ 15 * 2 ^ 15 = 0 := by
    rw [← bits, ← BitVec.toNat_inj]
    rfl
  have ones : newv &&& 0xffff8000#32 = 0xffff8000#32 ↔
      newv.toNat / 2 ^ 15 * 2 ^ 15 = 0xffff8000 := by
    rw [← bits, ← BitVec.toNat_inj]
    rfl
  simp only [divsOverflows, SignedFits, decide_eq_true_iff, ne_eq, zero, ones]
  rw [BitVec.toInt_eq_toNat_cond]
  split <;> omega

theorem signExtend_word_eq_neg_one (src : BitVec 16) : src.signExtend 32 = -1#32 ↔ src = -1 := by
  rw [← BitVec.toInt_inj, ← BitVec.toInt_inj, BitVec.toInt_signExtend_of_le (by decide)]
  rfl

theorem divs_undefined_iff (dst : BitVec 32) {src : BitVec 16} (nonzero : src ≠ 0) :
    CInteger.Undefined dst (src.signExtend 32) ↔ dst = 0x80000000 ∧ src = -1 := by
  have extended : src.signExtend 32 ≠ 0#32 := by
    intro zero
    have value := congrArg BitVec.toInt zero
    rw [BitVec.toInt_signExtend_of_le (by decide)] at value
    exact nonzero (BitVec.eq_of_toInt_eq value)
  simp only [CInteger.Undefined, extended, false_or, signExtend_word_eq_neg_one]
  rfl

/-- Where the division has a meaning, V tells of a quotient of more than 16 bits. -/
theorem divs_defined (num : BitVec 3) {src : BitVec 16} (nonzero : src ≠ 0)
    (meaning : ¬ CInteger.Undefined (regs.dreg num) (src.signExtend 32)) :
    ∃ after, divs regs num src = some (.ok after) ∧
      OverflowTold regs after (SignedFits 16 ((regs.dreg num).toInt.tdiv src.toInt)) := by
  have divided := CInteger.divide_total meaning
  obtain ⟨quotient, -⟩ := CInteger.divide_toInt divided
  rw [BitVec.toInt_signExtend_of_le (by decide)] at quotient
  have overflow := divsOverflows_iff ((regs.dreg num).sdiv (src.signExtend 32))
  rw [quotient] at overflow
  simp only [divs, if_neg nonzero, divided, Option.bind_eq_bind, Option.bind_some]
  split
  next large => exact ⟨_, rfl, overflowTold_overflow regs (overflow.mp large)⟩
  next small =>
    refine ⟨_, rfl, overflowTold_stored regs ?_ rfl⟩
    rw [overflow] at small
    exact Classical.not_not.mp small

/-- The dividend of the signed variant is the least of 64 bits in one register pair only. -/
theorem signedDividend_lowest_iff (extra : BitVec 16) :
    signedDividend regs extra = BitVec.intMin 64 ↔
      extraQuad extra = true ∧ regs.dreg (extraDr extra) = 0x80000000 ∧
        regs.dreg (extraDq extra) = 0 := by
  have lo_lt := (regs.dreg (extraDq extra)).isLt
  have lowest : (BitVec.intMin 64).toNat = 2 ^ 63 := by decide
  have ones : (-1 : BitVec 32).toNat = 2 ^ 32 - 1 := by decide
  have high : ∀ hi : BitVec 32, hi = 0x80000000 ↔ hi.toNat = 2 ^ 31 := by
    intro hi
    rw [← BitVec.toNat_inj]
    rfl
  have low : ∀ lo : BitVec 32, lo = 0 ↔ lo.toNat = 0 := by
    intro lo
    rw [← BitVec.toNat_inj]
    rfl
  rw [signedDividend_words, ← BitVec.toNat_inj, append_toNat, lowest, high, low, signedHigh]
  by_cases quad : extraQuad extra = true
  · simp only [quad, if_true, true_and]
    omega
  · simp only [quad, Bool.false_eq_true, if_false, false_and, iff_false]
    split
    · rw [ones]
      omega
    · simp
      omega

theorem divl_undefined_iff {src : BitVec 32} (extra : BitVec 16) (nonzero : src ≠ 0) :
    CInteger.Undefined (signedDividend regs extra) (src.signExtend 64) ↔
      (extraQuad extra = true ∧ regs.dreg (extraDr extra) = 0x80000000 ∧
        regs.dreg (extraDq extra) = 0) ∧ src = -1 := by
  have value : (src.signExtend 64).toInt = src.toInt := BitVec.toInt_signExtend_of_le (by decide)
  have extended : src.signExtend 64 ≠ 0#64 := by
    intro zero
    rw [zero] at value
    exact nonzero (BitVec.eq_of_toInt_eq value.symm)
  have minus_one : src.signExtend 64 = -1#64 ↔ src = -1 := by
    rw [← BitVec.toInt_inj, ← BitVec.toInt_inj, value]
    rfl
  simp only [CInteger.Undefined, extended, false_or, minus_one, signedDividend_lowest_iff]

/-- The host's divisions, where they have a meaning, are those of the model without hosts. -/
theorem m68kDivlHost_signed {src : BitVec 32} {extra : BitVec 16} (nonzero : src ≠ 0)
    (signed : extraSigned extra = true) :
    m68kDivlHost regs src extra =
      if CInteger.Undefined (signedDividend regs extra) (src.signExtend 64) then none
      else some (m68kDivl regs src extra) := by
  simp only [m68kDivlHost, m68kDivl, if_neg nonzero, if_pos signed]
  rw [← signedDividend]
  split
  next undefined =>
    rw [(CInteger.divide_eq_none_iff _ _).mpr undefined]
    rfl
  next meaning =>
    rw [CInteger.divide_total meaning]
    simp only [Option.bind_eq_bind, Option.bind_some]
    split <;> rfl

theorem divl_defined {src : BitVec 32} {extra : BitVec 16} (nonzero : src ≠ 0)
    (signed : extraSigned extra = true)
    (meaning : ¬ CInteger.Undefined (signedDividend regs extra) (src.signExtend 64)) :
    ∃ after, m68kDivlHost regs src extra = some (.ok after) ∧
      OverflowTold regs after
        (SignedFits 32 ((signedDividend regs extra).toInt.tdiv src.toInt)) := by
  rw [m68kDivlHost_signed regs nonzero signed, if_neg meaning, m68kDivl_signed regs nonzero signed,
    Regs.divSigned]
  split
  next small => exact ⟨_, rfl, overflowTold_stored regs small rfl⟩
  next large => exact ⟨_, rfl, overflowTold_overflow regs large⟩

/-- DIVS.W and the signed DIVL execute a division with a meaning, and V tells when the quotient
is too wide, for every dividend and divisor but the least dividend of 32 or 64 bits by -1. -/
theorem signed_divisions_defined_iff (regs : Regs) :
    (∀ (num : BitVec 3) (src : BitVec 16), src ≠ 0 →
      ((∃ after, divs regs num src = some (.ok after) ∧
          OverflowTold regs after (SignedFits 16 ((regs.dreg num).toInt.tdiv src.toInt))) ↔
        ¬ (regs.dreg num = 0x80000000 ∧ src = -1))) ∧
    ∀ (src : BitVec 32) (extra : BitVec 16), src ≠ 0 → extraSigned extra = true →
      ((∃ after, m68kDivlHost regs src extra = some (.ok after) ∧
          OverflowTold regs after
            (SignedFits 32 ((signedDividend regs extra).toInt.tdiv src.toInt))) ↔
        ¬ ((extraQuad extra = true ∧ regs.dreg (extraDr extra) = 0x80000000 ∧
          regs.dreg (extraDq extra) = 0) ∧ src = -1)) := by
  constructor
  · intro num src nonzero
    rw [← divs_undefined_iff _ nonzero]
    refine ⟨?_, divs_defined regs num nonzero⟩
    rintro ⟨after, ran, -⟩ undefined
    have none := (CInteger.divide_eq_none_iff _ _).mpr undefined
    simp [divs, none] at ran
  · intro src extra nonzero signed
    rw [← divl_undefined_iff regs extra nonzero]
    refine ⟨?_, divl_defined regs nonzero signed⟩
    rintro ⟨after, ran, -⟩ undefined
    rw [m68kDivlHost_signed regs nonzero signed, if_pos undefined] at ran
    contradiction

/-- `DIVS.W` of `0x80000000` by -1 divides what C cannot. -/
theorem divs_word_undefined :
    ¬ ∀ (regs : Regs) (num : BitVec 3) (src : BitVec 16), src ≠ 0 →
      ∃ after, divs regs num src = some (.ok after) ∧
        OverflowTold regs after (SignedFits 16 ((regs.dreg num).toInt.tdiv src.toInt)) := by
  intro told
  obtain ⟨after, ran, -⟩ := told { zeroRegs with dreg := fun _ => 0x80000000 } 0 (-1) (by decide)
  have undefined : divs { zeroRegs with dreg := fun _ => 0x80000000 } 0 (-1) = none := rfl
  rw [undefined] at ran
  contradiction

end BasiliskII.Cpu
