import BasiliskII.Cpu.Shifts
import Mathlib.Data.BitVec
import Mathlib.Data.Nat.Find
import Mathlib.Logic.Function.Basic
import Mathlib.Tactic.FinCases
import Mathlib.Tactic.IntervalCases

/-!
# Merging of opcodes

`handle_merges` and `do_merges` of readcpu.cpp let one opcode stand for all opcodes that differ
from it in a register or a small number only, and `build_cpufunctbl` of newcpu.cpp gives all of
them its function. What the functions take back out of the opcode is decided in gencpu.c.
-/
namespace BasiliskII.Cpu

/-! ### table68k -/

inductive Instrmnem
  | illg
  | or | and | eor | orsr | andsr | eorsr
  | sub | suba | subx | sbcd
  | add | adda | addx | abcd
  | neg | negx | nbcd | clr | not | tst
  | btst | bchg | bclr | bset
  | cmp | cmpm | cmpa
  | mvprm | mvpmr | move | movea | mvsr2 | mv2sr
  | swap | exg | ext | mvmel | mvmle
  | trap | mvr2usp | mvusp2r | reset | nop | stop | rte | rtd
  | link | unlk
  | rts | trapv | rtr
  | jsr | jmp | bsr | bcc
  | lea | pea | dbcc | scc
  | divu | divs | mulu | muls
  | asr | asl | lsr | lsl | rol | ror | roxl | roxr
  | asrw | aslw | lsrw | lslw | rolw | rorw | roxlw | roxrw
  | chk | chk2
  | movec2 | move2c | cas | cas2 | divl | mull
  | bftst | bfextu | bfchg | bfexts | bfclr | bfffo | bfset | bfins
  | pack | unpk | tas | bkpt | callm | rtm | trapcc | moves
  | fpp | fdbcc | fscc | ftrapcc | fbcc | fsave | frestore
  | cinvl | cinvp | cinva | cpushl | cpushp | cpusha | move16
  | mmuop
  | emulopReturn | emulop
  deriving DecidableEq

/-- `amodes` -/
inductive Amodes
  | dreg | areg | aind | aipi | apdi | ad16 | ad8r
  | absw | absl | pc16 | pc8r | imm | imm0 | imm1 | imm2 | immi | unknown | illg
  deriving DecidableEq

/-- A `struct instr` as far as opcodes are merged by it, without its `handler`. -/
structure Instr where
  dreg : BitVec 8
  sreg : BitVec 8
  dpos : Int
  spos : Int
  mnemo : Instrmnem
  size : Size
  smode : Amodes
  stype : Fin 8
  dmode : Amodes
  suse : Bool
  duse : Bool
  clev : Nat

/-- The contents of table68k. An operand that is not used has no position, as `build_insn` leaves
it. -/
structure Contents where
  instr : BitVec 16 → Instr
  unusedSrc : ∀ opcode, (instr opcode).suse = false → (instr opcode).spos = -1
  unusedDst : ∀ opcode, (instr opcode).duse = false → (instr opcode).dpos = -1

/-- By how much the host shifts for a position. The language says so from 0 to 31 only. -/
structure HostShift where
  amount : Int → Nat
  exact : ∀ pos : Nat, pos < 32 → amount pos = pos

variable (host : HostShift)

/-- `n << pos` as an `uae_u16` -/
def HostShift.shl (n : Nat) (pos : Int) : BitVec 16 :=
  (BitVec.ofNat 32 n <<< host.amount pos).setWidth 16

/-! ### handle_merges -/

/-- `smsk`, before it is shifted, and `sbitdst` for a `stype`. -/
def srcField : Fin 8 → Nat × Nat
  | 0 => (7, 8)
  | 1 => (255, 256)
  | 2 => (15, 16)
  | 3 => (7, 8)
  | 4 => (7, 8)
  | 5 => (63, 64)
  | 6 => (255, 256)
  | 7 => (3, 4)

def Instr.smsk (e : Instr) : BitVec 16 :=
  if e.spos = -1 then 0 else host.shl (srcField e.stype).1 e.spos

def Instr.sbitdst (e : Instr) : Nat := if e.spos = -1 then 1 else (srcField e.stype).2

def Instr.dmsk (e : Instr) : BitVec 16 := if e.dpos = -1 then 0 else host.shl 7 e.dpos

def Instr.dstend (e : Instr) : Nat := if e.dpos = -1 then 1 else 8

/-- The opcode with other registers. -/
def Instr.code (e : Instr) (opcode : BitVec 16) (srcreg dstreg : Nat) : BitVec 16 :=
  let code := opcode &&& ~~~ e.smsk host ||| host.shl srcreg e.spos
  code &&& ~~~ e.dmsk host ||| host.shl dstreg e.dpos

/-- None of the three mismatches between the entry of an opcode and that of a `code`. -/
def Instr.Matches (e code : Instr) : Prop :=
  (code.mnemo = e.mnemo ∧ code.size = e.size ∧ code.suse = e.suse ∧ code.duse = e.duse) ∧
    (e.suse = true → e.spos = code.spos ∧ e.smode = code.smode ∧ e.stype = code.stype) ∧
    (e.duse = true → e.dpos = code.dpos ∧ e.dmode = code.dmode)

instance (e code : Instr) : Decidable (e.Matches code) := inferInstanceAs (Decidable (_ ∧ _ ∧ _))

/-- What merging changes: the handlers of the entries, where `none` is -1, and the counters. -/
structure Merging where
  handler : BitVec 16 → Option (BitVec 16)
  mismatch : Nat
  nr : Nat

variable (table : Contents)

/-- One round of the loops in `handle_merges`. -/
def Merging.mergeCode (opcode code : BitVec 16) (m : Merging) : Merging :=
  if ¬ (table.instr opcode).Matches (table.instr code) then { m with mismatch := m.mismatch + 1 }
  else if code ≠ opcode then { m with handler := Function.update m.handler code (some opcode) }
  else m

def Merging.handleMerges (opcode : BitVec 16) (m : Merging) : Merging :=
  let e := table.instr opcode
  (List.range e.sbitdst).foldl (fun m srcreg =>
    (List.range e.dstend).foldl (fun m dstreg =>
      m.mergeCode table opcode (e.code host opcode srcreg dstreg)) m) m

/-- One round of the loop in `do_merges`. -/
def Merging.mergeOpcode (m : Merging) (opcode : BitVec 16) : Merging :=
  if m.handler opcode ≠ none ∨ (table.instr opcode).mnemo = .illg then m
  else { m with nr := m.nr + 1 }.handleMerges host table opcode

/-- `do_merges`, behind `read_table68k`, which leaves -1 in all handlers. -/
def doMerges : Merging :=
  ((List.range 65536).map (BitVec.ofNat 16)).foldl (Merging.mergeOpcode host table)
    ⟨fun _ => none, 0, 0⟩

/-! ### Fields -/

theorem HostShift.shl_bit (n : Nat) (pos : Int) (b : Nat) :
    (host.shl n pos).getLsbD b =
      (decide (b < 16) && decide (host.amount pos ≤ b) && n.testBit (b - host.amount pos)) := by
  rw [HostShift.shl, BitVec.getLsbD_setWidth, BitVec.getLsbD_shiftLeft, BitVec.getLsbD_ofNat]
  by_cases inside : b < 16
  · have wide : b < 32 := by omega
    have wide' : b - host.amount pos < 32 := by omega
    by_cases shifted : host.amount pos ≤ b
    · simp [inside, wide, wide', shifted, Nat.not_lt.mpr shifted]
    · simp [shifted, Nat.not_le.mp shifted]
  · simp [inside]

/-- A number of `k` bits stays inside its field. -/
theorem HostShift.shl_within {n k : Nat} (small : n < 2 ^ k) {pos : Int} {b : Nat}
    (bit : (host.shl n pos).getLsbD b = true) : (host.shl (2 ^ k - 1) pos).getLsbD b = true := by
  rw [shl_bit, Bool.and_eq_true] at bit ⊢
  refine ⟨bit.1, ?_⟩
  rw [Nat.testBit_two_pow_sub_one, decide_eq_true_eq]
  by_contra above
  have high : 2 ^ k ≤ 2 ^ (b - host.amount pos) := Nat.pow_le_pow_right Nat.two_pos (by omega)
  rw [Nat.testBit_lt_two_pow (Nat.lt_of_lt_of_le small high)] at bit
  cases bit.2

theorem HostShift.exists_shl (k : Nat) (pos : Int) (c : BitVec 16) :
    ∃ n < 2 ^ k, host.shl n pos = c &&& host.shl (2 ^ k - 1) pos := by
  refine ⟨(c.toNat >>> host.amount pos) % 2 ^ k, Nat.mod_lt _ (Nat.two_pow_pos k), ?_⟩
  apply BitVec.eq_of_getLsbD_eq
  intro b inside
  rw [BitVec.getLsbD_and, shl_bit, shl_bit, Nat.testBit_mod_two_pow, Nat.testBit_shiftRight,
    Nat.testBit_two_pow_sub_one]
  by_cases shifted : host.amount pos ≤ b
  · rw [Nat.add_sub_cancel' shifted]
    simp [inside, shifted, Bool.and_comm, BitVec.getLsbD]
  · simp [shifted]

theorem srcField_eq (stype : Fin 8) :
    ∃ k, srcField stype = (2 ^ k - 1, 2 ^ k) := by
  fin_cases stype
  exacts [⟨3, rfl⟩, ⟨8, rfl⟩, ⟨4, rfl⟩, ⟨3, rfl⟩, ⟨3, rfl⟩, ⟨6, rfl⟩, ⟨8, rfl⟩, ⟨2, rfl⟩]

/-- The bits of the opcode that merging varies. -/
def Instr.fields (e : Instr) : BitVec 16 := e.smsk host ||| e.dmsk host

theorem Instr.src_within {e : Instr} {srcreg : Nat} (small : srcreg < e.sbitdst) {b : Nat}
    (bit : (host.shl srcreg e.spos).getLsbD b = true) : (e.smsk host).getLsbD b = true := by
  unfold Instr.sbitdst at small
  unfold Instr.smsk
  obtain ⟨k, field⟩ := srcField_eq e.stype
  split at small
  next unplaced =>
    -- 0 is shifted by the position -1.
    obtain rfl : srcreg = 0 := by omega
    simp [HostShift.shl] at bit
  next placed =>
    rw [if_neg placed, field]
    rw [field] at small
    exact host.shl_within small bit

theorem Instr.dst_within {e : Instr} {dstreg : Nat} (small : dstreg < e.dstend) {b : Nat}
    (bit : (host.shl dstreg e.dpos).getLsbD b = true) : (e.dmsk host).getLsbD b = true := by
  unfold Instr.dstend at small
  unfold Instr.dmsk
  split at small
  next unplaced =>
    obtain rfl : dstreg = 0 := by omega
    simp [HostShift.shl] at bit
  next placed =>
    rw [if_neg placed]
    exact host.shl_within (k := 3) small bit

theorem Instr.exists_src (e : Instr) (c : BitVec 16) :
    ∃ srcreg < e.sbitdst, host.shl srcreg e.spos = c &&& e.smsk host := by
  unfold Instr.sbitdst Instr.smsk
  obtain ⟨k, field⟩ := srcField_eq e.stype
  split
  · exact ⟨0, Nat.one_pos, by simp [HostShift.shl]⟩
  · rw [field]
    exact host.exists_shl k e.spos c

theorem Instr.exists_dst (e : Instr) (c : BitVec 16) :
    ∃ dstreg < e.dstend, host.shl dstreg e.dpos = c &&& e.dmsk host := by
  unfold Instr.dstend Instr.dmsk
  split
  · exact ⟨0, Nat.one_pos, by simp [HostShift.shl]⟩
  · exact host.exists_shl 3 e.dpos c

/-- The loops of `handle_merges` go through the opcodes that differ in the fields only. -/
theorem Instr.exists_code_iff (e : Instr) (opcode c : BitVec 16) :
    (∃ srcreg < e.sbitdst, ∃ dstreg < e.dstend, e.code host opcode srcreg dstreg = c) ↔
      ∀ b, c.getLsbD b ≠ opcode.getLsbD b → (e.fields host).getLsbD b = true := by
  constructor
  · rintro ⟨srcreg, small, dstreg, small', rfl⟩ b differs
    by_contra outside
    have src := mt (e.src_within host small (b := b))
    have dst := mt (e.dst_within host small' (b := b))
    simp only [Instr.fields, BitVec.getLsbD_or, Bool.or_eq_true, not_or] at outside
    have src := Bool.eq_false_iff.mpr (src outside.1)
    have dst := Bool.eq_false_iff.mpr (dst outside.2)
    simp only [Bool.not_eq_true] at outside
    apply differs
    by_cases inside : b < 16
    · simp only [Instr.code, BitVec.getLsbD_or, BitVec.getLsbD_and, BitVec.getLsbD_not, src, dst,
        outside.1, outside.2, inside, decide_true, Bool.not_false, Bool.and_true, Bool.or_false]
    · rw [BitVec.getLsbD_of_ge _ _ (by omega), BitVec.getLsbD_of_ge _ _ (by omega)]
  · intro agree
    obtain ⟨srcreg, small, src⟩ := e.exists_src host c
    obtain ⟨dstreg, small', dst⟩ := e.exists_dst host c
    refine ⟨srcreg, small, dstreg, small', ?_⟩
    apply BitVec.eq_of_getLsbD_eq
    intro b inside
    have outside : (e.fields host).getLsbD b = false → c.getLsbD b = opcode.getLsbD b := by
      intro out
      by_contra differs
      rw [agree b differs] at out
      cases out
    simp only [Instr.fields, BitVec.getLsbD_or, Bool.or_eq_false_iff] at outside
    simp only [Instr.code, src, dst, BitVec.getLsbD_or, BitVec.getLsbD_and, BitVec.getLsbD_not,
      inside, decide_true, Bool.true_and]
    -- The destination's field lies over the source's.
    cases inDst : (e.dmsk host).getLsbD b with
    | true => simp
    | false =>
      cases inSrc : (e.smsk host).getLsbD b with
      | true => simp
      | false => simp [outside ⟨inSrc, inDst⟩]

/-! ### Classes of opcodes -/

/-- `handle_merges` of the one lets it stand for the other. -/
def Contents.Merges (opcode code : BitVec 16) : Prop :=
  (table.instr opcode).Matches (table.instr code) ∧
    ∀ b, code.getLsbD b ≠ opcode.getLsbD b → ((table.instr opcode).fields host).getLsbD b = true

/-- Entries that match have their operands at the same places, also those that are not used. -/
theorem Contents.pos_eq {o c : BitVec 16} (same : (table.instr o).Matches (table.instr c)) :
    (table.instr o).spos = (table.instr c).spos ∧ (table.instr o).dpos = (table.instr c).dpos := by
  obtain ⟨⟨-, -, suse, duse⟩, src, dst⟩ := same
  constructor
  · cases used : (table.instr o).suse with
    | true => exact (src used).1
    | false => rw [table.unusedSrc o used, table.unusedSrc c (suse.trans used)]
  · cases used : (table.instr o).duse with
    | true => exact (dst used).1
    | false => rw [table.unusedDst o used, table.unusedDst c (duse.trans used)]

theorem Contents.fields_eq {o c : BitVec 16} (same : (table.instr o).Matches (table.instr c)) :
    (table.instr o).fields host = (table.instr c).fields host := by
  obtain ⟨spos, dpos⟩ := table.pos_eq same
  have src : (table.instr o).smsk host = (table.instr c).smsk host := by
    unfold Instr.smsk
    rw [← spos]
    split
    · rfl
    next placed =>
      -- An operand with a position is used, so that its type is compared.
      have used : (table.instr o).suse = true :=
        Bool.not_eq_false _ ▸ mt (table.unusedSrc o) placed
      rw [(same.2.1 used).2.2]
  have dst : (table.instr o).dmsk host = (table.instr c).dmsk host := by
    unfold Instr.dmsk
    rw [dpos]
  rw [Instr.fields, Instr.fields, src, dst]

theorem Instr.Matches.refl (e : Instr) : e.Matches e :=
  ⟨⟨rfl, rfl, rfl, rfl⟩, fun _ => ⟨rfl, rfl, rfl⟩, fun _ => ⟨rfl, rfl⟩⟩

theorem Instr.Matches.symm {e f : Instr} (same : e.Matches f) : f.Matches e := by
  obtain ⟨⟨mnemo, size, suse, duse⟩, src, dst⟩ := same
  refine ⟨⟨mnemo.symm, size.symm, suse.symm, duse.symm⟩, fun used => ?_, fun used => ?_⟩
  · obtain ⟨pos, mode, type⟩ := src (suse ▸ used)
    exact ⟨pos.symm, mode.symm, type.symm⟩
  · obtain ⟨pos, mode⟩ := dst (duse ▸ used)
    exact ⟨pos.symm, mode.symm⟩

theorem Instr.Matches.trans {e f g : Instr} (first : e.Matches f) (second : f.Matches g) :
    e.Matches g := by
  obtain ⟨⟨mnemo, size, suse, duse⟩, src, dst⟩ := first
  obtain ⟨⟨mnemo', size', suse', duse'⟩, src', dst'⟩ := second
  refine ⟨⟨mnemo'.trans mnemo, size'.trans size, suse'.trans suse, duse'.trans duse⟩,
    fun used => ?_, fun used => ?_⟩
  · obtain ⟨pos, mode, type⟩ := src used
    obtain ⟨pos', mode', type'⟩ := src' (suse ▸ used)
    exact ⟨pos.trans pos', mode.trans mode', type.trans type'⟩
  · obtain ⟨pos, mode⟩ := dst used
    obtain ⟨pos', mode'⟩ := dst' (duse ▸ used)
    exact ⟨pos.trans pos', mode.trans mode'⟩

variable {host table}

theorem Contents.Merges.refl (o : BitVec 16) : table.Merges host o o :=
  ⟨.refl _, fun _ differs => absurd rfl differs⟩

theorem Contents.Merges.symm {o c : BitVec 16} (merges : table.Merges host o c) :
    table.Merges host c o := by
  refine ⟨merges.1.symm, fun b differs => ?_⟩
  rw [← table.fields_eq host merges.1]
  exact merges.2 b differs.symm

theorem Contents.Merges.trans {o c d : BitVec 16} (first : table.Merges host o c)
    (second : table.Merges host c d) : table.Merges host o d := by
  refine ⟨first.1.trans second.1, fun b differs => ?_⟩
  by_cases here : c.getLsbD b = o.getLsbD b
  · rw [table.fields_eq host first.1]
    exact second.2 b (here ▸ differs)
  · exact first.2 b here

/-- The least opcode of the class. -/
def Contents.Leads (table : Contents) (host : HostShift) (h c : BitVec 16) : Prop :=
  table.Merges host h c ∧ ∀ o, table.Merges host o c → h.toNat ≤ o.toNat

theorem Contents.exists_leads (c : BitVec 16) : ∃ h, table.Leads host h c := by
  classical
  have some_merges : ∃ n, ∃ o : BitVec 16, o.toNat = n ∧ table.Merges host o c :=
    ⟨_, c, rfl, .refl c⟩
  obtain ⟨h, least, merges⟩ := Nat.find_spec some_merges
  refine ⟨h, merges, fun o merges' => ?_⟩
  rw [least]
  exact Nat.find_min' some_merges ⟨o, rfl, merges'⟩

theorem Contents.Leads.of_merges {h o c : BitVec 16} (leads : table.Leads host h o)
    (merges : table.Merges host o c) : table.Leads host h c :=
  ⟨leads.1.trans merges, fun d merges' => leads.2 d (merges'.trans merges.symm)⟩

theorem Contents.Leads.unique {h k c : BitVec 16} (leads : table.Leads host h c)
    (leads' : table.Leads host k c) : h = k :=
  BitVec.eq_of_toNat_eq (Nat.le_antisymm (leads.2 k leads'.1) (leads'.2 h leads.1))

/-! ### Runs of the loops -/

theorem Merging.mergeCode_handler (opcode code : BitVec 16) (m : Merging) (c : BitVec 16) :
    (m.mergeCode table opcode code).handler c =
      if (code = c ∧ (table.instr opcode).Matches (table.instr c)) ∧ c ≠ opcode then some opcode
      else m.handler c := by
  by_cases here : code = c
  · subst here
    by_cases other : code = opcode
    · subst other
      simp [Merging.mergeCode, Instr.Matches.refl]
    · by_cases same : (table.instr opcode).Matches (table.instr code) <;>
        simp [Merging.mergeCode, same, other]
  · have outside : ¬ ((code = c ∧ (table.instr opcode).Matches (table.instr c)) ∧ c ≠ opcode) :=
      fun inside => here inside.1.1
    rw [if_neg outside, Merging.mergeCode]
    split
    · rfl
    · split
      · exact Function.update_of_ne (Ne.symm here) _ _
      · rfl

theorem Merging.foldl_mergeCode_handler (opcode : BitVec 16) (codes : List (BitVec 16))
    (m : Merging) (c : BitVec 16) :
    (codes.foldl (fun m code => m.mergeCode table opcode code) m).handler c =
      if (c ∈ codes ∧ (table.instr opcode).Matches (table.instr c)) ∧ c ≠ opcode then some opcode
      else m.handler c := by
  induction codes generalizing m with
  | nil => simp
  | cons code codes ih =>
    rw [List.foldl_cons, ih, mergeCode_handler]
    by_cases here : c = code
    · subst here
      by_cases same : (table.instr opcode).Matches (table.instr c) <;>
        by_cases other : c = opcode <;> simp [same, other]
    · simp [here, Ne.symm here]

/-- `handle_merges` enters the opcode for all others of its class. -/
theorem Merging.handleMerges_handler_iff (opcode : BitVec 16) (m : Merging) (c h : BitVec 16) :
    (m.handleMerges host table opcode).handler c = some h ↔
      (table.Merges host opcode c ∧ c ≠ opcode) ∧ opcode = h ∨
        ¬ (table.Merges host opcode c ∧ c ≠ opcode) ∧ m.handler c = some h := by
  let e := table.instr opcode
  let codes := (List.range e.sbitdst).flatMap fun srcreg =>
    (List.range e.dstend).map fun dstreg => e.code host opcode srcreg dstreg
  have flat : m.handleMerges host table opcode =
      codes.foldl (fun m code => m.mergeCode table opcode code) m := by
    simp only [handleMerges, codes, List.foldl_flatMap, List.foldl_map, e]
  have member : c ∈ codes ∧ e.Matches (table.instr c) ↔ table.Merges host opcode c := by
    rw [Contents.Merges, ← Instr.exists_code_iff, and_comm]
    simp only [codes, List.mem_flatMap, List.mem_map, List.mem_range, e]
  rw [flat, foldl_mergeCode_handler, ← member]
  by_cases entered : (c ∈ codes ∧ e.Matches (table.instr c)) ∧ c ≠ opcode
  · rw [if_pos entered, Option.some_inj]
    simp only [entered, true_and, not_true_eq_false, false_and, or_false, ne_eq, not_false_eq_true]
  · rw [if_neg entered]
    simp only [entered, false_and, not_false_eq_true, true_and, false_or]

/-- The opcodes that are done lead the classes, and no other handlers are entered. -/
def Merging.Led (table : Contents) (host : HostShift) (m : Merging) (n : Nat) : Prop :=
  ∀ c h, m.handler c = some h ↔
    (table.instr c).mnemo ≠ .illg ∧ table.Leads host h c ∧ h ≠ c ∧ h.toNat < n

theorem Merging.Led.mergeOpcode {m : Merging} {n : Nat} (led : m.Led table host n)
    (small : n < 65536) :
    (m.mergeOpcode host table (BitVec.ofNat 16 n)).Led table host (n + 1) := by
  have number : (BitVec.ofNat 16 n).toNat = n := Nat.mod_eq_of_lt small
  generalize BitVec.ofNat 16 n = o at number
  subst number
  -- The next opcode is another one's handler only if it leads that class.
  have next : ∀ h : BitVec 16, h.toNat < o.toNat + 1 ↔ h.toNat < o.toNat ∨ h = o := by
    intro h
    rw [Nat.lt_succ_iff_lt_or_eq, BitVec.toNat_inj]
  unfold Merging.mergeOpcode
  intro c h
  split
  next done =>
    rw [led c h, next]
    constructor
    · rintro ⟨legal, leads, other, before⟩
      exact ⟨legal, leads, other, .inl before⟩
    · rintro ⟨legal, leads, other, before | rfl⟩
      · exact ⟨legal, leads, other, before⟩
      · exfalso
        have same : (table.instr h).mnemo = (table.instr c).mnemo := leads.1.1.1.1.symm
        rcases done with merged | illegal
        · obtain ⟨k, entered⟩ := Option.ne_none_iff_exists'.mp merged
          obtain ⟨-, leads', -, earlier⟩ := (led h k).mp entered
          have := leads.2 k (leads'.1.trans leads.1)
          omega
        · exact legal (same ▸ illegal)
  next open_ =>
    obtain ⟨unmerged, legal⟩ := not_or.mp open_
    rw [Merging.handleMerges_handler_iff]
    -- Nothing before it is of its class.
    have leads : table.Leads host o o := by
      obtain ⟨k, leads⟩ : ∃ k, table.Leads host k o := table.exists_leads o
      have first := leads.2 o (.refl o)
      by_cases self : k = o
      · exact self ▸ leads
      · have before : k.toNat < o.toNat :=
          Nat.lt_of_le_of_ne first (fun same => self (BitVec.eq_of_toNat_eq same))
        exact absurd ((led o k).mpr ⟨legal, leads, self, before⟩) (by simp [not_not.mp unmerged])
    by_cases entered : table.Merges host o c ∧ c ≠ o
    · have leads' := leads.of_merges entered.1
      have same : (table.instr c).mnemo = (table.instr o).mnemo := entered.1.1.1.1
      rw [next]
      constructor
      · rintro (⟨-, rfl⟩ | ⟨outside, -⟩)
        · exact ⟨same ▸ legal, leads', entered.2.symm, .inr rfl⟩
        · exact absurd entered outside
      · rintro ⟨-, leads'', -, -⟩
        exact .inl ⟨entered, leads'.unique leads''⟩
    · rw [led c h, next]
      constructor
      · rintro (⟨inside, -⟩ | ⟨-, legal', leads', other, before⟩)
        · exact absurd inside entered
        · exact ⟨legal', leads', other, .inl before⟩
      · rintro ⟨legal', leads', other, before | rfl⟩
        · exact .inr ⟨entered, legal', leads', other, before⟩
        · exact absurd ⟨leads'.1, other.symm⟩ entered

/-- The handler of an opcode is the least of its class, where that is another one. -/
theorem doMerges_handler_iff (c h : BitVec 16) :
    (doMerges host table).handler c = some h ↔
      (table.instr c).mnemo ≠ .illg ∧ table.Leads host h c ∧ h ≠ c := by
  have led : ∀ n ≤ 65536, (((List.range n).map (BitVec.ofNat 16)).foldl
      (Merging.mergeOpcode host table) ⟨fun _ => none, 0, 0⟩).Led table host n := by
    intro n
    induction n with
    | zero =>
      intro _ c h
      simp
    | succ n ih =>
      intro small
      rw [List.range_succ, List.map_append, List.foldl_append]
      exact (ih (by omega)).mergeOpcode (by omega)
  have below : h.toNat < 65536 := h.isLt
  rw [doMerges, led 65536 (Nat.le_refl _) c h]
  simp only [below, and_true]

/-! ### What the generated functions take out of the opcode -/

def imm8Table : List (BitVec 32) := [8, 1, 2, 3, 4, 5, 6, 7]

/-- Whether `generate_one_opcode` has a `srcreg` in the function. -/
def Instr.hasSrcreg (e : Instr) : Bool :=
  e.suse && e.smode ∉ [.imm, .imm0, .imm1, .imm2, .absw, .absl, .pc8r, .pc16] && e.stype ≠ 6

def Instr.hasDstreg (e : Instr) : Bool :=
  e.duse && e.dmode ∉ [.imm, .imm0, .imm1, .imm2, .absw, .absl]

/-- `srcreg` when the function runs for an opcode -/
def Instr.srcreg (e : Instr) (opcode : BitVec 16) : BitVec 32 :=
  if e.spos = -1 then e.sreg.signExtend 32
  else
    let source := opcode.toNat >>> e.spos.toNat &&& (srcField e.stype).1
    if e.stype = 3 then imm8Table.getD source 0
    else if e.stype = 1 then (BitVec.ofNat 8 source).signExtend 32
    else BitVec.ofNat 32 source

def Instr.dstreg (e : Instr) (opcode : BitVec 16) : BitVec 32 :=
  if e.dpos = -1 then e.dreg.signExtend 32
  else BitVec.ofNat 32 (opcode.toNat >>> e.dpos.toNat &&& 7)

/-- The bit of the opcode is one of `srcreg` or `dstreg`. `m68k_emulop` gets the whole opcode. -/
def Instr.Extracts (e : Instr) (b : Nat) : Prop :=
  (e.hasSrcreg = true ∧ ∃ j, ∀ opcode, (e.srcreg opcode).getLsbD j = opcode.getLsbD b) ∨
    (e.hasDstreg = true ∧ ∃ j, ∀ opcode, (e.dstreg opcode).getLsbD j = opcode.getLsbD b) ∨
    e.mnemo = .emulop

/-- The safety checks of `build_insn`: no position without a mode that gathers the operand from
the opcode. `#E` is the operand of EMULOP only. -/
structure Instr.Gathered (e : Instr) : Prop where
  src : e.spos ≠ -1 → (∃ pos : Nat, pos < 16 ∧ e.spos = pos) ∧
    e.smode ∈ [.areg, .dreg, .aind, .ad16, .ad8r, .aipi, .apdi, .immi] ∧
    (e.stype = 6 → e.mnemo = .emulop)
  dst : e.dpos ≠ -1 → (∃ pos : Nat, pos < 16 ∧ e.dpos = pos) ∧
    e.dmode ∈ [.areg, .dreg, .aind, .ad16, .ad8r, .aipi, .apdi]

theorem Instr.srcreg_bit {e : Instr} {pos : Nat} (placed : e.spos = pos) {j : Nat}
    (inside : (srcField e.stype).1.testBit j = true) (opcode : BitVec 16) :
    (e.srcreg opcode).getLsbD j = opcode.getLsbD (pos + j) := by
  have above : (pos : Int) ≠ -1 := by omega
  have source : (opcode.toNat >>> pos &&& (srcField e.stype).1).testBit j =
      opcode.getLsbD (pos + j) := by
    rw [Nat.testBit_and, inside, Bool.and_true, Nat.testBit_shiftRight]
    rfl
  rw [Instr.srcreg, placed, if_neg above, Int.toNat_natCast]
  obtain ⟨k, field⟩ := srcField_eq e.stype
  split
  next counted =>
    -- 8 is entered for 0, and has the same low bits.
    have table : ∀ n ≤ 7, ∀ j < 3, (imm8Table.getD n 0).getLsbD j = n.testBit j := by decide
    have three : (srcField e.stype).1 = 2 ^ 3 - 1 := by rw [counted]; rfl
    rw [three, Nat.testBit_two_pow_sub_one, decide_eq_true_eq] at inside
    rw [← source, three]
    exact table _ Nat.and_le_right j inside
  · split
    next signed =>
      have eight : (srcField e.stype).1 = 2 ^ 8 - 1 := by rw [signed]; rfl
      rw [eight, Nat.testBit_two_pow_sub_one, decide_eq_true_eq] at inside
      have wide : j < 32 := by omega
      rw [BitVec.getLsbD_signExtend, if_pos inside, BitVec.getLsbD_ofNat, source]
      simp [inside, wide]
    · have wide : j < 32 := by
        by_contra out
        have small : (srcField e.stype).1 < 2 ^ 32 := by
          generalize e.stype = stype
          revert stype
          decide
        have high : 2 ^ 32 ≤ 2 ^ j := Nat.pow_le_pow_right Nat.two_pos (by omega)
        rw [Nat.testBit_lt_two_pow (Nat.lt_of_lt_of_le small high)] at inside
        cases inside
      rw [BitVec.getLsbD_ofNat, source, decide_eq_true wide, Bool.true_and]

theorem Instr.dstreg_bit {e : Instr} {pos : Nat} (placed : e.dpos = pos) {j : Nat} (inside : j < 3)
    (opcode : BitVec 16) : (e.dstreg opcode).getLsbD j = opcode.getLsbD (pos + j) := by
  have above : (pos : Int) ≠ -1 := by omega
  have wide : j < 32 := by omega
  have mask : Nat.testBit 7 j = true := by
    rw [show 7 = 2 ^ 3 - 1 from rfl, Nat.testBit_two_pow_sub_one, decide_eq_true inside]
  rw [Instr.dstreg, placed, if_neg above, Int.toNat_natCast, BitVec.getLsbD_ofNat,
    Nat.testBit_and, Nat.testBit_shiftRight, mask, decide_eq_true wide, Bool.true_and,
    Bool.and_true]
  rfl

theorem Contents.extracts_of_field (table : Contents) (host : HostShift) {o : BitVec 16}
    (gathered : (table.instr o).Gathered) {b : Nat}
    (field : ((table.instr o).fields host).getLsbD b = true) : (table.instr o).Extracts b := by
  rw [Instr.fields, BitVec.getLsbD_or, Bool.or_eq_true] at field
  have used := table.unusedSrc o
  have used' := table.unusedDst o
  generalize table.instr o = e at *
  rcases field with src | dst
  · unfold Instr.smsk at src
    split at src
    · simp at src
    next placed =>
      obtain ⟨⟨pos, small, at_⟩, mode, emulop⟩ := gathered.src placed
      rw [host.shl_bit, at_, host.exact pos (by omega)] at src
      simp only [Bool.and_eq_true, decide_eq_true_eq] at src
      by_cases whole : e.stype = 6
      · exact .inr (.inr (emulop whole))
      · have suse : e.suse = true := by
          by_contra unused
          exact placed (used (by simpa using unused))
        have has : e.hasSrcreg = true := by
          simp only [List.mem_cons, List.not_mem_nil, or_false] at mode
          rcases mode with m | m | m | m | m | m | m | m <;> simp [Instr.hasSrcreg, suse, m, whole]
        refine .inl ⟨has, b - pos, fun opcode => ?_⟩
        rw [Instr.srcreg_bit at_ src.2, Nat.add_sub_cancel' src.1.2]
  · unfold Instr.dmsk at dst
    split at dst
    · simp at dst
    next placed =>
      obtain ⟨⟨pos, small, at_⟩, mode⟩ := gathered.dst placed
      rw [host.shl_bit, at_, host.exact pos (by omega), show 7 = 2 ^ 3 - 1 from rfl,
        Nat.testBit_two_pow_sub_one] at dst
      simp only [Bool.and_eq_true, decide_eq_true_eq] at dst
      have duse : e.duse = true := by
        by_contra unused
        exact placed (used' (by simpa using unused))
      have has : e.hasDstreg = true := by
        simp only [List.mem_cons, List.not_mem_nil, or_false] at mode
        rcases mode with m | m | m | m | m | m | m <;> simp [Instr.hasDstreg, duse, m]
      refine .inr (.inl ⟨has, b - pos, fun opcode => ?_⟩)
      rw [Instr.dstreg_bit at_ dst.2, Nat.add_sub_cancel' dst.1.2]

/-! ### Merging is sound -/

/-- The same instruction, with operands of the same kind at the same places. -/
structure Instr.SameAs (e f : Instr) : Prop where
  mnemo : f.mnemo = e.mnemo
  size : f.size = e.size
  suse : f.suse = e.suse
  duse : f.duse = e.duse
  smode : e.suse = true → f.smode = e.smode
  dmode : e.duse = true → f.dmode = e.dmode
  spos : f.spos = e.spos
  dpos : f.dpos = e.dpos

/-- An opcode is merged into one that is not merged itself and stands for the same instruction, up
to the fields of the operands. Those of a gathered entry are extracted. -/
def Merging.Sound (m : Merging) (table : Contents) (host : HostShift) : Prop :=
  ∀ c h, m.handler c = some h →
    m.handler h = none ∧ (table.instr h).SameAs (table.instr c) ∧
      ∀ b, c.getLsbD b ≠ h.getLsbD b →
        ((table.instr h).fields host).getLsbD b = true ∧
          ((table.instr h).Gathered → (table.instr h).Extracts b)

/-- What leads a class is not merged. -/
theorem doMerges_handler_none {c h : BitVec 16}
    (merged : (doMerges host table).handler c = some h) : (doMerges host table).handler h = none := by
  obtain ⟨-, leads, -⟩ := (doMerges_handler_iff c h).mp merged
  rw [Option.eq_none_iff_forall_ne_some]
  intro k chained
  obtain ⟨-, leads', other⟩ := (doMerges_handler_iff h k).mp chained
  exact other ((leads'.of_merges leads.1).unique leads)

theorem merging_sound (table : Contents) (host : HostShift) :
    (doMerges host table).Sound table host := by
  intro c h merged
  obtain ⟨-, ⟨merges, -⟩, -⟩ := (doMerges_handler_iff c h).mp merged
  obtain ⟨⟨mnemo, size, suse, duse⟩, src, dst⟩ := merges.1
  obtain ⟨spos, dpos⟩ := table.pos_eq merges.1
  refine ⟨doMerges_handler_none merged, ?_, fun b differs => ?_⟩
  · exact ⟨mnemo, size, suse, duse, fun used => (src used).2.1.symm, fun used => (dst used).2.symm,
      spos.symm, dpos.symm⟩
  · have field := merges.2 b differs
    exact ⟨field, fun gathered => table.extracts_of_field host gathered field⟩

/-- Two entries of an immediate operand that has a position, with different modes for the
destination, which is not used. -/
def immediates : Contents where
  instr opcode :=
    { dreg := 0, sreg := 0, dpos := -1, spos := if opcode.toNat ≤ 1 then 0 else -1
      mnemo := if opcode.toNat ≤ 1 then .move else .illg, size := .word, smode := .imm, stype := 0
      dmode := if opcode = 0 then .dreg else .absl, suse := decide (opcode.toNat ≤ 1), duse := false
      clev := 0 }
  unusedSrc _ unused := if_neg (of_decide_eq_false unused)
  unusedDst _ _ := rfl

def exactShift : HostShift := ⟨Int.toNat, fun pos _ => Int.toNat_natCast pos⟩

/-- Modes of operands that are not used are not compared, and the function for an immediate operand
takes nothing out of the opcode. -/
theorem unused_mode_differs :
    ¬ ∀ (table : Contents) (host : HostShift) (c h : BitVec 16),
      (doMerges host table).handler c = some h →
        ((table.instr c).smode = (table.instr h).smode ∧
          (table.instr c).dmode = (table.instr h).dmode) ∧
          ∀ b, c.getLsbD b ≠ h.getLsbD b → (table.instr h).Extracts b := by
  intro sound
  have merges : immediates.Merges exactShift 0 1 := by
    refine ⟨by decide, fun b differs => ?_⟩
    by_cases first : b = 0
    · subst first
      decide
    · exact absurd (by simp [first]) differs
  have merged : (doMerges exactShift immediates).handler 1 = some 0 :=
    (doMerges_handler_iff 1 0).mpr ⟨by decide, ⟨merges, fun o _ => Nat.zero_le _⟩, by decide⟩
  have modes := (sound immediates exactShift 1 0 merged).1.2
  exact absurd modes (by decide)

end BasiliskII.Cpu
