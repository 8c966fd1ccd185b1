import BasiliskII.Jit.MiddleCalls

/-!
# Runs of the middle layer

A block is compiled by calls of the middle layer, from `init_comp` on, and `flush` ends it. What is
in the place of each register then is what the plain machine has in it after the same calls.
-/
namespace BasiliskII.Jit

open ByteLanes StepSystem

variable {N : Nat} {F : Type} {cpu : Cpu N F} {locks : Fin N → BitVec 8} {known : VReg → Nat}
  {mid mid' : Middle N F} {p : Plain F} {r d s : VReg} {n m : Fin N} {size : Suffix}

/-! ### What a call asks for -/

/-- The registers that are read, with how many of their bytes. Of the condition and the shift count
of FLAGX there is a byte only. -/
def Op.reads : Op → List (VReg × Nat)
  | .movRr size _ s | .extendRr _ size _ s | .movMr size _ s => [(s, size.bytes)]
  | .cmovRr size d s _ => [(d, min (width d) size.bytes), (s, min (width d) size.bytes)]
  | .leaLBrr _ s _ | .movBrR _ _ s _ => [(s, 4)]
  | .logicLRi _ r _ | .cmpLRi r _ | .testLRi r _ => [(r, 4)]
  | .aluRi _ size d _ | .shiftRi _ size d _ => [(d, size.bytes)]
  | .aluRr _ size d s | .cmpRr size d s | .testRr size d s => [(d, size.bytes), (s, size.bytes)]
  | .imul3232 d s => [(d, 4), (s, 4)]
  | .shiftRr _ size d r => [(d, size.bytes), (r, 1)]
  | .movBRegR size d s _ => [(d, 4), (s, size.bytes)]
  | .movRi .. | .setcc .. | .movRm .. | .forgetAbout _ | .freescratch | .liveFlags
  | .dontCareFlags | .makeFlagsLive | .startNeedflags | .endNeedflags | .duplicateCarry => []

/-- The register that is written, with how many of its bytes. -/
def Op.written : Op → Option (VReg × Nat)
  | .movRi size d _ | .movRr size d _ | .cmovRr size d _ _ | .aluRi _ size d _
  | .aluRr _ size d _ | .shiftRi _ size d _ | .shiftRr _ size d _ | .movRm size d _
  | .movBrR size d _ _ => some (d, size.bytes)
  | .setcc d _ => some (d, 1)
  | .extendRr _ _ d _ | .leaLBrr d _ _ | .logicLRi _ d _ | .imul3232 d _ => some (d, 4)
  | .duplicateCarry => some (flagx, 1)
  | .cmpRr .. | .cmpLRi .. | .testRr .. | .testLRi .. | .movMr .. | .movBRegR ..
  | .forgetAbout _ | .freescratch | .liveFlags | .dontCareFlags | .makeFlagsLive
  | .startNeedflags | .endNeedflags => none

/-- What is known of the registers after a call. -/
def Op.learn (known : VReg → Nat) : Op → VReg → Nat
  | .forgetAbout r => forget known r
  | .freescratch => fun v => if needflush v = .scratch then 0 else known v
  | op => op.written.elim known fun (d, size) => Jit.learn known d size

/-- FLAGTMP is nobody's, and FLAGX is written as the byte that it is. -/
def Op.Targets : Op → Prop
  | .setcc d _ | .cmovRr _ d _ _ => d ≠ flagtmp
  | .forgetAbout r => Free r
  | .duplicateCarry => True
  | op => ∀ x ∈ op.written, Free x.1

/-- The flags are known where they are tested, added or kept. -/
def Op.Tests (cpu : Cpu N F) (p : Plain F) : Op → Prop
  | .setcc _ cc | .cmovRr _ _ _ cc => (p.holds cpu cc).isSome = true
  | .aluRr a _ _ _ => a.usesCarry = true → (p.carryIn cpu).isSome = true
  | .duplicateCarry => p.flags.isSome = true
  | _ => True

/-- What the calls do not check: no offset is added to a register that is not whole, no constant is
shifted by more than it has bits, and operands that are the same register have the same size. Only
`add`, `sub`, `and` and `or` come with constants. -/
def Op.Regular (mid : Middle N F) (p : Plain F) : Op → Prop
  | .leaLBrr d s _ => d = s → mid.live.Whole d
  | .aluRi a size d _ =>
    (a = .add ∨ a = .sub) ∧ (size = .l → p.needflags = false → mid.live.Whole d)
  | .logicLRi a _ _ => a = .and ∨ a = .or
  | .aluRr a size d s =>
    (a = .add ∨ a = .sub) → size = .l → mid.live.isconst s = true → p.needflags = false →
      mid.live.Whole d
  | .shiftRi _ _ d i => mid.live.isconst d = true → p.needflags = false → i.toNat < 32
  | .shiftRr _ _ d r =>
    d ≠ r ∧ (mid.live.isconst r = true → mid.live.isconst d = true → p.needflags = false →
      (p.low r .b).toNat < 32)
  | .movBRegR size d s _ => d = s → size = .l
  | _ => True

structure Op.Ready (cpu : Cpu N F) (known : VReg → Nat) (mid : Middle N F) (p : Plain F)
    (op : Op) : Prop where
  reads : ∀ x ∈ op.reads, x.2 ≤ known x.1
  targets : op.Targets
  tests : op.Tests cpu p
  regular : op.Regular mid p

instance (s : Live N) (r : VReg) : Decidable (s.Whole r) := inferInstanceAs (Decidable (_ → _))

instance (r : VReg) : Decidable (Free r) := inferInstanceAs (Decidable (_ ∧ _))

instance (op : Op) : Decidable op.Targets := by
  cases op <;> dsimp only [Op.Targets] <;> infer_instance

instance (cpu : Cpu N F) (p : Plain F) (op : Op) : Decidable (op.Tests cpu p) := by
  cases op <;> dsimp only [Op.Tests] <;> infer_instance

instance (mid : Middle N F) (p : Plain F) (op : Op) : Decidable (op.Regular mid p) := by
  cases op <;> dsimp only [Op.Regular] <;> infer_instance

instance (cpu : Cpu N F) (known : VReg → Nat) (mid : Middle N F) (p : Plain F) (op : Op) :
    Decidable (op.Ready cpu known mid p) :=
  decidable_of_iff
    ((∀ x ∈ op.reads, x.2 ≤ known x.1) ∧ op.Targets ∧ op.Tests cpu p ∧ op.Regular mid p)
    ⟨fun ⟨reads, targets, tests, regular⟩ => ⟨reads, targets, tests, regular⟩,
      fun ready => ⟨ready.reads, ready.targets, ready.tests, ready.regular⟩⟩

/-- `freescratch` forgets about one register after the other. -/
theorem Tracks.freescratch (tracks : Tracks cpu locks known mid p)
    (done : mid.freescratch cpu = some mid') :
    Tracks cpu locks (fun v => if needflush v = .scratch then 0 else known v) mid' p := by
  have loop (rs : List VReg) (free : ∀ r ∈ rs, Free r) {known : VReg → Nat} {mid : Middle N F}
      (tracks : Tracks cpu locks known mid p)
      (done : rs.foldlM (fun m r => Middle.forgetAbout cpu r m) mid = some mid') :
      Tracks cpu locks (fun v => if v ∈ rs then 0 else known v) mid' p := by
    induction rs generalizing known mid with
    | nil =>
      cases done
      exact tracks.fewer fun v => by simp
    | cons r rs ih =>
      rw [List.foldlM_cons] at done
      obtain ⟨mid₁, forgotten, done⟩ := Option.bind_eq_some_iff.mp done
      have tracks₁ := tracks.forgetAbout (free r (.head _)) forgotten
      refine (ih (fun r there => free r (.tail _ there)) tracks₁ done).fewer fun v => ?_
      by_cases here : v = r
      · simp [here]
      · simp [here, forget_of_ne here]
  have scratch (r : VReg) (there : r ∈ (List.finRange 32).filter (needflush · = .scratch)) :
      Free r := by
    have high := of_decide_eq_true (List.mem_filter.mp there).2
    constructor <;> rintro rfl <;> exact absurd high (by decide)
  refine (loop _ scratch tracks done).fewer fun v => ?_
  simp

theorem needflags_tracks (tracks : Tracks cpu locks known mid p) (needflags : Bool) :
    Tracks cpu locks known { mid with needflags } { p with needflags } :=
  ⟨tracks.represents, tracks.locks, tracks.unknown, rfl, tracks.heap, tracks.recent, tracks.saved⟩

/-- Every call does to the compiler's state what it does to the plain machine, and leaves no native
register locked. -/
theorem call_tracks (tracks : Tracks cpu cpu.host.idle known mid p) {op : Op}
    (ready : op.Ready cpu known mid p) (done : mid.call cpu op = some mid') :
    Tracks cpu cpu.host.idle (op.learn known) mid' (op.interp cpu p) := by
  obtain ⟨reads, targets, tests, regular⟩ := ready
  cases op with
  | movRi size d i => exact tracks.movRi (targets _ rfl) done
  | movRr size d s => exact tracks.movRr (targets _ rfl) (reads _ (.head _)) done
  | setcc d cc =>
    obtain ⟨c, holds⟩ := Option.isSome_iff_exists.mp tests
    rw [Op.interp, holds]
    exact tracks.setcc targets holds done
  | cmovRr size d s cc =>
    obtain ⟨c, holds⟩ := Option.isSome_iff_exists.mp tests
    rw [Op.interp, holds]
    exact tracks.cmovRr targets (reads _ (.head _)) (reads _ (.tail _ (.head _))) holds done
  | extendRr signed size d s => exact tracks.extendRr (targets _ rfl) (reads _ (.head _)) done
  | leaLBrr d s offset => exact tracks.leaLBrr (targets _ rfl) (reads _ (.head _)) regular done
  | aluRi a size d i =>
    exact tracks.aluRi (targets _ rfl) (reads _ (.head _)) regular.1 regular.2 done
  | logicLRi a d i =>
    have uses : a.usesCarry = false := by
      rcases regular with rfl | rfl <;> rfl
    exact tracks.logicLRi (targets _ rfl) (reads _ (.head _)) uses done
  | aluRr a size d s =>
    exact tracks.aluRr (targets _ rfl) (reads _ (.head _)) (reads _ (.tail _ (.head _))) tests
      regular done
  | imul3232 d s =>
    exact tracks.imul3232 (targets _ rfl) (reads _ (.head _)) (reads _ (.tail _ (.head _))) done
  | cmpRr size d s =>
    exact tracks.cmpRr (reads _ (.head _)) (reads _ (.tail _ (.head _))) done
  | cmpLRi r i =>
    exact tracks.compareRi (reads _ (.head _)) (fun x => cpu.aluFlags .sub 32 false x i) done
  | testRr size d s =>
    exact tracks.testRr (reads _ (.head _)) (reads _ (.tail _ (.head _))) done
  | testLRi d i =>
    exact tracks.compareRi (reads _ (.head _)) (fun x => cpu.testFlags 32 x i) done
  | shiftRi sh size d i =>
    exact tracks.shiftRi (targets _ rfl).2 (fun _ => targets _ rfl) (reads _ (.head _)) regular
      done
  | shiftRr sh size d r =>
    exact tracks.shiftRr (targets _ rfl) regular.1 (reads _ (.head _))
      (reads _ (.tail _ (.head _))) regular.2 done
  | movRm size d a => exact tracks.movRm (targets _ rfl) done
  | movBrR size d s offset => exact tracks.movBrR (targets _ rfl) (reads _ (.head _)) done
  | movMr size a s => exact tracks.movMr (reads _ (.head _)) done
  | movBRegR size d s offset =>
    exact tracks.movBRegR (reads _ (.head _)) (reads _ (.tail _ (.head _))) regular done
  | forgetAbout r => exact tracks.forgetAbout targets done
  | freescratch => exact tracks.freescratch done
  | liveFlags =>
    cases done
    exact tracks.liveFlags
  | dontCareFlags =>
    cases done
    exact tracks.dropFlags false
  | makeFlagsLive => exact (tracks.makeFlagsLive done).1
  | startNeedflags =>
    cases done
    exact needflags_tracks tracks true
  | endNeedflags =>
    cases done
    exact needflags_tracks tracks false
  | duplicateCarry =>
    obtain ⟨f, flags⟩ := Option.isSome_iff_exists.mp tests
    exact tracks.duplicateCarry flags done

/-! ### flush -/

section Flush

variable {host : Host N} {file : VReg → BitVec 32} {s : Live N}

theorem Represents.stored (rep : Represents host known file s) (zero : (s.state r).val = 0)
    (stored : (s.state r).Stored) : SameLow (known r) (s.mem r) (file r) := by
  have unshifted : s.Unshifted r := .inr zero
  have not_const : s.isconst r = false := by
    rcases stored with status | status <;> simp [Live.isconst, status]
  have defined : (s.state r).status ≠ .undef := fun undef => by
    rcases stored with status | status <;> cases status.symm.trans undef
  refine SameLow.trans ?_ (rep.values r)
  rcases rep.inv.linked.cases r with out | ⟨n, held, -, -⟩
  · rw [value_stored out unshifted defined, not_const]
    exact .refl _ _
  · have placed := rep.inv.placed n r held
    have clean : (s.state r).dirtysize = 0 := by
      rcases placed.status with clean | dirty
      · exact clean.2
      · rcases stored with status | status <;> cases status.symm.trans dirty.1
    intro i low
    rw [value_level rep.inv.linked held zero, splice_bit]
    split
    next valid => exact (placed.agrees i low (by omega) valid).symm
    · rfl

/-- A register that is in no native one is brought up to date in memory. -/
theorem Represents.writeback {f : RegStatus N → RegStatus N} {a : BitVec 32}
    (rep : Represents host known file s) (out : s.isinreg r = false) (other : r ≠ Jit.flagx)
    (status : (f (s.state r)).status = .inmem) (zero : (f (s.state r)).val = 0)
    (same : SameLow (known r) a (file r)) :
    Represents host known file ((s.setMem r a).modify r f) := by
  have state : (s.modify r f).state r = f (s.state r) := Function.update_self _ _ _
  have stays : (s.modify r f).isinreg r = false := by
    simp [Live.isinreg, state, status]
  have changed := (rep.mono (forget_le known r)).record (k := 0) (b := file r) out stays other
    (fun some => absurd rfl some) rep.inv.flagx (sameLow_zero _ _)
  rw [Function.update_eq_self] at changed
  have written := changed.setMem (k := known r) stays ⟨by rw [state, zero], by simp [state, status]⟩
    (by simp [state, status]) (by rw [Function.update_eq_self]; exact rep.inv.flagx) same
  rwa [Function.update_eq_self, Function.update_eq_self] at written

/-- `flush` is done with the register: it is in memory, or nothing is known of it. PC_P may stay a
constant. -/
def Live.Saved (known : VReg → Nat) (s : Live N) (v : VReg) : Prop :=
  (s.state v).Flat ∧ (s.state v).Stored ∨ known v = 0 ∨ v = pcReg ∧ s.isconst v = true

/-- Others are as good as before where their records are the same. -/
theorem Live.Saved.congr {s' : Live N} {v : VReg} (saved : s.Saved known v)
    (same : s'.state v = s.state v) : s'.Saved known v := by
  rw [Live.Saved, Live.isconst, same]
  exact saved

theorem Live.Saved.served {s' : Live N} {v : VReg} (saved : s.Saved known v) (other : v ≠ r)
    (served : Served host known (some r) s s') (undisturbed : Undisturbed r s s') :
    s'.Saved known v := by
  rcases saved with ⟨flat, stored⟩ | none | ⟨pc, const⟩
  · exact .inl ⟨undisturbed.flat v flat, (undisturbed.others v other).stored stored⟩
  · exact .inr (.inl none)
  · have out : s.isinreg v = false := by
      simp [Live.isinreg, of_decide_eq_true const]
    refine .inr (.inr ⟨pc, ?_⟩)
    rw [Live.isconst, (served.out v (fun same => other (Option.some.inj same).symm) out).1]
    exact const

theorem Represents.tomem {s₁ s₂ : Live N} (rep : Represents host known file s)
    (inreg : s.isinreg r = true) (removed : s.removeOffset host r none = some s₁)
    (stored : s₁.tomem host r = some s₂) :
    Represents host known file s₂ ∧ Served host known (some r) s s₂ ∧ Undisturbed r s s₂ ∧
      s₂.Saved known r := by
  obtain ⟨m, -⟩ := rep.inv.linked.somewhere r inreg
  have served₁ := removeOffset_spec rep.inv (fun undef _ => rep.undef r undef) removed
  obtain ⟨⟨undisturbed₁, -⟩, unshifted⟩ :=
    removeOffset_gentle (g := .off host r m) rfl rfl removed
  have inreg₁ := removeOffset_inreg rep.inv inreg removed
  have flat : (s₁.state r).Flat := Live.Unshifted.flat unshifted inreg₁
  obtain ⟨n, held⟩ := served₁.inv.linked.somewhere r inreg₁
  obtain ⟨served₂, st, a, c, rfl, stays, -, clean⟩ := tomem_spec served₁.inv held stored
  have undisturbed₂ : Undisturbed r s₁ (s₁.revise r n st a c) := tomem_undisturbed stored
  have state : (s₁.revise r n st a c).state r = st := Function.update_self _ _ _
  have placed := served₂.inv.placed n r held
  rw [state] at placed
  refine ⟨(rep.served served₁ undisturbed₁).served served₂ undisturbed₂,
    served₁.trans (served₂.of_none _), undisturbed₁.trans undisturbed₂,
    .inl ⟨undisturbed₂.flat r flat, ?_⟩⟩
  rw [state]
  rcases placed.status with status | dirty
  · exact .inr status.1
  · have few := dirty.2
    omega

theorem flushReg_saves {i : VReg} (rep : Represents cpu.host known file mid.live)
    (done : mid.flushReg cpu i = some mid') :
    Represents cpu.host known file mid'.live ∧ mid'.live.Saved known i ∧
      (∀ v ≠ i, mid.live.Saved known v → mid'.live.Saved known v) ∧ mid'.heap = mid.heap := by
  have taken (inreg : mid.live.isinreg i = true)
      (done : (mid.onLive fun s =>
        (s.removeOffset cpu.host i none).bind (Live.tomem cpu.host i)) = some mid') :
      Represents cpu.host known file mid'.live ∧ mid'.live.Saved known i ∧
        (∀ v ≠ i, mid.live.Saved known v → mid'.live.Saved known v) ∧ mid'.heap = mid.heap := by
    obtain ⟨s₂, called, rfl⟩ := onLive_some done
    obtain ⟨s₁, removed, stored⟩ := Option.bind_eq_some_iff.mp called
    obtain ⟨rep₂, served, undisturbed, saved⟩ := rep.tomem inreg removed stored
    exact ⟨rep₂, saved, fun v other before => before.served other served undisturbed, rfl⟩
  rw [Middle.flushReg] at done
  split at done
  next status =>
    have out : mid.live.isinreg i = false := by
      simp [Live.isinreg, status]
    split at done
    next offset =>
      cases done
      have other : i ≠ flagx := by
        rintro rfl
        exact offset rep.flat.1
      have value : SameLow (known i) (mid.live.mem i + (mid.live.state i).val) (file i) := by
        have value : mid.live.value i = mid.live.mem i + (mid.live.state i).val := by
          rw [Live.value, RegStatus.value, status]
        rw [← value]
        exact rep.values i
      have written := rep.writeback (f := fun st => { st with val := 0 }) out other status rfl value
      refine ⟨written, .inl ⟨⟨?_, ?_⟩, .inl ?_⟩, fun v apart saved => ?_, rfl⟩
      · simp [Live.modify]
      · simp [Live.modify, Live.setMem, status]
      · simp [Live.modify, Live.setMem, status]
      · exact saved.congr (Function.update_of_ne apart _ _)
    next zero =>
      cases done
      exact ⟨rep, .inl ⟨⟨not_not.mp zero, by simp [status]⟩, .inl status⟩, fun _ _ => id, rfl⟩
  next status => exact taken (isinreg_iff.mpr (.inl status)) done
  next status => exact taken (isinreg_iff.mpr (.inr status)) done
  next status =>
    cases done
    have const : mid.live.isconst i = true := by
      simp [Live.isconst, status]
    split
    next other =>
      have out : mid.live.isinreg i = false := by
        simp [Live.isinreg, status]
      have apart : i ≠ flagx := by
        rintro rfl
        exact rep.flat.2 status
      have value : SameLow (known i) (mid.live.state i).val (file i) := by
        have value : mid.live.value i = (mid.live.state i).val := by
          rw [Live.value, RegStatus.value, status]
        rw [← value]
        exact rep.values i
      have written :=
        rep.writeback (f := fun st => { st with val := 0, status := .inmem }) out apart rfl rfl value
      rw [Live.writebackConst, if_neg (not_not.mpr const)]
      refine ⟨written, .inl ⟨⟨?_, ?_⟩, .inl ?_⟩, fun v apart saved => ?_, rfl⟩
      · simp [Live.modify]
      · simp [Live.modify]
      · simp [Live.modify]
      · exact saved.congr (Function.update_of_ne apart _ _)
    next pc => exact ⟨rep, .inr (.inr ⟨not_not.mp pc, const⟩), fun _ _ => id, rfl⟩
  next status =>
    cases done
    exact ⟨rep, .inr (.inl (rep.undef i status)), fun _ _ => id, rfl⟩

theorem flushRegs_saves (is : List VReg) (rep : Represents cpu.host known file mid.live)
    (done : is.foldlM (Middle.flushReg cpu) mid = some mid') :
    Represents cpu.host known file mid'.live ∧
      (∀ v, v ∈ is ∨ mid.live.Saved known v → mid'.live.Saved known v) ∧ mid'.heap = mid.heap := by
  induction is generalizing mid with
  | nil =>
    cases done
    exact ⟨rep, fun v saved => saved.resolve_left List.not_mem_nil, rfl⟩
  | cons i is ih =>
    rw [List.foldlM_cons] at done
    obtain ⟨mid₁, flushed, done⟩ := Option.bind_eq_some_iff.mp done
    obtain ⟨rep₁, first, others, heap₁⟩ := flushReg_saves rep flushed
    obtain ⟨rep₂, saves, heap₂⟩ := ih rep₁ done
    refine ⟨rep₂, fun v saved => saves v ?_, heap₂.trans heap₁⟩
    by_cases here : v = i
    · subst here
      exact .inr first
    · rcases saved with there | before
      · exact .inl (List.mem_of_ne_of_mem here there)
      · exact .inr (others v here before)

end Flush

/-- `add_l_ri` emits nothing where the flags are not needed. -/
theorem addLRi_quiet {a : Alu} {i offset : BitVec 32} (off : mid.needflags = false)
    (done : mid.addLRi cpu a d i offset = some mid') : ∃ s, mid' = { mid with live := s } := by
  rw [Middle.addLRi] at done
  split at done
  · cases done
    exact ⟨mid.live, rfl⟩
  · split at done
    · cases done
      exact ⟨_, rfl⟩
    · split at done
      · cases done
        exact ⟨_, rfl⟩
      next needed => exact absurd off (by simpa using needed)

/-- `sync_m68k_pc` -/
theorem Tracks.syncM68kPc (tracks : Tracks cpu locks known mid p) (quiet : p.needflags = false)
    (few : 4 ≤ known pcReg) {pcOffset : BitVec 32}
    (whole : pcOffset ≠ 0 → mid.live.Whole pcReg)
    (done : mid.syncM68kPc cpu pcOffset = some mid') :
    Tracks cpu locks (learn known pcReg 4) mid' (p.put pcReg 4 (p.reg pcReg + pcOffset)) ∧
      ∃ s, mid' = { mid with live := s } := by
  rw [Middle.syncM68kPc] at done
  split at done
  next some =>
    have off : mid.needflags = false := tracks.needflags.trans quiet
    have added :=
      tracks.addLRi (a := .add) (by decide) few rfl (fun _ => whole some) id (fun _ => rfl) done
    rw [Plain.alu_l rfl, Plain.settle_put_off quiet] at added
    obtain ⟨s, rfl⟩ := addLRi_quiet off done
    exact ⟨added.recall tracks.recent, s, rfl⟩
  next zero =>
    cases done
    rw [not_not.mp zero, show p.reg pcReg + 0 = p.reg pcReg from BitVec.add_zero _, Plain.put_self]
    exact ⟨tracks.fewer (learn_le few), mid.live, rfl⟩

/-! ### Runs -/

/-- The compiler and the plain machine, with what is known of the registers. -/
structure Coupled (N : Nat) (F : Type) where
  middle : Middle N F
  plain : Plain F
  known : VReg → Nat

def Coupled.step (cpu : Cpu N F) (c : Coupled N F) (op : Op) : Option (Coupled N F) :=
  (c.middle.call cpu op).map fun mid =>
    ⟨mid, op.interp cpu c.plain, op.learn c.known⟩

def Coupled.Allowed (cpu : Cpu N F) (c : Coupled N F) (op : Op) : Prop :=
  op.Ready cpu c.known c.middle c.plain

instance (c : Coupled N F) (op : Op) : Decidable (Coupled.Allowed cpu c op) :=
  inferInstanceAs (Decidable (op.Ready ..))

/-- `init_comp`, where the flags are in the place of FLAGTMP. -/
def Coupled.start (cpu : Cpu N F) (mid : Middle N F) (compPcP : BitVec 32) (flags : F) :
    Coupled N F where
  middle := mid.initComp cpu compPcP
  plain := .start mid.live.mem mid.heap compPcP flags mid.needflags
  known v := if v ≤ flagx then width v else 0

variable {v : VReg}

theorem initComp_status {host : Host N} {s : Live N} {compPcP : BitVec 32} (low : v ≤ flagtmp) :
    ((s.initComp host compPcP).state v).status =
      if v = pcReg then .isconst else .inmem := by
  have places : v = pcReg ∨ v < 16 ∨ v = flagx ∨ v = flagtmp := by
    revert v
    decide
  rcases places with rfl | place
  · rfl
  · have other : v ≠ pcReg := by
      rintro rfl
      exact absurd place (by decide)
    simp [Live.initComp, place, other]

/-- The registers are in memory, but for the program counter. -/
theorem initComp_value {host : Host N} {s : Live N} {compPcP : BitVec 32} (low : v ≤ flagtmp) :
    (s.initComp host compPcP).value v = Function.update s.mem pcReg compPcP v := by
  have status : ((s.initComp host compPcP).state v).status = _ := initComp_status low
  rw [Live.value, RegStatus.value, status]
  by_cases here : v = pcReg
  · subst here
    rw [if_pos rfl, Function.update_self]
    rfl
  · have val : ((s.initComp host compPcP).state v).val = 0 := if_neg here
    rw [if_neg here, Function.update_of_ne here]
    change s.mem v + _ = _
    rw [val]
    exact BitVec.add_zero _

theorem start_tracks (mid : Middle N F) (compPcP : BitVec 32) {flags : F}
    (word : mid.live.mem flagtmp = cpu.toWord flags) :
    Tracks cpu cpu.host.idle (Coupled.start cpu mid compPcP flags).known
      (Coupled.start cpu mid compPcP flags).middle
      (Coupled.start cpu mid compPcP flags).plain := by
  have few (v : VReg) : backed (Coupled.start cpu mid compPcP flags).known
      (Coupled.start cpu mid compPcP flags).middle (Coupled.start cpu mid compPcP flags).plain v ≤
        width v := by
    by_cases here : v = flagtmp
    · subst here
      rw [backed, if_pos ⟨rfl, rfl⟩, Function.update_self]
      rfl
    · rw [backed_of_ne _ _ _ here, Coupled.start]
      dsimp only
      split
      · exact le_rfl
      · exact Nat.zero_le _
  have high {v : VReg} (high : ¬ v ≤ flagtmp) : backed (Coupled.start cpu mid compPcP flags).known
      (Coupled.start cpu mid compPcP flags).middle
      (Coupled.start cpu mid compPcP flags).plain v = 0 := by
    rw [backed_of_ne _ _ _ fun same => high same.le]
    exact if_neg fun less => high (less.trans (by decide))
  refine ⟨⟨(initComp_inv cpu.host mid.live compPcP).mono few, fun v => ?_, fun v undef => ?_,
    ?_, ?_⟩, rfl, rfl, rfl, rfl,
    fun f same => (by cases same), fun f same => ⟨rfl, fun off => (by cases off), .inr rfl⟩⟩
  · by_cases low : v ≤ flagtmp
    · have value : (mid.live.initComp cpu.host compPcP).value v =
          (Coupled.start cpu mid compPcP flags).plain.registers cpu v := by
        rw [initComp_value low, Plain.registers]
        by_cases here : v = flagtmp
        · subst here
          rw [Function.update_self]
          exact word
        · rw [Function.update_of_ne here]
          rfl
      exact value ▸ .refl _ _
    · rw [high low]
      exact sameLow_zero _ _
  · by_cases low : v ≤ flagtmp
    · rw [show (Coupled.start cpu mid compPcP flags).middle.live =
        mid.live.initComp cpu.host compPcP from rfl, initComp_status low] at undef
      split at undef <;> cases undef
    · exact high low
  · exact ⟨rfl, fun const => (by cases const)⟩
  · exact fun undef => by cases undef

variable {ops : List Op}

/-- The two go together as long as the compiler makes its calls as it should. -/
theorem run_tracks {c c' : Coupled N F}
    (run : Run (Coupled.step cpu) (Coupled.Allowed cpu) c ops c')
    (tracks : Tracks cpu cpu.host.idle c.known c.middle c.plain) :
    Tracks cpu cpu.host.idle c'.known c'.middle c'.plain := by
  refine run.invariant
    (P := fun c : Coupled N F => Tracks cpu cpu.host.idle c.known c.middle c.plain) ?_ tracks
  intro c op c' tracks allowed taken
  obtain ⟨mid, called, rfl⟩ := Option.map_eq_some_iff.mp taken
  exact call_tracks tracks allowed called

theorem run_plain {c c' : Coupled N F} (run : Run (Coupled.step cpu) (Coupled.Allowed cpu) c ops c') :
    ops.foldlM (Middle.call cpu) c.middle = some c'.middle ∧
      c'.plain = ops.foldl (Op.interp cpu) c.plain := by
  induction run with
  | done => exact ⟨rfl, rfl⟩
  | next allowed taken rest ih =>
    obtain ⟨mid, called, rfl⟩ := Option.map_eq_some_iff.mp taken
    refine ⟨?_, ih.2⟩
    rw [List.foldlM_cons, called]
    exact ih.1

/-- A register of the 68k that was known as a whole still is, unless the compiler forgets it. -/
theorem learn_wide {op : Op} (low : v ≤ flagx) (kept : op ≠ .forgetAbout v)
    (whole : width v ≤ known v) : width v ≤ op.learn known v := by
  have learnt (d : VReg) (size : Nat) : width v ≤ Jit.learn known d size v := by
    by_cases here : v = d
    · subst here
      rw [learn_self]
      omega
    · rwa [learn_of_other here]
  have other (same : op.learn known =
      op.written.elim known fun (d, size) => Jit.learn known d size) :
      width v ≤ op.learn known v := by
    rw [same]
    cases op.written with
    | none => exact whole
    | some x => exact learnt x.1 x.2
  cases op with
  | forgetAbout r =>
    have apart : v ≠ r := by
      rintro rfl
      exact kept rfl
    rwa [Op.learn, forget_of_ne apart]
  | freescratch =>
    have needed : needflush v ≠ .scratch := by
      rw [needflush, if_pos (low.trans (by decide))]
      decide
    change width v ≤ if needflush v = .scratch then 0 else known v
    rwa [if_neg needed]
  | _ => exact other rfl

theorem run_wide {c c' : Coupled N F} (run : Run (Coupled.step cpu) (Coupled.Allowed cpu) c ops c')
    (low : v ≤ flagx) (kept : .forgetAbout v ∉ ops) (whole : width v ≤ c.known v) :
    width v ≤ c'.known v := by
  induction run with
  | done => exact whole
  | next allowed taken rest ih =>
    obtain ⟨mid, called, rfl⟩ := Option.map_eq_some_iff.mp taken
    rw [List.mem_cons, not_or] at kept
    exact ih kept.2 (learn_wide low (Ne.symm kept.1) whole)

theorem data_register (low : v < 16) : v ≠ pcReg ∧ v ≠ flagtmp ∧ v ≠ flagx ∧ v ≤ flagx := by
  revert v
  decide

theorem run_flagx {c c' : Coupled N F} (run : Run (Coupled.step cpu) (Coupled.Allowed cpu) c ops c') :
    .forgetAbout flagx ∉ ops := by
  induction run with
  | done => exact List.not_mem_nil
  | next allowed _ _ ih =>
    rw [List.mem_cons, not_or]
    refine ⟨?_, ih⟩
    rintro rfl
    exact allowed.targets.1 rfl

/-- After `flush`, whatever was called, the registers of the 68k and its flags are in memory as the
plain machine has them. PC_P may be a constant instead. -/
theorem flush_saves {compPcP pcOffset : BitVec 32} {flags : F} {ops : List Op} {c : Coupled N F}
    (word : mid.live.mem flagtmp = cpu.toWord flags)
    (run : Run (Coupled.step cpu) (Coupled.Allowed cpu) (.start cpu mid compPcP flags) ops c)
    (quiet : c.plain.needflags = false) (kept : .forgetAbout pcReg ∉ ops)
    (whole : pcOffset ≠ 0 → c.middle.live.Whole pcReg)
    (flushed : c.middle.flush cpu pcOffset true = some mid') :
    c.plain = ops.foldl (Op.interp cpu)
        (.start mid.live.mem mid.heap compPcP flags mid.needflags) ∧
      (∀ v < 16, .forgetAbout v ∉ ops → mid'.live.mem v = c.plain.reg v) ∧
      (if mid'.live.isconst pcReg then (mid'.live.state pcReg).val else mid'.live.mem pcReg) =
        c.plain.reg pcReg + pcOffset ∧
      SameLow 1 (mid'.live.mem flagx) (c.plain.reg flagx) ∧
      (∀ f, c.plain.flags = some f → mid'.live.mem flagtmp = cpu.toWord f) ∧
      mid'.heap = c.plain.heap := by
  have tracks := run_tracks run (start_tracks mid compPcP word)
  have wide {v : VReg} (low : v ≤ flagx) (kept : .forgetAbout v ∉ ops) : width v ≤ c.known v :=
    run_wide run low kept (if_pos low).ge
  obtain ⟨mid₁, pushed, flushed⟩ := Option.bind_eq_some_iff.mp flushed
  obtain ⟨mid₂, synced, saved⟩ := Option.bind_eq_some_iff.mp flushed
  rw [if_pos rfl] at saved
  obtain ⟨tracks₁, onStack, -, undisturbed⟩ := tracks.flagsToStack pushed
  have four : 4 ≤ c.known pcReg := wide (by decide) kept
  obtain ⟨tracks₂, s₂, rfl⟩ := tracks₁.syncM68kPc quiet four
    (fun some => undisturbed.wholeReg (by decide) (whole some)) synced
  obtain ⟨rep, saves, heap⟩ := flushRegs_saves _ tracks₂.represents saved
  have known_eq {v : VReg} (other : v ≠ pcReg) (apart : v ≠ flagtmp) :
      backed (learn c.known pcReg 4) { mid₁ with live := s₂ }
        (c.plain.put pcReg 4 (c.plain.reg pcReg + pcOffset)) v = c.known v := by
    rw [backed_of_ne _ _ _ apart, learn_of_other other]
  -- Whatever is known of a register that is no constant is in memory.
  have stored {v : VReg} {k : Nat} (low : v ≤ flagtmp) (some : 0 < k)
      (few : k ≤ backed (learn c.known pcReg 4) { mid₁ with live := s₂ }
        (c.plain.put pcReg 4 (c.plain.reg pcReg + pcOffset)) v)
      (not_const : v = pcReg → mid'.live.isconst v = false) :
      SameLow k (mid'.live.mem v)
        ((c.plain.put pcReg 4 (c.plain.reg pcReg + pcOffset)).registers cpu v) := by
    have there : v ∈ (List.finRange 32).filter (needflush · = .tomem) := by
      simp [needflush, low]
    rcases saves v (.inl there) with ⟨flat, stored⟩ | none | ⟨pc, const⟩
    · exact (rep.stored flat.1 stored).mono few
    · omega
    · cases (not_const pc).symm.trans const
  refine ⟨(run_plain run).2, fun v low kept => ?_, ?_, ?_, fun f flags => ?_,
    heap.trans tracks₂.heap⟩
  · obtain ⟨pc, tmp, x, below⟩ := data_register low
    have here := wide below kept
    rw [width, if_neg x] at here
    have value := stored (v := v) (k := 4) (below.trans (by decide)) (by decide)
      (here.trans (known_eq pc tmp).ge) fun same => absurd same pc
    rw [registers_of_ne _ _ tmp] at value
    exact (whole_eq value).trans (Function.update_of_ne pc _ _)
  · have known : backed (learn c.known pcReg 4) { mid₁ with live := s₂ }
        (c.plain.put pcReg 4 (c.plain.reg pcReg + pcOffset)) pcReg = 4 := by
      rw [backed_of_ne _ _ _ (by decide), learn_self, max_eq_left four]
      exact min_eq_left four
    have reg : (c.plain.put pcReg 4 (c.plain.reg pcReg + pcOffset)).registers cpu pcReg =
        c.plain.reg pcReg + pcOffset := by
      rw [registers_of_ne _ _ (by decide), Plain.put_all]
      exact Function.update_self pcReg (c.plain.reg pcReg + pcOffset) c.plain.reg
    split
    next const =>
      have value := rep.values pcReg
      rw [Live.value, RegStatus.value, of_decide_eq_true const, known, reg] at value
      exact whole_eq value
    next not_const =>
      have value := stored (v := pcReg) (k := 4) (by decide) (by decide) known.ge
        fun _ => by simpa using not_const
      rw [reg] at value
      exact whole_eq value
  · have here := wide le_rfl (run_flagx run)
    have value := stored (v := flagx) (k := 1) (by decide) (by decide)
      (here.trans (known_eq (by decide) (by decide)).ge) fun same => absurd same (by decide)
    rw [registers_of_ne _ _ (by decide)] at value
    exact value
  · have known : backed (learn c.known pcReg 4) { mid₁ with live := s₂ }
        (c.plain.put pcReg 4 (c.plain.reg pcReg + pcOffset)) flagtmp = 4 := by
      have some : c.plain.flags.isSome = true := by
        rw [flags]
        rfl
      rw [backed, if_pos ⟨onStack, some⟩, Function.update_self]
    have value := stored (v := flagtmp) (k := 4) le_rfl (by decide) known.ge
      fun same => absurd same (by decide)
    have reg : (c.plain.put pcReg 4 (c.plain.reg pcReg + pcOffset)).registers cpu flagtmp =
        cpu.toWord f := by
      rw [Plain.registers, Function.update_self]
      change c.plain.flags.elim 0 cpu.toWord = _
      rw [flags]
      rfl
    rw [reg] at value
    exact whole_eq value

/-! ### A block on an x86 -/

/-- The carry, the zero flag, the sign and the overflow, where `pushf` has them. -/
def eflags (c z s v : Bool) : BitVec 32 :=
  (BitVec.ofBool c).setWidth 32 ||| (BitVec.ofBool z).setWidth 32 <<< 6 |||
    (BitVec.ofBool s).setWidth 32 <<< 7 ||| (BitVec.ofBool v).setWidth 32 <<< 11

def resultFlags {w : Nat} (c v : Bool) (result : BitVec w) : BitVec 32 :=
  eflags c (result = 0) result.msb v

def x86AluFlags (a : Alu) (w : Nat) (c : Bool) (x y : BitVec w) : BitVec 32 :=
  let result := a.result c x y
  match a with
  | .add | .adc =>
    resultFlags (2 ^ w ≤ x.toNat + y.toNat + c.toNat) (x.msb = y.msb && result.msb ≠ x.msb) result
  | .sub | .sbb =>
    resultFlags (x.toNat < y.toNat + c.toNat) (x.msb ≠ y.msb && result.msb ≠ x.msb) result
  | .and | .or | .xor => resultFlags false false result

/-- The last bit that is moved out. -/
def shiftedOut {w : Nat} (x : BitVec w) (n : Nat) : Shift → Bool
  | .shll => n ≤ w && x.getLsbD (w - n)
  | .shrl => x.getLsbD (n - 1)
  | .shra => (x.sshiftRight (n - 1)).getLsbD 0
  | .rol => (x.rotateLeft n).getLsbD 0
  | .ror => (x.rotateRight n).msb

def x86ShiftFlags (sh : Shift) (w : Nat) (x : BitVec w) (n : Nat) (f : BitVec 32) : BitVec 32 :=
  let result := sh.result x n
  if sh.rotates then (f &&& ~~~1) ||| (BitVec.ofBool (shiftedOut x n sh)).setWidth 32
  else resultFlags (shiftedOut x n sh) (result.msb ≠ x.msb) result

/-- The condition codes of `jcc`, two by two; the parity is not kept. -/
def x86Cond (cc : BitVec 4) (f : BitVec 32) : Bool :=
  let c := f.getLsbD 0
  let z := f.getLsbD 6
  let s := f.getLsbD 7
  let v := f.getLsbD 11
  let holds :=
    match (cc >>> 1).toNat with
    | 0 => v
    | 1 => c
    | 2 => z
    | 3 => c || z
    | 4 => s
    | 5 => false
    | 6 => s ≠ v
    | _ => z || s ≠ v
  holds ≠ cc.getLsbD 0

def x86Cpu : Cpu 16 (BitVec 32) where
  host := x86_64
  shiftReg := 1
  shiftReg_byte _ := rfl
  aluFlags := x86AluFlags
  testFlags _ x y := resultFlags false false (x &&& y)
  shiftFlags := x86ShiftFlags
  mulFlags x y :=
    let overflows := x.toInt * y.toInt ≠ (x * y).toInt
    resultFlags overflows overflows (x * y)
  carry f := f.getLsbD 0
  shift_fresh sh w x n f g fresh := by
    rw [x86ShiftFlags, x86ShiftFlags, if_neg (by simp [fresh]), if_neg (by simp [fresh])]
  cond := x86Cond
  toWord := id
  ofWord := id
  ofWord_toWord _ := rfl

/-- The compiler before `init_comp`. -/
def Middle.garbage : Middle 16 (BitVec 32) where
  live := Jit.garbage 16
  onStack := false
  inFlags := true
  important := false
  needflags := false
  eflags := 0
  heap _ := 0

/-- D0 gets a constant and D1 that of A0 less one, which sets the flags. -/
def smallBlock (d0 d1 a0 : VReg) : List Op :=
  [.movRi .l d0 5, .movRr .l d1 a0, .startNeedflags, .aluRi .sub .l d1 1, .liveFlags,
    .endNeedflags, .freescratch]

/-- What the compiler comes to with the block. -/
def smallBlockEnd (d0 d1 a0 : VReg) : Option (Coupled 16 (BitVec 32)) :=
  exec (guarded (Coupled.step x86Cpu) (Coupled.Allowed x86Cpu))
    (.start x86Cpu .garbage 0x1000 0) (smallBlock d0 d1 a0)

theorem flush_saves_block : ∃ c mid, smallBlockEnd 0 1 8 = some c ∧
    c.middle.flush x86Cpu 2 true = some mid ∧ mid.live.mem 0 = 5 ∧
    mid.live.mem 1 = 0xFFFFFFFF ∧ mid.live.mem flagtmp = 0x81 := by
  have runs : ((smallBlockEnd 0 1 8).bind fun c => c.middle.flush x86Cpu 2 true).isSome = true := by
    decide +kernel
  obtain ⟨mid, both⟩ := Option.isSome_iff_exists.mp runs
  obtain ⟨c, executed, flushed⟩ := Option.bind_eq_some_iff.mp both
  have fair : (smallBlockEnd 0 1 8).map (fun c => (c.plain.needflags,
      decide (c.middle.live.Whole pcReg), c.plain.reg 0, c.plain.reg 1, c.plain.flags)) =
        some (false, true, 5, 0xFFFFFFFF, some 0x81) := by
    decide +kernel
  rw [executed, Option.map_some, Option.some_inj] at fair
  obtain ⟨quiet, whole, first, second, flags⟩ := by simpa only [Prod.mk.injEq] using fair
  obtain ⟨-, registers, -, -, saved, -⟩ := flush_saves rfl (run_of_guarded_exec executed) quiet
    (by simp [smallBlock]) (fun _ => of_decide_eq_true whole) flushed
  refine ⟨c, mid, executed, flushed, ?_, ?_, saved _ flags⟩
  · rw [registers 0 (by decide) (by simp [smallBlock]), first]
  · rw [registers 1 (by decide) (by simp [smallBlock]), second]

end BasiliskII.Jit
