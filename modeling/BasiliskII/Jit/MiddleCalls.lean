import BasiliskII.Jit.MiddleSteps

/-!
# Memory, flags and every call

What is left of the middle layer, and with it every call: whatever it asks for has to be known, and
what it writes is known from then on.
-/
namespace BasiliskII.Jit

open ByteLanes ByteMemory

variable {N : Nat} {F : Type} {cpu : Cpu N F} {locks : Fin N → BitVec 8} {known : VReg → Nat}
  {mid mid' : Middle N F} {p : Plain F} {r d s : VReg} {n m : Fin N} {size : Suffix}

/-! ### Memory -/

theorem writeBytes_congr {k : Nat} {v w : BitVec 32} (same : SameLow k v w) (heap : Memory 32)
    (a : BitVec 32) : writeBytes heap a v k = writeBytes heap a w k := by
  induction k generalizing heap a v w with
  | zero => rfl
  | succ k ih =>
    have first : v.setWidth 8 = w.setWidth 8 := sameLow_iff.mp (same.mono (Nat.le_add_left 1 k))
    have rest : SameLow k (v >>> 8) (w >>> 8) := by
      intro i low
      rw [BitVec.getLsbD_ushiftRight, BitVec.getLsbD_ushiftRight]
      exact same (8 + i) (by omega)
    rw [writeBytes, writeBytes, first, ih rest]

theorem Tracks.store (tracks : Tracks cpu locks known mid p) (a : BitVec 32) {v w : BitVec 32}
    (same : SameLow size.bytes v w) :
    Tracks cpu locks known (mid.store size a v) (p.store size a w) := by
  refine ⟨tracks.represents, tracks.locks, tracks.unknown, tracks.needflags, ?_, tracks.recent,
    tracks.saved⟩
  change writeBytes mid.heap a v size.bytes = writeBytes p.heap a w size.bytes
  rw [tracks.heap, writeBytes_congr same]

theorem Tracks.removeOffset (tracks : Tracks cpu locks known mid p)
    (done : mid.onLive (Live.removeOffset cpu.host d none) = some mid') :
    Tracks cpu locks known mid' p ∧ mid'.live.Unshifted d := by
  obtain ⟨s, removed, rfl⟩ := onLive_some done
  obtain ⟨gentle, unshifted⟩ :=
    removeOffset_gentle (g := .off cpu.host d cpu.shiftReg) rfl rfl removed
  have rep := tracks.represents
  have served := removeOffset_spec rep.inv (fun undef _ => rep.undef d undef) removed
  exact ⟨tracks.onLive (rep.served served gentle.undisturbed) (served.locks.trans tracks.locks),
    unshifted⟩

theorem Tracks.movBrR (tracks : Tracks cpu cpu.host.idle known mid p) (free : Free d)
    (few : 4 ≤ known s) {offset : BitVec 32} (done : mid.movBrR cpu size d s offset = some mid') :
    Tracks cpu cpu.host.idle (learn known d size.bytes) mid'
      (p.load size d (p.reg s + offset)) := by
  rw [Middle.movBrR] at done
  split at done
  next const =>
    rw [whole_eq (tracks.const const few)] at done
    exact tracks.movRm free done
  · obtain ⟨mid₀, settled, done⟩ := Option.bind_eq_some_iff.mp done
    obtain ⟨⟨n, mid₁⟩, read, done⟩ := Option.bind_eq_some_iff.mp done
    obtain ⟨⟨m, mid₂⟩, written, done⟩ := Option.bind_eq_some_iff.mp done
    obtain ⟨mid₃, first, second⟩ := Option.bind_eq_some_iff.mp done
    have before : Tracks cpu cpu.host.idle known mid₀ p ∧
        (size ≠ .l → mid₀.live.Unshifted d) := by
      split at settled
      next whole =>
        cases settled
        exact ⟨tracks, fun narrow => absurd whole narrow⟩
      · obtain ⟨tracks₀, unshifted⟩ := tracks.removeOffset settled
        exact ⟨tracks₀, fun _ => unshifted⟩
    obtain ⟨tracks₀, unshifted⟩ := before
    obtain ⟨s₁, asked₁, rfl⟩ := answering_some read
    obtain ⟨s₂, asked₂, rfl⟩ := answering_some written
    obtain ⟨tracks₁, answers, zero⟩ := tracks₀.read (bytes_none _) le_rfl asked₁
    have inv := tracks₁.represents.inv
    have kept : s₂.regs n = s₁.regs n := by
      refine (writereg_spared inv (locked_on tracks₁.locks) (answers.ready inv fun _ _ => rfl)
        (fun less => answers.settled fun same => zero (.inr ?_)) asked₂).regs
      rw [← same]
      exact unshifted fun whole => by
        rw [whole] at less
        exact absurd less (by decide)
    have address : s₂.regs n + (offset + (s₁.state s).val) = p.reg s + offset := by
      have content := whole_eq (answers.content 4 le_rfl few)
      rw [kept, ← content, BitVec.add_comm offset, BitVec.add_assoc]
    have put := tracks₁.put free.2 written (readBytes mid₀.heap (p.reg s + offset) size.bytes)
    dsimp only at first
    rw [address] at first
    rw [Plain.load, ← tracks₀.heap]
    exact (put.release first).release second

theorem Tracks.movMr (tracks : Tracks cpu locks known mid p) (few : size.bytes ≤ known s)
    {a : BitVec 32} (done : mid.movMr cpu size a s = some mid') :
    Tracks cpu locks known mid' (p.store size a (p.reg s)) := by
  rw [Middle.movMr] at done
  split at done
  next const =>
    cases done
    exact tracks.store a (tracks.const const few)
  · obtain ⟨⟨n, mid₁⟩, read, released⟩ := Option.bind_eq_some_iff.mp done
    obtain ⟨tracks₁, answers, zero⟩ := tracks.readreg size.bytes_le read
    exact (tracks₁.store a (answers.operand zero le_rfl few)).release released

theorem Tracks.movBRegR (tracks : Tracks cpu cpu.host.idle known mid p) (few : 4 ≤ known d)
    (fewer : size.bytes ≤ known s) (apart : d = s → size = .l) {offset : BitVec 32}
    (done : mid.movBRegR cpu size d s offset = some mid') :
    Tracks cpu cpu.host.idle known mid' (p.store size (p.reg d + offset) (p.reg s)) := by
  rw [Middle.movBRegR] at done
  split at done
  next const =>
    rw [whole_eq (tracks.const const few)] at done
    exact tracks.movMr fewer done
  · obtain ⟨⟨n, mid₁⟩, read, done⟩ := Option.bind_eq_some_iff.mp done
    obtain ⟨⟨m, mid₂⟩, again, done⟩ := Option.bind_eq_some_iff.mp done
    obtain ⟨mid₃, first, second⟩ := Option.bind_eq_some_iff.mp done
    obtain ⟨s₁, asked₁, rfl⟩ := answering_some read
    obtain ⟨s₂, asked₂, rfl⟩ := answering_some again
    obtain ⟨tracks₁, answers, zero⟩ := tracks.read (bytes_none _) size.bytes_le asked₁
    obtain ⟨tracks₂, base, -⟩ := tracks₁.read (bytes_none _) le_rfl asked₂
    have inv := tracks₁.represents.inv
    have kept : s₂.regs n = s₁.regs n :=
      (readreg_spared inv (locked_on tracks₁.locks)
        (answers.ready inv fun same _ => by rw [apart same]; rfl)
        (fun can => absurd can (by decide)) asked₂).regs
    have value : SameLow size.bytes (s₂.regs n) (p.reg s) := by
      rw [kept]
      exact answers.operand (zero (.inl rfl)) le_rfl fewer
    have address : s₂.regs m + (offset + (s₂.state d).val) = p.reg d + offset := by
      rw [← whole_eq (base.content 4 le_rfl few), BitVec.add_comm offset, BitVec.add_assoc]
    dsimp only at first
    rw [address] at first
    exact ((tracks₂.store _ value).release first).release second

/-! ### Flags -/

theorem Tracks.forgetAbout (tracks : Tracks cpu locks known mid p) (free : Free r)
    (done : mid.forgetAbout cpu r = some mid') :
    Tracks cpu locks (forget known r) mid' p := by
  obtain ⟨s₂, gone, rfl⟩ := onLive_some done
  obtain ⟨s₁, left, rfl⟩ := Option.map_eq_some_iff.mp gone
  have rep := tracks.represents
  have out : Represents cpu.host (forget (backed known mid p) r) (p.registers cpu) s₁ ∧
      s₁.isinreg r = false ∧ s₁.locks = locks := by
    split at left
    · obtain ⟨rep₁, out, same⟩ := rep.disassociate left
      exact ⟨rep₁, out, same.trans tracks.locks⟩
    next out =>
      cases left
      exact ⟨rep.mono (forget_le _ r), by simpa using out, tracks.locks⟩
  obtain ⟨rep₁, out, same⟩ := out
  have backs : forget (backed known mid p) r = backed (forget known r) mid p := by
    unfold backed
    split
    · exact Function.update_comm (Ne.symm free.2) _ _ _
    · rfl
  refine ⟨backs ▸ rep₁.undefine out free.1 rep.inv.flagx, same, ?_, tracks.needflags, tracks.heap,
    tracks.recent, tracks.saved⟩
  rw [forget_of_ne (Ne.symm free.2)]
  exact tracks.unknown

/-- Whatever is in FLAGTMP, the other registers are as they were. -/
theorem Tracks.elsewhere (tracks : Tracks cpu locks known mid p) (flags : Option F) :
    Represents cpu.host known (Plain.registers cpu { p with flags }) mid.live := by
  have fewer (v : VReg) : known v ≤ backed known mid p v := by
    unfold backed
    split
    · by_cases here : v = flagtmp
      · rw [here, tracks.unknown]
        exact Nat.zero_le _
      · rw [Function.update_of_ne here]
    · exact le_rfl
  refine (tracks.represents.mono fewer).file_congr fun v => ?_
  by_cases here : v = flagtmp
  · rw [here, tracks.unknown]
    exact sameLow_zero _ _
  · rw [registers_of_ne cpu _ here, registers_of_ne cpu _ here]
    exact .refl _ _

theorem Tracks.dropFlags (tracks : Tracks cpu locks known mid p) (important : Bool) :
    Tracks cpu locks known { mid with important } { p with flags := none } := by
  have unbacked : backed known { mid with important } { p with flags := none } = known :=
    if_neg fun on => Bool.noConfusion on.2
  refine ⟨?_, tracks.locks, tracks.unknown, tracks.needflags, tracks.heap, tracks.recent, by simp⟩
  rw [unbacked]
  exact tracks.elsewhere none

theorem Tracks.liveFlags (tracks : Tracks cpu locks known mid p) :
    Tracks cpu locks known mid.liveFlags (Op.interp cpu p .liveFlags) := by
  have unbacked : backed known mid.liveFlags (Op.interp cpu p .liveFlags) = known :=
    if_neg fun on => Bool.noConfusion on.1
  refine ⟨?_, tracks.locks, tracks.unknown, tracks.needflags, tracks.heap, tracks.recent,
    fun f flags => ⟨rfl, fun _ => tracks.recent f flags, .inl rfl⟩⟩
  rw [unbacked]
  exact tracks.elsewhere _

/-- `setcc_m` to the place of FLAGX, which is in no native register. -/
theorem Tracks.setccMem (tracks : Tracks cpu locks known mid p)
    (out : mid.live.isinreg flagx = false) (c : Bool) :
    Tracks cpu locks (learn known flagx 1) (mid.setccMem flagx c)
      (p.put flagx 1 (BitVec.ofBool c)) := by
  have rep := tracks.represents
  have one : min (width flagx) (max (backed known mid p flagx) 1) = 1 := by
    rw [show width flagx = 1 from rfl]
    omega
  have same : SameLow 1
      (splice 1 ((BitVec.ofBool c).setWidth 32) (mid.live.mem flagx))
      (splice 1 ((BitVec.ofBool c).setWidth 32) (p.reg flagx)) :=
    (sameLow_splice le_rfl _ _).trans (sameLow_splice le_rfl _ _).symm
  have written := (rep.mono (forget_le _ flagx)).setMem out rep.flat rep.defined
    (update_flagx rep.inv.flagx (le_refl 1)) same
  refine tracks.assign (by decide) ?_ tracks.locks
  rw [learn, one]
  exact written

theorem Tracks.duplicateCarry (tracks : Tracks cpu locks known mid p) {f : F}
    (flags : p.flags = some f) (done : mid.duplicateCarry cpu = some mid') :
    Tracks cpu locks (learn known flagx 1) mid' (Op.interp cpu p .duplicateCarry) := by
  obtain ⟨mid₁, evicted, done⟩ := Option.bind_eq_some_iff.mp done
  obtain ⟨mid₂, live, rfl⟩ := Option.map_eq_some_iff.mp done
  obtain ⟨s₁, left, rfl⟩ := onLive_some evicted
  obtain ⟨rep, same, out⟩ := tracks.represents.evict left
  have tracks₁ := tracks.onLive rep (same.trans tracks.locks)
  obtain ⟨tracks₂, eflags, stays⟩ := tracks₁.makeFlagsLive live
  have written := tracks₂.setccMem (stays flagx (by decide) out) (cpu.carry mid₂.eflags)
  rw [eflags f flags] at written
  rw [eflags f flags, Op.interp, flags]
  exact written

end BasiliskII.Jit
