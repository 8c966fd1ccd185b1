import BasiliskII.Jit.MiddleStates

/-!
# Calls of the middle layer

Each call does to the compiler's state what it does to the plain machine, as long as what it reads
is known.
-/
namespace BasiliskII.Jit

open ByteLanes

variable {N : Nat} {F : Type} {cpu : Cpu N F} {locks : Fin N → BitVec 8} {known : VReg → Nat}
  {mid mid' : Middle N F} {p : Plain F} {r d s : VReg} {n m : Fin N} {size : Suffix}

/-! ### The parts of a call -/

theorem Suffix.bytes_cases (size : Suffix) : size.bytes = 1 ∨ size.bytes = 2 ∨ size.bytes = 4 := by
  cases size <;> decide

theorem Suffix.bytes_le (size : Suffix) : size.bytes ≤ 4 := by
  cases size <;> decide

theorem bytes_none (host : Host N) : host.Bytes none := fun _ none => by cases none

theorem Tracks.off (tracks : Tracks cpu locks known mid p) (off : ¬ mid.needflags) :
    p.needflags = false := by
  rw [← tracks.needflags]
  simpa using off

theorem Tracks.release (tracks : Tracks cpu (lockOn n locks) known mid p)
    (done : mid.unlock2 n = some mid') : Tracks cpu locks known mid' p := by
  obtain ⟨s, released, rfl⟩ := onLive_some done
  have unlocked := tracks.unlock released
  rwa [lockOff_lockOn] at unlocked

theorem Tracks.releaseFirst (tracks : Tracks cpu (lockOn m (lockOn n locks)) known mid p)
    (done : mid.unlock2 n = some mid') : Tracks cpu (lockOn m locks) known mid' p := by
  obtain ⟨s, released, rfl⟩ := onLive_some done
  have unlocked := tracks.unlock released
  rwa [lockOff_lockOn_comm, lockOff_lockOn] at unlocked

variable {k w : Nat}

/-- What is put into a register of the plain machine is put into the native one. -/
theorem Tracks.put (tracks : Tracks cpu locks known mid p) (target : d ≠ flagtmp)
    (done : mid.writereg cpu d k = some (n, mid')) (result : BitVec w) :
    Tracks cpu (lockOn n locks) (learn known d k) (mid'.put n k result) (p.put d k result) := by
  obtain ⟨s, asked, rfl⟩ := answering_some done
  exact tracks.write target asked (.refl _ _)

theorem Plain.put_self (p : Plain F) (d : VReg) (k : Nat) : p.put d k (p.reg d) = p := by
  have same : splice k ((p.reg d).setWidth 32) (p.reg d) = p.reg d := by
    apply BitVec.eq_of_getLsbD_eq
    intro i _
    rw [splice_bit, BitVec.setWidth_eq, ite_self]
  rw [Plain.put, same, Function.update_eq_self]

theorem Plain.put_all (p : Plain F) (d : VReg) (result : BitVec 32) :
    p.put d 4 result = { p with reg := Function.update p.reg d result } := by
  rw [Plain.put, BitVec.setWidth_eq, splice_all (by decide)]

theorem splice_congr {a b : BitVec 32} (same : SameLow k a b) (c : BitVec 32) :
    splice k a c = splice k b c := by
  apply BitVec.eq_of_getLsbD_eq
  intro i _
  rw [splice_bit, splice_bit]
  split
  next low => exact same i low
  · rfl

theorem Plain.put_congr {a b : BitVec 32} (same : SameLow k a b) (p : Plain F) (d : VReg) :
    p.put d k a = p.put d k b := by
  rw [Plain.put, Plain.put, BitVec.setWidth_eq, BitVec.setWidth_eq, splice_congr same]

theorem sameLow_lowPart (size : Suffix) (v : BitVec 32) :
    SameLow size.bytes ((lowPart size v).setWidth 32) v := by
  intro i low
  have inside : i < 32 := by
    have few := size.bytes_le
    omega
  rw [BitVec.getLsbD_setWidth, lowPart, BitVec.getLsbD_setWidth, decide_eq_true inside,
    decide_eq_true low, Bool.true_and, Bool.true_and]

theorem Plain.put_lowPart (p : Plain F) (d : VReg) (size : Suffix) (v : BitVec 32) :
    p.put d size.bytes (lowPart size v) = p.put d size.bytes v := by
  rw [Plain.put, Plain.put, BitVec.setWidth_eq, splice_congr (sameLow_lowPart size v)]

theorem Tracks.const (tracks : Tracks cpu locks known mid p) (const : mid.live.isconst r = true)
    (few : k ≤ known r) : SameLow k (mid.live.state r).val (p.reg r) := by
  by_cases tmp : r = flagtmp
  · have none : k = 0 := by
      rw [tmp, tracks.unknown] at few
      exact Nat.le_zero.mp few
    rw [none]
    exact sameLow_zero _ _
  · have value := tracks.represents.values r
    rw [Live.value, RegStatus.value, of_decide_eq_true const, backed_of_ne known mid p tmp,
      registers_of_ne cpu p tmp] at value
    exact value.mono few

theorem Tracks.fewer {known' : VReg → Nat} (tracks : Tracks cpu locks known mid p)
    (fewer : ∀ v, known' v ≤ known v) : Tracks cpu locks known' mid p := by
  refine ⟨tracks.represents.mono fun v => ?_, tracks.locks, ?_, tracks.needflags, tracks.heap,
    tracks.recent, tracks.saved⟩
  · unfold backed
    split
    · by_cases here : v = flagtmp
      · subst here
        simp
      · rw [Function.update_of_ne here, Function.update_of_ne here]
        exact fewer v
    · exact fewer v
  · have less := fewer flagtmp
    have none := tracks.unknown
    omega

variable {cc : BitVec 4} {c : Bool}

theorem Tracks.cond (tracks : Tracks cpu locks known mid p) (holds : p.holds cpu cc = some c) :
    cpu.cond cc mid.eflags = c := by
  obtain ⟨f, now, same⟩ := Option.map_eq_some_iff.mp holds
  rw [tracks.recent f now, same]

theorem Tracks.readreg (tracks : Tracks cpu locks known mid p) (few : k ≤ 4)
    (done : mid.readreg cpu r k = some (n, mid')) :
    Tracks cpu (lockOn n locks) known mid' p ∧ Answers known p r k n mid'.live ∧
      (mid'.live.state r).val = 0 := by
  obtain ⟨s, asked, rfl⟩ := answering_some done
  obtain ⟨tracks, answers, zero⟩ := tracks.read (bytes_none _) few asked
  exact ⟨tracks, answers, zero (.inl rfl)⟩

theorem Tracks.rmw (size : Suffix) (tracks : Tracks cpu locks known mid p) (target : d ≠ flagtmp)
    (bytes : k = 1 ∨ k = 2 ∨ k = 4) (done : mid.rmw cpu d k size.bytes = some (n, mid')) :
    (∀ {w w' : Nat} (a : BitVec w) (b : BitVec w'),
      SameLow (min (width d) k) (a.setWidth 32) (b.setWidth 32) →
        Tracks cpu (lockOn n locks) (learn known d k) (mid'.put n k a) (p.put d k b)) ∧
      ∀ j ≤ size.bytes, j ≤ known d → SameLow j (mid'.live.regs n) (p.reg d) := by
  obtain ⟨s, asked, rfl⟩ := answering_some done
  obtain ⟨puts, content⟩ := tracks.modify target bytes size.bytes_le asked
  exact ⟨fun a b same => puts _ _ same, content⟩

/-- `readreg` and `rmw` -/
theorem Tracks.readModify (size : Suffix) (tracks : Tracks cpu cpu.host.idle known mid p)
    (target : d ≠ flagtmp)
    {mid₁ mid₂ : Middle N F} (read : mid.readreg cpu r size.bytes = some (n, mid₁))
    (modified : mid₁.rmw cpu d size.bytes size.bytes = some (m, mid₂)) :
    (∀ {w w' : Nat} (a : BitVec w) (b : BitVec w'),
      SameLow (min (width d) size.bytes) (a.setWidth 32) (b.setWidth 32) →
        Tracks cpu (lockOn m (lockOn n cpu.host.idle)) (learn known d size.bytes)
          (mid₂.put m size.bytes a) (p.put d size.bytes b)) ∧
      (∀ i ≤ size.bytes, i ≤ known r → SameLow i (mid₂.live.regs n) (p.reg r)) ∧
      (∀ i ≤ size.bytes, i ≤ known d → SameLow i (mid₂.live.regs m) (p.reg d)) ∧
      mid₂.inFlags = mid.inFlags ∧ mid₂.eflags = mid.eflags := by
  obtain ⟨s₁, asked₁, rfl⟩ := answering_some read
  obtain ⟨tracks₁, answers, zero⟩ := tracks.read (bytes_none _) size.bytes_le asked₁
  obtain ⟨s₂, asked₂, rfl⟩ := answering_some modified
  have inv := tracks₁.represents.inv
  have kept : s₂.regs n = s₁.regs n :=
    (rmw_spared inv (locked_on tracks₁.locks) (answers.ready inv fun _ => id)
      (answers.settled fun _ => zero (.inl rfl)) asked₂).regs
  obtain ⟨puts, content⟩ := tracks₁.modify target size.bytes_cases size.bytes_le asked₂
  refine ⟨fun a b same => puts _ _ same, fun i less known' => ?_, content, rfl, rfl⟩
  rw [kept]
  exact answers.operand (zero (.inl rfl)) less known'

theorem Tracks.setAll (tracks : Tracks cpu locks known mid p) (off : mid.inFlags = false) (f : F) :
    Tracks cpu locks known { mid with eflags := f } { p with recent := some f } :=
  tracks.setFlags off fun _ => Option.some.inj

/-- The flags are as good as unknown where nobody needs them. -/
theorem Tracks.settled {recent : Option F} (tracks : Tracks cpu locks known mid { p with recent }) :
    Tracks cpu locks known mid (p.settle recent) := by
  rw [Plain.settle]
  split
  · exact tracks
  · exact tracks.forgetFlags

/-- A native register that is about to be changed, with the flags that were clobbered. -/
structure Changing (cpu : Cpu N F) (locks : Fin N → BitVec 8) (known : VReg → Nat)
    (mid : Middle N F) (p : Plain F) (d : VReg) (size : Suffix) (n : Fin N) : Prop where
  off : mid.inFlags = false
  recent : ∀ f, p.recent = some f → mid.eflags = f
  puts : ∀ b : BitVec (8 * size.bytes), Tracks cpu locks known (mid.put n size.bytes b)
    (p.put d size.bytes b)
  content : SameLow size.bytes (mid.live.regs n) (p.reg d)

theorem Changing.operand (changing : Changing cpu locks known mid p d size n) :
    mid.operand n size = p.low d size :=
  lowPart_congr changing.content

variable {a : Alu}

/-- A clobbering instruction does to the native register what it does to the virtual one. -/
theorem Changing.alu (changing : Changing cpu locks known mid p d size n)
    (carry : a.usesCarry = true → (p.carryIn cpu).isSome = true) (y : BitVec (8 * size.bytes)) :
    Tracks cpu locks known (mid.alu cpu a size n y) (p.alu cpu a size d y) := by
  have carries : (a.usesCarry && cpu.carry mid.eflags) =
      (a.usesCarry && (p.carryIn cpu).getD false) := by
    cases uses : a.usesCarry with
    | false => rfl
    | true =>
      obtain ⟨c, known⟩ := Option.isSome_iff_exists.mp (carry uses)
      obtain ⟨f, now, same⟩ := Option.map_eq_some_iff.mp known
      rw [changing.recent f now, known, same]
      rfl
  rw [Middle.alu, changing.operand, carries]
  exact ((changing.puts _).setAll changing.off _).settled

/-- `clobber_flags`, `rmw`, an instruction and `unlock2` -/
theorem Tracks.emit (size : Suffix) (tracks : Tracks cpu locks known mid p) (target : d ≠ flagtmp)
    (few : size.bytes ≤ known d) {f : Fin N → Middle N F → Middle N F} {p' : Plain F}
    (emits : ∀ {n mid}, Changing cpu (lockOn n locks) (learn known d size.bytes) mid p d size n →
      Tracks cpu (lockOn n locks) (learn known d size.bytes) (f n mid) p')
    (done : (mid.clobberFlags cpu).bind (fun m =>
      (m.rmw cpu d size.bytes size.bytes).bind fun (nd, m) => (f nd m).unlock2 nd) = some mid') :
    Tracks cpu locks (learn known d size.bytes) mid' p' := by
  obtain ⟨mid₁, clobbered, done⟩ := Option.bind_eq_some_iff.mp done
  obtain ⟨⟨n, mid₂⟩, modified, released⟩ := Option.bind_eq_some_iff.mp done
  obtain ⟨tracks₁, off⟩ := tracks.clobberFlags clobbered
  obtain ⟨puts, content⟩ := tracks₁.rmw size target size.bytes_cases modified
  obtain ⟨s, asked, rfl⟩ := answering_some modified
  have changing : Changing cpu _ _ { mid₁ with live := s } p d size n :=
    ⟨off, tracks₁.recent, fun b => puts b b (.refl _ _), content _ le_rfl few⟩
  exact (emits changing).release released

/-! ### Instructions with one register -/

/-- `Free d`: it is not the compiler's own. -/
def Free (d : VReg) : Prop := d ≠ flagx ∧ d ≠ flagtmp

variable {i : BitVec 32}

theorem Tracks.movLRi (tracks : Tracks cpu locks known mid p) (free : Free d)
    (done : mid.movLRi cpu d i = some mid') :
    Tracks cpu locks (learn known d 4) mid' (p.put d 4 i) := by
  obtain ⟨s, called, rfl⟩ := onLive_some done
  obtain ⟨rep, same⟩ := tracks.represents.setConst free.1 (.refl _ i) called
  rw [Plain.put_all]
  exact tracks.assign free.2 rep (same.trans tracks.locks)

theorem Tracks.movRi (tracks : Tracks cpu locks known mid p) (free : Free d)
    (done : mid.movRi cpu size d i = some mid') :
    Tracks cpu locks (learn known d size.bytes) mid' (p.put d size.bytes i) := by
  cases size with
  | l => exact tracks.movLRi free done
  | b | w =>
    obtain ⟨⟨n, mid₁⟩, written, released⟩ := Option.bind_eq_some_iff.mp done
    exact (tracks.put free.2 written i).release released

theorem Tracks.movRm (tracks : Tracks cpu locks known mid p) (free : Free d) {a : BitVec 32}
    (done : mid.movRm cpu size d a = some mid') :
    Tracks cpu locks (learn known d size.bytes) mid' (p.load size d a) := by
  obtain ⟨⟨n, mid₁⟩, written, released⟩ := Option.bind_eq_some_iff.mp done
  obtain ⟨s, asked, rfl⟩ := answering_some written
  have put := tracks.put free.2 written (readBytes mid.heap a size.bytes)
  rw [Plain.load, ← tracks.heap]
  exact put.release released

theorem Tracks.setcc (tracks : Tracks cpu locks known mid p) (target : d ≠ flagtmp)
    (holds : p.holds cpu cc = some c) (done : mid.setcc cpu d cc = some mid') :
    Tracks cpu locks (learn known d 1) mid' (p.put d 1 (BitVec.ofBool c)) := by
  obtain ⟨⟨n, mid₁⟩, written, released⟩ := Option.bind_eq_some_iff.mp done
  obtain ⟨s, asked, rfl⟩ := answering_some written
  have put := (tracks.put target written (BitVec.ofBool (cpu.cond cc mid.eflags))).release released
  rwa [tracks.cond holds] at put

/-! ### Instructions with two registers -/

/-- `readreg`, `writereg`, an instruction and `unlock2` -/
theorem Tracks.readWrite (tracks : Tracks cpu cpu.host.idle known mid p) (target : d ≠ flagtmp)
    {mid₁ mid₂ : Middle N F} {j : Nat} (few : j ≤ 4) (asked : d = r → k = 4 → j = 4)
    (read : mid.readreg cpu r j = some (n, mid₁)) (written : mid₁.writereg cpu d k = some (m, mid₂)) :
    (∀ {w : Nat} (result : BitVec w),
      ((mid₂.put m k result).unlock2 m).bind (fun mid => mid.unlock2 n) = some mid' →
        Tracks cpu cpu.host.idle (learn known d k) mid' (p.put d k result)) ∧
      ∀ i ≤ j, i ≤ known r → SameLow i (mid₂.live.regs n) (p.reg r) := by
  obtain ⟨tracks₁, answers, zero⟩ := tracks.readreg few read
  have inv := tracks₁.represents.inv
  obtain ⟨s₂, asked₂, rfl⟩ := answering_some written
  have kept : s₂.regs n = mid₁.live.regs n :=
    (writereg_spared inv (locked_on tracks₁.locks) (answers.ready inv asked)
      (fun _ => answers.settled fun _ => zero) asked₂).regs
  refine ⟨fun result done => ?_, fun i less known' => ?_⟩
  · obtain ⟨mid₃, first, second⟩ := Option.bind_eq_some_iff.mp done
    exact ((tracks₁.put target written result).release first).release second
  · rw [kept]
    exact answers.operand zero less known'

theorem Tracks.movLRr (tracks : Tracks cpu locks known mid p) (free : Free d) (other : d ≠ s)
    (few : 4 ≤ known s) (done : mid.onLive (Live.movLRr cpu.host d s) = some mid') :
    Tracks cpu locks (learn known d 4) mid' (p.put d 4 (p.reg s)) := by
  obtain ⟨s₁, called, rfl⟩ := onLive_some done
  have apart : s ≠ flagtmp := by
    rintro rfl
    rw [tracks.unknown] at few
    exact absurd few (by decide)
  have few' : min (width d) (max (backed known mid p d) 4) ≤ backed known mid p s := by
    have four := width_le d
    rw [backed_of_ne known mid p apart]
    omega
  have four : min (width d) (max (backed known mid p d) 4) ≤ 4 :=
    (min_le_left _ _).trans (width_le d)
  obtain ⟨rep, same⟩ := tracks.represents.movLRr other free.1 few' four called
  rw [registers_of_ne cpu p apart] at rep
  rw [Plain.put_all]
  exact tracks.assign free.2 rep (same.trans tracks.locks)

/-- The low bytes of a register are copied. -/
theorem Tracks.copy (tracks : Tracks cpu cpu.host.idle known mid p) (free : Free d)
    (other : d ≠ s) (few : size.bytes ≤ known s)
    (done : (if mid.live.isconst s then
        mid.movRi cpu size d (extend false (lowPart size (mid.live.state s).val))
      else
        (mid.readreg cpu s size.bytes).bind fun (ns, m) =>
        (m.writereg cpu d size.bytes).bind fun (nd, m) =>
        ((m.put nd size.bytes (m.operand ns size)).unlock2 nd).bind fun m => m.unlock2 ns) =
      some mid') :
    Tracks cpu cpu.host.idle (learn known d size.bytes) mid' (p.put d size.bytes (p.reg s)) := by
  split at done
  next const =>
    have moved := tracks.movRi free done
    have value : SameLow size.bytes (extend false (lowPart size (mid.live.state s).val))
        (p.reg s) :=
      (sameLow_lowPart size _).trans (tracks.const const few)
    rwa [Plain.put_congr value] at moved
  · obtain ⟨⟨ns, mid₁⟩, read, done⟩ := Option.bind_eq_some_iff.mp done
    obtain ⟨⟨nd, mid₂⟩, written, done⟩ := Option.bind_eq_some_iff.mp done
    obtain ⟨puts, content⟩ := tracks.readWrite free.2 size.bytes_le
      (fun same => absurd same other) read written
    have moved := puts _ done
    rwa [Middle.operand, Plain.put_lowPart, Plain.put_congr (content _ le_rfl few)] at moved

theorem Tracks.movRr (tracks : Tracks cpu cpu.host.idle known mid p) (free : Free d)
    (few : size.bytes ≤ known s) (done : mid.movRr cpu size d s = some mid') :
    Tracks cpu cpu.host.idle (learn known d size.bytes) mid' (p.put d size.bytes (p.reg s)) := by
  by_cases same : d = s
  · subst same
    have unchanged : mid' = mid := by
      cases size with
      | l => simpa [Middle.movRr, Middle.onLive, Live.movLRr] using done.symm
      | b | w => simpa [Middle.movRr] using done.symm
    rw [Plain.put_self, unchanged]
    exact tracks.fewer (learn_le (min_le_of_right_le few))
  · cases size with
    | l => exact tracks.movLRr free same few done
    | b | w =>
      rw [Middle.movRr, if_neg same] at done
      exact tracks.copy free same few done

/-! ### Arithmetic -/

/-- A register that is in a native one has all of its bytes there, so that it can take an offset. -/
def Live.Whole (s : Live N) (r : VReg) : Prop :=
  s.isinreg r = true → (s.state r).validsize = 4

theorem Undisturbed.wholeReg {s s' : Live N} (undisturbed : Undisturbed d s s') (other : r ≠ d)
    (whole : s.Whole r) : s'.Whole r := by
  intro inreg
  exact (undisturbed.others r other).whole (fun status => whole (isinreg_iff.mpr status))
    (isinreg_iff.mp inreg)

/-- The value of a register changes while nothing is emitted. -/
theorem Tracks.revalue (tracks : Tracks cpu locks known mid p) (target : d ≠ flagtmp)
    (few : k ≤ known d) {s : Live N} {b : BitVec 32}
    (rep : Represents cpu.host (backed known mid p) (Function.update (p.registers cpu) d b) s)
    (same : s.locks = mid.live.locks) :
    Tracks cpu locks (learn known d k) { mid with live := s }
      { p with reg := Function.update p.reg d b } := by
  have less : min (width d) k ≤ backed known mid p d := by
    rw [backed_of_ne known mid p target]
    exact min_le_of_right_le few
  exact tracks.assign target (rep.mono (learn_le less)) (same.trans tracks.locks)

theorem Tracks.constant (tracks : Tracks cpu locks known mid p) (free : Free d)
    (few : 4 ≤ known d) (const : mid.live.isconst d = true) (val : BitVec 32 → BitVec 32) :
    Tracks cpu locks (learn known d 4)
      { mid with live := mid.live.modify d fun st => { st with val := val st.val } }
      (p.put d 4 (val (p.reg d))) := by
  have value : (mid.live.state d).val = p.reg d := by
    apply BitVec.eq_of_getLsbD_eq
    intro i inside
    exact tracks.const const few i (by omega)
  have rep := tracks.represents.constant const free.1 (.refl _ (val (p.reg d)))
  have same : (mid.live.modify d fun st => { st with val := val st.val }) =
      mid.live.modify d fun st => { st with val := val (p.reg d) } := by
    simp only [Live.modify, value]
  rw [same, Plain.put_all]
  exact tracks.revalue free.2 few rep rfl

variable {offset : BitVec 32}

theorem Tracks.addOffset (tracks : Tracks cpu locks known mid p) (free : Free d) (few : 4 ≤ known d)
    (not_const : mid.live.isconst d = false) (whole : mid.live.Whole d) :
    Tracks cpu locks (learn known d 4) { mid with live := mid.live.addOffset d offset }
      (p.put d 4 (p.reg d + offset)) := by
  have rep := tracks.represents.addOffset free.1 not_const whole
    (.refl _ ((p.registers cpu) d + offset))
  rw [registers_of_ne cpu p free.2] at rep
  rw [Plain.put_all]
  exact tracks.revalue free.2 few rep rfl

theorem Plain.settle_off (off : p.needflags = false) (flags : Option F) :
    p.settle flags = { p with recent := none } := by
  rw [Plain.settle, if_neg (by simp [off])]

theorem Plain.settle_put_off (off : p.needflags = false) (k : Nat) (result : BitVec w)
    (flags : Option F) :
    (p.put d k result).settle flags = { p.put d k result with recent := none } := by
  have off : (p.put d k result).needflags = false := off
  exact Plain.settle_off off flags

theorem lowPart_l (v : BitVec 32) : lowPart .l v = v := BitVec.setWidth_eq v

theorem Plain.alu_l (uses : a.usesCarry = false) (p : Plain F) (d : VReg) (y : BitVec 32) :
    p.alu cpu a .l d y = (p.put d 4 (a.result false (p.reg d) y)).settle
      (some (cpu.aluFlags a 32 false (p.reg d) y)) := by
  have low : p.low d .l = p.reg d := lowPart_l (p.reg d)
  change (p.put d 4 (a.result (a.usesCarry && _) (p.low d .l) y)).settle
    (some (cpu.aluFlags a _ (a.usesCarry && _) (p.low d .l) y)) = _
  rw [low, uses]
  rfl

theorem Tracks.quiet {locks' : Fin N → BitVec 8} {known' : VReg → Nat} (uses : a.usesCarry = false)
    (off : p.needflags = false) {y : BitVec 32}
    (tracks : Tracks cpu locks' known' mid' (p.put d 4 (a.result false (p.reg d) y))) :
    Tracks cpu locks' known' mid' (p.alu cpu a .l d y) := by
  rw [Plain.alu_l uses, Plain.settle_put_off off]
  exact tracks.forgetFlags

theorem Tracks.addLRi (tracks : Tracks cpu locks known mid p) (free : Free d) (few : 4 ≤ known d)
    (uses : a.usesCarry = false) (whole : p.needflags = false → mid.live.Whole d)
    (zero : i = 0 → offset = 0) (result : ∀ x : BitVec 32, a.result false x i = x + offset)
    (done : mid.addLRi cpu a d i offset = some mid') :
    Tracks cpu locks (learn known d 4) mid' (p.alu cpu a .l d i) := by
  have needed := tracks.needflags
  rw [Middle.addLRi] at done
  cases need : mid.needflags with
  | true =>
    rw [if_neg (by simp [need]), if_neg (by simp [need]), if_neg (by simp [need])] at done
    exact tracks.emit .l free.2 few
      (fun changing => changing.alu (absurd · (by simp [uses])) _) done
  | false =>
    have off : p.needflags = false := needed.symm.trans need
    refine Tracks.quiet uses off ?_
    rw [result]
    split at done
    next none =>
      cases done
      rw [zero none.1, show p.reg d + 0 = p.reg d from BitVec.add_zero _, Plain.put_self]
      exact tracks.fewer (learn_le (min_le_of_right_le few))
    · split at done
      next const =>
        cases done
        exact tracks.constant free few const.1 (· + offset)
      next not_const =>
        rw [if_pos (by simp [need])] at done
        cases done
        have not_const : mid.live.isconst d = false := by
          simpa [need] using not_const
        exact tracks.addOffset free few not_const (whole off)

theorem Tracks.aluRi (tracks : Tracks cpu locks known mid p) (free : Free d)
    (few : size.bytes ≤ known d) (sum : a = .add ∨ a = .sub)
    (whole : size = .l → p.needflags = false → mid.live.Whole d)
    (done : mid.aluRi cpu a size d i = some mid') :
    Tracks cpu locks (learn known d size.bytes) mid' (p.alu cpu a size d (lowPart size i)) := by
  have uses : a.usesCarry = false := by
    rcases sum with rfl | rfl <;> rfl
  have narrow (done : mid.addRi cpu a size d i = some mid') :
      Tracks cpu locks (learn known d size.bytes) mid' (p.alu cpu a size d (lowPart size i)) := by
    rw [Middle.addRi] at done
    split at done
    next none =>
      cases done
      have off := tracks.off none.2
      have unchanged : p.put d size.bytes (a.result false (p.low d size) (lowPart size i)) = p := by
        have zero : lowPart size i = 0 := by
          rw [none.1]
          exact BitVec.setWidth_zero _ _
        have result : a.result false (p.low d size) (lowPart size i) = p.low d size := by
          rw [zero]
          rcases sum with rfl | rfl
          · exact BitVec.add_zero _
          · exact BitVec.sub_zero _
        rw [result, Plain.low, Plain.put_lowPart, Plain.put_self]
      rw [Plain.alu, uses, Bool.false_and, unchanged, Plain.settle_off off]
      exact (tracks.fewer (learn_le (min_le_of_right_le few))).forgetFlags
    · exact tracks.emit size free.2 few
        (fun changing => changing.alu (absurd · (by simp [uses])) _) done
  cases size with
  | b | w => exact narrow (by rcases sum with rfl | rfl <;> exact done)
  | l =>
    rw [lowPart_l]
    rcases sum with rfl | rfl
    · exact tracks.addLRi free few rfl (whole rfl) id (fun _ => rfl) done
    · exact tracks.addLRi free few rfl (whole rfl) (fun zero => by rw [zero]; rfl)
        (fun x => BitVec.sub_eq_add_neg x i) done

theorem Tracks.logicLRi (tracks : Tracks cpu locks known mid p) (free : Free d) (few : 4 ≤ known d)
    (uses : a.usesCarry = false) (done : mid.logicLRi cpu a d i = some mid') :
    Tracks cpu locks (learn known d 4) mid' (p.alu cpu a .l d i) := by
  rw [Middle.logicLRi] at done
  split at done
  next const =>
    cases done
    have off := tracks.off const.2
    exact Tracks.quiet uses off (tracks.constant free few const.1 fun x => a.result false x i)
  · exact tracks.emit .l free.2 few
      (fun changing => changing.alu (absurd · (by simp [uses])) _) done

/-- `add_l`, `and_w`, `adc_b` and so on, with what is emitted -/
theorem Tracks.aluEmit (tracks : Tracks cpu cpu.host.idle known mid p) (free : Free d)
    (few : size.bytes ≤ known d) (fewer : size.bytes ≤ known s)
    (carry : a.usesCarry = true → (p.carryIn cpu).isSome = true)
    (done : mid.aluEmit cpu a size d s = some mid') :
    Tracks cpu cpu.host.idle (learn known d size.bytes) mid'
      (p.alu cpu a size d (p.low s size)) := by
  obtain ⟨mid₁, clobbered, done⟩ := Option.bind_eq_some_iff.mp done
  obtain ⟨⟨n, mid₂⟩, read, done⟩ := Option.bind_eq_some_iff.mp done
  obtain ⟨⟨m, mid₃⟩, modified, done⟩ := Option.bind_eq_some_iff.mp done
  obtain ⟨mid₄, first, second⟩ := Option.bind_eq_some_iff.mp done
  obtain ⟨tracks₁, off⟩ := tracks.clobberFlags clobbered
  obtain ⟨puts, source, target, inFlags, eflags⟩ := tracks₁.readModify size free.2 read modified
  have operand : mid₃.operand n size = p.low s size := lowPart_congr (source _ le_rfl fewer)
  have changing : Changing cpu _ _ mid₃ p d size m := ⟨inFlags.trans off,
    fun f now => eflags.trans (tracks₁.recent f now), fun b => puts b b (.refl _ _),
    target _ le_rfl few⟩
  rw [operand] at first
  exact ((changing.alu carry _).release first).release second

theorem Tracks.aluRr (tracks : Tracks cpu cpu.host.idle known mid p) (free : Free d)
    (few : size.bytes ≤ known d) (fewer : size.bytes ≤ known s)
    (carry : a.usesCarry = true → (p.carryIn cpu).isSome = true)
    (whole : a = .add ∨ a = .sub → size = .l → mid.live.isconst s = true → p.needflags = false →
      mid.live.Whole d) (done : mid.aluRr cpu a size d s = some mid') :
    Tracks cpu cpu.host.idle (learn known d size.bytes) mid'
      (p.alu cpu a size d (p.low s size)) := by
  rw [Middle.aluRr] at done
  split at done
  next sum =>
    -- The constant is what is known of the source.
    have value : lowPart size (extend false (lowPart size (mid.live.state s).val)) =
        p.low s size :=
      lowPart_congr ((sameLow_lowPart size _).trans (tracks.const sum.2 fewer))
    rw [← value]
    exact tracks.aluRi free few sum.1 (fun long off => whole sum.1 long sum.2 off) done
  · split at done
    next both =>
      obtain ⟨rfl, rfl, dest, source, off⟩ := both
      cases done
      have off := tracks.off off
      have value : p.low s .l = (mid.live.state s).val := by
        rw [Plain.low, lowPart_l]
        apply BitVec.eq_of_getLsbD_eq
        intro i inside
        exact (tracks.const source (k := 4) fewer i (by omega)).symm
      rw [value]
      exact Tracks.quiet rfl off (tracks.constant free few dest (· ||| (mid.live.state s).val))
    · exact tracks.aluEmit free few fewer carry done

theorem whole_eq {a b : BitVec 32} (same : SameLow 4 a b) : a = b :=
  BitVec.eq_of_getLsbD_eq fun i inside => same i (by omega)

theorem Tracks.imul3232 (tracks : Tracks cpu cpu.host.idle known mid p) (free : Free d)
    (few : 4 ≤ known d) (fewer : 4 ≤ known s) (done : mid.imul3232 cpu d s = some mid') :
    Tracks cpu cpu.host.idle (learn known d 4) mid'
      { p.put d 4 (p.reg d * p.reg s) with recent := none } := by
  obtain ⟨mid₁, clobbered, done⟩ := Option.bind_eq_some_iff.mp done
  obtain ⟨⟨n, mid₂⟩, read, done⟩ := Option.bind_eq_some_iff.mp done
  obtain ⟨⟨m, mid₃⟩, modified, done⟩ := Option.bind_eq_some_iff.mp done
  obtain ⟨mid₄, first, second⟩ := Option.bind_eq_some_iff.mp done
  obtain ⟨tracks₁, off⟩ := tracks.clobberFlags clobbered
  obtain ⟨puts, source, target, inFlags, -⟩ :=
    tracks₁.readModify .l free.2 read modified
  have x : mid₃.live.regs m = p.reg d := whole_eq (target 4 le_rfl few)
  have y : mid₃.live.regs n = p.reg s := whole_eq (source 4 le_rfl fewer)
  dsimp only at first
  rw [x, y] at first
  have emitted := puts (p.reg d * p.reg s) _ (.refl _ _)
  exact ((emitted.setAll (inFlags.trans off) _).forgetFlags.releaseFirst first).release second

/-- `readreg` twice -/
theorem Tracks.readTwice (tracks : Tracks cpu cpu.host.idle known mid p) {j : Nat} (few : j ≤ 4)
    (few' : k ≤ 4) (asked : s = r → k = 4 → j = 4) {mid₁ mid₂ : Middle N F}
    (read : mid.readreg cpu r j = some (n, mid₁)) (again : mid₁.readreg cpu s k = some (m, mid₂)) :
    Tracks cpu (lockOn m (lockOn n cpu.host.idle)) known mid₂ p ∧
      (∀ i ≤ j, i ≤ known r → SameLow i (mid₂.live.regs n) (p.reg r)) ∧
      (∀ i ≤ k, i ≤ known s → SameLow i (mid₂.live.regs m) (p.reg s)) ∧
      mid₂.inFlags = mid.inFlags := by
  obtain ⟨s₁, asked₁, rfl⟩ := answering_some read
  obtain ⟨tracks₁, answers, zero⟩ := tracks.read (bytes_none _) few asked₁
  obtain ⟨s₂, asked₂, rfl⟩ := answering_some again
  obtain ⟨tracks₂, answers₂, zero₂⟩ := tracks₁.read (bytes_none _) few' asked₂
  have inv := tracks₁.represents.inv
  have kept : s₂.regs n = s₁.regs n :=
    (readreg_spared inv (locked_on tracks₁.locks) (answers.ready inv asked)
      (fun _ => answers.settled fun _ => zero (.inl rfl)) asked₂).regs
  refine ⟨tracks₂, fun i less known' => ?_, fun i less known' =>
    answers₂.operand (zero₂ (.inl rfl)) less known', rfl⟩
  rw [kept]
  exact answers.operand (zero (.inl rfl)) less known'

theorem Tracks.cmpRr (tracks : Tracks cpu cpu.host.idle known mid p)
    (few : size.bytes ≤ known d) (fewer : size.bytes ≤ known s)
    (done : mid.cmpRr cpu size d s = some mid') :
    Tracks cpu cpu.host.idle known mid'
      { p with recent := some (cpu.aluFlags .sub _ false (p.low d size) (p.low s size)) } := by
  obtain ⟨mid₁, clobbered, done⟩ := Option.bind_eq_some_iff.mp done
  obtain ⟨⟨n, mid₂⟩, read, done⟩ := Option.bind_eq_some_iff.mp done
  obtain ⟨⟨m, mid₃⟩, again, done⟩ := Option.bind_eq_some_iff.mp done
  obtain ⟨mid₄, first, second⟩ := Option.bind_eq_some_iff.mp done
  obtain ⟨tracks₁, off⟩ := tracks.clobberFlags clobbered
  obtain ⟨tracks₃, source, target, inFlags⟩ :=
    tracks₁.readTwice size.bytes_le size.bytes_le (fun _ => id) read again
  have x : mid₃.operand m size = p.low d size := lowPart_congr (target _ le_rfl few)
  have y : mid₃.operand n size = p.low s size := lowPart_congr (source _ le_rfl fewer)
  rw [x, y] at first
  exact ((tracks₃.setAll (inFlags.trans off) _).release first).release second

theorem Tracks.testRr (tracks : Tracks cpu cpu.host.idle known mid p)
    (few : size.bytes ≤ known d) (fewer : size.bytes ≤ known s)
    (done : mid.testRr cpu size d s = some mid') :
    Tracks cpu cpu.host.idle known mid'
      { p with recent := some (cpu.testFlags _ (p.low d size) (p.low s size)) } := by
  obtain ⟨mid₁, clobbered, done⟩ := Option.bind_eq_some_iff.mp done
  obtain ⟨⟨n, mid₂⟩, read, done⟩ := Option.bind_eq_some_iff.mp done
  obtain ⟨⟨m, mid₃⟩, again, done⟩ := Option.bind_eq_some_iff.mp done
  obtain ⟨mid₄, first, second⟩ := Option.bind_eq_some_iff.mp done
  obtain ⟨tracks₁, off⟩ := tracks.clobberFlags clobbered
  obtain ⟨tracks₃, target, source, inFlags⟩ :=
    tracks₁.readTwice size.bytes_le size.bytes_le (fun _ => id) read again
  have x : mid₃.operand n size = p.low d size := lowPart_congr (target _ le_rfl few)
  have y : mid₃.operand m size = p.low s size := lowPart_congr (source _ le_rfl fewer)
  rw [x, y] at first
  exact ((tracks₃.setAll (inFlags.trans off) _).releaseFirst first).release second

/-- `clobber_flags`, `readreg`, an instruction that sets the flags and `unlock2` -/
theorem Tracks.compareRi (tracks : Tracks cpu locks known mid p) (few : 4 ≤ known r)
    (flags : BitVec 32 → F)
    (done : (mid.clobberFlags cpu).bind (fun m =>
      (m.readreg cpu r 4).bind fun (n, m) =>
        ({ m with eflags := flags (m.live.regs n) } : Middle N F).unlock2 n) = some mid') :
    Tracks cpu locks known mid' { p with recent := some (flags (p.reg r)) } := by
  obtain ⟨mid₁, clobbered, done⟩ := Option.bind_eq_some_iff.mp done
  obtain ⟨⟨n, mid₂⟩, read, released⟩ := Option.bind_eq_some_iff.mp done
  obtain ⟨tracks₁, off⟩ := tracks.clobberFlags clobbered
  obtain ⟨s, asked, rfl⟩ := answering_some read
  obtain ⟨tracks₂, answers, zero⟩ := tracks₁.readreg le_rfl read
  have x : s.regs n = p.reg r := whole_eq (answers.operand zero le_rfl few)
  dsimp only at released
  rw [x] at released
  exact (tracks₂.setAll off _).release released

/-- `cmov_b_rr`, `cmov_w_rr` and `cmov_l_rr`. Of FLAGX, only the lowest byte is asked for. -/
theorem Tracks.cmovRr (tracks : Tracks cpu cpu.host.idle known mid p) (target : d ≠ flagtmp)
    (few : min (width d) size.bytes ≤ known d) (fewer : min (width d) size.bytes ≤ known s)
    (holds : p.holds cpu cc = some c) (done : mid.cmovRr cpu size d s cc = some mid') :
    Tracks cpu cpu.host.idle (learn known d size.bytes) mid'
      (p.put d size.bytes (p.reg (if c then s else d))) := by
  rw [Middle.cmovRr] at done
  split at done
  next same =>
    subst same
    cases done
    rw [ite_self, Plain.put_self]
    exact tracks.fewer (learn_le few)
  · obtain ⟨⟨n, mid₁⟩, read, done⟩ := Option.bind_eq_some_iff.mp done
    obtain ⟨⟨m, mid₂⟩, modified, done⟩ := Option.bind_eq_some_iff.mp done
    obtain ⟨mid₃, first, second⟩ := Option.bind_eq_some_iff.mp done
    obtain ⟨puts, source, dest, -, eflags⟩ := tracks.readModify size target read modified
    have cond : cpu.cond cc mid₂.eflags = c := by rw [eflags, tracks.cond holds]
    have least : min (width d) size.bytes ≤ size.bytes := min_le_right _ _
    have moved : SameLow (min (width d) size.bytes)
        ((if c then mid₂.operand n size else mid₂.operand m size).setWidth 32)
        (p.reg (if c then s else d)) := by
      cases c with
      | true => exact ((sameLow_lowPart size _).mono least).trans (source _ least fewer)
      | false => exact ((sameLow_lowPart size _).mono least).trans (dest _ least few)
    rw [cond] at first
    exact ((puts _ _ (by rwa [BitVec.setWidth_eq (p.reg _)])).releaseFirst first).release second

theorem Tracks.extendRr (tracks : Tracks cpu cpu.host.idle known mid p) (free : Free d)
    (few : size.bytes ≤ known s) {signed : Bool}
    (done : mid.extendRr cpu signed size d s = some mid') :
    Tracks cpu cpu.host.idle (learn known d 4) mid'
      (p.put d 4 (extend signed (p.low s size))) := by
  rw [Middle.extendRr] at done
  split at done
  next const =>
    have value : lowPart size (mid.live.state s).val = p.low s size :=
      lowPart_congr (tracks.const const few)
    rw [value] at done
    exact tracks.movLRi free done
  · split at done
    next same =>
      subst same
      obtain ⟨⟨n, mid₁⟩, modified, released⟩ := Option.bind_eq_some_iff.mp done
      obtain ⟨puts, content⟩ := tracks.rmw size free.2 (.inr (.inr rfl)) modified
      have x : mid₁.operand n size = p.low s size := lowPart_congr (content _ le_rfl few)
      dsimp only at released
      rw [x] at released
      exact (puts _ _ (.refl _ _)).release released
    next other =>
      obtain ⟨⟨n, mid₁⟩, read, done⟩ := Option.bind_eq_some_iff.mp done
      obtain ⟨⟨m, mid₂⟩, written, done⟩ := Option.bind_eq_some_iff.mp done
      obtain ⟨puts, content⟩ := tracks.readWrite free.2 size.bytes_le
        (fun same => absurd same.symm other) read written
      have x : mid₂.operand n size = p.low s size := lowPart_congr (content _ le_rfl few)
      dsimp only at done
      rw [x] at done
      exact puts _ done

theorem Tracks.leaLBrr (tracks : Tracks cpu cpu.host.idle known mid p) (free : Free d)
    (few : 4 ≤ known s) (whole : d = s → mid.live.Whole d)
    (done : mid.leaLBrr cpu d s offset = some mid') :
    Tracks cpu cpu.host.idle (learn known d 4) mid' (p.put d 4 (p.reg s + offset)) := by
  rw [Middle.leaLBrr] at done
  split at done
  next const =>
    rw [whole_eq (tracks.const const few)] at done
    exact tracks.movLRi free done
  next not_const =>
    split at done
    next same =>
      subst same
      cases done
      exact tracks.addOffset free few (by simpa using not_const) (whole rfl)
    next other =>
      obtain ⟨⟨n, mid₁⟩, read, done⟩ := Option.bind_eq_some_iff.mp done
      obtain ⟨⟨m, mid₂⟩, written, done⟩ := Option.bind_eq_some_iff.mp done
      obtain ⟨puts, content⟩ := tracks.readWrite free.2 le_rfl
        (fun same => absurd same other) read written
      dsimp only at done
      rw [whole_eq (content 4 le_rfl few)] at done
      exact puts _ done

/-! ### Shifts -/

/-- A shift does to the native register what it does to the virtual one. -/
theorem Changing.shift (changing : Changing cpu locks known mid p d size n) (sh : Shift)
    (count : BitVec 8) :
    Tracks cpu locks known (mid.shift cpu sh size n count) (p.shift cpu sh size d count) := by
  rw [Middle.shift, changing.operand]
  refine Tracks.settled ((changing.puts _).setFlags changing.off ?_)
  rw [Plain.shifted]
  split
  · exact changing.recent
  · split
    · intro g same
      obtain ⟨f, now, rfl⟩ := Option.map_eq_some_iff.mp same
      rw [changing.recent f now]
    next fresh =>
      intro g same
      rw [← Option.some.inj same]
      exact cpu.shift_fresh sh _ _ _ _ _ (by simpa using fresh)

theorem Shift.result_zero (sh : Shift) (x : BitVec w) : sh.result x 0 = x := by
  cases sh with
  | rol | ror =>
    apply BitVec.eq_of_getLsbD_eq
    intro i inside
    simp [Shift.result, inside]
  | shll => exact BitVec.shiftLeft_zero x
  | shrl => exact BitVec.ushiftRight_zero x
  | shra => exact BitVec.sshiftRight_zero

theorem shiftCount_eq {count : BitVec 8} (few : count.toNat < 32) :
    shiftCount count = count.toNat := by
  rw [shiftCount, BitVec.toNat_and]
  exact (Nat.and_two_pow_sub_one_eq_mod count.toNat 5).trans (Nat.mod_eq_of_lt few)

/-- `rol_b_ri`, `shrl_w_ri` and so on. A constant is not shifted by more than there is. -/
theorem Tracks.shiftRi (tracks : Tracks cpu locks known mid p) (target : d ≠ flagtmp)
    (free : size = .l → Free d) {sh : Shift} {i : BitVec 8} (few : size.bytes ≤ known d)
    (within : mid.live.isconst d = true → p.needflags = false → i.toNat < 32)
    (done : mid.shiftRi cpu sh size d i = some mid') :
    Tracks cpu locks (learn known d size.bytes) mid' (p.shift cpu sh size d i) := by
  rw [Middle.shiftRi] at done
  split at done
  next none =>
    cases done
    have off := tracks.off none.2
    have unchanged : p.put d size.bytes (sh.result (p.low d size) (shiftCount i)) = p := by
      rw [none.1, show shiftCount 0 = 0 from rfl, Shift.result_zero, Plain.low, Plain.put_lowPart,
        Plain.put_self]
    rw [Plain.shift, unchanged, Plain.settle_off off]
    exact (tracks.fewer (learn_le (min_le_of_right_le few))).forgetFlags
  · split at done
    next constant =>
      obtain ⟨-, rfl, const, off⟩ := constant
      cases done
      have off := tracks.off off
      have low : p.low d .l = p.reg d := lowPart_l (p.reg d)
      have shifted := tracks.constant (free rfl) few const fun x => sh.result x (shiftCount i)
      rw [shiftCount_eq (within const off)] at shifted
      rw [Plain.shift, Plain.settle_put_off off, low, shiftCount_eq (within const off)]
      exact shifted.forgetFlags
    · exact tracks.emit size target few (fun changing => changing.shift sh i) done

theorem Tracks.shiftRr (tracks : Tracks cpu cpu.host.idle known mid p) (free : Free d)
    (other : d ≠ r) {sh : Shift} (few : size.bytes ≤ known d) (fewer : 1 ≤ known r)
    (within : mid.live.isconst r = true → mid.live.isconst d = true → p.needflags = false →
      (p.low r .b).toNat < 32)
    (done : mid.shiftRr cpu sh size d r = some mid') :
    Tracks cpu cpu.host.idle (learn known d size.bytes) mid'
      (p.shift cpu sh size d (p.low r .b)) := by
  rw [Middle.shiftRr] at done
  split at done
  next const =>
    have value : (mid.live.state r).val.setWidth 8 = p.low r .b :=
      lowPart_congr (tracks.const const (k := Suffix.b.bytes) fewer)
    rw [value] at done
    exact tracks.shiftRi free.2 (fun _ => free) few (within const) done
  · obtain ⟨mid₁, clobbered, done⟩ := Option.bind_eq_some_iff.mp done
    obtain ⟨⟨n, mid₂⟩, read, done⟩ := Option.bind_eq_some_iff.mp done
    obtain ⟨⟨m, mid₃⟩, modified, done⟩ := Option.bind_eq_some_iff.mp done
    obtain ⟨mid₄, first, second⟩ := Option.bind_eq_some_iff.mp done
    obtain ⟨tracks₁, off⟩ := tracks.clobberFlags clobbered
    obtain ⟨s₂, asked₂, rfl⟩ := answering_some read
    obtain ⟨s₃, asked₃, rfl⟩ := answering_some modified
    have bytes : cpu.host.Bytes (some cpu.shiftReg) := fun _ same =>
      Option.some.inj same ▸ cpu.shiftReg_byte
    obtain ⟨tracks₂, answers, zero⟩ := tracks₁.read bytes (by decide) asked₂
    have inv := tracks₂.represents.inv
    have kept : s₃.regs n = s₂.regs n :=
      (rmw_spared inv (locked_on tracks₂.locks) (answers.ready inv fun same => absurd same other)
        (answers.settled fun same => absurd same other) asked₃).regs
    obtain ⟨puts, content⟩ := tracks₂.rmw size free.2 size.bytes_cases modified
    have count : ({ mid₁ with live := s₃ } : Middle N F).operand n .b = p.low r .b := by
      refine lowPart_congr ?_
      change SameLow 1 (s₃.regs n) (p.reg r)
      rw [kept]
      exact answers.operand (zero (.inl rfl)) le_rfl fewer
    dsimp only at first
    rw [count] at first
    have changing : Changing cpu _ _ { mid₁ with live := s₃ } p d size m :=
      ⟨off, tracks₂.recent, fun b => puts b b (.refl _ _), content _ le_rfl few⟩
    exact ((changing.shift sh _).releaseFirst first).release second

end BasiliskII.Jit
