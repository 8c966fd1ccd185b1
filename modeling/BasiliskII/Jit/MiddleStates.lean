import BasiliskII.Jit.MiddleLayer
import BasiliskII.Jit.RegisterAnswers

/-!
# The compiler's state and that of the plain machine

The virtual registers have the plain machine's values, as far as these are known, the flags of the
68k are in those of the host or in FLAGTMP, and between two calls no native register is locked. The
lemmas of this module are about what a call is made of.
-/
namespace BasiliskII.Jit

open ByteLanes

variable {N : Nat} {host : Host N} {known : VReg → Nat} {file : VReg → BitVec 32} {s s' : Live N}
  {r d : VReg} {n m : Fin N} {size : Nat}

/-! ### Locks -/

/-- The locks between two calls. -/
def Host.idle (host : Host N) (n : Fin N) : BitVec 8 := if host.alwaysUsed n then 1 else 0

def lockOff (n : Fin N) (locks : Fin N → BitVec 8) : Fin N → BitVec 8 :=
  Function.update locks n (locks n - 1)

theorem unlock2_locks (done : s.unlock2 n = some s') : s'.locks = lockOff n s.locks := by
  rw [Live.unlock2, Option.ite_none_left_eq_some, Option.some_inj] at done
  obtain ⟨-, rfl⟩ := done
  funext m
  by_cases here : m = n
  · subst here
    simp [Live.locks, lockOff, Live.modifyNat]
  · simp [Live.locks, lockOff, Live.modifyNat, here]

theorem holds_locks (s : Live N) (n : Fin N) (f : List VReg → List VReg) :
    (s.modifyNat n fun x => { x with holds := f x.holds }).locks = s.locks := by
  funext m
  by_cases here : m = n
  · subst here
    simp [Live.locks, Live.modifyNat]
  · simp [Live.locks, Live.modifyNat, here]

@[simp]
theorem lockOff_lockOn (n : Fin N) (locks : Fin N → BitVec 8) :
    lockOff n (lockOn n locks) = locks := by
  simp [lockOff, lockOn]

theorem lockOff_lockOn_comm (n m : Fin N) (locks : Fin N → BitVec 8) :
    lockOff n (lockOn m locks) = lockOn m (lockOff n locks) := by
  by_cases same : n = m
  · rw [same]
    simp [lockOff, lockOn]
  · funext k
    by_cases first : k = n
    · subst first
      simp [lockOff, lockOn, same]
    · by_cases second : k = m <;> simp [lockOff, lockOn, first, second, Ne.symm same]

/-- What is locked over the locks that are always there may be locked once more. -/
theorem locked_on (locks : s.locks = lockOn n host.idle) : s.Locked n := by
  have locked : (s.nat n).locked = host.idle n + 1 := by
    simpa [lockOn, Live.locks] using congrFun locks n
  rw [Live.Locked, locked, Host.idle]
  split <;> decide

/-! ### Values of registers -/

/-- The virtual registers have the values of `file`, as far as they are known. The place of FLAGX in
memory is written, so that it is no constant and has no offset. -/
structure Represents (host : Host N) (known : VReg → Nat) (file : VReg → BitVec 32)
    (s : Live N) : Prop where
  inv : s.Inv host known
  values : ∀ v, SameLow (known v) (s.value v) (file v)
  undef : ∀ v, (s.state v).status = .undef → known v = 0
  flat : (s.state flagx).Flat
  defined : (s.state flagx).status ≠ .undef

theorem Represents.mono {known' : VReg → Nat} (rep : Represents host known file s)
    (fewer : ∀ v, known' v ≤ known v) : Represents host known' file s := by
  refine ⟨rep.inv.mono fewer, fun v => (rep.values v).mono (fewer v), fun v undef => ?_, rep.flat,
    rep.defined⟩
  have none := rep.undef v undef
  have less := fewer v
  omega

theorem Represents.file_congr {file' : VReg → BitVec 32} (rep : Represents host known file s)
    (same : ∀ v, SameLow (known v) (file v) (file' v)) : Represents host known file' s :=
  ⟨rep.inv, fun v => (rep.values v).trans (same v), rep.undef, rep.flat, rep.defined⟩

theorem Represents.held (rep : Represents host known file s) (same : s.SameHeld s') :
    Represents host known file s' := by
  refine ⟨same.inv rep.inv, fun v => ?_, fun v undef => ?_, ?_, ?_⟩
  · rw [same.value rep.inv.linked]
    exact rep.values v
  · rw [same.state] at undef
    exact rep.undef v undef
  · rw [same.state]
    exact rep.flat
  · rw [same.state]
    exact rep.defined

theorem Represents.served (rep : Represents host known file s) {sake : Option VReg}
    (served : Served host known sake s s') (undisturbed : Undisturbed r s s') :
    Represents host known file s' :=
  ⟨served.inv, fun v => (served.keeps v).trans (rep.values v),
    fun v undef => rep.undef v (served.undef v undef), undisturbed.flat flagx rep.flat,
    fun undef => rep.defined (served.undef flagx undef)⟩

theorem Represents.evict (rep : Represents host known file s) (done : s.evict host r = some s') :
    Represents host known file s' ∧ s'.locks = s.locks ∧ s'.isinreg r = false := by
  have undisturbed : Undisturbed r s s' := evict_undisturbed done
  rcases rep.inv.linked.cases r with out | ⟨b, held, -, -⟩
  · rw [Live.evict, if_pos (by simp [out])] at done
    cases done
    exact ⟨rep, rfl, out⟩
  · have gone := evict_spec rep.inv held done
    refine ⟨rep.served gone.served undisturbed, gone.served.locks, ?_⟩
    rw [Live.isinreg, gone.status]
    rfl

theorem Represents.read (rep : Represents host known file s) {spec : Option (Fin N)}
    {canOffset : Bool} (bytes : host.Bytes spec) (few : size ≤ 4)
    (done : s.readregGeneral host r size spec canOffset = some (n, s')) :
    Represents host known file s' ∧ Reads host known r size n s s' ∧
      (canOffset = false ∨ s.Unshifted r → (s'.state r).val = 0) := by
  obtain ⟨reads, zero⟩ := readreg_reads rep.inv (rep.undef r) bytes few done
  have undisturbed := readreg_undisturbed done
  exact ⟨⟨reads.inv, fun v => (reads.keeps v).trans (rep.values v),
    fun v undef => rep.undef v (reads.undef v undef), undisturbed.flat flagx rep.flat,
    fun undef => rep.defined (reads.undef flagx undef)⟩, reads, zero⟩

/-- FLAGX has one byte, and other registers are no wider than a word. -/
theorem learn_self (known : VReg → Nat) (d : VReg) (size : Nat) :
    learn known d size d = min (width d) (max (known d) size) := Function.update_self _ _ _

theorem learn_of_other {v : VReg} (other : v ≠ d) : learn known d size v = known v :=
  Function.update_of_ne other _ _

theorem learn_le (few : min (width d) size ≤ known d) (v : VReg) :
    learn known d size v ≤ known v := by
  by_cases here : v = d
  · subst here
    rw [learn_self]
    omega
  · rw [learn_of_other here]

variable {k : Nat} {b : BitVec 32}

theorem Represents.change (rep : Represents host (forget known r) file s)
    (inv : s'.Inv host (Function.update known r k))
    (values : ∀ v ≠ r, SameLow (known v) (s'.value v) (s.value v))
    (undef : ∀ v ≠ r, (s'.state v).status = .undef → (s.state v).status = .undef)
    (defined : k ≠ 0 → (s'.state r).status ≠ .undef) (value : SameLow k (s'.value r) b)
    (flat : (s'.state flagx).Flat) (still : (s'.state flagx).status ≠ .undef) :
    Represents host (Function.update known r k) (Function.update file r b) s' := by
  refine ⟨inv, fun v => ?_, fun v gone => ?_, flat, still⟩
  · by_cases here : v = r
    · subst here
      rwa [Function.update_self, Function.update_self]
    · have before := rep.values v
      rw [forget_of_ne here] at before
      rw [Function.update_of_ne here, Function.update_of_ne here]
      exact (values v here).trans before
  · by_cases here : v = r
    · subst here
      rw [Function.update_self]
      by_contra some
      exact defined some gone
    · have none := rep.undef v (undef v here gone)
      rw [forget_of_ne here] at none
      rwa [Function.update_of_ne here]

theorem value_level (linked : s.Linked) (held : r ∈ (s.nat n).holds) (zero : (s.state r).val = 0) :
    s.value r = splice (s.state r).validsize (s.regs n) (s.mem r) := by
  rw [value_held linked held, zero]
  exact BitVec.add_zero _

theorem Represents.opened (rep : Represents host known file s)
    (opened : Opened host known d size n s s') (undisturbed : Undisturbed d s s') {a : BitVec 32}
    (same : SameLow (min (width d) size) a b) :
    Represents host (learn known d size)
      (Function.update file d (splice size b (file d)))
      (s'.setReg n (splice size a (s'.regs n))) := by
  have held := opened.held
  have realreg := ((opened.inv.linked.holds_iff n d).mp held).2
  have emitted : s'.emit d size a = some (s'.setReg n (splice size a (s'.regs n))) := by
    rw [Live.emit, realreg]
    rfl
  have called := emit_called opened.inv opened.writable emitted
  have flat : (s'.state flagx).Flat := by
    by_cases here : flagx = d
    · rw [here]
      exact ⟨opened.offset, fun const => by cases const.symm.trans opened.writable.dirty⟩
    · exact undisturbed.flat flagx rep.flat
  refine (rep.mono (forget_le known d)).change called.inv (fun v here => ?_)
    (fun v _ => opened.undef v) (fun _ undef => ?_) (fun i low => ?_) flat
    fun undef => rep.defined (opened.undef flagx undef)
  · have kept := called.keeps v fun same => here (Option.some.inj same).symm
    rw [learn_of_other here] at kept
    exact kept.trans (opened.keeps v here)
  · cases (show (s'.state d).status = .undef from undef).symm.trans opened.writable.dirty
  · -- What is written is valid.
    have valid : size ≤ (s'.state d).validsize :=
      opened.writable.fits.trans (opened.inv.placed n d held).fewer
    have now : (s'.setReg n (splice size a (s'.regs n))).value d =
        splice (s'.state d).validsize (splice size a (s'.regs n)) (s'.mem d) := by
      refine (value_level called.inv.linked (n := n) held opened.offset).trans ?_
      change splice _ (Function.update s'.regs n (splice size a (s'.regs n)) n) _ = _
      rw [Function.update_self]
      rfl
    rw [now]
    by_cases written : i < 8 * size
    · rw [splice_bit, if_pos (by omega), splice_bit, if_pos written, splice_bit, if_pos written]
      exact same i (by omega)
    · have before := opened.above i (by omega) (by omega)
      rw [value_level opened.inv.linked held opened.offset, splice_bit] at before
      rw [splice_bit, splice_bit, if_neg written, splice_bit, if_neg written,
        ← rep.values d i (by omega), ← before]

theorem Represents.forgotten (rep : Represents host known file s)
    (opened : Opened host known d size n s s') (undisturbed : Undisturbed d s s') :
    Represents host (forget known d) file s' := by
  have fewer (v : VReg) : forget known d v ≤ learn known d size v := by
    by_cases here : v = d
    · rw [here, forget_self]
      exact Nat.zero_le _
    · rw [forget_of_ne here, learn_of_other here]
  have changed := (rep.mono (forget_le known d)).change (k := 0) (b := file d)
    (opened.inv.mono fewer) opened.keeps (fun v _ => opened.undef v) (fun some => absurd rfl some)
    (sameLow_zero _ _) (undisturbed.flat Jit.flagx rep.flat)
    fun undef => rep.defined (opened.undef _ undef)
  rwa [Function.update_eq_self] at changed

/-- The place in memory of a register that is in no native one is written. -/
theorem Represents.setMem {a : BitVec 32} (rep : Represents host (forget known r) file s)
    (out : s.isinreg r = false) (flat : (s.state r).Flat) (defined : (s.state r).status ≠ .undef)
    (few : Function.update known r k Jit.flagx ≤ 1) (same : SameLow k a b) :
    Represents host (Function.update known r k) (Function.update file r b) (s.setMem r a) := by
  have apart {v : VReg} {n : Fin N} (held : v ∈ (s.nat n).holds) : v ≠ r := by
    rintro rfl
    exact rep.inv.linked.not_mem out n held
  have mem {v : VReg} (other : v ≠ r) : (s.setMem r a).mem v = s.mem v :=
    Function.update_of_ne other _ _
  have linked : (s.setMem r a).Linked :=
    ⟨rep.inv.linked.somewhere, rep.inv.linked.holds_iff, rep.inv.linked.realind,
      rep.inv.linked.nodup⟩
  refine rep.change ⟨linked, fun n v held => ?_, rep.inv.alone, rep.inv.byteReg, few⟩
    (fun v here => ?_) (fun v _ => id) (fun _ => defined) ?_ rep.flat rep.defined
  · have other := apart held
    have placed := rep.inv.placed n v held
    rw [mem other, Function.update_of_ne other]
    rwa [forget_of_ne other] at placed
  · have value : (s.setMem r a).value v = s.value v := by
      rw [Live.value, Live.value, mem here]
      rfl
    rw [value]
    exact .refl _ _
  · have out' : (s.setMem r a).isinreg r = false := out
    have const : (s.setMem r a).isconst r = false := by
      rw [Live.isconst]
      exact decide_eq_false flat.2
    have value : (s.setMem r a).value r = a := by
      rw [value_stored out' (.inr flat.1) defined, const]
      exact Function.update_self _ _ _
    rwa [value]

theorem Represents.setReg (rep : Represents host known file s) (empty : (s.nat n).holds = [])
    (c : BitVec 32) : Represents host known file (s.setReg n c) := by
  have regs (m : Fin N) (some : (s.nat m).holds ≠ []) : (s.setReg n c).regs m = s.regs m := by
    refine Function.update_of_ne ?_ _ _
    rintro rfl
    exact some empty
  refine ⟨rep.inv.congr rfl (fun _ => rfl) regs rfl, fun v => ?_, rep.undef, rep.flat,
    rep.defined⟩
  have state : (s.setReg n c).state = s.state := rfl
  rw [value_congr rep.inv.linked state regs rfl]
  exact rep.values v

theorem Represents.detach (rep : Represents host known file s) (held : r ∈ (s.nat n).holds)
    (other : r ≠ Jit.flagx) : Represents host (forget known r) file (s.detach r n) := by
  have linked := rep.inv.linked
  have flagx := detach_alike linked held (Ne.symm other)
  have changed := (rep.mono (forget_le known r)).change (k := 0) (b := file r)
    ((rep.inv.mono (forget_le known r)).detach held) (fun v here => ?_) (fun v here undef => ?_)
    (fun some => absurd rfl some) (sameLow_zero _ _)
    (by rw [RegStatus.Flat, flagx.val, flagx.status]; exact rep.flat)
    (by rw [flagx.status]; exact rep.defined)
  · rwa [Function.update_eq_self] at changed
  · have alike := detach_alike linked held here
    have value : (s.detach r n).value v = s.value v := by
      rw [Live.value, Live.value, RegStatus.value, RegStatus.value, Live.content, Live.content,
        alike.status, alike.val, alike.validsize, alike.realreg, detach_mem, detach_regs]
    rw [value]
    exact .refl _ _
  · rwa [(detach_alike linked held here).status] at undef

/-- `live.nat[r].nholds` is zero as soon as the flags are in memory. -/
theorem Represents.spill (rep : Represents host known file s) (alone : (s.nat n).holds = [flagtmp])
    (zero : (s.state flagtmp).val = 0) (word : BitVec 32) :
    Represents host (Function.update known flagtmp 4) (Function.update file flagtmp word)
      ((((s.setReg n word).setMem flagtmp word).modify flagtmp fun st =>
        { st with status := .inmem, realreg := none }).modifyNat n fun x =>
          { x with holds := [] }) := by
  have held : flagtmp ∈ (s.nat n).holds := by
    rw [alone]
    exact List.mem_singleton_self flagtmp
  have first : (s.state flagtmp).realind = 0 := by
    have entry := rep.inv.linked.realind n flagtmp held
    rw [alone] at entry
    exact Nat.lt_one_iff.mp (List.getElem?_eq_some_iff.mp entry).1
  have state := detach_state rep.inv.linked held
  have detached := rep.detach held (by decide)
  have empty : ((s.detach flagtmp n).nat n).holds = [] := by
    rw [detach_nat, Function.update_self, alone, first]
    rfl
  have eq : ((((s.setReg n word).setMem flagtmp word).modify flagtmp fun st =>
      { st with status := .inmem, realreg := none }).modifyNat n fun x => { x with holds := [] }) =
        ((s.detach flagtmp n).setReg n word).setMem flagtmp word := by
    simp [Live.detach, alone, first, Live.setReg, Live.setMem, Live.modify, Live.modifyNat,
      SwapRemove.swapRemove]
  rw [eq]
  refine (detached.setReg empty word).setMem ?_ ?_ ?_ (update_flagx rep.inv.flagx (by decide))
    (.refl 4 word)
  · change (s.detach flagtmp n).isinreg flagtmp = false
    rw [Live.isinreg, state, if_pos rfl]
    rfl
  · change ((s.detach flagtmp n).state flagtmp).Flat
    rw [state, if_pos rfl]
    exact ⟨zero, by simp⟩
  · change ((s.detach flagtmp n).state flagtmp).status ≠ .undef
    rw [state, if_pos rfl]
    simp

/-- The record of a register that is in no native one changes. -/
theorem Represents.record {f : RegStatus N → RegStatus N}
    (rep : Represents host (forget known r) file s) (out : s.isinreg r = false)
    (stays : (s.modify r f).isinreg r = false) (other : r ≠ Jit.flagx)
    (defined : k ≠ 0 → (f (s.state r)).status ≠ .undef) (flagx : known Jit.flagx ≤ 1)
    (value : SameLow k ((s.modify r f).value r) b) :
    Represents host (Function.update known r k) (Function.update file r b) (s.modify r f) := by
  have inv : s.Inv host (forget (Function.update known r k) r) := by
    rw [forget_update]
    exact rep.inv
  have few : Function.update known r k Jit.flagx ≤ 1 := by
    rw [Function.update_of_ne (Ne.symm other)]
    exact flagx
  have called := modify_called inv out stays few
  have same : (s.modify r f).state Jit.flagx = s.state Jit.flagx :=
    Function.update_of_ne (Ne.symm other) _ _
  refine rep.change called.inv (fun v here => ?_) (fun v here undef => ?_) (fun some => ?_) value
    (by rw [same]; exact rep.flat) (by rw [same]; exact rep.defined)
  · have kept := called.keeps v fun same => here (Option.some.inj same).symm
    rwa [Function.update_of_ne here] at kept
  · rwa [modify_state _ here] at undef
  · simpa [Live.modify] using defined some

/-- `disassociate` -/
theorem Represents.disassociate (rep : Represents host known file s)
    (done : s.disassociate host r = some s') :
    Represents host (forget known r) file s' ∧ s'.isinreg r = false ∧ s'.locks = s.locks := by
  have rep := rep.mono (forget_le known r)
  obtain ⟨served, out, -, -⟩ := disassociate_spec rep.inv (forget_self known r) done
  exact ⟨rep.served served (disassociate_undisturbed done), out, served.locks⟩

theorem Represents.setConst {val : BitVec 32} (rep : Represents host known file s)
    (other : r ≠ flagx) (same : SameLow k val b) (done : s.setConst host r val = some s') :
    Represents host (Function.update known r k) (Function.update file r b) s' ∧
      s'.locks = s.locks := by
  obtain ⟨s₁, gone, rfl⟩ := Option.map_eq_some_iff.mp done
  obtain ⟨rep₁, out, locks⟩ := rep.disassociate gone
  refine ⟨rep₁.record out ?_ other (fun _ => by simp) rep.inv.flagx ?_, locks⟩
  · simp [Live.isinreg, Live.modify]
  · simpa [Live.value, RegStatus.value, Live.modify] using same

/-- `forget_about` -/
theorem Represents.undefine (rep : Represents host (forget known r) file s)
    (out : s.isinreg r = false) (other : r ≠ Jit.flagx) (flagx : known Jit.flagx ≤ 1) :
    Represents host (forget known r) file
      (s.modify r fun st => { st with val := 0, status := .undef }) := by
  have stays : (s.modify r fun st => { st with val := 0, status := .undef }).isinreg r = false := by
    simp [Live.isinreg, Live.modify]
  have gone := rep.record out stays other (fun some => absurd rfl some) flagx
    (sameLow_zero _ (file r))
  rwa [Function.update_eq_self] at gone

theorem Represents.constant {val : BitVec 32} (rep : Represents host known file s)
    (const : s.isconst r = true) (other : r ≠ flagx) (value : SameLow (known r) val b) :
    Represents host known (Function.update file r b) (s.modify r fun st => { st with val }) := by
  have status : (s.state r).status = .isconst := of_decide_eq_true const
  have out : s.isinreg r = false := by
    simp [Live.isinreg, status]
  have stays : (s.modify r fun st => { st with val }).isinreg r = false := by
    simp [Live.isinreg, Live.modify, status]
  have now : SameLow (known r) ((s.modify r fun st => { st with val }).value r) b := by
    simpa [Live.value, RegStatus.value, Live.modify, status] using value
  have changed := (rep.mono (forget_le known r)).record out stays other
    (fun _ => by simp [status]) rep.inv.flagx now
  rwa [Function.update_eq_self] at changed

theorem value_addOffset (s : Live N) (r : VReg) (offset : BitVec 32)
    (not_const : s.isconst r = false) :
    (s.addOffset r offset).value r = s.value r + offset := by
  have status : (s.state r).status ≠ .isconst := of_decide_eq_false not_const
  have state : (s.addOffset r offset).state r =
      { s.state r with val := (s.state r).val + offset } := Function.update_self _ _ _
  rw [Live.value, Live.value, Live.content, Live.content, state, RegStatus.value, RegStatus.value]
  cases now : (s.state r).status with
  | isconst => exact absurd now status
  | inmem | undef | clean | dirty => exact (BitVec.add_assoc _ _ _).symm

/-- An offset is added to a register that has all of its bytes. -/
theorem Represents.addOffset {offset : BitVec 32} (rep : Represents host known file s)
    (other : r ≠ flagx) (not_const : s.isconst r = false)
    (whole : s.isinreg r = true → (s.state r).validsize = 4)
    (same : SameLow (known r) (file r + offset) b) :
    Represents host known (Function.update file r b) (s.addOffset r offset) := by
  have done : s.leaLBrr host r offset = some (s.addOffset r offset) := by
    rw [Live.leaLBrr, if_neg (by simp [not_const])]
  have called := leaLBrr_called rep.inv whole done
  have others {v : VReg} (other : v ≠ r) : (s.addOffset r offset).state v = s.state v :=
    Function.update_of_ne other _ _
  have flagx := others (Ne.symm other)
  have changed := (rep.mono (forget_le known r)).change (k := known r) (b := b)
    (by rw [Function.update_eq_self]; exact called.inv)
    (fun v here => called.keeps v fun same => here (Option.some.inj same).symm)
    (fun v here undef => by rwa [others here] at undef) (fun some undef => some (rep.undef r ?_)) ?_
    (by rw [flagx]; exact rep.flat) (by rw [flagx]; exact rep.defined)
  · rwa [Function.update_eq_self] at changed
  · simpa [Live.addOffset, Live.modify] using undef
  · rw [value_addOffset s r offset not_const]
    exact ((rep.values r).add offset).trans same

/-- `mov_l_rr` -/
theorem Represents.movLRr (rep : Represents host known file s) (other : d ≠ r)
    (target : d ≠ Jit.flagx) (few : k ≤ known r) (four : k ≤ 4) (done : s.movLRr host d r = some s') :
    Represents host (Function.update known d k) (Function.update file d (file r)) s' ∧
      s'.locks = s.locks := by
  by_cases const : s.isconst r = true
  · rw [Live.movLRr, if_neg other, if_pos const] at done
    refine rep.setConst target ?_ done
    have value : s.value r = (s.state r).val := by
      rw [Live.value, RegStatus.value, of_decide_eq_true const]
    rw [← value]
    exact (rep.values r).mono few
  · have forgot : s.Inv host (forget (Function.update known d k) d) := by
      rw [forget_update]
      exact rep.inv.mono (forget_le known d)
    have flagx : Function.update known d k Jit.flagx ≤ 1 := by
      rw [Function.update_of_ne (Ne.symm target)]
      exact rep.inv.flagx
    have undefined (undef : (s.state r).status = .undef) : Function.update known d k r = 0 := by
      rw [Function.update_of_ne (Ne.symm other)]
      exact rep.undef r undef
    have called := movLRr_called forgot flagx other undefined done
    rw [Live.movLRr, if_neg other, if_neg const] at done
    obtain ⟨s₁, gone, done⟩ := Option.bind_eq_some_iff.mp done
    obtain ⟨⟨n, s₂⟩, read, unlocked⟩ := Option.bind_eq_some_iff.mp done
    dsimp only at unlocked
    obtain ⟨rep₁, -, locks₁⟩ := rep.disassociate gone
    have anywhere : host.Bytes none := fun _ none => by cases none
    obtain ⟨rep₂, reads, -⟩ := rep₁.read anywhere le_rfl read
    have same := unlock2_held unlocked
    have others {v : VReg} (apart : v ≠ d) : s'.state v = s₂.state v := by
      rw [same.state]
      exact Function.update_of_ne apart _ _
    have flagx := others (Ne.symm target)
    refine ⟨(rep.mono (forget_le known d)).change called.inv (fun v here => ?_)
      (fun v here undef => ?_) (fun _ undef => ?_) ?_ (by rw [flagx]; exact rep₂.flat)
      (by rw [flagx]; exact rep₂.defined), ?_⟩
    · have kept := called.keeps v fun same => here (Option.some.inj same).symm
      rwa [Function.update_of_ne here] at kept
    · rw [others here] at undef
      have forgot := rep.inv.mono (forget_le known d)
      exact (disassociate_spec forgot (forget_self known d) gone).1.undef v (reads.undef v undef)
    · rw [same.state] at undef
      simp [Live.modify, Live.modifyNat] at undef
    · have value : s'.value d = s₂.regs n + (s₂.state r).val := by
        rw [Live.value, Live.content, same.state, same.regs, same.mem]
        simp [Live.modify, Live.modifyNat, RegStatus.value, splice_all]
      have few' : k ≤ forget known d r := by rwa [forget_of_ne (Ne.symm other)]
      rw [value]
      exact (reads.content four few').trans ((rep₁.values r).mono few')
    · rw [unlock2_locks unlocked, holds_locks _ n (· ++ [d]), ← locks₁]
      exact (congrArg (lockOff n) reads.locks).trans (lockOff_lockOn n s₁.locks)

/-! ### The plain machine -/

variable {F : Type} {cpu : Cpu N F} {locks : Fin N → BitVec 8} {mid mid' : Middle N F}
  {p : Plain F}

/-- The flags of the 68k are in those of the host, or on the stack. -/
def Middle.Saves (mid : Middle N F) (f : F) : Prop :=
  mid.important = true ∧ (mid.inFlags = true → mid.eflags = f) ∧
    (mid.inFlags = true ∨ mid.onStack = true)

/-- FLAGTMP is known where the flags that matter are in it. -/
def backed (known : VReg → Nat) (mid : Middle N F) (p : Plain F) : VReg → Nat :=
  if mid.onStack ∧ p.flags.isSome then Function.update known flagtmp 4 else known

/-- The registers of the plain machine, with the flags as FLAGTMP has them. -/
def Plain.registers (cpu : Cpu N F) (p : Plain F) : VReg → BitVec 32 :=
  Function.update p.reg flagtmp (p.flags.elim 0 cpu.toWord)

/-- The compiler has come as far as the plain machine. -/
structure Tracks (cpu : Cpu N F) (locks : Fin N → BitVec 8) (known : VReg → Nat)
    (mid : Middle N F) (p : Plain F) : Prop where
  represents : Represents cpu.host (backed known mid p) (p.registers cpu) mid.live
  locks : mid.live.locks = locks
  unknown : known flagtmp = 0
  needflags : mid.needflags = p.needflags
  heap : mid.heap = p.heap
  recent : ∀ f, p.recent = some f → mid.eflags = f
  saved : ∀ f, p.flags = some f → mid.Saves f

theorem backed_of_ne (known : VReg → Nat) (mid : Middle N F) (p : Plain F) {v : VReg}
    (other : v ≠ flagtmp) : backed known mid p v = known v := by
  unfold backed
  split
  · exact Function.update_of_ne other _ _
  · rfl

theorem registers_of_ne (cpu : Cpu N F) (p : Plain F) {v : VReg} (other : v ≠ flagtmp) :
    p.registers cpu v = p.reg v :=
  Function.update_of_ne other _ _

theorem backed_learn (known : VReg → Nat) (mid : Middle N F) (p : Plain F)
    (other : d ≠ flagtmp) (size : Nat) :
    backed (learn known d size) mid p = learn (backed known mid p) d size := by
  unfold backed
  split
  · rw [learn, learn, Function.update_of_ne other, Function.update_comm other]
  · rfl

/-- A native register that was asked for, and is locked. -/
structure Answers (known : VReg → Nat) (p : Plain F) (r : VReg) (size : Nat) (n : Fin N)
    (s : Live N) : Prop where
  held : r ∈ (s.nat n).holds
  enough : size ≤ (s.state r).validsize
  content : ∀ k ≤ size, k ≤ known r → SameLow k (s.regs n + (s.state r).val) (p.reg r)

/-- Only `live` changes, and means the same. -/
theorem Tracks.onLive {locks' : Fin N → BitVec 8} (tracks : Tracks cpu locks known mid p)
    (rep : Represents cpu.host (backed known mid p) (p.registers cpu) s)
    (same : s.locks = locks') : Tracks cpu locks' known { mid with live := s } p :=
  ⟨rep, same, tracks.unknown, tracks.needflags, tracks.heap, tracks.recent, tracks.saved⟩

theorem Tracks.read (tracks : Tracks cpu locks known mid p) {spec : Option (Fin N)}
    {canOffset : Bool} (bytes : cpu.host.Bytes spec) (few : size ≤ 4)
    (done : mid.live.readregGeneral cpu.host r size spec canOffset = some (n, s)) :
    Tracks cpu (lockOn n locks) known { mid with live := s } p ∧ Answers known p r size n s ∧
      (canOffset = false ∨ mid.live.Unshifted r → (s.state r).val = 0) := by
  obtain ⟨rep, reads, zero⟩ := tracks.represents.read bytes few done
  refine ⟨tracks.onLive rep (reads.locks.trans (congrArg (lockOn n) tracks.locks)),
    ⟨reads.held, reads.enough, fun k asked known' => ?_⟩, zero⟩
  by_cases other : r = flagtmp
  · have none : k = 0 := by
      rw [other, tracks.unknown] at known'
      exact Nat.le_zero.mp known'
    rw [none]
    exact sameLow_zero _ _
  · rw [← backed_of_ne known mid p other] at known'
    rw [← registers_of_ne cpu p other]
    exact (reads.content asked known').trans ((tracks.represents.values r).mono known')

theorem Tracks.assign (tracks : Tracks cpu locks known mid p) (target : d ≠ flagtmp)
    {locks' : Fin N → BitVec 8}
    (rep : Represents cpu.host (learn (backed known mid p) d size)
      (Function.update (p.registers cpu) d b) s) (same : s.locks = locks') :
    Tracks cpu locks' (learn known d size) { mid with live := s }
      { p with reg := Function.update p.reg d b } := by
  rw [← backed_learn known mid p target] at rep
  have registers : Function.update (p.registers cpu) d b =
      Plain.registers cpu { p with reg := Function.update p.reg d b } :=
    Function.update_comm (Ne.symm target) _ _ _
  refine ⟨registers ▸ rep, same, ?_, tracks.needflags, tracks.heap, tracks.recent, tracks.saved⟩
  rw [learn_of_other (Ne.symm target)]
  exact tracks.unknown

theorem Tracks.opened (tracks : Tracks cpu locks known mid p) (target : d ≠ flagtmp)
    (opened : Opened cpu.host (backed known mid p) d size n mid.live s)
    (undisturbed : Undisturbed d mid.live s) {a : BitVec 32}
    (same : SameLow (min (width d) size) a b) :
    Tracks cpu (lockOn n locks) (learn known d size)
      { mid with live := s.setReg n (splice size a (s.regs n)) }
      { p with reg := Function.update p.reg d (splice size b (p.reg d)) } := by
  have rep := tracks.represents.opened opened undisturbed same
  rw [registers_of_ne cpu p target] at rep
  exact tracks.assign target rep (opened.locks.trans (congrArg (lockOn n) tracks.locks))

theorem Tracks.write (tracks : Tracks cpu locks known mid p) (target : d ≠ flagtmp)
    (done : mid.live.writeregGeneral cpu.host d size none = some (n, s)) {a : BitVec 32}
    (same : SameLow (min (width d) size) a b) :
    Tracks cpu (lockOn n locks) (learn known d size)
      { mid with live := s.setReg n (splice size a (s.regs n)) }
      { p with reg := Function.update p.reg d (splice size b (p.reg d)) } := by
  have anywhere : cpu.host.Bytes none := fun _ none => by cases none
  have opened := writereg_opened tracks.represents.inv (tracks.represents.undef d) anywhere
    (fun _ => rfl) done
  exact tracks.opened target opened (writereg_undisturbed done) same

theorem Tracks.modify (tracks : Tracks cpu locks known mid p) (target : d ≠ flagtmp)
    {rsize : Nat} (sizes : size = 1 ∨ size = 2 ∨ size = 4) (four : rsize ≤ 4)
    (done : mid.live.rmwGeneral cpu.host d size rsize none = some (n, s)) :
    (∀ a b : BitVec 32, SameLow (min (width d) size) a b →
      Tracks cpu (lockOn n locks) (learn known d size)
        { mid with live := s.setReg n (splice size a (s.regs n)) }
        { p with reg := Function.update p.reg d (splice size b (p.reg d)) }) ∧
      ∀ k ≤ rsize, k ≤ known d → SameLow k (s.regs n) (p.reg d) := by
  obtain ⟨opened, content⟩ :=
    rmw_opened tracks.represents.inv (tracks.represents.undef d) sizes four done
  refine ⟨fun a b same => tracks.opened target opened (rmw_undisturbed done) same,
    fun k asked known' => ?_⟩
  have known' : k ≤ backed known mid p d := by rwa [backed_of_ne known mid p target]
  rw [← registers_of_ne cpu p target]
  exact (content k asked known').trans ((tracks.represents.values d).mono known')

theorem Tracks.unlock (tracks : Tracks cpu locks known mid p)
    (done : mid.live.unlock2 n = some s) :
    Tracks cpu (lockOff n locks) known { mid with live := s } p :=
  tracks.onLive (tracks.represents.held (unlock2_held done))
    ((unlock2_locks done).trans (congrArg (lockOff n) tracks.locks))

/-! ### What stays in a register that was read -/

/-- Another access for the sake of `d` leaves the register that was asked for alone. -/
theorem Answers.ready (answers : Answers known p r size n s) {known' : VReg → Nat}
    (inv : s.Inv host known') {wanted : Nat} (asked : d = r → wanted = 4 → size = 4) :
    s.Ready d wanted n := by
  intro alone four
  have held := answers.held
  rw [alone] at held
  have here : r = d := List.mem_singleton.mp held
  have whole : size = 4 := asked here.symm four
  subst here
  have enough := answers.enough
  have valid := (inv.placed n r answers.held).valid
  omega

theorem Answers.settled (answers : Answers known p r size n s)
    (zero : d = r → (s.state r).val = 0) : s.Settled d n := by
  intro alone
  have held := answers.held
  rw [alone] at held
  have here : r = d := List.mem_singleton.mp held
  rw [← here]
  exact zero here.symm

theorem Answers.operand (answers : Answers known p r size n s) (zero : (s.state r).val = 0)
    (asked : k ≤ size) (few : k ≤ known r) : SameLow k (s.regs n) (p.reg r) := by
  have content := answers.content k asked few
  rw [zero] at content
  rwa [show s.regs n + 0 = s.regs n from BitVec.add_zero _] at content

theorem lowPart_congr {size : Suffix} {a : BitVec 32} (same : SameLow size.bytes a b) :
    lowPart size a = lowPart size b :=
  sameLow_iff.mp same

/-! ### Flags -/

theorem answering_some {f : Live N → Option (Fin N × Live N)}
    (done : mid.answering f = some (n, mid')) :
    ∃ s, f mid.live = some (n, s) ∧ mid' = { mid with live := s } := by
  obtain ⟨⟨m, s⟩, answered, same⟩ := Option.map_eq_some_iff.mp done
  cases same
  exact ⟨s, answered, rfl⟩

theorem onLive_some {f : Live N → Option (Live N)} (done : mid.onLive f = some mid') :
    ∃ s, f mid.live = some s ∧ mid' = { mid with live := s } := by
  obtain ⟨s, called, rfl⟩ := Option.map_eq_some_iff.mp done
  exact ⟨s, called, rfl⟩

theorem Tracks.onStack (tracks : Tracks cpu locks known mid p) (inFlags : mid.inFlags = true)
    (rep : Represents cpu.host (Function.update (backed known mid p) flagtmp 4)
      (Function.update (p.registers cpu) flagtmp (cpu.toWord mid.eflags)) s)
    (same : s.locks = locks) :
    Tracks cpu locks known { mid with live := s, onStack := true } p := by
  refine ⟨(rep.mono fun v => ?_).file_congr fun v => ?_, same, tracks.unknown, tracks.needflags,
    tracks.heap, tracks.recent, fun f flags => ?_⟩
  · by_cases here : v = flagtmp
    · subst here
      rw [Function.update_self, backed]
      split
      · exact (Function.update_self _ _ _).le
      · rw [tracks.unknown]
        exact Nat.zero_le 4
    · rw [backed_of_ne _ _ _ here, Function.update_of_ne here, backed_of_ne _ _ _ here]
  · by_cases here : v = flagtmp
    · subst here
      rw [Function.update_self, Plain.registers, Function.update_self]
      cases flags : p.flags with
      | none =>
        have none : backed known { mid with live := s, onStack := true } p flagtmp = 0 := by
          rw [backed, flags, if_neg (by simp), tracks.unknown]
        rw [none]
        exact sameLow_zero _ _
      | some f =>
        rw [(tracks.saved f flags).2.1 inFlags]
        exact .refl _ _
    · rw [Function.update_of_ne here]
      exact .refl _ _
  · obtain ⟨important, here, -⟩ := tracks.saved f flags
    exact ⟨important, here, .inr rfl⟩

theorem Tracks.flagsToStack (tracks : Tracks cpu locks known mid p)
    (done : mid.flagsToStack cpu = some mid') :
    Tracks cpu locks known mid' p ∧ mid'.onStack = true ∧ mid'.inFlags = mid.inFlags ∧
      Undisturbed flagtmp mid.live mid'.live := by
  rw [Middle.flagsToStack] at done
  split at done
  next already =>
    cases done
    exact ⟨tracks, already, rfl, .refl _ _⟩
  · split at done
    next unimportant =>
      cases done
      have none : p.flags = none := by
        cases flags : p.flags with
        | none => rfl
        | some f => exact absurd (tracks.saved f flags).1 unimportant
      refine ⟨⟨?_, tracks.locks, tracks.unknown, tracks.needflags, tracks.heap, tracks.recent,
        fun f flags => ?_⟩, rfl, rfl, .refl _ _⟩
      · have rep := tracks.represents
        rw [backed, none] at rep ⊢
        simpa using rep
      · cases flags.symm.trans none
    next important =>
      rw [Option.ite_none_left_eq_some, not_not] at done
      obtain ⟨inFlags, done⟩ := done
      obtain ⟨⟨n, mid₁⟩, written, done⟩ := Option.bind_eq_some_iff.mp done
      obtain ⟨mid₂, spilt, done⟩ := Option.bind_eq_some_iff.mp done
      obtain ⟨mid₃, unlocked, rfl⟩ := Option.map_eq_some_iff.mp done
      obtain ⟨s₁, asked, rfl⟩ := answering_some written
      rw [Middle.flagsToReg, Option.ite_none_left_eq_some, Option.some_inj] at spilt
      obtain ⟨-, rfl⟩ := spilt
      obtain ⟨s₃, released, rfl⟩ := onLive_some unlocked
      have anywhere : cpu.host.Bytes none := fun _ none => by cases none
      have opened := writereg_opened tracks.represents.inv (tracks.represents.undef flagtmp)
        anywhere (fun _ => rfl) asked
      have undisturbed : Undisturbed flagtmp mid.live s₁ := writereg_undisturbed asked
      have rep := (tracks.represents.forgotten opened undisturbed).spill opened.writable.alone
        opened.offset (cpu.toWord mid.eflags)
      rw [forget, Function.update_idem] at rep
      have held := unlock2_held released
      have locks₃ : s₃.locks = locks := by
        rw [unlock2_locks released]
        have spilt : (((s₁.setReg n (cpu.toWord mid.eflags)).setMem flagtmp
            (cpu.toWord mid.eflags)).modify flagtmp fun st =>
              { st with status := .inmem, realreg := none }).locks = lockOn n locks :=
          opened.locks.trans (congrArg (lockOn n) tracks.locks)
        refine Eq.trans (congrArg (lockOff n) ?_) (lockOff_lockOn n locks)
        rw [← spilt]
        exact holds_locks _ n fun _ => []
      have gone : Undisturbed flagtmp s₁ (((s₁.setReg n (cpu.toWord mid.eflags)).setMem flagtmp
          (cpu.toWord mid.eflags)).modify flagtmp fun st =>
            { st with status := .inmem, realreg := none }) :=
        .own rfl fun flat => ⟨flat.1, by simp⟩
      exact ⟨tracks.onStack inFlags (rep.held held) locks₃, rfl, rfl,
        (undisturbed.trans gone).trans (.of_state held.state)⟩

/-- `clobber_flags`, after which instructions may change the flags of the host. -/
theorem Tracks.clobberFlags (tracks : Tracks cpu locks known mid p)
    (done : mid.clobberFlags cpu = some mid') :
    Tracks cpu locks known mid' p ∧ mid'.inFlags = false := by
  obtain ⟨mid₁, moved, rfl⟩ := Option.map_eq_some_iff.mp done
  have forgotten (tracks : Tracks cpu locks known mid₁ p)
      (saved : p.flags.isSome = true → mid₁.onStack = true) :
      Tracks cpu locks known { mid₁ with inFlags := false } p := by
    refine ⟨tracks.represents, tracks.locks, tracks.unknown, tracks.needflags, tracks.heap,
      tracks.recent, fun f flags => ?_⟩
    exact ⟨(tracks.saved f flags).1, by simp, .inr (saved (by rw [flags]; rfl))⟩
  split at moved
  · obtain ⟨tracks, onStack, -⟩ := tracks.flagsToStack moved
    exact ⟨forgotten tracks fun _ => onStack, rfl⟩
  next safe =>
    cases moved
    refine ⟨forgotten tracks fun some => ?_, rfl⟩
    obtain ⟨f, flags⟩ := Option.isSome_iff_exists.mp some
    by_contra off
    exact safe ⟨(tracks.saved f flags).2.2.resolve_right off, off⟩

theorem Tracks.setFlags (tracks : Tracks cpu locks known mid p) (off : mid.inFlags = false)
    {eflags : F} {recent : Option F} (now : ∀ f, recent = some f → eflags = f) :
    Tracks cpu locks known { mid with eflags } { p with recent } := by
  refine ⟨tracks.represents, tracks.locks, tracks.unknown, tracks.needflags, tracks.heap, now,
    fun f flags => ?_⟩
  obtain ⟨important, -, somewhere⟩ := tracks.saved f flags
  refine ⟨important, fun on => ?_, somewhere⟩
  cases off.symm.trans on

/-- What is said of the flags that were left is all that changes. -/
theorem Tracks.recall (tracks : Tracks cpu locks known mid p) {recent : Option F}
    (now : ∀ f, recent = some f → mid.eflags = f) :
    Tracks cpu locks known mid { p with recent } :=
  ⟨tracks.represents, tracks.locks, tracks.unknown, tracks.needflags, tracks.heap, now,
    tracks.saved⟩

theorem Tracks.forgetFlags (tracks : Tracks cpu locks known mid p) :
    Tracks cpu locks known mid { p with recent := none } :=
  tracks.recall (by simp)

theorem Tracks.makeFlagsLive (tracks : Tracks cpu locks known mid p)
    (done : mid.makeFlagsLiveInternal cpu = some mid') :
    Tracks cpu locks known mid' p.makeFlagsLive ∧ (∀ f, p.flags = some f → mid'.eflags = f) ∧
      ∀ v ≠ flagtmp, mid.live.isinreg v = false → mid'.live.isinreg v = false := by
  rw [Middle.makeFlagsLiveInternal] at done
  have live (now : Tracks cpu locks known mid' { p with recent := none })
      (here : ∀ f, p.flags = some f → mid'.eflags = f) :
      Tracks cpu locks known mid' p.makeFlagsLive :=
    ⟨now.represents, now.locks, now.unknown, now.needflags, now.heap, here, now.saved⟩
  split at done
  next already =>
    cases done
    have here (f : F) (flags : p.flags = some f) : mid.eflags = f :=
      (tracks.saved f flags).2.1 already
    exact ⟨live tracks.forgetFlags here, here, fun _ _ => id⟩
  next off =>
    rw [Option.ite_none_left_eq_some, not_not] at done
    obtain ⟨onStack, done⟩ := done
    obtain ⟨⟨n, mid₁⟩, read, done⟩ := Option.bind_eq_some_iff.mp done
    obtain ⟨mid₂, unlocked, rfl⟩ := Option.map_eq_some_iff.mp done
    obtain ⟨s₁, asked, rfl⟩ := answering_some read
    obtain ⟨s₂, released, rfl⟩ := onLive_some unlocked
    have anywhere : cpu.host.Bytes none := fun _ none => by cases none
    obtain ⟨-, reads, zero⟩ := tracks.represents.read anywhere le_rfl asked
    have tracks₁ := ((tracks.read anywhere le_rfl asked).1.unlock released).represents
    have locks₂ : s₂.locks = locks := by
      rw [unlock2_locks released]
      exact (congrArg (lockOff n) (reads.locks.trans (congrArg (lockOn n) tracks.locks))).trans
        (lockOff_lockOn n locks)
    have here (f : F) (flags : p.flags = some f) : cpu.ofWord (s₁.regs n) = f := by
      have whole : backed known mid p flagtmp = 4 := by
        rw [backed, if_pos ⟨onStack, by rw [flags]; rfl⟩, Function.update_self]
      have content := (reads.content le_rfl whole.ge).trans
        ((tracks.represents.values flagtmp).mono whole.ge)
      rw [zero (.inl rfl), Plain.registers, Function.update_self, flags] at content
      have word : s₁.regs n = cpu.toWord f := by
        apply BitVec.eq_of_getLsbD_eq
        intro i inside
        have bit := content i (by omega)
        rwa [show s₁.regs n + 0 = s₁.regs n from BitVec.add_zero _] at bit
      rw [word, cpu.ofWord_toWord]
    refine ⟨live ⟨tracks₁, locks₂, tracks.unknown, tracks.needflags, tracks.heap, by simp,
      fun f flags => ?_⟩ here, here, fun v other out => ?_⟩
    · exact ⟨(tracks.saved f flags).1, fun _ => here f flags, .inl rfl⟩
    · obtain ⟨s₀, served, same⟩ := reads.served
      have apart : some flagtmp ≠ some v := fun same => other (Option.some.inj same).symm
      have state : s₂.state v = mid.live.state v := by
        rw [(unlock2_held released).state, same, (lockAnswer_held s₀ n).state]
        exact (served.out v apart out).1
      change s₂.isinreg v = false
      rw [Live.isinreg, state]
      exact out

end BasiliskII.Jit
