import BasiliskII.Jit.LockedRegisters

/-!
# What accesses answer

The native register that is read contains the value, up to an offset if the caller can add one; the
one that is written is the virtual register's own, and has its other bytes.
-/
namespace BasiliskII.Jit

open ByteLanes

variable {N : Nat} {host : Host N} {known : VReg → Nat} {s s' s'' : Live N} {r : VReg}
  {n m : Fin N}

/-! ### What is read -/

theorem Live.Unshifted.offset (unshifted : s.Unshifted r) (inreg : s.isinreg r = true) :
    (s.state r).val = 0 := by
  refine unshifted.resolve_left fun const => ?_
  rw [Live.isconst, decide_eq_true_eq] at const
  rcases isinreg_iff.mp inreg with status | status <;> cases status.symm.trans const

theorem Live.Unshifted.flat (unshifted : s.Unshifted r) (inreg : s.isinreg r = true) :
    (s.state r).Flat := by
  refine ⟨unshifted.offset inreg, fun const => ?_⟩
  rcases isinreg_iff.mp inreg with status | status <;> cases status.symm.trans const

theorem take_offset (host : Host N) (b : Fin N) (size : Nat) (unshifted : s.Unshifted r) :
    ((s.take host r b size false).state r).val = 0 := by
  have filled : ((s.fill host r b size false).state r).val = 0 := by
    unfold Live.fill
    rw [if_pos (by decide)]
    simp only
    split
    · split
      · simp [Live.modify]
      next not_const =>
        simpa [Live.modify, Live.loadReg, Live.setReg] using unshifted.resolve_left not_const
    · simp [Live.modify]
  simpa [Live.take, Live.enter, Live.touch, Live.modify, Live.modifyNat] using filled

variable {size : Nat}

theorem allocReg_offset (inv : s.Inv host known) {hint : Option (Fin N)} (unshifted : s.Unshifted r)
    (done : s.allocRegHinted host r size false hint = some (m, s')) : (s'.state r).val = 0 := by
  obtain ⟨b, s₁, -, free, outcome⟩ := allocReg_cases done
  have freed := (freed_spec inv free).1
  have undisturbed : Undisturbed r s s₁ :=
    (freed_gentle (g := .off host r m) False.elim free).undisturbed
  have unshifted₁ : s₁.Unshifted r := by
    rcases inv.linked.cases r with out | ⟨-, -, inreg, -⟩
    · rw [Live.Unshifted, Live.isconst, (freed.other r (inv.linked.not_mem out b)).1]
      exact unshifted
    · exact .inr (undisturbed.flat r (unshifted.flat inreg)).1
  rcases outcome with ⟨-, rfl, rfl⟩ | ⟨-, inreg, rr, -, -, outcome⟩
  · exact take_offset host m size unshifted₁
  have flat := unshifted₁.flat inreg
  rcases outcome with ⟨-, -, rfl, rfl⟩ | ⟨rfl, s₂, evicted, rfl⟩
  · rw [(touch_held _ m).state]
    simpa [Live.mergeHalves, Live.setReg, Live.modify] using flat.1
  · have gone : Undisturbed r s₁ s₂ := evict_undisturbed evicted
    exact take_offset host m size (.inr (gone.flat r flat).1)

variable {spec : Option (Fin N)}

/-- As many bytes as are asked for are valid, and there is no offset if there was none. -/
theorem reach_enough (inv : s.Inv host known)
    (undefined : (s.state r).status = .undef → known r = 0) (bytes : host.Bytes spec)
    (few : size ≤ 4) {alone : Bool} {found : Option (Fin N) × Live N} {answer : Fin N}
    (tried : s.tryreg host r size spec alone = some found)
    (had : Live.orAlloc host r (if spec.isSome then 4 else size) false spec found =
      some (answer, s'')) (moved : s''.moveTo host spec answer = some (n, s')) :
    size ≤ (s'.state r).validsize ∧ (s.Unshifted r → (s'.state r).val = 0) := by
  obtain ⟨found, s₁⟩ := found
  obtain ⟨served, there⟩ := tryreg_spec inv tried
  suffices Served host known (some r) s s'' ∧ r ∈ (s''.nat answer).holds ∧
      size ≤ (s''.state r).validsize ∧ (s.Unshifted r → (s''.state r).val = 0) by
    obtain ⟨served₂, held, enough, zero⟩ := this
    obtain ⟨-, -, state, -⟩ := moveTo_spec served₂.inv bytes moved
    rw [state r held]
    exact ⟨enough, zero⟩
  -- What `tryreg` leaves has no offset either.
  have unshifted₁ (unshifted : s.Unshifted r) : s₁.Unshifted r := by
    rw [Live.tryreg] at tried
    rcases inv.linked.cases r with out | ⟨rr, held, inreg, realreg⟩
    · simp only [out] at tried
      cases tried
      exact unshifted
    · simp only [inreg, realreg] at tried
      split at tried
      · rw [Option.ite_none_left_eq_some] at tried
        obtain ⟨fits, -, answered⟩ := Option.bind_eq_some_iff.mp tried.2
        cases fits with
        | true =>
          cases answered
          exact unshifted
        | false =>
          obtain ⟨s₂, evicted, same⟩ := Option.map_eq_some_iff.mp answered
          cases same
          have gone : Undisturbed r s s₁ := evict_undisturbed evicted
          exact .inr (gone.flat r (unshifted.flat inreg)).1
      · cases tried
        exact unshifted
  cases found with
  | some m =>
    cases had
    obtain ⟨held, enough, -, -⟩ := there answer rfl
    exact ⟨served.of_none _, held, enough, fun unshifted =>
      (unshifted₁ unshifted).offset ((served.inv.linked.holds_iff answer r).mp held).1⟩
  | none =>
    obtain ⟨served₂, only, whole, -⟩ :=
      allocReg_spec served.inv (fun undef => undefined (served.undef r undef)) had
    refine ⟨(served.of_none _).trans served₂, ?_, whole ▸ few, fun unshifted =>
      allocReg_offset served.inv (unshifted₁ unshifted) had⟩
    rw [only]
    exact List.mem_singleton_self r

/-- How many times each native register is locked. -/
def Live.locks (s : Live N) (n : Fin N) : BitVec 8 := (s.nat n).locked

def lockOn (n : Fin N) (locks : Fin N → BitVec 8) : Fin N → BitVec 8 :=
  Function.update locks n (locks n + 1)

theorem lockAnswer_locks (s : Live N) (n : Fin N) :
    (Live.lockAnswer n s).locks = lockOn n s.locks := by
  funext m
  by_cases here : m = n
  · subst here
    simp [Live.locks, lockOn, Live.lockAnswer, Live.setlock, Live.touch, Live.modifyNat]
  · simp [Live.locks, lockOn, Live.lockAnswer, Live.setlock, Live.touch, Live.modifyNat, here]

theorem Served.locks {sake : Option VReg} (served : Served host known sake s s') :
    s'.locks = s.locks :=
  funext served.locked

/-- `n` contains what is known of the value of `r`, less its offset, up to the bytes that were asked
for. -/
structure Reads (host : Host N) (known : VReg → Nat) (r : VReg) (size : Nat) (n : Fin N)
    (s s' : Live N) : Prop where
  served : ∃ s₁, Served host known (some r) s s₁ ∧ s' = Live.lockAnswer n s₁
  held : r ∈ (s'.nat n).holds
  enough : size ≤ (s'.state r).validsize

theorem Reads.inv (reads : Reads host known r size n s s') : s'.Inv host known := by
  obtain ⟨s₁, served, rfl⟩ := reads.served
  exact (lockAnswer_held s₁ n).inv served.inv

theorem Reads.keeps (reads : Reads host known r size n s s') (v : VReg) :
    SameLow (known v) (s'.value v) (s.value v) := by
  obtain ⟨s₁, served, rfl⟩ := reads.served
  rw [(lockAnswer_held s₁ n).value served.inv.linked]
  exact served.keeps v

theorem Reads.undef (reads : Reads host known r size n s s') (v : VReg)
    (undefined : (s'.state v).status = .undef) : (s.state v).status = .undef := by
  obtain ⟨s₁, served, rfl⟩ := reads.served
  rw [(lockAnswer_held s₁ n).state] at undefined
  exact served.undef v undefined

theorem Reads.locks (reads : Reads host known r size n s s') : s'.locks = lockOn n s.locks := by
  obtain ⟨s₁, served, rfl⟩ := reads.served
  rw [lockAnswer_locks, served.locks]

/-- What the instruction finds in the register, once the offset is added to it. -/
theorem Reads.content {k : Nat} (reads : Reads host known r size n s s') (asked : k ≤ size)
    (few : k ≤ known r) : SameLow k (s'.regs n + (s'.state r).val) (s.value r) := by
  have inv := reads.inv
  refine SameLow.trans ?_ ((reads.keeps r).mono few)
  rw [value_held inv.linked reads.held]
  refine SameLow.add ?_ _
  exact (sameLow_splice (asked.trans reads.enough) _ _).symm

theorem readreg_reads (inv : s.Inv host known) {canOffset : Bool}
    (undefined : (s.state r).status = .undef → known r = 0) (bytes : host.Bytes spec)
    (few : size ≤ 4) (done : s.readregGeneral host r size spec canOffset = some (n, s')) :
    Reads host known r size n s s' ∧
      (canOffset = false ∨ s.Unshifted r → (s'.state r).val = 0) := by
  obtain ⟨s₃, served, held, -, rfl⟩ := readreg_spec inv undefined bytes done
  rw [Live.readregGeneral] at done
  obtain ⟨s₁, offset, done⟩ := Option.bind_eq_some_iff.mp done
  obtain ⟨found, tried, done⟩ := Option.bind_eq_some_iff.mp done
  obtain ⟨⟨answer, s₂⟩, had, done⟩ := Option.bind_eq_some_iff.mp done
  obtain ⟨⟨m, s₄⟩, moved, same⟩ := Option.map_eq_some_iff.mp done
  obtain ⟨rfl, same⟩ := Prod.mk.inj same
  have locked := lockAnswer_held s₃ m
  have locked' := lockAnswer_held s₄ m
  have state : s₃.state = s₄.state := by rw [← locked.state, ← same, locked'.state]
  have removed : Served host known (some r) s s₁ ∧
      (canOffset = false ∨ s.Unshifted r → s₁.Unshifted r) := by
    split at offset
    · exact ⟨removeOffset_spec inv (fun undef _ => undefined undef) offset,
        fun _ => (removeOffset_gentle (g := .off host r m) rfl rfl offset).2⟩
    next can =>
      cases offset
      exact ⟨.refl inv _, fun zero => zero.resolve_left fun cannot => can (by simp [cannot])⟩
  obtain ⟨enough, zero⟩ := reach_enough removed.1.inv
    (fun undef => undefined (removed.1.undef r undef)) bytes few tried had moved
  refine ⟨⟨⟨s₃, served, rfl⟩, ?_, ?_⟩, fun cannot => ?_⟩
  · rw [locked.holds]
    exact held
  · rw [locked.state, state]
    exact enough
  · rw [locked.state, state]
    exact zero (removed.2 cannot)

/-! ### What is written -/

/-- The bytes that are written are known from then on. -/
def learn (known : VReg → Nat) (r : VReg) (size : Nat) : VReg → Nat :=
  Function.update known r (min (width r) (max (known r) size))

/-- The low `size` bytes of `r` may be written in `n`, and its others are still those it had. -/
structure Opened (host : Host N) (known : VReg → Nat) (r : VReg) (size : Nat) (n : Fin N)
    (s s' : Live N) : Prop where
  inv : s'.Inv host (learn known r size)
  keeps : ∀ v ≠ r, SameLow (known v) (s'.value v) (s.value v)
  writable : s'.Writable r size n
  offset : (s'.state r).val = 0
  above : ∀ i, 8 * size ≤ i → i < 8 * known r →
    (s'.value r).getLsbD i = (s.value r).getLsbD i
  undef : ∀ v, (s'.state v).status = .undef → (s.state v).status = .undef
  locks : s'.locks = lockOn n s.locks

theorem Opened.held (opened : Opened host known r size n s s') : r ∈ (s'.nat n).holds := by
  rw [opened.writable.alone]
  exact List.mem_singleton_self r

/-- More bytes are valid, which are those that are about to be written. -/
theorem overwritten_above (inv : s.Inv host known) (alone : (s.nat n).holds = [r])
    (zero : (s.state r).val = 0) {i : Nat} (high : 8 * size ≤ i) :
    ((s.revise r n ((s.state r).overwritten size) (s.mem r) (s.regs n)).value r).getLsbD i =
      (s.value r).getLsbD i := by
  have held : r ∈ (s.nat n).holds := by
    rw [alone]
    exact List.mem_singleton_self r
  have stays : (s.state r).Stays ((s.state r).overwritten size) := ⟨.inr rfl, rfl, rfl⟩
  rw [value_revise_self inv.linked held stays, value_held inv.linked held, zero]
  have same : i < 8 * max size (s.state r).validsize ↔ i < 8 * (s.state r).validsize := by omega
  change (splice (max size (s.state r).validsize) (s.regs n) (s.mem r) + 0#32).getLsbD i =
    (splice (s.state r).validsize (s.regs n) (s.mem r) + 0#32).getLsbD i
  simp only [BitVec.add_zero, splice_bit, same]

theorem modified_locks (done : Live.modified r size n s = some s') :
    s'.locks = lockOn n s.locks := by
  rw [Live.modified, Option.ite_none_left_eq_some, Option.some_inj] at done
  obtain ⟨-, rfl⟩ := done
  rw [lockAnswer_locks]
  rfl

theorem revise_status {st : RegStatus N} {a c : BitVec 32}
    (status : st.status ≠ .undef) (v : VReg)
    (undefined : ((s.revise r n st a c).state v).status = .undef) :
    (s.state v).status = .undef := by
  by_cases here : v = r
  · subst here
    rw [show (s.revise v n st a c).state v = st from Function.update_self _ _ _] at undefined
    exact absurd undefined status
  · rwa [show (s.revise r n st a c).state v = s.state v from Function.update_of_ne here _ _]
      at undefined

theorem rmw_opened (inv : s.Inv host known) {rsize : Nat}
    (undefined : (s.state r).status = .undef → known r = 0) (sizes : size = 1 ∨ size = 2 ∨ size = 4)
    (four : rsize ≤ 4) (done : s.rmwGeneral host r size rsize none = some (n, s')) :
    Opened host known r size n s s' ∧
      ∀ k ≤ rsize, k ≤ known r → SameLow k (s'.regs n) (s.value r) := by
  have anywhere : host.Bytes none := fun _ none => by cases none
  have called := rmw_spec inv undefined anywhere sizes (k := min (width r) (max (known r) size))
    (min_le_right _ _) (by rintro rfl; exact min_le_left _ _) done
  obtain ⟨-, s₁, s₂, found, answer, s₃, s₄, offset, exclusive, tried, had, moved, modified⟩ :=
    rmwGeneral_cases done
  have removed := removeOffset_spec inv (fun undef _ => undefined undef) offset
  have unshifted := (removeOffset_gentle (g := .off host r n) rfl rfl offset).2
  obtain ⟨alone, out, -⟩ :=
    makeExclusive_spec removed.inv (fun less => absurd less (by decide)) exclusive
  have before := removed.trans alone
  have unshifted₂ : s₂.Unshifted r := by
    rcases removed.inv.linked.cases r with absent | ⟨-, -, inreg, -⟩
    · rw [out absent]
      exact unshifted
    · have kept : Undisturbed r s₁ s₂ :=
        (makeExclusive_gentle (g := .off host r n) rfl exclusive).undisturbed
      exact .inr (kept.flat r (Live.Unshifted.flat unshifted inreg)).1
  have undefined₂ (undef : (s₂.state r).status = .undef) : known r = 0 :=
    undefined (before.undef r undef)
  obtain ⟨served, held, -, only, -⟩ := reach_spec before.inv undefined₂ anywhere tried had moved
  obtain ⟨enough, zero⟩ := reach_enough before.inv undefined₂ anywhere four tried had moved
  have served := before.trans served
  have only := only rfl
  have zero := zero unshifted₂
  have same := modified_eq modified
  have overwritten {i : Nat} (high : 8 * size ≤ i) := overwritten_above served.inv only zero high
  have linked := served.inv.linked.revise (m := s₄.mem r) (c := s₄.regs n) held
    (show (s₄.state r).Stays ((s₄.state r).overwritten size) from ⟨.inr rfl, rfl, rfl⟩)
  refine ⟨⟨called.1.inv, fun v other => ?_, called.2, ?_, fun i high low => ?_, fun v undef => ?_,
    ?_⟩, ?_⟩
  · have kept := called.1.keeps v fun same => other (Option.some.inj same).symm
    rwa [Function.update_of_ne other] at kept
  · rw [same.state]
    simp [Live.revise, RegStatus.overwritten]
  · rw [same.value linked, overwritten high]
    exact served.keeps r i low
  · rw [same.state] at undef
    exact served.undef v (revise_status (by simp [RegStatus.overwritten]) v undef)
  · rw [modified_locks modified, served.locks]
  · intro k asked few
    rw [congrFun same.regs n]
    have content : SameLow rsize (s₄.regs n) (s₄.value r) := by
      rw [value_held served.inv.linked held, zero]
      change SameLow rsize (s₄.regs n) (splice (s₄.state r).validsize (s₄.regs n) (s₄.mem r) + 0#32)
      rw [BitVec.add_zero]
      exact (sameLow_splice enough _ _).symm
    have regs : (s₄.revise r n ((s₄.state r).overwritten size) (s₄.mem r) (s₄.regs n)).regs n =
        s₄.regs n := congrFun (Function.update_eq_self n s₄.regs) n
    rw [regs]
    exact (content.mono asked).trans ((served.keeps r).mono few)

/-- A register that is in no native one, with nothing to be added, is a constant or in memory. -/
theorem value_stored (out : s.isinreg r = false) (unshifted : s.Unshifted r)
    (defined : (s.state r).status ≠ .undef) :
    s.value r = if s.isconst r then (s.state r).val else s.mem r := by
  have plain (zero : (s.state r).val = 0) : s.mem r + (s.state r).val = s.mem r := by
    rw [zero]
    exact BitVec.add_zero _
  rw [Live.value, RegStatus.value]
  cases status : (s.state r).status with
  | isconst => simp [Live.isconst, status]
  | inmem =>
    have not_const : s.isconst r = false := by simp [Live.isconst, status]
    simpa [not_const] using plain (unshifted.resolve_left (by simp [not_const]))
  | undef => exact absurd status defined
  | clean =>
    rw [isinreg_iff.mpr (.inl status)] at out
    cases out
  | dirty =>
    rw [isinreg_iff.mpr (.inr status)] at out
    cases out

/-- A register that is allocated for a write has its other bytes in memory, or all of it. -/
theorem take_above (inv : s.Inv host known) {b : Fin N} (out : s.isinreg r = false)
    (empty : (s.nat b).holds = []) (suits : host.suits size b = true) (narrow : size < 4)
    (unshifted : s.Unshifted r) (defined : (s.state r).status ≠ .undef) {i : Nat}
    (high : 8 * size ≤ i) :
    ((s.take host r b size true).value r).getLsbD i = (s.value r).getLsbD i := by
  obtain ⟨renewed, holds, -, mem⟩ := take_clobbered inv out empty suits
  have held : r ∈ ((s.take host r b size true).nat b).holds := by
    rw [holds]
    exact List.mem_singleton_self r
  rw [value_held renewed.inv.linked held, value_stored out unshifted defined, mem]
  by_cases const : s.isconst r = true
  · have clobbered : ((s.take host r b size true).state r).val = 0 ∧
        ((s.take host r b size true).state r).validsize = 4 ∧
        (s.take host r b size true).regs b = (s.state r).val := by
      simp [Live.take, Live.fill, Live.enter, Live.touch, Live.modify, Live.modifyNat, Live.setReg,
        const, show size ≠ 4 by omega]
    obtain ⟨val, valid, regs⟩ := clobbered
    rw [val, valid, regs, splice_all (by decide), if_pos const]
    exact congrArg (BitVec.getLsbD · i) (BitVec.add_zero _)
  · have clobbered : ((s.take host r b size true).state r).val = 0 ∧
        ((s.take host r b size true).state r).validsize = size := by
      simp [Live.take, Live.fill, Live.enter, Live.touch, Live.modify, Live.modifyNat, const]
    obtain ⟨val, valid⟩ := clobbered
    rw [val, valid, if_neg const]
    refine (congrArg (BitVec.getLsbD · i) (BitVec.add_zero _)).trans ?_
    rw [splice_bit, if_neg (by omega)]

/-- There is no offset left in a register that is to be written. -/
theorem take_clobbered_offset (host : Host N) (s : Live N) (r : VReg) (b : Fin N) (size : Nat) :
    ((s.take host r b size true).state r).val = 0 := by
  have filled : ((s.fill host r b size true).state r).val = 0 := by
    unfold Live.fill
    rw [if_neg (by decide)]
    split
    · simp [Live.modify]
    · simp [Live.modify]
  simpa [Live.take, Live.enter, Live.touch, Live.modify, Live.modifyNat] using filled

theorem allocReg_above (inv : s.Inv host known) (out : s.isinreg r = false) (narrow : size < 4)
    (unshifted : s.Unshifted r) (defined : (s.state r).status ≠ .undef)
    (done : s.allocRegHinted host r size true none = some (n, s')) {i : Nat} (high : 8 * size ≤ i) :
    (s'.value r).getLsbD i = (s.value r).getLsbD i ∧ (s'.state r).val = 0 := by
  obtain ⟨b, s₁, ⟨-, suits⟩, free, outcome⟩ := allocReg_cases done
  obtain ⟨freed, empty⟩ := freed_spec inv free
  obtain ⟨state, mem⟩ := freed.other r (inv.linked.not_mem out b)
  have out₁ : s₁.isinreg r = false := by
    rw [Live.isinreg, state]
    exact out
  obtain ⟨-, rfl, rfl⟩ | ⟨keeps, -⟩ := outcome
  case inr => cases keeps
  refine ⟨?_, take_clobbered_offset host s₁ r n size⟩
  rw [take_above freed.served.inv out₁ empty suits narrow ?_ ?_ high,
    value_out out (by rw [state]; exact ⟨rfl, rfl⟩) mem]
  · rwa [Live.Unshifted, Live.isconst, state]
  · rwa [state]

theorem written_record (done : Live.written r size n s = some s') :
    s'.locks = lockOn n s.locks ∧ (s'.state r).val = 0 := by
  rw [Live.written] at done
  generalize wider : (if (s.state r).status = .undef then
    s.modify r fun st => { st with validsize := 4 } else s) = s₁ at done
  have locks : s₁.locks = s.locks := by
    rw [← wider]
    split <;> rfl
  rw [Option.ite_none_left_eq_some, Option.some_inj, not_and, not_not] at done
  obtain ⟨whole, rfl⟩ := done
  refine ⟨?_, ?_⟩
  · refine Eq.trans (lockAnswer_locks (s₁.widen r size) n) ?_
    exact congrArg (lockOn n) locks
  · by_cases four : size = 4
    · simp [Live.modify, four]
    · simpa [Live.modify, four] using whole four

theorem writereg_above (inv : s.Inv host known)
    (undefined : (s.state r).status = .undef → known r = 0) (narrow : size < 4)
    (done : s.writeregGeneral host r size none = some (n, s')) {i : Nat} (high : 8 * size ≤ i)
    (low : i < 8 * known r) : (s'.value r).getLsbD i = (s.value r).getLsbD i := by
  obtain ⟨s₁, s₂, ⟨found, s₃⟩, answer, s₄, s₅, offset, exclusive, tried, had, moved, written⟩ :=
    writeregGeneral_cases done
  rw [if_pos narrow] at offset
  cases moved
  have removed := removeOffset_spec inv (fun undef _ => undefined undef) offset
  have unshifted := (removeOffset_gentle (g := .off host r n) rfl rfl offset).2
  obtain ⟨split, out, alone⟩ :=
    makeExclusive_spec removed.inv (fun less => absurd less (by omega)) exclusive
  have before := removed.trans split
  have unshifted₂ : s₂.Unshifted r := by
    rcases removed.inv.linked.cases r with absent | ⟨-, -, inreg, -⟩
    · rw [out absent]
      exact unshifted
    · have kept : Undisturbed r s₁ s₂ :=
        (makeExclusive_gentle (g := .off host r n) rfl exclusive).undisturbed
      exact .inr (kept.flat r (Live.Unshifted.flat unshifted inreg)).1
  have defined : (s₂.state r).status ≠ .undef := fun undef => by
    rw [undefined (before.undef r undef)] at low
    exact absurd low (Nat.not_lt_zero i)
  suffices (s'.value r).getLsbD i = (s₂.value r).getLsbD i from this.trans (before.keeps r i low)
  -- The record is widened to the bytes that are written, and the others are where they were.
  have widened {s₀ : Live N} (inv₀ : s₀.Inv host known) (only : (s₀.nat n).holds = [r])
      (zero : (s₀.state r).val = 0) (written : Live.written r size n s₀ = some s') :
      (s'.value r).getLsbD i = (s₀.value r).getLsbD i := by
    have held : r ∈ (s₀.nat n).holds := by
      rw [only]
      exact List.mem_singleton_self r
    have inreg := ((inv₀.linked.holds_iff n r).mp held).1
    have same := written_eq (fun undef => by
      rcases isinreg_iff.mp inreg with status | status <;> cases status.symm.trans undef) written
    have linked := inv₀.linked.revise (m := s₀.mem r) (c := s₀.regs n) held
      (show (s₀.state r).Stays ((s₀.state r).overwritten size) from ⟨.inr rfl, rfl, rfl⟩)
    rw [same.value linked, overwritten_above inv₀ only zero high]
  have allocated {s₀ : Live N} (inv₀ : s₀.Inv host known) (out₀ : s₀.isinreg r = false)
      (unshifted₀ : s₀.Unshifted r) (defined₀ : (s₀.state r).status ≠ .undef)
      (had : s₀.allocRegHinted host r size true none = some (n, s₄)) :
      (s'.value r).getLsbD i = (s₀.value r).getLsbD i := by
    obtain ⟨renewed, only, -, -⟩ := allocReg_clobbered inv₀ had
    obtain ⟨above, zero⟩ := allocReg_above inv₀ out₀ narrow unshifted₀ defined₀ had high
    exact (widened renewed.inv only zero written).trans above
  rw [Live.tryWrite] at tried
  rcases split.inv.linked.cases r with absent | ⟨rr, held, inreg, realreg⟩
  · simp only [absent] at tried
    cases tried
    exact allocated split.inv absent unshifted₂ defined had
  · simp only [inreg, realreg] at tried
    rw [Option.ite_none_left_eq_some, not_not] at tried
    obtain ⟨single, tried⟩ := tried
    obtain ⟨fits, -, answered⟩ := Option.bind_eq_some_iff.mp tried
    have flat := unshifted₂.flat inreg
    cases fits with
    | true =>
      cases answered
      cases had
      have status : (s₂.state r).status ≠ .undef := defined
      rw [written_widen status] at written
      exact widened split.inv (holds_eq_singleton held single) flat.1 written
    | false =>
      obtain ⟨s₇, evicted, same⟩ := Option.map_eq_some_iff.mp answered
      cases same
      have gone := evict_spec split.inv held evicted
      have undisturbed : Undisturbed r s₂ s₃ := evict_undisturbed evicted
      have absent : s₃.isinreg r = false := by
        rw [Live.isinreg, gone.status]
        rfl
      refine (allocated gone.served.inv absent (.inr (undisturbed.flat r flat).1) ?_ had).trans
        (gone.served.keeps r i low)
      rw [gone.status]
      simp

theorem writereg_opened (inv : s.Inv host known)
    (undefined : (s.state r).status = .undef → known r = 0) (bytes : host.Bytes spec)
    (narrow : size < 4 → spec = none) (done : s.writeregGeneral host r size spec = some (n, s')) :
    Opened host known r size n s s' := by
  have few4 := width_le r
  have called : Called host (learn known r size) (some r) s s' ∧ s'.Writable r size n := by
    by_cases whole : 4 ≤ size
    · have called := writereg_spec (inv.mono (forget_le known r)) (fun _ _ _ => forget_self known r)
        bytes (fun _ => forget_self known r) (k := min (width r) (max (known r) size)) (by omega)
        (by rintro rfl; exact min_le_left _ _) done
      rwa [forget, Function.update_idem] at called
    · exact writereg_spec inv (fun undef _ _ => undefined undef) bytes
        (fun less => absurd less whole) (min_le_right _ _) (by rintro rfl; exact min_le_left _ _) done
  have above (i : Nat) (high : 8 * size ≤ i) (low : i < 8 * known r) :
      (s'.value r).getLsbD i = (s.value r).getLsbD i := by
    by_cases less : size < 4
    · obtain rfl := narrow less
      exact writereg_above inv undefined less done high low
    · rw [BitVec.getLsbD_of_ge _ _ (by omega), BitVec.getLsbD_of_ge _ _ (by omega)]
  obtain ⟨s₁, s₂, found, answer, s₃, s₄, offset, exclusive, tried, had, moved, written⟩ :=
    writeregGeneral_cases done
  have inv₀ : s.Inv host fun _ => 0 := inv.mono fun v => Nat.zero_le (known v)
  have removed : Served host (fun _ => 0) (some r) s s₁ := by
    split at offset
    · exact removeOffset_spec inv₀ (fun _ _ => rfl) offset
    · cases offset
      exact .refl inv₀ _
  obtain ⟨split, out, alone⟩ := makeExclusive_spec removed.inv (fun _ => rfl) exclusive
  have alone' (inreg : s₂.isinreg r = true) : ∃ n, (s₂.nat n).holds = [r] := by
    apply alone
    by_contra before
    rw [Bool.not_eq_true] at before
    rw [out before, before] at inreg
    cases inreg
  obtain ⟨s₆, renewed, only, -, -, eq⟩ := reach_write split.inv bytes alone' tried had moved
  rw [eq] at written
  obtain ⟨locks, zero⟩ := written_record written
  have held : r ∈ (s₆.nat n).holds := by
    rw [only]
    exact List.mem_singleton_self r
  have same := written_eq (fun undef => by
    rcases isinreg_iff.mp ((renewed.inv.linked.holds_iff n r).mp held).1 with status | status <;>
      cases status.symm.trans undef) written
  refine ⟨called.1.inv, fun v other => ?_, called.2, zero, above, fun v undef => ?_, ?_⟩
  · have kept := called.1.keeps v fun same => other (Option.some.inj same).symm
    rwa [learn, Function.update_of_ne other] at kept
  · rw [same.state] at undef
    have undef₆ := revise_status (by simp [RegStatus.overwritten]) v undef
    exact removed.undef v (split.undef v (renewed.served.undef v undef₆))
  · rw [locks, renewed.served.locks, split.locks, removed.locks]

end BasiliskII.Jit
