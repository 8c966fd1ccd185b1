import BasiliskII.Jit.RegisterRuns

/-!
# What an access leaves alone

A native register is locked from the access it answers to the end of the instruction. What it
contains is what the instruction finds there, as long as no access in between changes it. The
records of virtual registers other than the one an access is for lose nothing by it.
-/
namespace BasiliskII.Jit

open ByteLanes

variable {N : Nat} {s s' s'' : Live N} {r v : VReg} {n m b rr : Fin N} {size : Nat}
  {spec : Option (Fin N)}

/-! ### Records -/

/-- The register's place in memory is up to date, but for an offset. -/
def RegStatus.Stored (st : RegStatus N) : Prop := st.status = .inmem ∨ st.status = .clean

/-- Neither a constant nor to be added to. -/
def RegStatus.Flat (st : RegStatus N) : Prop := st.val = 0 ∧ st.status ≠ .isconst

/-- As long as the register is in a native one, all of its bytes are there. -/
def RegStatus.Whole (st : RegStatus N) : Prop :=
  st.status = .clean ∨ st.status = .dirty → st.validsize = 4

/-- What the record of a register keeps that an access is not for. -/
structure RegStatus.Calm (st st' : RegStatus N) : Prop where
  stored : st.Stored → st'.Stored
  whole : st.Whole → st'.Whole

/-- No register gets an offset or becomes a constant, and none but `r` gets dirty or loses bytes. -/
structure Undisturbed (r : VReg) (s s' : Live N) : Prop where
  flat : ∀ u, (s.state u).Flat → (s'.state u).Flat
  others : ∀ u ≠ r, (s.state u).Calm (s'.state u)

theorem Undisturbed.refl (r : VReg) (s : Live N) : Undisturbed r s s :=
  ⟨fun _ => id, fun _ _ => ⟨id, id⟩⟩

theorem Undisturbed.trans (first : Undisturbed r s s') (second : Undisturbed r s' s'') :
    Undisturbed r s s'' :=
  ⟨fun u flat => second.flat u (first.flat u flat), fun u other =>
    ⟨fun stored => (second.others u other).stored ((first.others u other).stored stored),
      fun whole => (second.others u other).whole ((first.others u other).whole whole)⟩⟩

theorem Undisturbed.of_others (others : ∀ u ≠ v, s'.state u = s.state u)
    (flat : (s.state v).Flat → (s'.state v).Flat)
    (calm : v ≠ r → (s.state v).Calm (s'.state v)) : Undisturbed r s s' := by
  refine ⟨fun u before => ?_, fun u other => ?_⟩
  · by_cases here : u = v
    · subst here
      exact flat before
    · rwa [others u here]
  · by_cases here : u = v
    · subst here
      exact calm other
    · rw [others u here]
      exact ⟨id, id⟩

theorem Undisturbed.of_state (same : s'.state = s.state) : Undisturbed r s s' :=
  .of_others (v := r) (fun u _ => by rw [same]) (by rw [same]; exact id)
    fun other => absurd rfl other

theorem Undisturbed.modify {f : RegStatus N → RegStatus N} (same : s'.state = s.state)
    (flat : (s.state v).Flat → (f (s.state v)).Flat)
    (calm : v ≠ r → (s.state v).Calm (f (s.state v))) : Undisturbed r s (s'.modify v f) := by
  have here : (s'.modify v f).state v = f (s.state v) := by simp [Live.modify, same]
  refine .of_others (v := v) (fun u other => by simp [Live.modify, other, same]) ?_ ?_
  · rwa [here]
  · rwa [here]

theorem Undisturbed.own {f : RegStatus N → RegStatus N} (same : s'.state = s.state)
    (flat : (s.state r).Flat → (f (s.state r)).Flat) : Undisturbed r s (s'.modify r f) :=
  .modify same flat fun other => absurd rfl other

theorem store_state {host : Host N} (done : s.store host v n = some s') : s'.state = s.state := by
  unfold Live.store at done
  split at done
  · cases done
    rfl
  · cases done
    rfl
  · cases done
    rfl
  · cases done

/-- The part of `tomem` that stores a dirty register cleans it. -/
theorem writeback_undisturbed {host : Host N} {s₁ : Live N}
    (others : ∀ u ≠ v, s₁.state u = s.state u)
    (flat : (s.state v).Flat → (s₁.state v).Flat)
    (same : (s₁.state v).status ≠ .dirty → s₁.state v = s.state v)
    (whole : (s.state v).Whole → (s₁.state v).Whole)
    (done : s₁.writeback host v rr = some s') : Undisturbed r s s' := by
  unfold Live.writeback at done
  split at done
  next dirty =>
    obtain ⟨s₂, stored, rfl⟩ := Option.map_eq_some_iff.mp done
    have state := store_state stored
    refine .of_others (v := v) (fun u other => ?_) (fun before => ?_)
      fun _ => ⟨fun _ => ?_, fun before => ?_⟩
    · simp [Live.modify, state, other, others u other]
    · simpa [Live.modify, state, RegStatus.Flat] using (flat before).1
    · simp [Live.modify, RegStatus.Stored]
    · simpa [Live.modify, state, RegStatus.Whole] using whole before (.inr dirty)
  next clean =>
    cases done
    refine .of_others (v := v) others flat fun _ => ?_
    rw [same clean]
    exact ⟨id, id⟩

/-- What `tomem` leaves is clean if the register was in a native one. -/
theorem tomem_undisturbed {host : Host N} (done : s.tomem host v = some s') :
    Undisturbed r s s' := by
  unfold Live.tomem at done
  split at done
  · cases done
    exact .refl r _
  · unfold Live.applyOffset at done
    simp only at done
    split at done
    next fold =>
      refine writeback_undisturbed (fun u other => ?_) (fun _ => ?_) (fun clean => absurd ?_ clean)
        (fun whole => ?_) done
      · simp [Live.adjustNreg, Live.setReg, Live.modify, other]
      · simp [Live.adjustNreg, Live.setReg, Live.modify, RegStatus.Flat]
      · simp [Live.adjustNreg, Live.setReg, Live.modify]
      · simpa [Live.adjustNreg, Live.setReg, Live.modify, RegStatus.Whole] using
          whole (isinreg_iff.mp fold.1)
    · exact writeback_undisturbed (fun _ _ => rfl) id (fun _ => rfl) id done

theorem detach_undisturbed (s : Live N) (v : VReg) (rr : Fin N) :
    Undisturbed r s (s.detach v rr) := by
  unfold Live.detach
  simp only
  refine Undisturbed.trans ?_ (.modify rfl (fun flat => ⟨flat.1, by simp⟩) fun _ =>
    ⟨fun _ => .inl rfl, fun _ inreg => by rcases inreg with status | status <;> cases status⟩)
  split
  · split
    · exact .modify rfl id fun _ => ⟨id, id⟩
    · exact .of_state rfl
  · exact .of_state rfl

theorem evict_undisturbed {host : Host N} (done : s.evict host v = some s') :
    Undisturbed r s s' := by
  rw [Live.evict] at done
  split at done
  · cases done
    exact .refl r _
  · obtain ⟨s₁, stored, done⟩ := Option.bind_eq_some_iff.mp done
    have before : Undisturbed r s s₁ := tomem_undisturbed stored
    split at done
    · cases done
      exact before
    · rw [Option.ite_none_left_eq_some, Option.some_inj] at done
      obtain ⟨-, rfl⟩ := done
      exact before.trans (detach_undisturbed s₁ v _)

/-! ### A native register that is locked -/

/-- An access to `r` leaves the contents of `n` alone, and takes nothing but `r` out of it. -/
structure Spared (r : VReg) (n : Fin N) (s s' : Live N) : Prop where
  regs : s'.regs n = s.regs n
  holds : ∀ u ∈ (s'.nat n).holds, u ∈ (s.nat n).holds
  others : ∀ u ∈ (s.nat n).holds, u ≠ r → u ∈ (s'.nat n).holds

theorem Spared.refl (r : VReg) (n : Fin N) (s : Live N) : Spared r n s s :=
  ⟨rfl, fun _ => id, fun _ held _ => held⟩

theorem Spared.trans (first : Spared r n s s') (second : Spared r n s' s'') : Spared r n s s'' :=
  ⟨second.regs.trans first.regs, fun u held => first.holds u (second.holds u held),
    fun u held other => second.others u (first.others u held other) other⟩

theorem Spared.of_eq (holds : (s'.nat n).holds = (s.nat n).holds) (regs : s'.regs n = s.regs n) :
    Spared r n s s' :=
  ⟨regs, fun u held => by rwa [holds] at held, fun u held _ => by rwa [holds]⟩

theorem Live.SameHeld.spared (same : s.SameHeld s') : Spared r n s s' :=
  .of_eq (same.holds n) (congrFun same.regs n)

/-- Nothing else was in `n` if nothing else is. -/
theorem Spared.alone (spared : Spared r n s s') (linked : s.Linked)
    (alone : (s'.nat n).holds = [r]) : (s.nat n).holds = [r] := by
  have held : r ∈ (s.nat n).holds := spared.holds r (by rw [alone]; exact List.mem_singleton_self r)
  have only (u : VReg) (held' : u ∈ (s.nat n).holds) : u = r := by
    by_contra other
    have still := spared.others u held' other
    rw [alone] at still
    exact other (List.mem_singleton.mp still)
  have nodup := linked.nodup n
  generalize (s.nat n).holds = holds at held only nodup
  match holds with
  | [] => cases held
  | [u] => rw [only u (List.mem_singleton_self u)]
  | u :: v :: rest =>
    have first := only u List.mem_cons_self
    have second := only v (List.mem_cons_of_mem _ List.mem_cons_self)
    rw [first, second] at nodup
    exact absurd List.mem_cons_self (List.nodup_cons.mp nodup).1

/-- A register that is alone in `n` has its bytes there already. -/
def Live.Ready (s : Live N) (r : VReg) (size : Nat) (n : Fin N) : Prop :=
  (s.nat n).holds = [r] → size = 4 → (s.state r).validsize = 4

/-- It has no offset that is to be added. -/
def Live.Settled (s : Live N) (r : VReg) (n : Fin N) : Prop :=
  (s.nat n).holds = [r] → (s.state r).val = 0

/-- Locked, and not as often as the counter can tell. -/
def Live.Locked (s : Live N) (n : Fin N) : Prop :=
  (s.nat n).locked ≠ 0 ∧ (s.nat n).locked + 1 ≠ 0

/-- An access to `reg` that wants `size` bytes of it, and a native register it should leave alone:
whether it removes offsets and splits registers, and whether anything is claimed of `nat`. -/
structure Guard (N : Nat) where
  host : Host N
  reg : VReg
  nat : Fin N
  size : Nat
  offset : Bool
  splits : Bool
  claim : Prop

/-- Nothing is claimed. -/
def Guard.off (host : Host N) (r : VReg) (n : Fin N) : Guard N := ⟨host, r, n, 0, true, true, False⟩

variable {g : Guard N}

structure Live.Guarded (g : Guard N) (s : Live N) : Prop where
  claimed : g.claim
  inv : s.Inv g.host fun _ => 0
  locked : (s.nat g.nat).locked ≠ 0
  again : g.splits = true → (s.nat g.nat).locked + 1 ≠ 0
  ready : s.Ready g.reg g.size g.nat
  settled : g.offset = true → s.Settled g.reg g.nat

theorem Live.Guarded.next (guarded : s.Guarded g) (spared : Spared g.reg g.nat s s')
    (inv : s'.Inv g.host fun _ => 0) (locked : (s'.nat g.nat).locked = (s.nat g.nat).locked)
    (state : (s'.nat g.nat).holds = [g.reg] →
      (s'.state g.reg).validsize = (s.state g.reg).validsize ∧
        (s'.state g.reg).val = (s.state g.reg).val) : s'.Guarded g := by
  have before := spared.alone guarded.inv.linked
  refine ⟨guarded.claimed, inv, by rw [locked]; exact guarded.locked, fun splits => ?_,
    fun alone whole => ?_, fun offset alone => ?_⟩
  · rw [locked]
    exact guarded.again splits
  · rw [(state alone).1]
    exact guarded.ready (before alone) whole
  · rw [(state alone).2]
    exact guarded.settled offset (before alone)

/-- A step of the access. -/
structure Gentle (g : Guard N) (s s' : Live N) : Prop where
  undisturbed : Undisturbed g.reg s s'
  spared : s.Guarded g → Spared g.reg g.nat s s' ∧ s'.Guarded g

theorem Gentle.refl (g : Guard N) (s : Live N) : Gentle g s s :=
  ⟨.refl g.reg s, fun guarded => ⟨.refl g.reg g.nat s, guarded⟩⟩

theorem Gentle.trans (first : Gentle g s s') (second : Gentle g s' s'') : Gentle g s s'' := by
  refine ⟨first.undisturbed.trans second.undisturbed, fun guarded => ?_⟩
  obtain ⟨spared, guarded⟩ := first.spared guarded
  obtain ⟨spared', guarded⟩ := second.spared guarded
  exact ⟨spared.trans spared', guarded⟩

/-! ### Evictions -/

theorem evict_spared {host : Host N} {known : VReg → Nat} (inv : s.Inv host known)
    (locked : (s.nat n).locked ≠ 0) (away : v = r ∨ v ∉ (s.nat n).holds)
    (done : s.evict host v = some s') : Spared r n s s' := by
  rcases inv.linked.cases v with out | ⟨b, held, inreg, realreg⟩
  · rw [Live.evict, if_pos (by simp [out])] at done
    cases done
    exact .refl r n s
  · have gone := evict_spec inv held done
    by_cases here : b = n
    · subst here
      rcases away with rfl | away
      · -- A register that is locked is not left by its only entry.
        rw [Live.evict, if_neg (not_not.mpr inreg)] at done
        obtain ⟨s₁, stored, removed⟩ := Option.bind_eq_some_iff.mp done
        obtain ⟨-, st, m, c, rfl, stays, reg, -⟩ := tomem_spec inv held stored
        have state : (s.revise v b st m c).state v = st := Function.update_self _ _ _
        simp only [state, stays.2.1, realreg] at removed
        rw [Option.ite_none_left_eq_some] at removed
        obtain ⟨shared, removed⟩ := removed
        have kept : c = s.regs b := reg.resolve_right fun alone =>
          shared ⟨locked, congrArg List.length alone⟩
        cases removed
        refine ⟨?_, fun u held' => ((gone.holds u).mp held').1,
          fun u held' other => (gone.holds u).mpr ⟨held', other⟩⟩
        rw [detach_regs, kept]
        exact congrFun (Function.update_eq_self b s.regs) b
      · exact absurd held away
    · exact .of_eq (by rw [gone.nat n (Ne.symm here)]) (gone.regs n (Ne.symm here))

theorem evict_gentle (away : g.claim → v = g.reg ∨ v ∉ (s.nat g.nat).holds)
    (done : s.evict g.host v = some s') : Gentle g s s' := by
  refine ⟨evict_undisturbed done, fun guarded => ?_⟩
  have spared := evict_spared guarded.inv guarded.locked (away guarded.claimed) done
  rcases guarded.inv.linked.cases v with out | ⟨b, held, -, -⟩
  · rw [Live.evict, if_pos (by simp [out])] at done
    cases done
    exact ⟨spared, guarded⟩
  · have gone := evict_spec guarded.inv held done
    refine ⟨spared, guarded.next spared gone.served.inv (gone.served.locked _) fun alone => ?_⟩
    by_cases same : g.reg = v
    · -- It has left.
      have inreg := ((gone.served.inv.linked.holds_iff g.nat g.reg).mp
        (by rw [alone]; exact List.mem_singleton_self _)).1
      rw [same, Live.isinreg, gone.status] at inreg
      cases inreg
    · by_cases near : g.reg ∈ (s.nat b).holds
      · have alike := (gone.stay g.reg near same).1
        exact ⟨alike.validsize, alike.val⟩
      · rw [(gone.other g.reg near).1]
        exact ⟨rfl, rfl⟩

/-- Whatever is evicted from another register is not in this one. -/
theorem evictEntry_gentle (apart : g.claim → g.nat ≠ b) {i : Nat}
    (entry : (s.nat b).holds[i]? = some v) (done : s.evict g.host v = some s') : Gentle g s s' := by
  refine ⟨evict_undisturbed done, fun guarded => ?_⟩
  refine (evict_gentle (fun claim => .inr fun held => apart claim ?_) done).spared guarded
  exact guarded.inv.linked.unique held (List.mem_of_getElem? entry)

theorem evictFrom_gentle (apart : g.claim → g.nat ≠ b) {i : Nat}
    (done : s.evictFrom g.host b i = some s') : Gentle g s s' := by
  induction i generalizing s with
  | zero =>
    cases done
    exact .refl g _
  | succ i ih =>
    rw [Live.evictFrom] at done
    split at done
    next entry =>
      obtain ⟨s₁, evicted, rest⟩ := Option.bind_eq_some_iff.mp done
      exact (evictEntry_gentle apart entry evicted).trans (ih rest)
    · exact ih done

theorem freed_gentle (apart : g.claim → g.nat ≠ b)
    (done : (if 0 < s.nholds b then s.freeNreg g.host b else some s) = some s') :
    Gentle g s s' := by
  split at done
  · obtain ⟨s₁, evicted, rest⟩ := Option.bind_eq_some_iff.mp done
    rw [Option.ite_none_left_eq_some, Option.some_inj] at rest
    obtain ⟨-, rfl⟩ := rest
    exact evictFrom_gentle apart evicted
  · cases done
    exact .refl g _

theorem evictOthers_gentle (apart : g.claim → g.nat ≠ rr) {rounds i : Nat}
    (done : s.evictOthers g.host v rr rounds i = some s') : Gentle g s s' := by
  induction rounds generalizing s i with
  | zero =>
    cases done
    exact .refl g _
  | succ rounds ih =>
    rw [Live.evictOthers] at done
    split at done
    · cases done
      exact .refl g _
    next entry =>
      split at done
      · obtain ⟨s₁, evicted, rest⟩ := Option.bind_eq_some_iff.mp done
        exact (evictEntry_gentle apart entry evicted).trans (ih rest)
      · exact ih done

/-- What is claimed of a locked register may be claimed in a step for which others are unlocked. -/
theorem Gentle.of_unlocked (unlocked : (s.nat b).locked = 0)
    (step : ∀ claim : Prop, (claim → g.nat ≠ b) → Gentle { g with claim } s s') :
    Gentle g s s' := by
  refine ⟨(step False False.elim).undisturbed, fun guarded => ?_⟩
  refine (step g.claim fun _ same => ?_).spared guarded
  exact guarded.locked (same ▸ unlocked)

/-! ### Allocation -/

theorem fill_undisturbed (host : Host N) (s : Live N) (r : VReg) (b : Fin N) (size : Nat)
    (willclobber : Bool) : Undisturbed r s (s.fill host r b size willclobber) := by
  unfold Live.fill
  split
  · refine Undisturbed.trans ?_ (.own rfl id)
    split
    · split
      · exact .own rfl (fun _ => ⟨rfl, by simp⟩)
      · exact .own rfl (fun flat => ⟨flat.1, by simp⟩)
    · exact .own rfl (fun _ => ⟨rfl, by simp⟩)
  · split
    · exact .own rfl (fun _ => ⟨rfl, by simp⟩)
    · exact .own rfl (fun _ => ⟨rfl, by simp⟩)

theorem take_undisturbed (host : Host N) (s : Live N) (r : VReg) (b : Fin N) (size : Nat)
    (willclobber : Bool) : Undisturbed r s (s.take host r b size willclobber) := by
  refine (fill_undisturbed host s r b size willclobber).trans (.of_others (v := r)
    (fun u other => ?_) ?_ fun other => absurd rfl other)
  · simp [Live.take, Live.enter, Live.touch, Live.modify, Live.modifyNat, other]
  · simp [Live.take, Live.enter, Live.touch, Live.modify, Live.modifyNat, RegStatus.Flat]

theorem fill_frame (host : Host N) (s : Live N) (r : VReg) {b : Fin N} (size : Nat)
    (willclobber : Bool) (apart : n ≠ b) :
    (s.fill host r b size willclobber).nat = s.nat ∧
      (s.fill host r b size willclobber).regs n = s.regs n := by
  have other (c : BitVec 32) : Function.update s.regs b c n = s.regs n :=
    Function.update_of_ne apart _ _
  unfold Live.fill
  split
  · simp only
    split
    · split
      · exact ⟨rfl, other _⟩
      · exact ⟨rfl, other _⟩
    · exact ⟨rfl, rfl⟩
  · split
    · exact ⟨rfl, rfl⟩
    · exact ⟨rfl, other _⟩

theorem take_spared (host : Host N) (s : Live N) (r : VReg) {b : Fin N} (size : Nat)
    (willclobber : Bool) (apart : n ≠ b) : Spared r n s (s.take host r b size willclobber) := by
  obtain ⟨nat, regs⟩ := fill_frame host s r size willclobber apart
  refine .of_eq ?_ regs
  simp [Live.take, Live.enter, Live.touch, Live.modify, Live.modifyNat, apart, nat]

theorem mergeHalves_frame (s : Live N) (r : VReg) (rr b : Fin N) :
    Undisturbed r s (s.mergeHalves r rr b) ∧
      (n ≠ rr → n ≠ b → Spared r n s (s.mergeHalves r rr b)) := by
  refine ⟨?_, fun away apart => .of_eq rfl ?_⟩
  · unfold Live.mergeHalves
    exact .own rfl id
  · simp [Live.mergeHalves, Live.setReg, Live.modify, away, apart]

theorem allocReg_alone {host : Host N} {willclobber : Bool} {hint : Option (Fin N)}
    (inv : s.Inv host fun _ => 0)
    (done : s.allocRegHinted host r size willclobber hint = some (m, s')) :
    s'.Inv host (fun _ => 0) ∧ (s'.nat m).holds = [r] ∧
      ∀ n, (s'.nat n).locked = (s.nat n).locked := by
  cases willclobber with
  | true =>
    obtain ⟨renewed, alone, -⟩ := allocReg_clobbered inv done
    exact ⟨renewed.inv, alone, renewed.served.locked⟩
  | false =>
    obtain ⟨served, alone, -⟩ := allocReg_spec inv (fun _ => rfl) done
    exact ⟨served.inv, alone, served.locked⟩

theorem allocReg_gentle {willclobber : Bool} {hint : Option (Fin N)}
    (wide : s.Guarded g → (s.nat g.nat).holds = [g.reg] → size = 4 → g.size = 4)
    (done : s.allocRegHinted g.host g.reg size willclobber hint = some (m, s')) :
    Gentle g s s' := by
  have allocated := done
  obtain ⟨b, s₁, ⟨unlocked, -⟩, free, outcome⟩ := allocReg_cases done
  have apart (guarded : s.Guarded g) : g.nat ≠ b := fun same => guarded.locked (same ▸ unlocked)
  have freed : Gentle g s s₁ := .of_unlocked unlocked fun _ apart => freed_gentle apart free
  have rest : Undisturbed g.reg s₁ s' ∧
      (s.Guarded g → Spared g.reg g.nat s₁ s' ∧ g.nat ≠ m) := by
    rcases outcome with ⟨-, rfl, rfl⟩ | ⟨-, inreg, rr, realreg, single, outcome⟩
    · exact ⟨take_undisturbed .., fun guarded =>
        ⟨take_spared g.host s₁ g.reg size willclobber (apart guarded), apart guarded⟩⟩
    rcases outcome with ⟨four, half, rfl, rfl⟩ | ⟨rfl, s₂, evicted, rfl⟩
    · obtain ⟨undisturbed, spared⟩ := mergeHalves_frame (n := g.nat) s₁ g.reg m b
      refine ⟨undisturbed.trans (.of_state rfl), fun guarded => ?_⟩
      obtain ⟨before, guarded₁⟩ := freed.spared guarded
      -- The register that is completed is not one that is ready.
      have away : g.nat ≠ m := by
        rintro rfl
        have alone := holds_eq_singleton (guarded₁.inv.linked.mem_of_isinreg inreg realreg) single
        have whole := guarded₁.ready alone
          (wide guarded (before.alone guarded.inv.linked alone) four)
        rw [half] at whole
        exact absurd whole (by decide)
      exact ⟨(spared away (apart guarded)).trans (touch_held _ m).spared, away⟩
    · have gone : Gentle g s₁ s₂ := evict_gentle (fun _ => .inl rfl) evicted
      refine ⟨gone.undisturbed.trans (take_undisturbed ..), fun guarded => ?_⟩
      have before := (gone.spared (freed.spared guarded).2).1
      exact ⟨before.trans (take_spared g.host s₂ g.reg size willclobber (apart guarded)),
        apart guarded⟩
  refine ⟨freed.undisturbed.trans rest.1, fun guarded => ?_⟩
  obtain ⟨after, away⟩ := rest.2 guarded
  have spared := (freed.spared guarded).1.trans after
  obtain ⟨inv, alone, locked⟩ := allocReg_alone guarded.inv allocated
  refine ⟨spared, guarded.next spared inv (locked g.nat) fun here => absurd ?_ away⟩
  refine inv.linked.unique (v := g.reg) ?_ ?_
  · rw [here]
    exact List.mem_singleton_self g.reg
  · rw [alone]
    exact List.mem_singleton_self g.reg

/-! ### Splits -/

theorem isclean_undisturbed (s : Live N) (r : VReg) : Undisturbed r s (s.isclean r) := by
  rw [Live.isclean]
  split
  · exact .refl r s
  · exact .own rfl fun _ => ⟨rfl, by simp⟩

theorem disassociate_undisturbed {host : Host N} (done : s.disassociate host r = some s') :
    Undisturbed r s s' :=
  (isclean_undisturbed s r).trans (evict_undisturbed done)

theorem isclean_gentle (s : Live N) : Gentle g s (s.isclean g.reg) := by
  refine ⟨isclean_undisturbed s g.reg, fun guarded => ?_⟩
  rw [Live.isclean]
  split
  · exact ⟨.refl _ _ s, guarded⟩
  next inreg =>
    obtain ⟨b, held⟩ := guarded.inv.linked.somewhere g.reg (not_not.mp inreg)
    have inv := guarded.inv.revise held (m := s.mem g.reg)
      (show (s.state g.reg).Stays
        { s.state g.reg with validsize := 4, dirtysize := 0, val := 0, status := .clean } from
          ⟨.inl rfl, rfl, rfl⟩) (.inl rfl)
      ⟨.inl ⟨rfl, rfl⟩, .inr (.inr rfl), Nat.zero_le _, fun _ => rfl,
        fun i low => absurd low (Nat.not_lt_zero i)⟩
      (fun less => absurd less (Nat.lt_irrefl 4)) (fun one => absurd one Nat.zero_ne_one)
    have eq : s.revise g.reg b
        { s.state g.reg with validsize := 4, dirtysize := 0, val := 0, status := .clean }
        (s.mem g.reg) (s.regs b) = s.modify g.reg fun st =>
          { st with validsize := 4, dirtysize := 0, val := 0, status := .clean } := by
      simp [Live.modify, Live.revise]
    rw [eq] at inv
    refine ⟨.of_eq rfl rfl, guarded.claimed, inv, guarded.locked, guarded.again,
      fun _ _ => ?_, fun _ _ => ?_⟩
    · simp [Live.modify]
    · simp [Live.modify]

theorem disassociate_gentle (done : s.disassociate g.host g.reg = some s') : Gentle g s s' :=
  (isclean_gentle s).trans (evict_gentle (fun _ => .inl rfl) done)

/-- What is restored of a register is what its record said, and nothing but `nr` is written. -/
theorem restore_frame (s : Live N) (r : VReg) (rr nr : Fin N) (size : Nat) (old : RegStatus N) :
    (∀ u ≠ r, (s.restore r rr nr size old).state u = s.state u) ∧
      (old.Flat → ((s.restore r rr nr size old).state r).Flat) ∧
      ∀ n ≠ nr, (s.restore r rr nr size old).regs n = s.regs n := by
  unfold Live.restore
  simp only
  split
  · split
    · refine ⟨fun u other => ?_, fun _ => ?_, fun n apart => Function.update_of_ne apart _ _⟩
      · simp [Live.setReg, Live.modify, other]
      · simp [Live.setReg, Live.modify, RegStatus.Flat]
    · refine ⟨fun u other => ?_, fun flat => ?_, fun n apart => Function.update_of_ne apart _ _⟩
      · simp [Live.setReg, Live.modify, other]
      · simpa [Live.setReg, Live.modify, RegStatus.Flat] using flat
  · refine ⟨fun u other => ?_, fun flat => ?_, fun _ _ => rfl⟩
    · simp [Live.modify, other]
    · simpa [Live.modify, RegStatus.Flat] using flat

theorem setlock_locked (locked : s.Locked n) (rr : Fin N) :
    ((s.setlock rr).nat n).locked ≠ 0 := by
  by_cases here : n = rr
  · subst here
    simpa [Live.setlock, Live.modifyNat] using locked.2
  · simpa [Live.setlock, Live.modifyNat, here] using locked.1

theorem splitOff_frame (splits : g.splits = true)
    (done : s.splitOff g.host g.reg rr size spec = some s') :
    Undisturbed g.reg s s' ∧ (s.Guarded g → Spared g.reg g.nat s s') := by
  rw [Live.splitOff] at done
  obtain ⟨s₂, left, done⟩ := Option.bind_eq_some_iff.mp done
  obtain ⟨⟨nr, s₃⟩, allocated, unlocked⟩ := Option.bind_eq_some_iff.mp done
  dsimp only at unlocked
  have held := setlock_held s rr
  have gone : Gentle { g with splits := false } (s.setlock rr) s₂ := disassociate_gentle left
  have taken (claim : Prop) (out : claim → s₂.isinreg g.reg = false) :
      Gentle { g with splits := false, claim } s₂ s₃ := by
    have wide (guarded : s₂.Guarded { g with splits := false, claim })
        (alone : (s₂.nat g.nat).holds = [g.reg]) : False := by
      refine guarded.inv.linked.not_mem (out guarded.claimed) g.nat ?_
      rw [alone]
      exact List.mem_singleton_self g.reg
    split at allocated
    · exact allocReg_gentle (fun guarded alone => (wide guarded alone).elim) allocated
    · exact allocReg_gentle (fun guarded alone => (wide guarded alone).elim) allocated
  obtain ⟨others, flat, regs⟩ := restore_frame s₃ g.reg rr nr size (s.state g.reg)
  have same := unlock2_held unlocked
  refine ⟨?_, fun guarded => ?_⟩
  · have before := (Undisturbed.of_state (s := s) held.state).trans
      (gone.undisturbed.trans (taken False False.elim).undisturbed)
    refine Undisturbed.trans ⟨fun u flat' => ?_, fun u other => ?_⟩ (.of_state same.state)
    · by_cases here : u = g.reg
      · subst here
        exact flat flat'
      · rw [others u here]
        exact before.flat u flat'
    · rw [others u other]
      exact before.others u other
  · have guarded₁ : (s.setlock rr).Guarded { g with splits := false } := by
      refine ⟨guarded.claimed, held.inv guarded.inv,
        setlock_locked ⟨guarded.locked, guarded.again splits⟩ rr, by simp, ?_, fun offset => ?_⟩
      · intro alone
        rw [held.holds] at alone
        exact guarded.ready alone
      · intro alone
        rw [held.holds] at alone
        exact guarded.settled offset alone
    obtain ⟨spared, guarded₂⟩ := gone.spared guarded₁
    have out := (disassociate_spec guarded₁.inv rfl left).2.1
    obtain ⟨spared', guarded₃⟩ := (taken g.claim fun _ => out).spared guarded₂
    have alone : (s₃.nat nr).holds = [g.reg] := by
      split at allocated
      · exact (allocReg_alone guarded₂.inv allocated).2.1
      · exact (allocReg_alone guarded₂.inv allocated).2.1
    have apart : g.nat ≠ nr := by
      rintro rfl
      refine guarded₂.inv.linked.not_mem out g.nat (spared'.holds g.reg ?_)
      rw [alone]
      exact List.mem_singleton_self g.reg
    exact (((held.spared.trans spared).trans spared').trans
      (.of_eq (congrArg (fun nat => (nat g.nat).holds) (restore_nat s₃ g.reg rr nr size _))
        (regs g.nat apart))).trans same.spared

theorem makeExclusive_gentle (splits : g.splits = true)
    (done : s.makeExclusive g.host g.reg size spec = some s') : Gentle g s s' := by
  have exclusive := done
  rw [Live.makeExclusive] at done
  split at done
  next rr inreg realreg =>
    split at done
    · cases done
      exact .refl g _
    next shared =>
      have rest : Undisturbed g.reg s s' ∧ (s.Guarded g → Spared g.reg g.nat s s') := by
        split at done
        next clean =>
          obtain ⟨s₁, evicted, left⟩ := Option.bind_eq_some_iff.mp done
          rw [Option.ite_none_left_eq_some, Option.some_inj] at left
          obtain ⟨-, rfl⟩ := left
          have gone : Gentle g s s₁ :=
            .of_unlocked clean.2.2 fun _ apart => evictOthers_gentle apart evicted
          exact ⟨gone.undisturbed, fun guarded => (gone.spared guarded).1⟩
        · exact splitOff_frame splits done
      refine ⟨rest.1, fun guarded => ?_⟩
      have spared := rest.2 guarded
      have served := (makeExclusive_spec guarded.inv (fun _ => rfl) exclusive).1
      refine ⟨spared, guarded.next spared served.inv (served.locked _)
        fun alone => absurd ?_ shared⟩
      -- It was not alone before.
      have before := spared.alone guarded.inv.linked alone
      have held := guarded.inv.linked.mem_of_isinreg inreg realreg
      obtain rfl : g.nat = rr := by
        refine guarded.inv.linked.unique ?_ held
        rw [before]
        exact List.mem_singleton_self g.reg
      exact congrArg List.length before
  · cases done
    exact .refl g _

/-! ### Offsets -/

theorem foldOffset_gentle (offset : g.offset = true)
    (inreg : s.Guarded g → s.isinreg g.reg = true) (done : s.foldOffset g.reg = some s') :
    Gentle g s s' ∧ (s'.state g.reg).val = 0 := by
  have folded := done
  rw [Live.foldOffset] at done
  split at done
  next zero =>
    cases done
    exact ⟨.refl g _, zero⟩
  next some =>
    split at done
    · cases done
    next rr realreg =>
      rw [Option.ite_none_right_eq_some, Option.some_inj] at done
      obtain ⟨single, rfl⟩ := done
      refine ⟨⟨.own rfl fun _ => ⟨rfl, by simp⟩, fun guarded => ?_⟩, by simp [Live.modify]⟩
      have alone := holds_eq_singleton
        (guarded.inv.linked.mem_of_isinreg (inreg guarded) realreg) single
      have apart : g.nat ≠ rr := by
        rintro rfl
        exact some (guarded.settled offset alone)
      have served := foldOffset_spec guarded.inv alone folded
      refine ⟨.of_eq rfl (Function.update_of_ne apart _ _), guarded.next
        (.of_eq rfl (Function.update_of_ne apart _ _)) served.inv (served.locked _)
        fun here => absurd ?_ apart⟩
      refine guarded.inv.linked.unique (v := g.reg) ?_ ?_
      · exact here ▸ List.mem_singleton_self g.reg
      · exact alone ▸ List.mem_singleton_self g.reg

theorem isinreg_of_alone (linked : s.Linked) (alone : (s.nat n).holds = [r]) :
    s.isinreg r = true :=
  ((linked.holds_iff n r).mp (by rw [alone]; exact List.mem_singleton_self r)).1

/-- Nothing is to be added to what is loaded. -/
def Live.Unshifted (s : Live N) (r : VReg) : Prop := s.isconst r = true ∨ (s.state r).val = 0

theorem removeOffset_gentle (offset : g.offset = true) (splits : g.splits = true)
    (done : s.removeOffset g.host g.reg spec = some s') :
    Gentle g s s' ∧ s'.Unshifted g.reg := by
  rw [Live.removeOffset] at done
  split at done
  next whole =>
    cases done
    exact ⟨.refl g _, whole⟩
  · obtain ⟨s₁, evicted, done⟩ := Option.bind_eq_some_iff.mp done
    obtain ⟨s₂, loaded, done⟩ := Option.bind_eq_some_iff.mp done
    rw [Option.ite_none_left_eq_some] at done
    obtain ⟨s₃, exclusive, folded⟩ := Option.bind_eq_some_iff.mp done.2
    have first : Gentle g s s₁ := by
      split at evicted
      · exact evict_gentle (fun _ => .inl rfl) evicted
      · cases evicted
        exact .refl g _
    have second : Gentle g s₁ s₂ ∧ (s₁.Guarded g → s₂.isinreg g.reg = true) := by
      split at loaded
      next out =>
        obtain ⟨⟨m, s₂⟩, allocated, rfl⟩ := Option.map_eq_some_iff.mp loaded
        refine ⟨allocReg_gentle (fun guarded alone => ?_) allocated, fun guarded => ?_⟩
        · exact absurd (isinreg_of_alone guarded.inv.linked alone) out
        · obtain ⟨inv, alone, -⟩ := allocReg_alone guarded.inv allocated
          exact isinreg_of_alone inv.linked alone
      next inreg =>
        cases loaded
        exact ⟨.refl g _, fun _ => not_not.mp inreg⟩
    have third : Gentle g s₂ s₃ := makeExclusive_gentle splits exclusive
    have fold (claim : Prop) (inreg : claim → s₃.isinreg g.reg = true) :
        Gentle { g with claim } s₃ s' ∧ (s'.state g.reg).val = 0 :=
      foldOffset_gentle offset (fun guarded => inreg guarded.claimed) folded
    obtain ⟨last, zero⟩ := fold False False.elim
    refine ⟨⟨((first.trans second.1).trans third).undisturbed.trans last.undisturbed,
      fun guarded => ?_⟩, .inr zero⟩
    obtain ⟨spared₁, guarded₁⟩ := first.spared guarded
    obtain ⟨spared₂, guarded₂⟩ := second.1.spared guarded₁
    obtain ⟨spared₃, guarded₃⟩ := third.spared guarded₂
    have inreg : s₃.isinreg g.reg = true := by
      obtain ⟨served, -, alone⟩ := makeExclusive_spec guarded₂.inv (fun _ => rfl) exclusive
      obtain ⟨m, alone⟩ := alone (second.2 guarded₁)
      exact isinreg_of_alone served.inv.linked alone
    obtain ⟨spared₄, guarded₄⟩ := (fold g.claim fun _ => inreg).1.spared guarded₃
    exact ⟨((spared₁.trans spared₂).trans spared₃).trans spared₄, guarded₄⟩

theorem removeOffset_inreg {host : Host N} {known : VReg → Nat} (inv : s.Inv host known)
    (inreg : s.isinreg r = true) (done : s.removeOffset host r spec = some s') :
    s'.isinreg r = true := by
  have inv₀ : s.Inv host fun _ => 0 := inv.mono fun v => Nat.zero_le (known v)
  obtain ⟨rr, held⟩ := inv.linked.somewhere r inreg
  rw [Live.removeOffset] at done
  split at done
  · cases done
    exact inreg
  next offset =>
    have whole : (s.state r).validsize = 4 :=
      (inv.placed rr r held).offset fun zero => offset (.inr zero)
    rw [if_neg (by omega), Option.bind_some, if_neg (not_not.mpr inreg), Option.bind_some,
      if_neg (not_not.mpr whole)] at done
    obtain ⟨s₁, exclusive, folded⟩ := Option.bind_eq_some_iff.mp done
    obtain ⟨served, -, alone⟩ := makeExclusive_spec inv₀ (fun _ => rfl) exclusive
    obtain ⟨n, holds⟩ := alone inreg
    have held₁ : r ∈ (s₁.nat n).holds := by
      rw [holds]
      exact List.mem_singleton_self r
    have inreg₁ := ((served.inv.linked.holds_iff n r).mp held₁).1
    rw [Live.foldOffset] at folded
    split at folded
    · cases folded
      exact inreg₁
    · split at folded
      · cases folded
      · rw [Option.ite_none_right_eq_some, Option.some_inj] at folded
        obtain ⟨-, rfl⟩ := folded
        simp [Live.isinreg, Live.modify]

/-! ### Accesses -/

theorem tryreg_gentle {alone : Bool} {found : Option (Fin N)}
    (done : s.tryreg g.host g.reg size spec alone = some (found, s')) : Gentle g s s' := by
  rw [Live.tryreg] at done
  split at done
  · split at done
    · rw [Option.ite_none_left_eq_some] at done
      obtain ⟨fits, -, answered⟩ := Option.bind_eq_some_iff.mp done.2
      cases fits with
      | true =>
        cases answered
        exact .refl g _
      | false =>
        obtain ⟨s₁, evicted, same⟩ := Option.map_eq_some_iff.mp answered
        cases same
        exact evict_gentle (fun _ => .inl rfl) evicted
    · cases done
      exact .refl g _
  · cases done
    exact .refl g _

theorem orAlloc_gentle {willclobber : Bool} {found : Option (Fin N) × Live N}
    (wide : g.claim → size = 4 → g.size = 4)
    (done : Live.orAlloc g.host g.reg size willclobber spec found = some (m, s')) :
    Gentle g found.2 s' := by
  obtain ⟨answer, s₁⟩ := found
  cases answer with
  | some answer =>
    cases done
    exact .refl g _
  | none => exact allocReg_gentle (fun guarded _ => wide guarded.claimed) done

/-- Registers that move along keep their records, but for the place. -/
theorem relocate_undisturbed (d : Fin N) (entries : List (VReg × Nat)) (s : Live N) :
    Undisturbed r s (s.relocate d entries) := by
  induction entries generalizing s with
  | nil => exact .refl r s
  | cons entry entries ih =>
    exact Undisturbed.trans (.modify rfl id fun _ => ⟨id, id⟩) (ih _)

/-- Nothing is claimed where a register is asked for by its number. -/
theorem moveTo_gentle (anywhere : g.claim → spec = none)
    (done : s.moveTo g.host spec m = some (n, s')) : Gentle g s s' := by
  cases spec with
  | none =>
    cases done
    exact .refl g _
  | some d =>
    obtain ⟨s₁, moved, same⟩ := Option.map_eq_some_iff.mp done
    cases same
    refine ⟨?_, fun guarded => absurd (anywhere guarded.claimed) (by simp)⟩
    rw [Live.movNregs] at moved
    split at moved
    · cases moved
      exact .refl _ _
    · obtain ⟨s₂, free, rfl⟩ := Option.map_eq_some_iff.mp moved
      have freed : Gentle (.off g.host g.reg n) s s₂ := freed_gentle False.elim free
      have copied : Undisturbed g.reg s₂ (s₂.setReg n (s₂.regs m)) := .of_state rfl
      have relocated := copied.trans (relocate_undisturbed n (s₂.nat m).holds.zipIdx _)
      exact (freed.undisturbed.trans relocated).trans (.of_state rfl)

theorem Gentle.answered {s₁ : Live N} (gentle : Gentle g s s₁) (same : s₁.SameHeld s') :
    Undisturbed g.reg s s' ∧ (s.Guarded g → Spared g.reg g.nat s s') :=
  ⟨gentle.undisturbed.trans (.of_state same.state), fun guarded =>
    (gentle.spared guarded).1.trans same.spared⟩

theorem readreg_frame {canOffset : Bool} (splits : g.splits = true)
    (offset : canOffset = false → g.offset = true)
    (anywhere : g.claim → spec = none ∧ size = g.size)
    (done : s.readregGeneral g.host g.reg size spec canOffset = some (m, s')) :
    Undisturbed g.reg s s' ∧ (s.Guarded g → Spared g.reg g.nat s s') := by
  rw [Live.readregGeneral] at done
  obtain ⟨s₁, removed, done⟩ := Option.bind_eq_some_iff.mp done
  obtain ⟨found, tried, done⟩ := Option.bind_eq_some_iff.mp done
  obtain ⟨⟨answer, s₂⟩, had, done⟩ := Option.bind_eq_some_iff.mp done
  obtain ⟨⟨m, s₃⟩, moved, same⟩ := Option.map_eq_some_iff.mp done
  cases same
  have first : Gentle g s s₁ := by
    split at removed
    next cannot => exact (removeOffset_gentle (offset (by simpa using cannot)) splits removed).1
    · cases removed
      exact .refl g _
  have second : Gentle g s₁ found.2 := tryreg_gentle tried
  have third : Gentle g found.2 s₂ := by
    refine orAlloc_gentle (fun claim four => ?_) had
    obtain ⟨rfl, same⟩ := anywhere claim
    exact same.symm.trans four
  have fourth : Gentle g s₂ s₃ := moveTo_gentle (fun claim => (anywhere claim).1) moved
  exact (((first.trans second).trans third).trans fourth).answered (lockAnswer_held s₃ m)

theorem modify_frame (s : Live N) (r : VReg) (n : Fin N) (f : RegStatus N → RegStatus N)
    (flat : (s.state r).Flat → (f (s.state r)).Flat) :
    Undisturbed r s (s.modify r f) ∧ Spared r n s (s.modify r f) :=
  ⟨.own rfl flat, .of_eq rfl rfl⟩

theorem widen_frame (s : Live N) (r : VReg) (size : Nat) (n : Fin N) :
    Undisturbed r s (s.widen r size) ∧ Spared r n s (s.widen r size) :=
  ⟨.own rfl id, .of_eq rfl rfl⟩

theorem modified_frame (done : Live.modified r size m s = some s') :
    Undisturbed r s s' ∧ Spared r n s s' := by
  rw [Live.modified, Option.ite_none_left_eq_some, Option.some_inj] at done
  obtain ⟨-, rfl⟩ := done
  obtain ⟨undisturbed, spared⟩ := widen_frame s r size n
  obtain ⟨undisturbed', spared'⟩ := modify_frame (s.widen r size) r n
    (fun st => { st with status := .dirty }) fun flat => ⟨flat.1, by simp⟩
  have locked :=
    lockAnswer_held ((s.widen r size).modify r fun st => { st with status := .dirty }) m
  exact ⟨(undisturbed.trans undisturbed').trans (.of_state locked.state),
    (spared.trans spared').trans locked.spared⟩

theorem rmw_frame {rsize : Nat} (splits : g.splits = true) (offset : g.offset = true)
    (anywhere : g.claim → spec = none ∧ rsize = g.size)
    (done : s.rmwGeneral g.host g.reg size rsize spec = some (m, s')) :
    Undisturbed g.reg s s' ∧ (s.Guarded g → Spared g.reg g.nat s s') := by
  obtain ⟨-, s₁, s₂, found, answer, s₃, s₄, removed, exclusive, tried, had, moved, modified⟩ :=
    rmwGeneral_cases done
  have first : Gentle g s s₁ := (removeOffset_gentle offset splits removed).1
  have second : Gentle g s₁ s₂ := makeExclusive_gentle splits exclusive
  have third : Gentle g s₂ found.2 := tryreg_gentle tried
  have fourth : Gentle g found.2 s₃ := by
    refine orAlloc_gentle (fun claim four => ?_) had
    obtain ⟨rfl, same⟩ := anywhere claim
    exact same.symm.trans four
  have fifth : Gentle g s₃ s₄ := moveTo_gentle (fun claim => (anywhere claim).1) moved
  have before := (((first.trans second).trans third).trans fourth).trans fifth
  obtain ⟨undisturbed, spared⟩ := modified_frame (n := g.nat) modified
  exact ⟨before.undisturbed.trans undisturbed, fun guarded =>
    (before.spared guarded).1.trans spared⟩

theorem tryWrite_frame {found : Option (Fin N)}
    (done : s.tryWrite g.host g.reg size spec = some (found, s')) :
    Undisturbed g.reg s s' ∧ (s.Guarded g → Spared g.reg g.nat s s') ∧
      (found = none → Gentle g s s') := by
  rw [Live.tryWrite] at done
  have gentle (gentle : Gentle g s s') : Undisturbed g.reg s s' ∧
      (s.Guarded g → Spared g.reg g.nat s s') ∧ (found = none → Gentle g s s') :=
    ⟨gentle.undisturbed, fun guarded => (gentle.spared guarded).1, fun _ => gentle⟩
  split at done
  · rw [Option.ite_none_left_eq_some] at done
    obtain ⟨fits, -, answered⟩ := Option.bind_eq_some_iff.mp done.2
    cases fits with
    | true =>
      cases answered
      obtain ⟨undisturbed, spared⟩ := widen_frame s g.reg size g.nat
      exact ⟨undisturbed, fun _ => spared, by simp⟩
    | false =>
      obtain ⟨s₁, evicted, same⟩ := Option.map_eq_some_iff.mp answered
      cases same
      exact gentle (evict_gentle (fun _ => .inl rfl) evicted)
  · cases done
    exact gentle (.refl g _)

theorem written_frame (done : Live.written r size m s = some s') :
    Undisturbed r s s' ∧ Spared r n s s' := by
  rw [Live.written, Option.ite_none_left_eq_some, Option.some_inj] at done
  obtain ⟨-, rfl⟩ := done
  have widened (s : Live N) : Undisturbed r s (Live.lockAnswer m (s.widen r size)) ∧
      Spared r n s (Live.lockAnswer m (s.widen r size)) := by
    obtain ⟨undisturbed, spared⟩ := widen_frame s r size n
    have locked := lockAnswer_held (s.widen r size) m
    exact ⟨undisturbed.trans (.of_state locked.state), spared.trans locked.spared⟩
  have dirtied (s : Live N) := modify_frame s r n
    (fun st => { st with status := .dirty, val := if size = 4 then 0 else st.val })
    fun flat => ⟨by simp [flat.1], by simp⟩
  split
  · obtain ⟨undisturbed₁, spared₁⟩ := modify_frame s r n (fun st => { st with validsize := 4 }) id
    obtain ⟨undisturbed₂, spared₂⟩ := widened (s.modify r fun st => { st with validsize := 4 })
    obtain ⟨undisturbed₃, spared₃⟩ := dirtied
      (Live.lockAnswer m ((s.modify r fun st => { st with validsize := 4 }).widen r size))
    exact ⟨(undisturbed₁.trans undisturbed₂).trans undisturbed₃,
      (spared₁.trans spared₂).trans spared₃⟩
  · obtain ⟨undisturbed₂, spared₂⟩ := widened s
    obtain ⟨undisturbed₃, spared₃⟩ := dirtied (Live.lockAnswer m (s.widen r size))
    exact ⟨undisturbed₂.trans undisturbed₃, spared₂.trans spared₃⟩

theorem writereg_frame (splits : g.splits = true) (offset : size < 4 → g.offset = true)
    (anywhere : g.claim → spec = none ∧ size = g.size)
    (done : s.writeregGeneral g.host g.reg size spec = some (m, s')) :
    Undisturbed g.reg s s' ∧ (s.Guarded g → Spared g.reg g.nat s s') := by
  obtain ⟨s₁, s₂, ⟨found, s₃⟩, answer, s₄, s₅, removed, exclusive, tried, had, moved, written⟩ :=
    writeregGeneral_cases done
  have first : Gentle g s s₁ := by
    split at removed
    next less => exact (removeOffset_gentle (offset less) splits removed).1
    · cases removed
      exact .refl g _
  have before : Gentle g s s₂ := first.trans (makeExclusive_gentle splits exclusive)
  obtain ⟨undisturbed, spared, gentle⟩ := tryWrite_frame tried
  have reached : Gentle g s₃ s₅ := by
    refine Gentle.trans (orAlloc_gentle (fun claim four => ?_) had)
      (moveTo_gentle (fun claim => (anywhere claim).1) moved)
    exact (anywhere claim).2.symm.trans four
  obtain ⟨undisturbed', spared'⟩ := written_frame (n := g.nat) written
  refine ⟨((before.undisturbed.trans undisturbed).trans reached.undisturbed).trans undisturbed',
    fun guarded => ?_⟩
  obtain ⟨spared₂, guarded₂⟩ := before.spared guarded
  cases found with
  | none =>
    obtain ⟨spared₃, guarded₃⟩ := (gentle rfl).spared guarded₂
    exact ((spared₂.trans spared₃).trans (reached.spared guarded₃).1).trans spared'
  | some found =>
    -- What has answered stays, and is where it was asked for.
    obtain ⟨rfl, -⟩ := anywhere guarded.claimed
    cases had
    cases moved
    exact (spared₂.trans (spared guarded₂)).trans spared'

section Access

variable {host : Host N} {known : VReg → Nat} {rsize : Nat} {canOffset : Bool}

theorem readreg_undisturbed (done : s.readregGeneral host r size spec canOffset = some (m, s')) :
    Undisturbed r s s' :=
  (readreg_frame (g := .off host r m) rfl (fun _ => rfl) False.elim done).1

theorem rmw_undisturbed (done : s.rmwGeneral host r size rsize spec = some (m, s')) :
    Undisturbed r s s' :=
  (rmw_frame (g := .off host r m) rfl rfl False.elim done).1

theorem writereg_undisturbed (done : s.writeregGeneral host r size spec = some (m, s')) :
    Undisturbed r s s' :=
  (writereg_frame (g := .off host r m) rfl (fun _ => rfl) False.elim done).1

theorem Live.Locked.guarded (locked : s.Locked n) (inv : s.Inv host known)
    (ready : s.Ready r size n) {offset : Bool} (settled : offset = true → s.Settled r n) :
    s.Guarded ⟨host, r, n, size, offset, true, True⟩ :=
  ⟨trivial, inv.mono fun v => Nat.zero_le (known v), locked.1, fun _ => locked.2, ready, settled⟩

/-- A read leaves a locked register alone, unless it completes or moves what is there. -/
theorem readreg_spared (inv : s.Inv host known) (locked : s.Locked n) (ready : s.Ready r size n)
    (settled : canOffset = false → s.Settled r n)
    (done : s.readregGeneral host r size none canOffset = some (m, s')) : Spared r n s s' :=
  (readreg_frame (g := ⟨host, r, n, size, !canOffset, true, True⟩) rfl
    (fun cannot => by simp [cannot]) (fun _ => ⟨rfl, rfl⟩) done).2
    (locked.guarded inv ready fun offset => settled (by simpa using offset))

theorem rmw_spared (inv : s.Inv host known) (locked : s.Locked n) (ready : s.Ready r rsize n)
    (settled : s.Settled r n) (done : s.rmwGeneral host r size rsize none = some (m, s')) :
    Spared r n s s' :=
  (rmw_frame (g := ⟨host, r, n, rsize, true, true, True⟩) rfl rfl (fun _ => ⟨rfl, rfl⟩) done).2
    (locked.guarded inv ready fun _ => settled)

theorem writereg_spared (inv : s.Inv host known) (locked : s.Locked n) (ready : s.Ready r size n)
    (settled : size < 4 → s.Settled r n)
    (done : s.writeregGeneral host r size none = some (m, s')) : Spared r n s s' :=
  (writereg_frame (g := ⟨host, r, n, size, decide (size < 4), true, True⟩) rfl
    (fun less => by simpa using less) (fun _ => ⟨rfl, rfl⟩) done).2
    (locked.guarded inv ready fun less => settled (by simpa using less))

end Access

end BasiliskII.Jit
