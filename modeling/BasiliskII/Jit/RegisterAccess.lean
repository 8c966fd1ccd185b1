import BasiliskII.Jit.RegisterMoves

/-!
# Access to registers

What a virtual register is read, written or modified through: it is made exclusive where it is to
change, and its offset is removed. Others keep what is known of their values all the while.
-/
namespace BasiliskII.Jit

open ByteLanes

variable {N : Nat} {host : Host N} {known : VReg → Nat} {s s' : Live N}

/-! ### make_exclusive -/

/-- All others are evicted from `rr`, and `r` is left there. -/
theorem evictOthers_spec (inv : s.Inv host known) {r : VReg} {rr : Fin N} {rounds i : Nat}
    (held : r ∈ (s.nat rr).holds) (done : s.evictOthers host r rr rounds i = some s') :
    Served host known none s s' ∧ r ∈ (s'.nat rr).holds := by
  induction rounds generalizing s i with
  | zero =>
    cases done
    exact ⟨.refl inv none, held⟩
  | succ rounds ih =>
    rw [Live.evictOthers] at done
    split at done
    · cases done
      exact ⟨.refl inv none, held⟩
    next vr entry =>
      split at done
      next other =>
        obtain ⟨now, evicted, rest⟩ := Option.bind_eq_some_iff.mp done
        have gone := evict_spec inv (List.mem_of_getElem? entry) evicted
        obtain ⟨served, still⟩ :=
          ih gone.served.inv ((gone.holds r).mpr ⟨held, Ne.symm other⟩) rest
        exact ⟨gone.served.trans served, still⟩
      · exact ih inv held done

theorem setlock_held (s : Live N) (n : Fin N) : s.SameHeld (s.setlock n) := by
  refine ⟨rfl, fun m => ?_, rfl, rfl⟩
  by_cases here : m = n
  · subst here
    simp [Live.setlock, Live.modifyNat]
  · simp [Live.setlock, Live.modifyNat, here]

theorem unlock2_held {n : Fin N} (done : s.unlock2 n = some s') : s.SameHeld s' := by
  rw [Live.unlock2, Option.ite_none_left_eq_some, Option.some_inj] at done
  obtain ⟨-, rfl⟩ := done
  refine ⟨rfl, fun m => ?_, rfl, rfl⟩
  by_cases here : m = n
  · subst here
    simp [Live.modifyNat]
  · simp [Live.modifyNat, here]

/-- A lock that is set and taken off again, with what is locked kept in between. -/
theorem unlock2_locked {s₁ : Live N} {n : Fin N}
    (kept : ∀ m, (s₁.nat m).locked = ((s.setlock n).nat m).locked)
    (done : s₁.unlock2 n = some s') (m : Fin N) : (s'.nat m).locked = (s.nat m).locked := by
  rw [Live.unlock2, Option.ite_none_left_eq_some, Option.some_inj] at done
  obtain ⟨-, rfl⟩ := done
  have before := kept m
  by_cases here : m = n
  · subst here
    simp only [Live.setlock, Live.modifyNat, Function.update_self] at before ⊢
    rw [before, BitVec.add_sub_cancel]
  · simpa [Live.setlock, Live.modifyNat, here] using before

/-- What is restored of a register is no less than was known of it. -/
theorem restore_spec (r : VReg) {rr : Fin N} (nr : Fin N) {size k : Nat} {old : RegStatus N}
    {m c₀ : BitVec 32} (placed : Placed k old m c₀) (whole : old.validsize = 4)
    (narrow : 4 ≤ size → k = 0) (reg : s.regs rr = c₀) :
    ∃ (st : RegStatus N) (c : BitVec 32), s.restore r rr nr size old = s.revise r nr
        { st with realreg := some nr, realind := (s.state r).realind } (s.mem r) c ∧
      Placed k st m c ∧ st.validsize = 4 ∧ SameLow k (c + st.val) (c₀ + old.val) ∧
      (st.dirtysize = 1 → old.dirtysize = 1) := by
  rw [Live.restore]
  by_cases copied : size < old.validsize
  · rw [if_pos copied]
    by_cases val : old.val = 0
    · rw [if_neg (not_not.mpr val)]
      refine ⟨old, c₀, ?_, placed, whole, .refl _ _, id⟩
      simp [Live.modify, Live.setReg, Live.revise, reg]
    · rw [if_pos val]
      refine ⟨{ old with val := 0, dirtysize := 4, status := .dirty }, c₀ + old.val, ?_, ?_, whole,
        ?_, fun one => absurd one (by decide : 4 ≠ 1)⟩
      · simp [Live.modify, Live.setReg, Live.revise, reg]
      · refine ⟨.inr ⟨rfl, .inr (.inr rfl)⟩, placed.valid, whole.ge, fun moved => absurd rfl moved,
          fun i _ high low => absurd low ?_⟩
        rw [show 8 * old.validsize = 8 * 4 by rw [whole]]
        exact Nat.not_lt.mpr high
      · simpa using SameLow.refl _ _
  · -- The register is to be written whole.
    rw [if_neg copied]
    obtain rfl := narrow (by omega)
    refine ⟨old, s.regs nr, ?_, ?_, whole, sameLow_zero _ _, id⟩
    · simp [Live.modify, Live.revise]
    · exact ⟨placed.status, placed.valid, placed.fewer, placed.offset,
        fun i low => absurd low (Nat.not_lt_zero i)⟩

theorem restore_nat (s : Live N) (r : VReg) (rr nr : Fin N) (size : Nat) (old : RegStatus N) :
    (s.restore r rr nr size old).nat = s.nat := by
  unfold Live.restore
  simp only
  split
  · split <;> rfl
  · rfl

theorem splitOff_spec (inv : s.Inv host known) {r : VReg} {rr : Fin N} {size : Nat}
    {spec : Option (Fin N)} (held : r ∈ (s.nat rr).holds) (shared : s.nholds rr ≠ 1)
    (narrow : 4 ≤ size → known r = 0) (done : s.splitOff host r rr size spec = some s') :
    Served host known (some r) s s' ∧ ∃ n, (s'.nat n).holds = [r] := by
  rw [Live.splitOff] at done
  obtain ⟨s₂, gone, done⟩ := Option.bind_eq_some_iff.mp done
  obtain ⟨⟨nr, s₃⟩, allocated, unlocked⟩ := Option.bind_eq_some_iff.mp done
  dsimp only at unlocked
  have placed := inv.placed rr r held
  have whole : (s.state r).validsize = 4 := by
    by_contra less
    have alone := inv.alone rr r held (by rcases placed.valid with v | v | v <;> omega)
    exact shared (by rw [Live.nholds, alone]; rfl)
  -- Until its contents are copied, nothing is known of the register.
  have locked := setlock_held s rr
  have inv₁ := locked.inv (inv.mono (forget_le known r))
  obtain ⟨served₂, out, regs₂, mem₂⟩ := disassociate_spec inv₁ (forget_self known r) gone
  have renewed : Renewed host (forget known r) r s₂ s₃ ∧ (s₃.nat nr).holds = [r] ∧
      (s₂.nat nr).locked = 0 ∧ (∀ m ≠ nr, s₃.regs m = s₂.regs m) ∧ s₃.mem r = s₂.mem r ∧
      ((s.state r).status = .dirty → host.suits (s.state r).dirtysize nr = true) := by
    split at allocated
    · obtain ⟨renewed, holds, free, suits, regs, mem⟩ :=
        allocReg_clobbered served₂.inv allocated
      exact ⟨renewed, holds, free, regs, mem out, fun _ => suits⟩
    next clean =>
      obtain ⟨renewed, holds, free, -, regs, mem⟩ := allocReg_clobbered served₂.inv allocated
      exact ⟨renewed, holds, free, regs, mem out, fun dirty => absurd dirty clean⟩
  obtain ⟨renewed, holds, free, regs₃, mem₃, suits⟩ := renewed
  have served₃ : Served host (forget known r) (some r) s₂ s₃ := by
    have served := renewed.served
    rwa [forget, forget, Function.update_idem] at served
  have held₃ : r ∈ (s₃.nat nr).holds := by
    rw [holds]
    exact List.mem_singleton_self r
  -- The register it is split off is locked, so that it is not the new one.
  have apart : rr ≠ nr := by
    rintro rfl
    rw [Live.unlock2, Option.ite_none_left_eq_some, restore_nat, served₃.locked] at unlocked
    exact unlocked.1 free
  have reg : s₃.regs rr = s.regs rr := by rw [regs₃ rr apart, regs₂, locked.regs]
  have mem : s₃.mem r = s.mem r := by rw [mem₃, mem₂, locked.mem]
  obtain ⟨st, c, restored, placed', whole', value, one⟩ :=
    restore_spec r nr placed whole narrow reg
  rw [restored] at unlocked
  have inv₃ := served₃.inv
  have placed₃ : Placed (known r) { st with realreg := some nr, realind := (s₃.state r).realind }
      (s₃.mem r) c := by
    rw [mem]
    exact ⟨placed'.status, placed'.valid, placed'.fewer, placed'.offset, placed'.agrees⟩
  have byteReg (narrow : st.dirtysize = 1) : host.ByteReg nr := by
    have dirty : (s.state r).status = .dirty :=
      (placed.status.resolve_left fun clean => by have := one narrow; omega).1
    rcases suits_iff.mp (suits dirty) with fits | fits | fits
    · exact fun regs => host.stored_of_canbyte regs nr fits.2
    · exact absurd (one narrow) (by omega)
    · exact absurd (one narrow) (by omega)
  have stays : (s₃.state r).Stays
      { st with realreg := some nr, realind := (s₃.state r).realind } :=
    ⟨placed'.status.imp And.left And.left, ((inv₃.linked.holds_iff nr r).mp held₃).2.symm, rfl⟩
  have revised := Served.revise (c := c) inv₃ held₃ stays (.inr holds)
    (placed₃.mono (forget_le known r r)) (fun _ => holds) byteReg
    (by rw [forget_self]; exact sameLow_zero _ _)
  have value₄ := value_revise_self (m := s₃.mem r) (c := c) inv₃.linked held₃ stays
  have inv₄ := revised.inv.learn inv.flagx fun n held₄ => by
    obtain rfl : n = nr := inv₃.linked.unique held₄ held₃
    simpa [Live.revise] using placed₃
  have moved : Served host (forget known r) (some r) (s.setlock rr) _ :=
    (served₂.of_none _).trans (served₃.trans (revised.of_none _))
  have same := unlock2_held unlocked
  refine ⟨⟨same.inv inv₄, fun v => ?_, unlock2_locked moved.locked unlocked, fun u other out => ?_,
    fun v undefined => ?_⟩, nr, ?_⟩
  · rw [same.value inv₄.linked]
    by_cases this : v = r
    · subst this
      have all (a : BitVec 32) {k : Nat} (four : k = 4) : splice k a (s.mem v) = a :=
        splice_all (by omega) _ _
      rw [value₄, value_held inv.linked held, mem, all _ whole, all _ whole']
      exact value
    · have kept := moved.keeps v
      rwa [forget_of_ne this, locked.value inv.linked] at kept
  · rw [same.state, same.mem]
    exact moved.out u other out
  · rw [same.state] at undefined
    exact moved.undef v undefined
  · rw [same.holds]
    exact holds

theorem makeExclusive_spec (inv : s.Inv host known) {r : VReg} {size : Nat} {spec : Option (Fin N)}
    (narrow : 4 ≤ size → known r = 0) (done : s.makeExclusive host r size spec = some s') :
    Served host known (some r) s s' ∧ (s.isinreg r = false → s' = s) ∧
      (s.isinreg r = true → ∃ n, (s'.nat n).holds = [r]) := by
  rw [Live.makeExclusive] at done
  rcases inv.linked.cases r with out | ⟨rr, held, inreg, realreg⟩
  · simp only [out] at done
    cases done
    exact ⟨.refl inv _, fun _ => rfl, fun inreg => absurd (out.symm.trans inreg) nofun⟩
  · simp only [inreg, realreg] at done
    suffices Served host known (some r) s s' ∧ ∃ n, (s'.nat n).holds = [r] from
      ⟨this.1, fun out => absurd (inreg.symm.trans out) nofun, fun _ => this.2⟩
    split at done
    next single =>
      cases done
      exact ⟨.refl inv _, rr, holds_eq_singleton held single⟩
    next shared =>
      split at done
      · obtain ⟨s₁, evicted, left⟩ := Option.bind_eq_some_iff.mp done
        obtain ⟨served, still⟩ := evictOthers_spec inv held evicted
        rw [Option.ite_none_left_eq_some, Option.some_inj, not_not] at left
        obtain ⟨single, rfl⟩ := left
        exact ⟨served.of_none _, rr, holds_eq_singleton still single⟩
      · exact splitOff_spec inv held shared narrow done

/-! ### Offsets -/

theorem foldOffset_spec (inv : s.Inv host known) {r : VReg} {n : Fin N}
    (alone : (s.nat n).holds = [r]) (done : s.foldOffset r = some s') :
    Served host known none s s' := by
  have held : r ∈ (s.nat n).holds := by
    rw [alone]
    exact List.mem_singleton_self r
  have realreg := ((inv.linked.holds_iff n r).mp held).2
  rw [Live.foldOffset] at done
  split at done
  · cases done
    exact .refl inv none
  next val =>
    simp only [realreg] at done
    rw [Option.ite_none_right_eq_some, Option.some_inj] at done
    obtain ⟨single, rfl⟩ := done
    have adjusted := Served.adjust inv held single val
    have eq : (s.adjustNreg n (s.state r).val).modify r (fun st =>
        { st with dirtysize := 4, val := 0, status := .dirty }) = s.revise r n
          { s.state r with val := 0, dirtysize := 4, status := .dirty } (s.mem r)
          (s.regs n + (s.state r).val) := by
      simp [Live.adjustNreg, Live.setReg, Live.modify, Live.revise]
    rw [eq]
    exact adjusted

/-- The end of `remove_offset` -/
theorem fold_exclusive (inv : s.Inv host known) {r : VReg} (inreg : s.isinreg r = true)
    (done : ((s.makeExclusive host r 0 none).bind fun s => s.foldOffset r) = some s') :
    Served host known (some r) s s' := by
  obtain ⟨s₁, exclusive, folded⟩ := Option.bind_eq_some_iff.mp done
  obtain ⟨served, -, alone⟩ := 
    makeExclusive_spec inv (fun less => absurd less (by decide)) exclusive
  obtain ⟨n, holds⟩ := alone inreg
  exact served.trans ((foldOffset_spec served.inv holds folded).of_none _)

theorem removeOffset_spec (inv : s.Inv host known) {r : VReg} {spec : Option (Fin N)}
    (undefined : (s.state r).status = .undef → (s.state r).val ≠ 0 → known r = 0)
    (done : s.removeOffset host r spec = some s') : Served host known (some r) s s' := by
  rw [Live.removeOffset] at done
  split at done
  · cases done
    exact .refl inv _
  next offset =>
    rw [not_or] at offset
    rcases inv.linked.cases r with out | ⟨rr, held, inreg, realreg⟩
    · simp only [out, Bool.false_eq_true, false_and, if_false, Option.bind_some, not_false_eq_true,
        if_true] at done
      obtain ⟨s₁, loaded, done⟩ := Option.bind_eq_some_iff.mp done
      obtain ⟨⟨n, s₁⟩, allocated, rfl⟩ := Option.map_eq_some_iff.mp loaded
      obtain ⟨served, alone, valid, -⟩ :=
        allocReg_spec inv (fun undef => undefined undef offset.2) allocated
      rw [if_neg (not_not.mpr valid)] at done
      have held : r ∈ (s₁.nat n).holds := by
        rw [alone]
        exact List.mem_singleton_self r
      exact served.trans
        (fold_exclusive served.inv ((served.inv.linked.holds_iff n r).mp held).1 done)
    · -- A register with an offset is valid as a whole, so that it is not evicted.
      have whole : (s.state r).validsize = 4 := (inv.placed rr r held).offset offset.2
      rw [if_neg (by omega), Option.bind_some, if_neg (not_not.mpr inreg), Option.bind_some,
        if_neg (not_not.mpr whole)] at done
      exact fold_exclusive inv inreg done

/-! ### Changes of a record while others are evicted -/

section Commute

variable {r v : VReg} {b : Fin N} (f : RegStatus N → RegStatus N)

theorem modify_comm (other : v ≠ r) (g : RegStatus N → RegStatus N) (s : Live N) :
    (s.modify r f).modify v g = (s.modify v g).modify r f := by
  simp [Live.modify, other, other.symm, Function.update_comm other]

theorem modify_state (other : v ≠ r) (s : Live N) : (s.modify r f).state v = s.state v :=
  Function.update_of_ne other _ _

theorem store_modify (other : v ≠ r) (s : Live N) (n : Fin N) :
    (s.modify r f).store host v n = (s.store host v n).map fun s => s.modify r f := by
  unfold Live.store
  rw [modify_state f other]
  split <;> rfl

theorem applyOffset_modify (other : v ≠ r) (s : Live N) (n : Fin N) :
    (s.modify r f).applyOffset v n = (s.applyOffset v n).modify r f := by
  have inreg : (s.modify r f).isinreg v = s.isinreg v := by
    rw [Live.isinreg, modify_state f other]
    rfl
  simp only [Live.applyOffset, modify_state f other, inreg]
  rw [apply_ite (fun s : Live N => s.modify r f), ← modify_comm f other]
  rfl

theorem writeback_modify (other : v ≠ r) (s : Live N) (n : Fin N) :
    (s.modify r f).writeback host v n = (s.writeback host v n).map fun s => s.modify r f := by
  unfold Live.writeback
  rw [modify_state f other, store_modify f other]
  split
  · rw [Option.map_map, Option.map_map]
    apply congrArg (fun g => (s.store host v n).map g)
    funext s
    rw [Function.comp_apply, Function.comp_apply, modify_comm f other]
  · rfl

theorem tomem_modify (other : v ≠ r) (s : Live N) :
    (s.modify r f).tomem host v = (s.tomem host v).map fun s => s.modify r f := by
  unfold Live.tomem
  rw [modify_state f other]
  split
  · rfl
  · rw [applyOffset_modify f other, writeback_modify f other]

theorem detach_modify (other : v ≠ r) (s : Live N) (out : r ∉ (s.nat b).holds) :
    (s.modify r f).detach v b = (s.detach v b).modify r f := by
  unfold Live.detach
  rw [modify_state f other]
  simp only
  rw [← modify_comm f other]
  apply congrArg (fun s : Live N => s.modify v fun st =>
    { st with realreg := none, status := .inmem })
  rw [show (s.modify r f).nat = s.nat from rfl]
  cases last : (s.nat b).holds.getLast? with
  | none => rfl
  | some topreg =>
    have top : topreg ≠ r := by
      rintro rfl
      exact out (List.mem_of_getLast? last)
    simp only
    rw [apply_ite fun s : Live N => s.modify r f, ← modify_comm f top]
    rfl

/-- A change of a register's record commutes with the eviction of a register from elsewhere. -/
theorem evict_modify (inv : s.Inv host known) (held : v ∈ (s.nat b).holds)
    (out : r ∉ (s.nat b).holds) :
    (s.modify r f).evict host v = (s.evict host v).map fun s => s.modify r f := by
  obtain ⟨inreg, realreg⟩ := (inv.linked.holds_iff b v).mp held
  have other : v ≠ r := by
    rintro rfl
    exact out held
  have inreg' : (s.modify r f).isinreg v = true := by
    rw [Live.isinreg, modify_state f other]
    exact inreg
  rw [Live.evict, if_neg (not_not.mpr inreg'), Live.evict, if_neg (not_not.mpr inreg),
    tomem_modify f other]
  cases stored : s.tomem host v with
  | none => rfl
  | some s₁ =>
    obtain ⟨-, st, m, c, rfl, stays, -⟩ := tomem_spec inv held stored
    have realreg₁ : ((s.revise v b st m c).state v).realreg = some b := by
      rw [show (s.revise v b st m c).state v = st from Function.update_self _ _ _, stays.2.1,
        realreg]
    simp only [Option.map_some, Option.bind_some, modify_state f other, realreg₁]
    have out' : r ∉ ((s.revise v b st m c).nat b).holds := out
    rw [apply_ite (Option.map fun s : Live N => s.modify r f), Option.map_some,
      detach_modify f other _ out']
    rfl

theorem evictFrom_modify (inv : s.Inv host known) (out : r ∉ (s.nat b).holds) (i : Nat) :
    (s.modify r f).evictFrom host b i = (s.evictFrom host b i).map fun s => s.modify r f := by
  induction i generalizing s with
  | zero => rfl
  | succ i ih =>
    rw [Live.evictFrom, Live.evictFrom]
    rw [show (s.modify r f).nat = s.nat from rfl]
    cases entry : (s.nat b).holds[i]? with
    | none => exact ih inv out
    | some vr =>
      have held := List.mem_of_getElem? entry
      simp only [evict_modify f inv held out]
      cases evicted : s.evict host vr with
      | none => rfl
      | some s₁ =>
        have gone := evict_spec inv held evicted
        exact ih gone.served.inv fun held => out ((gone.holds r).mp held).1

theorem freeNreg_modify (inv : s.Inv host known) (out : r ∉ (s.nat b).holds) :
    (s.modify r f).freeNreg host b = (s.freeNreg host b).map fun s => s.modify r f := by
  have nholds : (s.modify r f).nholds b = s.nholds b := rfl
  rw [Live.freeNreg, Live.freeNreg, nholds, evictFrom_modify f inv out]
  cases s.evictFrom host b (s.nholds b) with
  | none => rfl
  | some s₁ =>
    rw [Option.map_some, Option.bind_some, Option.bind_some,
      apply_ite (Option.map fun s : Live N => s.modify r f)]
    rfl

theorem relocate_modify (apart : ∀ st rr i, f { st with realreg := rr, realind := i } =
      { f st with realreg := rr, realind := i }) (d : Fin N) (entries : List (VReg × Nat))
    (s : Live N) :
    (s.modify r f).relocate d entries = (s.relocate d entries).modify r f := by
  induction entries generalizing s with
  | nil => rfl
  | cons e es ih =>
    refine Eq.trans ?_ (ih _)
    refine congrArg (Live.relocate d es) ?_
    by_cases same : e.1 = r
    · subst same
      simp only [Live.modify, Function.update_self, Function.update_idem]
      rw [apart (s.state e.1) (some d) e.2]
    · exact modify_comm f same _ s

/-- A change of a record that leaves alone where the register is commutes with moves. -/
theorem movNregs_modify (inv : s.Inv host known) {d n : Fin N} (held : r ∈ (s.nat n).holds)
    (apart : ∀ st rr i, f { st with realreg := rr, realind := i } =
      { f st with realreg := rr, realind := i }) :
    (s.modify r f).movNregs host d n = (s.movNregs host d n).map fun s => s.modify r f := by
  rw [Live.movNregs, Live.movNregs]
  split
  · rfl
  next ne =>
    have out : r ∉ (s.nat d).holds := fun held' => ne (inv.linked.unique held held')
    have nholds : (s.modify r f).nholds d = s.nholds d := rfl
    have freed : (if 0 < s.nholds d then (s.freeNreg host d).map fun s => s.modify r f
        else some (s.modify r f)) =
        (if 0 < s.nholds d then s.freeNreg host d else some s).map fun s => s.modify r f := by
      rw [apply_ite (Option.map fun s : Live N => s.modify r f)]
      rfl
    rw [nholds, freeNreg_modify f inv out, freed, Option.map_map, Option.map_map]
    apply congrArg (fun g => Option.map g _)
    funext s₁
    have moved := relocate_modify (r := r) f apart d ((s₁.nat n).holds.zipIdx) (s₁.setReg d (s₁.regs n))
    simp only [Function.comp, Live.transfer]
    exact congrArg (fun s : Live N => (s.modifyNat d fun x =>
      { x with holds := (s₁.nat n).holds }).modifyNat n fun x => { x with holds := [] }) moved

end Commute

/-! ### readreg -/

section Access

variable {r : VReg} {size : Nat} {spec : Option (Fin N)} {n : Fin N}

theorem answers_true (answers : host.answers size spec n = some true) :
    (size = 1 ∨ size = 2 ∨ size = 4) ∧ (size ≤ 1 → spec = none → host.ByteReg n) := by
  unfold Host.answers at answers
  split at answers
  · refine ⟨.inl rfl, fun _ free regs => host.stored_of_canbyte regs n ?_⟩
    rw [free] at answers
    simpa using answers
  · exact ⟨.inr (.inl rfl), fun less => absurd less (by decide)⟩
  · exact ⟨.inr (.inr rfl), fun less => absurd less (by decide)⟩
  · cases answers

theorem suits_byte {b : Fin N} (suits : host.suits size b = true) (narrow : size ≤ 1) :
    host.ByteReg b := by
  rcases suits_iff.mp suits with fits | fits | fits
  · exact fun regs => host.stored_of_canbyte regs b fits.2
  · exact absurd fits.1 (by omega)
  · exact absurd fits (by omega)

/-- A register that is asked for is a byte register. -/
def Host.Bytes (host : Host N) (spec : Option (Fin N)) : Prop := ∀ n, spec = some n → host.ByteReg n

theorem moveTo_spec (inv : s.Inv host known) {answer : Fin N} (bytes : host.Bytes spec)
    (done : s.moveTo host spec answer = some (n, s')) :
    Served host known none s s' ∧ (s'.nat n).holds = (s.nat answer).holds ∧
      (∀ v ∈ (s.nat answer).holds, s'.state v = { s.state v with realreg := some n }) ∧
      ((spec = none → host.ByteReg answer) → host.ByteReg n) := by
  cases spec with
  | none =>
    cases done
    refine ⟨.refl inv none, rfl, fun v held => ?_, fun byteReg => byteReg rfl⟩
    rw [← ((inv.linked.holds_iff n v).mp held).2]
  | some m =>
    obtain ⟨s₁, moved, same⟩ := Option.map_eq_some_iff.mp done
    cases same
    obtain ⟨served, holds, state⟩ := movNregs_spec inv (fun _ _ _ => bytes n rfl) moved
    exact ⟨served, holds, state, fun _ => bytes n rfl⟩

theorem tryreg_spec (inv : s.Inv host known) {alone : Bool} {found : Option (Fin N)}
    (done : s.tryreg host r size spec alone = some (found, s')) :
    Served host known none s s' ∧ ∀ n, found = some n → r ∈ (s'.nat n).holds ∧
      size ≤ (s'.state r).validsize ∧ (alone = true → (s'.nat n).holds = [r]) ∧
      (size ≤ 1 → spec = none → host.ByteReg n) := by
  rw [Live.tryreg] at done
  rcases inv.linked.cases r with out | ⟨rr, held, inreg, realreg⟩
  · simp only [out] at done
    cases done
    exact ⟨.refl inv none, fun _ => nofun⟩
  · simp only [inreg, realreg] at done
    split at done
    next enough =>
      rw [Option.ite_none_left_eq_some, not_and, not_not] at done
      obtain ⟨single, done⟩ := done
      obtain ⟨fits, answers, done⟩ := Option.bind_eq_some_iff.mp done
      cases fits with
      | true =>
        cases done
        refine ⟨.refl inv none, fun n same => ?_⟩
        cases same
        exact ⟨held, enough, fun only => holds_eq_singleton held (single only),
          (answers_true answers).2⟩
      | false =>
        obtain ⟨s₁, evicted, same⟩ := Option.map_eq_some_iff.mp done
        cases same
        exact ⟨(evict_spec inv held evicted).served, fun _ => nofun⟩
    · cases done
      exact ⟨.refl inv none, fun _ => nofun⟩

/-- The native register that a virtual one is read from, as asked for. -/
theorem reach_spec (inv : s.Inv host known)
    (undefined : (s.state r).status = .undef → known r = 0) (bytes : host.Bytes spec)
    {alone : Bool} {found : Option (Fin N) × Live N} {answer : Fin N} {s₂ : Live N}
    (tried : s.tryreg host r size spec alone = some found)
    (had : Live.orAlloc host r (if spec.isSome then 4 else size) false spec found =
      some (answer, s₂))
    (moved : s₂.moveTo host spec answer = some (n, s')) :
    Served host known (some r) s s' ∧ r ∈ (s'.nat n).holds ∧
      (size = 4 → (s'.state r).validsize = 4) ∧ (alone = true → (s'.nat n).holds = [r]) ∧
      (size ≤ 1 → host.ByteReg n) := by
  obtain ⟨found, s₁⟩ := found
  obtain ⟨served, there⟩ := tryreg_spec inv tried
  suffices Served host known (some r) s s₂ ∧ r ∈ (s₂.nat answer).holds ∧
      (size = 4 → (s₂.state r).validsize = 4) ∧ (alone = true → (s₂.nat answer).holds = [r]) ∧
      (size ≤ 1 → spec = none → host.ByteReg answer) by
    obtain ⟨served₂, held, whole, only, byteReg⟩ := this
    obtain ⟨moving, holds, state, byteReg'⟩ := moveTo_spec served₂.inv bytes moved
    refine ⟨served₂.trans (moving.of_none _), holds ▸ held, fun four => ?_, fun yes => ?_,
      fun narrow => byteReg' (byteReg narrow)⟩
    · rw [state r held]
      exact whole four
    · rw [holds]
      exact only yes
  cases found with
  | some m =>
    cases had
    obtain ⟨held, enough, only, byteReg⟩ := there answer rfl
    refine ⟨served.of_none _, held, fun four => ?_, only, byteReg⟩
    rcases (served.inv.placed answer r held).valid with valid | valid | valid <;> omega
  | none =>
    obtain ⟨served₂, only, whole, suits⟩ :=
      allocReg_spec served.inv (fun undef => undefined (served.undef r undef)) had
    refine ⟨(served.of_none _).trans served₂, ?_, fun _ => whole, fun _ => only,
      fun narrow free => ?_⟩
    · rw [only]
      exact List.mem_singleton_self r
    · rw [free] at suits
      exact suits_byte suits narrow

theorem lockAnswer_held (s : Live N) (n : Fin N) : s.SameHeld (Live.lockAnswer n s) := by
  have locked := setlock_held s n
  have touched := touch_held (s.setlock n) n
  exact ⟨touched.state.trans locked.state, fun m => (touched.holds m).trans (locked.holds m),
    touched.regs.trans locked.regs, touched.mem.trans locked.mem⟩

theorem readreg_spec (inv : s.Inv host known) {canOffset : Bool}
    (undefined : (s.state r).status = .undef → known r = 0) (bytes : host.Bytes spec)
    (done : s.readregGeneral host r size spec canOffset = some (n, s')) :
    ∃ s₁, Served host known (some r) s s₁ ∧ r ∈ (s₁.nat n).holds ∧
      (size = 4 → (s₁.state r).validsize = 4) ∧ s' = Live.lockAnswer n s₁ := by
  rw [Live.readregGeneral] at done
  obtain ⟨s₁, offset, done⟩ := Option.bind_eq_some_iff.mp done
  obtain ⟨found, tried, done⟩ := Option.bind_eq_some_iff.mp done
  obtain ⟨⟨answer, s₂⟩, had, done⟩ := Option.bind_eq_some_iff.mp done
  obtain ⟨⟨m, s₃⟩, moved, same⟩ := Option.map_eq_some_iff.mp done
  cases same
  have removed : Served host known (some r) s s₁ := by
    split at offset
    · exact removeOffset_spec inv (fun undef _ => undefined undef) offset
    · cases offset
      exact .refl inv _
  obtain ⟨served, held, whole, -, -⟩ := reach_spec removed.inv
    (fun undef => undefined (removed.undef r undef)) bytes tried had moved
  exact ⟨s₃, removed.trans served, held, whole, rfl⟩

/-! ### writereg and rmw -/

/-- A call for a register, or for none in particular: the others keep what is known of them, and
`known` is what is known afterwards. -/
structure Called (host : Host N) (known : VReg → Nat) (target : Option VReg) (s s' : Live N) :
    Prop where
  inv : s'.Inv host known
  keeps : ∀ v, target ≠ some v → SameLow (known v) (s'.value v) (s.value v)

/-- Instructions may write the low `size` bytes of the native register. -/
structure Live.Writable (s : Live N) (r : VReg) (size : Nat) (n : Fin N) : Prop where
  alone : (s.nat n).holds = [r]
  dirty : (s.state r).status = .dirty
  fits : size ≤ (s.state r).dirtysize

/-- The record of a register that is written. -/
def RegStatus.overwritten (st : RegStatus N) (size : Nat) : RegStatus N :=
  { st with
    val := 0
    dirtysize := max size st.dirtysize
    validsize := max size st.validsize
    status := .dirty }

theorem Placed.overwritten {j k : Nat} {st : RegStatus N} {m c : BitVec 32}
    (placed : Placed j st m c) (sizes : size = 1 ∨ size = 2 ∨ size = 4) (fewer : k ≤ max j size) :
    Placed k (st.overwritten size) m c := by
  have dirty : st.dirtysize = 0 ∨ st.dirtysize = 1 ∨ st.dirtysize = 2 ∨ st.dirtysize = 4 :=
    placed.status.imp And.right And.right
  refine ⟨.inr ⟨rfl, ?_⟩, ?_, ?_, fun moved => absurd rfl moved, fun i low high valid => ?_⟩
  · change max size st.dirtysize = 1 ∨ max size st.dirtysize = 2 ∨ max size st.dirtysize = 4
    omega
  · have valid := placed.valid
    change max size st.validsize = 1 ∨ max size st.validsize = 2 ∨ max size st.validsize = 4
    omega
  · have before := placed.fewer
    change max size st.dirtysize ≤ max size st.validsize
    omega
  · -- Bytes that are valid but not dirty were so before.
    change 8 * max size st.dirtysize ≤ i at high
    change i < 8 * max size st.validsize at valid
    exact placed.agrees i (by omega) (by omega) (by omega)

theorem overwrite_spec (inv : s.Inv host known) (alone : (s.nat n).holds = [r])
    (sizes : size = 1 ∨ size = 2 ∨ size = 4) (byteReg : size ≤ 1 → host.ByteReg n) {k : Nat}
    (fewer : k ≤ max (known r) size) (flagx : r = Jit.flagx → k ≤ 1) :
    Called host (Function.update known r k) (some r) s
      (s.revise r n ((s.state r).overwritten size) (s.mem r) (s.regs n)) := by
  have held : r ∈ (s.nat n).holds := by
    rw [alone]
    exact List.mem_singleton_self r
  have placed := (inv.placed n r held).overwritten sizes fewer
  have stays : (s.state r).Stays ((s.state r).overwritten size) := ⟨.inr rfl, rfl, rfl⟩
  have idem : forget (Function.update known r k) r = forget known r := Function.update_idem _ _ _
  have revised : (s.revise r n ((s.state r).overwritten size) (s.mem r) (s.regs n)).Inv host
      (forget (Function.update known r k) r) := by
    rw [idem]
    refine (inv.mono (forget_le known r)).revise held stays (.inl rfl) ?_ (fun _ => alone) fun one => ?_
    · rw [forget_self]
      exact placed.mono (Nat.zero_le k)
    · change max size (s.state r).dirtysize = 1 at one
      exact byteReg (by omega)
  refine ⟨revised.learn ?_ fun m held' => ?_, fun v other => ?_⟩
  · by_cases same : Jit.flagx = r
    · rw [same, Function.update_self]
      exact flagx same.symm
    · rw [Function.update_of_ne same]
      exact inv.flagx
  · obtain rfl : m = n := inv.linked.unique held' held
    rw [Function.update_self]
    simpa [Live.revise] using placed
  · have other : v ≠ r := fun same => other (same ▸ rfl)
    rw [value_revise_of_ne inv.linked (.inl rfl) other]
    exact .refl _ _

theorem overwrite_writable (alone : (s.nat n).holds = [r]) :
    (s.revise r n ((s.state r).overwritten size) (s.mem r) (s.regs n)).Writable r size n := by
  have state : (s.revise r n ((s.state r).overwritten size) (s.mem r) (s.regs n)).state r =
      (s.state r).overwritten size := Function.update_self _ _ _
  refine ⟨alone, ?_, ?_⟩
  · rw [state]
    rfl
  · rw [state]
    exact le_max_left _ _

theorem Live.SameHeld.writable (same : s.SameHeld s') (writable : s.Writable r size n) :
    s'.Writable r size n := by
  obtain ⟨alone, dirty, fits⟩ := writable
  refine ⟨?_, ?_, ?_⟩
  · rw [same.holds, alone]
  · rw [same.state, dirty]
  · rw [same.state]
    exact fits

theorem Live.SameHeld.called {target : Option VReg} {s'' : Live N} (same : s'.SameHeld s'')
    (called : Called host known target s s') : Called host known target s s'' := by
  refine ⟨same.inv called.inv, fun v other => ?_⟩
  rw [same.value called.inv.linked]
  exact called.keeps v other

theorem Renewed.called {known' : VReg → Nat} {s'' : Live N} (renewed : Renewed host known r s s')
    (called : Called host known' (some r) s' s'') (fewer : ∀ v ≠ r, known' v ≤ known v) :
    Called host known' (some r) s s'' := by
  refine ⟨called.inv, fun v other => (called.keeps v other).trans ?_⟩
  have apart : v ≠ r := fun same => other (same ▸ rfl)
  have kept := renewed.served.keeps v
  rw [forget_of_ne apart] at kept
  exact kept.mono (fewer v apart)

/-- The end of `writereg_general`, for a register that is in a native one. -/
theorem written_eq (status : (s.state r).status ≠ .undef)
    (done : Live.written r size n s = some s') :
    (s.revise r n ((s.state r).overwritten size) (s.mem r) (s.regs n)).SameHeld s' := by
  rw [Live.written, if_neg status] at done
  have locked := lockAnswer_held (s.widen r size) n
  have kept : ((Live.lockAnswer n (s.widen r size)).state r).val = (s.state r).val := by
    rw [locked.state]
    simp [Live.widen, Live.modify]
  simp only [kept, Option.ite_none_left_eq_some, Option.some_inj, not_and_or, not_not] at done
  obtain ⟨val, rfl⟩ := done
  refine ⟨?_, fun m => ?_, ?_, ?_⟩
  · simp only [Live.modify, locked.state]
    rcases val with four | zero
    · simp [Live.widen, Live.modify, Live.revise, RegStatus.overwritten, four]
    · simp [Live.widen, Live.modify, Live.revise, RegStatus.overwritten, zero]
  · exact locked.holds m
  · exact locked.regs.trans (Function.update_eq_self _ _).symm
  · exact locked.mem.trans (Function.update_eq_self _ _).symm

/-- The end of `rmw_general` -/
theorem modified_eq (done : Live.modified r size n s = some s') :
    (s.revise r n ((s.state r).overwritten size) (s.mem r) (s.regs n)).SameHeld s' := by
  rw [Live.modified] at done
  generalize widened : (s.widen r size).modify r (fun st => { st with status := .dirty }) = s₁ at done
  have locked := lockAnswer_held s₁ n
  simp only [locked.state, Option.ite_none_left_eq_some, Option.some_inj, not_not] at done
  obtain ⟨val, rfl⟩ := done
  subst widened
  have zero : (s.state r).val = 0 := by simpa [Live.widen, Live.modify] using val
  refine ⟨?_, fun m => ?_, ?_, ?_⟩
  · rw [locked.state]
    simp [Live.modify, Live.widen, Live.revise, RegStatus.overwritten, zero]
  · exact locked.holds m
  · exact locked.regs.trans (Function.update_eq_self _ _).symm
  · exact locked.mem.trans (Function.update_eq_self _ _).symm

theorem rmwGeneral_cases (done : s.rmwGeneral host r size rsize spec = some (n, s')) :
    rsize ≤ size ∧ ∃ s₁ s₂ found answer s₃ s₄, s.removeOffset host r spec = some s₁ ∧
      s₁.makeExclusive host r 0 spec = some s₂ ∧ s₂.tryreg host r rsize spec true = some found ∧
      Live.orAlloc host r (if spec.isSome then 4 else rsize) false spec found = some (answer, s₃) ∧
      s₃.moveTo host spec answer = some (n, s₄) ∧ Live.modified r size n s₄ = some s' := by
  rw [Live.rmwGeneral] at done
  obtain ⟨s₁, offset, done⟩ := Option.bind_eq_some_iff.mp done
  obtain ⟨s₂, exclusive, done⟩ := Option.bind_eq_some_iff.mp done
  rw [Option.ite_none_left_eq_some, Nat.not_lt] at done
  obtain ⟨wide, done⟩ := done
  obtain ⟨found, tried, done⟩ := Option.bind_eq_some_iff.mp done
  obtain ⟨⟨answer, s₃⟩, had, done⟩ := Option.bind_eq_some_iff.mp done
  obtain ⟨⟨m, s₄⟩, moved, done⟩ := Option.bind_eq_some_iff.mp done
  obtain ⟨s₅, modified, same⟩ := Option.map_eq_some_iff.mp done
  cases same
  exact ⟨wide, s₁, s₂, found, answer, s₃, s₄, offset, exclusive, tried, had, moved, modified⟩

theorem rmw_spec (inv : s.Inv host known) {rsize k : Nat}
    (undefined : (s.state r).status = .undef → known r = 0) (bytes : host.Bytes spec)
    (sizes : size = 1 ∨ size = 2 ∨ size = 4) (fewer : k ≤ max (known r) size)
    (flagx : r = Jit.flagx → k ≤ 1) (done : s.rmwGeneral host r size rsize spec = some (n, s')) :
    Called host (Function.update known r k) (some r) s s' ∧ s'.Writable r size n := by
  obtain ⟨wide, s₁, s₂, found, answer, s₃, s₄, offset, exclusive, tried, had, moved, modified⟩ :=
    rmwGeneral_cases done
  have removed := removeOffset_spec inv (fun undef _ => undefined undef) offset
  obtain ⟨alone, -, -⟩ :=
    makeExclusive_spec removed.inv (fun less => absurd less (by decide)) exclusive
  have before := removed.trans alone
  obtain ⟨served, -, -, only, byteReg⟩ := reach_spec before.inv
    (fun undef => undefined (before.undef r undef)) bytes tried had moved
  have served := before.trans served
  have only := only rfl
  have same := modified_eq modified
  have called := overwrite_spec served.inv only sizes (fun narrow => byteReg (by omega)) fewer flagx
  refine ⟨served.renewed.called (same.called called) fun v other => ?_,
    same.writable (overwrite_writable only)⟩
  rw [Function.update_of_ne other]

theorem widen_widen (s : Live N) (r : VReg) (size : Nat) :
    (s.widen r size).widen r size = s.widen r size := by
  simp [Live.widen, Live.modify]

theorem written_widen (status : (s.state r).status ≠ .undef) :
    Live.written r size n (s.widen r size) = Live.written r size n s := by
  have status' : ((s.widen r size).state r).status ≠ .undef := by
    simpa [Live.widen, Live.modify] using status
  rw [Live.written, if_neg status', widen_widen, Live.written, if_neg status]

/-- The native register that a virtual one is written through. -/
theorem reach_write (inv : s.Inv host known) (bytes : host.Bytes spec)
    (exclusive : s.isinreg r = true → ∃ n, (s.nat n).holds = [r])
    {found : Option (Fin N) × Live N} {answer : Fin N} {s₂ : Live N}
    (tried : s.tryWrite host r size spec = some found)
    (had : Live.orAlloc host r size true spec found = some (answer, s₂))
    (moved : s₂.moveTo host spec answer = some (n, s')) :
    ∃ s₃, Renewed host known r s s₃ ∧ (s₃.nat n).holds = [r] ∧
      (size = 1 ∨ size = 2 ∨ size = 4) ∧ (size ≤ 1 → host.ByteReg n) ∧
      Live.written r size n s' = Live.written r size n s₃ := by
  -- A register that is allocated for the write.
  have allocated {s₁ : Live N} (served : Served host known none s s₁)
      (had : s₁.allocRegHinted host r size true spec = some (answer, s₂)) :
      ∃ s₃, Renewed host known r s s₃ ∧ (s₃.nat n).holds = [r] ∧
        (size = 1 ∨ size = 2 ∨ size = 4) ∧ (size ≤ 1 → host.ByteReg n) ∧
        Live.written r size n s' = Live.written r size n s₃ := by
    obtain ⟨renewed, only, -, suits, -, -⟩ := allocReg_clobbered served.inv had
    obtain ⟨moving, holds, -, byteReg⟩ := moveTo_spec renewed.inv bytes moved
    refine ⟨s', ((served.of_none _).renewed.trans renewed).trans (moving.of_none _).renewed,
      holds.trans only, ?_, fun narrow => byteReg fun _ => suits_byte suits narrow, rfl⟩
    rcases suits_iff.mp suits with fits | fits | fits
    · exact .inl fits.1
    · exact .inr (.inl fits.1)
    · exact .inr (.inr fits)
  rw [Live.tryWrite] at tried
  rcases inv.linked.cases r with out | ⟨rr, held, inreg, realreg⟩
  · simp only [out] at tried
    cases tried
    exact allocated (.refl inv none) had
  · simp only [inreg, realreg] at tried
    rw [Option.ite_none_left_eq_some] at tried
    obtain ⟨-, tried⟩ := tried
    obtain ⟨fits, answers, tried⟩ := Option.bind_eq_some_iff.mp tried
    cases fits with
    | false =>
      obtain ⟨s₁, evicted, same⟩ := Option.map_eq_some_iff.mp tried
      cases same
      exact allocated (evict_spec inv held evicted).served had
    | true =>
      cases tried
      cases had
      obtain ⟨sizes, byteReg⟩ := answers_true answers
      obtain ⟨m, only⟩ := exclusive inreg
      obtain rfl : answer = m := by
        refine inv.linked.unique held ?_
        rw [only]
        exact List.mem_singleton_self r
      -- It is widened before it is moved, which is as well done afterwards.
      have commuted : (s.widen r size).moveTo host spec answer =
          (s.moveTo host spec answer).map fun m => (m.1, m.2.widen r size) := by
        cases spec with
        | none => rfl
        | some m =>
          simp only [Live.moveTo, Live.widen]
          rw [movNregs_modify _ inv held fun _ _ _ => rfl, Option.map_map, Option.map_map]
          rfl
      rw [commuted] at moved
      obtain ⟨⟨m, s₃⟩, before, same⟩ := Option.map_eq_some_iff.mp moved
      cases same
      obtain ⟨moving, holds, state, byteReg'⟩ := moveTo_spec inv bytes before
      refine ⟨s₃, (moving.of_none _).renewed, holds.trans only, sizes,
        fun narrow => byteReg' (byteReg narrow), written_widen ?_⟩
      rw [state r held]
      intro undefined
      rcases isinreg_iff.mp inreg with status | status <;> cases status.symm.trans undefined

theorem writeregGeneral_cases (done : s.writeregGeneral host r size spec = some (n, s')) :
    ∃ s₁ s₂ found answer s₃ s₄,
      (if size < 4 then s.removeOffset host r spec else some s) = some s₁ ∧
      s₁.makeExclusive host r size spec = some s₂ ∧ s₂.tryWrite host r size spec = some found ∧
      Live.orAlloc host r size true spec found = some (answer, s₃) ∧
      s₃.moveTo host spec answer = some (n, s₄) ∧ Live.written r size n s₄ = some s' := by
  rw [Live.writeregGeneral] at done
  obtain ⟨s₁, offset, done⟩ := Option.bind_eq_some_iff.mp done
  obtain ⟨s₂, exclusive, done⟩ := Option.bind_eq_some_iff.mp done
  obtain ⟨found, tried, done⟩ := Option.bind_eq_some_iff.mp done
  obtain ⟨⟨answer, s₃⟩, had, done⟩ := Option.bind_eq_some_iff.mp done
  obtain ⟨⟨m, s₄⟩, moved, done⟩ := Option.bind_eq_some_iff.mp done
  obtain ⟨s₅, written, same⟩ := Option.map_eq_some_iff.mp done
  cases same
  exact ⟨s₁, s₂, found, answer, s₃, s₄, offset, exclusive, tried, had, moved, written⟩

theorem writereg_spec (inv : s.Inv host known) {k : Nat}
    (undefined : (s.state r).status = .undef → (s.state r).val ≠ 0 → size < 4 → known r = 0)
    (bytes : host.Bytes spec) (narrow : 4 ≤ size → known r = 0) (fewer : k ≤ max (known r) size)
    (flagx : r = Jit.flagx → k ≤ 1) (done : s.writeregGeneral host r size spec = some (n, s')) :
    Called host (Function.update known r k) (some r) s s' ∧ s'.Writable r size n := by
  obtain ⟨s₁, s₂, found, answer, s₃, s₄, offset, exclusive, tried, had, moved, written⟩ :=
    writeregGeneral_cases done
  have removed : Served host known (some r) s s₁ := by
    split at offset
    next less => exact removeOffset_spec inv (fun undef val => undefined undef val less) offset
    · cases offset
      exact .refl inv _
  obtain ⟨split, out, alone⟩ := makeExclusive_spec removed.inv narrow exclusive
  have alone' (inreg : s₂.isinreg r = true) : ∃ n, (s₂.nat n).holds = [r] := by
    apply alone
    by_contra before
    rw [Bool.not_eq_true] at before
    rw [out before, before] at inreg
    cases inreg
  obtain ⟨s₆, renewed, only, sizes, byteReg, eq⟩ :=
    reach_write split.inv bytes alone' tried had moved
  rw [eq] at written
  have same := written_eq ?_ written
  · have called := overwrite_spec renewed.inv only sizes byteReg fewer flagx
    have served := (removed.trans split).renewed.trans renewed
    refine ⟨served.called (same.called called) fun v other => ?_,
      same.writable (overwrite_writable only)⟩
    rw [Function.update_of_ne other]
  · intro undefined
    have held : r ∈ (s₆.nat n).holds := by
      rw [only]
      exact List.mem_singleton_self r
    rcases isinreg_iff.mp ((renewed.inv.linked.holds_iff n r).mp held).1 with status | status <;>
      cases status.symm.trans undefined

end Access

end BasiliskII.Jit
