import BasiliskII.Jit.RegisterAllocator
import Mathlib.Data.List.Nodup

/-!
# What registers hold

The links between virtual and native registers, what the sizes and offsets of a virtual register
promise of its bytes, and that moving registers about keeps their values.
-/
namespace BasiliskII.Jit

open ByteLanes SwapRemove

variable {N : Nat} {host : Host N} {known : VReg → Nat} {s s' : Live N}

/-! ### Values -/

/-- What a virtual register stands for, given its place in memory and the native register it is
in. -/
def RegStatus.value (st : RegStatus N) (mem reg : BitVec 32) : BitVec 32 :=
  match st.status with
  | .isconst => st.val
  | .inmem | .undef => mem + st.val
  | .clean | .dirty => splice st.validsize reg mem + st.val

/-- What is in the native register of a virtual one. -/
def Live.content (s : Live N) (r : VReg) : BitVec 32 := (s.state r).realreg.elim 0 s.regs

def Live.value (s : Live N) (r : VReg) : BitVec 32 := (s.state r).value (s.mem r) (s.content r)

/-! ### The invariant -/

/-- A virtual register is clean or dirty exactly when a native one holds it, which is its `realreg`
and has it at the index `realind`. -/
structure Live.Linked (s : Live N) : Prop where
  somewhere : ∀ v, s.isinreg v = true → ∃ n, v ∈ (s.nat n).holds
  holds_iff : ∀ n v, v ∈ (s.nat n).holds ↔ s.isinreg v = true ∧ (s.state v).realreg = some n
  realind : ∀ n v, v ∈ (s.nat n).holds → (s.nat n).holds[(s.state v).realind]? = some v
  nodup : ∀ n, (s.nat n).holds.Nodup

/-- What the sizes of a virtual register say: the bytes that are valid but not dirty are those in
memory. Nothing is said of bytes from the `k`th on. -/
structure Placed (k : Nat) (st : RegStatus N) (mem reg : BitVec 32) : Prop where
  status : st.status = .clean ∧ st.dirtysize = 0 ∨
    st.status = .dirty ∧ (st.dirtysize = 1 ∨ st.dirtysize = 2 ∨ st.dirtysize = 4)
  valid : st.validsize = 1 ∨ st.validsize = 2 ∨ st.validsize = 4
  fewer : st.dirtysize ≤ st.validsize
  offset : st.val ≠ 0 → st.validsize = 4
  agrees : ∀ i < 8 * k, 8 * st.dirtysize ≤ i → i < 8 * st.validsize →
    reg.getLsbD i = mem.getLsbD i

/-- `known` is how many low bytes of each virtual register's value do not hang on a native register
that was taken as it was. -/
structure Live.Inv (host : Host N) (known : VReg → Nat) (s : Live N) : Prop where
  linked : s.Linked
  placed : ∀ n, ∀ v ∈ (s.nat n).holds, Placed (known v) (s.state v) (s.mem v) (s.regs n)
  alone : ∀ n, ∀ v ∈ (s.nat n).holds, (s.state v).validsize < 4 → (s.nat n).holds = [v]
  byteReg : ∀ n, ∀ v ∈ (s.nat n).holds, (s.state v).dirtysize = 1 → host.ByteReg n
  flagx : known flagx ≤ 1

theorem isinreg_iff {v : VReg} :
    s.isinreg v = true ↔ (s.state v).status = .clean ∨ (s.state v).status = .dirty := by
  rw [Live.isinreg, Bool.or_eq_true, decide_eq_true_eq, decide_eq_true_eq]

theorem Live.Linked.mem_of_isinreg (linked : s.Linked) {v : VReg} {n : Fin N}
    (inreg : s.isinreg v = true) (realreg : (s.state v).realreg = some n) :
    v ∈ (s.nat n).holds :=
  (linked.holds_iff n v).mpr ⟨inreg, realreg⟩

theorem Live.Linked.unique (linked : s.Linked) {v : VReg} {n n' : Fin N}
    (held : v ∈ (s.nat n).holds) (held' : v ∈ (s.nat n').holds) : n = n' :=
  Option.some.inj
    (((linked.holds_iff n v).mp held).2.symm.trans ((linked.holds_iff n' v).mp held').2)

theorem Live.Linked.not_mem (linked : s.Linked) {v : VReg} (out : s.isinreg v = false) (n : Fin N) :
    v ∉ (s.nat n).holds := fun held => by
  rw [((linked.holds_iff n v).mp held).1] at out
  cases out

theorem value_held (linked : s.Linked) {v : VReg} {n : Fin N} (held : v ∈ (s.nat n).holds) :
    s.value v = splice (s.state v).validsize (s.regs n) (s.mem v) + (s.state v).val := by
  obtain ⟨inreg, realreg⟩ := (linked.holds_iff n v).mp held
  rw [Live.value, Live.content, realreg, RegStatus.value]
  rcases isinreg_iff.mp inreg with status | status <;> rw [status] <;> rfl

/-- The value of a register that is in no native one depends on memory only. -/
theorem value_out {s₁ s₂ : Live N} {v : VReg} (out : s₁.isinreg v = false)
    (state : (s₂.state v).val = (s₁.state v).val ∧ (s₂.state v).status = (s₁.state v).status)
    (mem : s₂.mem v = s₁.mem v) : s₂.value v = s₁.value v := by
  rw [Live.value, Live.value, RegStatus.value, RegStatus.value, state.1, state.2, mem]
  unfold Live.isinreg at out
  split <;> simp_all

/-! ### What allocation keeps -/

/-- Registers are moved about for the sake of one, or none in particular: known values are kept, no
locks change, no register becomes undefined, and others that are in no native one are left alone. -/
structure Served (host : Host N) (known : VReg → Nat) (sake : Option VReg) (s s' : Live N) :
    Prop where
  inv : s'.Inv host known
  keeps : ∀ v, SameLow (known v) (s'.value v) (s.value v)
  locked : ∀ n, (s'.nat n).locked = (s.nat n).locked
  out : ∀ u, sake ≠ some u → s.isinreg u = false → s'.state u = s.state u ∧ s'.mem u = s.mem u
  undef : ∀ v, (s'.state v).status = .undef → (s.state v).status = .undef

theorem Served.refl (inv : s.Inv host known) (sake : Option VReg) : Served host known sake s s :=
  ⟨inv, fun _ => .refl _ _, fun _ => rfl, fun _ _ _ => ⟨rfl, rfl⟩, fun _ => id⟩

theorem Served.trans {sake : Option VReg} {s'' : Live N} (first : Served host known sake s s')
    (second : Served host known sake s' s'') : Served host known sake s s'' := by
  refine ⟨second.inv, fun v => (second.keeps v).trans (first.keeps v),
    fun n => (second.locked n).trans (first.locked n), fun u other out => ?_,
    fun v undefined => first.undef v (second.undef v undefined)⟩
  obtain ⟨state, mem⟩ := first.out u other out
  have out' : s'.isinreg u = false := by
    rw [Live.isinreg, state]
    exact out
  obtain ⟨state', mem'⟩ := second.out u other out'
  exact ⟨state'.trans state, mem'.trans mem⟩

theorem Served.of_none (served : Served host known none s s') (sake : Option VReg) :
    Served host known sake s s' :=
  ⟨served.inv, served.keeps, served.locked, fun u _ => served.out u nofun, served.undef⟩

/-! ### Changes of one register -/

/-- Locks and counters of use may differ. -/
structure Live.SameHeld (s s' : Live N) : Prop where
  state : s'.state = s.state
  holds : ∀ n, (s'.nat n).holds = (s.nat n).holds
  regs : s'.regs = s.regs
  mem : s'.mem = s.mem

/-- Only what the native registers hold, and what those hold that hold any, matters. -/
theorem Live.Inv.congr (inv : s.Inv host known) (state : s'.state = s.state)
    (holds : ∀ n, (s'.nat n).holds = (s.nat n).holds)
    (regs : ∀ n, (s.nat n).holds ≠ [] → s'.regs n = s.regs n) (mem : s'.mem = s.mem) :
    s'.Inv host known := by
  have isinreg : s'.isinreg = s.isinreg := by
    unfold Live.isinreg
    rw [state]
  refine ⟨⟨?_, ?_, ?_, ?_⟩, ?_, ?_, ?_, inv.flagx⟩
  · simpa only [holds, isinreg] using inv.linked.somewhere
  · simpa only [holds, isinreg, state] using inv.linked.holds_iff
  · simpa only [holds, state] using inv.linked.realind
  · simpa only [holds] using inv.linked.nodup
  · intro n v held
    rw [holds] at held
    rw [state, mem, regs n (List.ne_nil_of_mem held)]
    exact inv.placed n v held
  · simpa only [holds, state] using inv.alone
  · simpa only [holds, state] using inv.byteReg

theorem value_congr (linked : s.Linked) (state : s'.state = s.state)
    (regs : ∀ n, (s.nat n).holds ≠ [] → s'.regs n = s.regs n) (mem : s'.mem = s.mem) (v : VReg) :
    s'.value v = s.value v := by
  cases inreg : s.isinreg v with
  | false => exact value_out inreg (by rw [state]; exact ⟨rfl, rfl⟩) (by rw [mem])
  | true =>
    rw [Live.value, Live.value, Live.content, Live.content, state, mem]
    cases realreg : (s.state v).realreg with
    | none =>
      rfl
    | some n =>
      have held := linked.mem_of_isinreg inreg realreg
      rw [Option.elim_some, Option.elim_some, regs n (List.ne_nil_of_mem held)]

theorem Live.SameHeld.inv (same : s.SameHeld s') (inv : s.Inv host known) : s'.Inv host known :=
  inv.congr same.state same.holds (fun n _ => congrFun same.regs n) same.mem

theorem Live.SameHeld.value (same : s.SameHeld s') (linked : s.Linked) (v : VReg) :
    s'.value v = s.value v :=
  value_congr linked same.state (fun n _ => congrFun same.regs n) same.mem v

/-- A register in `n`, its place in memory and `n` itself get new contents. -/
def Live.revise (s : Live N) (v : VReg) (n : Fin N) (st : RegStatus N) (m c : BitVec 32) : Live N :=
  { s with
    state := Function.update s.state v st
    mem := Function.update s.mem v m
    regs := Function.update s.regs n c }

/-- A record that is still in the same place. -/
def RegStatus.Stays (st st' : RegStatus N) : Prop :=
  (st'.status = .clean ∨ st'.status = .dirty) ∧ st'.realreg = st.realreg ∧ st'.realind = st.realind

section Revise

variable {v : VReg} {n : Fin N} {st : RegStatus N} {m c : BitVec 32}

theorem revise_isinreg (held : v ∈ (s.nat n).holds) (linked : s.Linked)
    (stays : (s.state v).Stays st) (u : VReg) : (s.revise v n st m c).isinreg u = s.isinreg u := by
  by_cases same : u = v
  · subst same
    rw [((linked.holds_iff n u).mp held).1, isinreg_iff]
    simpa [Live.revise] using stays.1
  · simp [Live.isinreg, Live.revise, same]

theorem Live.Linked.revise (linked : s.Linked) (held : v ∈ (s.nat n).holds)
    (stays : (s.state v).Stays st) : (s.revise v n st m c).Linked := by
  have realreg (u : VReg) : ((s.revise v n st m c).state u).realreg = (s.state u).realreg := by
    by_cases same : u = v
    · subst same
      simpa [Live.revise] using stays.2.1
    · simp [Live.revise, same]
  have realind (u : VReg) : ((s.revise v n st m c).state u).realind = (s.state u).realind := by
    by_cases same : u = v
    · subst same
      simpa [Live.revise] using stays.2.2
    · simp [Live.revise, same]
  refine ⟨fun u inreg => ?_, fun n' u => ?_, fun n' u held' => ?_, linked.nodup⟩
  · rw [revise_isinreg held linked stays] at inreg
    exact linked.somewhere u inreg
  · rw [revise_isinreg held linked stays, realreg]
    exact linked.holds_iff n' u
  · rw [realind]
    exact linked.realind n' u held'

/-- What `n` holds changes only if it holds nothing else. -/
theorem revise_regs (reg : c = s.regs n ∨ (s.nat n).holds = [v]) {u : VReg} (other : u ≠ v) {n' : Fin N}
    (held' : u ∈ (s.nat n').holds) : (s.revise v n st m c).regs n' = s.regs n' := by
  by_cases same : n' = n
  · subst same
    rcases reg with kept | alone
    · rw [Live.revise, kept, Function.update_eq_self]
    · rw [alone] at held'
      exact absurd (List.mem_singleton.mp held') other
  · exact Function.update_of_ne same _ _

theorem Live.Inv.revise (inv : s.Inv host known) (held : v ∈ (s.nat n).holds)
    (stays : (s.state v).Stays st) (reg : c = s.regs n ∨ (s.nat n).holds = [v])
    (placed : Placed (known v) st m c) (alone : st.validsize < 4 → (s.nat n).holds = [v])
    (byteReg : st.dirtysize = 1 → host.ByteReg n) : (s.revise v n st m c).Inv host known := by
  have at_n {n' : Fin N} (held' : v ∈ (s.nat n').holds) : n' = n := inv.linked.unique held' held
  have state_self : (s.revise v n st m c).state v = st := Function.update_self _ _ _
  have state_other {u : VReg} (other : u ≠ v) : (s.revise v n st m c).state u = s.state u :=
    Function.update_of_ne other _ _
  refine ⟨inv.linked.revise held stays, fun n' u held' => ?_, fun n' u held' => ?_,
    fun n' u held' => ?_, inv.flagx⟩ <;> by_cases same : u = v
  · subst same
    obtain rfl := at_n held'
    rw [state_self]
    simpa [Live.revise] using placed
  · rw [state_other same, revise_regs reg same held']
    simpa [Live.revise, same] using inv.placed n' u held'
  · subst same
    obtain rfl := at_n held'
    rw [state_self]
    exact alone
  · rw [state_other same]
    exact inv.alone n' u held'
  · subst same
    obtain rfl := at_n held'
    rw [state_self]
    exact byteReg
  · rw [state_other same]
    exact inv.byteReg n' u held'

theorem value_revise_self (linked : s.Linked) (held : v ∈ (s.nat n).holds)
    (stays : (s.state v).Stays st) :
    (s.revise v n st m c).value v = splice st.validsize c m + st.val := by
  rw [value_held (linked.revise held stays) (n := n) held]
  simp [Live.revise]

theorem value_revise_of_ne (linked : s.Linked) (reg : c = s.regs n ∨ (s.nat n).holds = [v])
    {u : VReg} (other : u ≠ v) : (s.revise v n st m c).value u = s.value u := by
  cases inreg : s.isinreg u with
  | false =>
    refine value_out inreg ?_ ?_ <;> simp [Live.revise, other]
  | true =>
    have state : (s.revise v n st m c).state u = s.state u := Function.update_of_ne other _ _
    have mem : (s.revise v n st m c).mem u = s.mem u := Function.update_of_ne other _ _
    rw [Live.value, Live.value, Live.content, Live.content, state, mem]
    cases realreg : (s.state u).realreg with
    | none => rfl
    | some n' =>
      have held' := linked.mem_of_isinreg inreg realreg
      rw [Option.elim_some, Option.elim_some, revise_regs reg other held']

theorem Served.revise (inv : s.Inv host known) (held : v ∈ (s.nat n).holds)
    (stays : (s.state v).Stays st) (reg : c = s.regs n ∨ (s.nat n).holds = [v])
    (placed : Placed (known v) st m c) (alone : st.validsize < 4 → (s.nat n).holds = [v])
    (byteReg : st.dirtysize = 1 → host.ByteReg n)
    (value : SameLow (known v) (splice st.validsize c m + st.val) (s.value v)) :
    Served host known none s (s.revise v n st m c) := by
  refine ⟨inv.revise held stays reg placed alone byteReg, fun u => ?_, fun _ => rfl,
    fun u _ out => ?_, fun u undefined => ?_⟩
  · by_cases same : u = v
    · subst same
      rw [value_revise_self inv.linked held stays]
      exact value
    · rw [value_revise_of_ne inv.linked reg same]
      exact .refl _ _
  · have other : u ≠ v := by
      rintro rfl
      exact inv.linked.not_mem out n held
    exact ⟨Function.update_of_ne other _ _, Function.update_of_ne other _ _⟩
  · by_cases same : u = v
    · subst same
      rw [show (s.revise u n st m c).state u = st from Function.update_self _ _ _] at undefined
      rcases stays.1 with status | status <;> cases status.symm.trans undefined
    · rwa [show (s.revise v n st m c).state u = s.state u from Function.update_of_ne same _ _]
        at undefined

end Revise

/-! ### tomem and evict -/

section Evict

variable {v : VReg} {n : Fin N}

theorem revise_same (s : Live N) (v : VReg) (n : Fin N) :
    s.revise v n (s.state v) (s.mem v) (s.regs n) = s := by
  simp [Live.revise]

theorem holds_eq_singleton (held : v ∈ (s.nat n).holds) (single : s.nholds n = 1) :
    (s.nat n).holds = [v] := by
  obtain ⟨u, only⟩ := List.length_eq_one_iff.mp single
  rw [only] at held ⊢
  rw [List.mem_singleton.mp held]

theorem Served.adjust (inv : s.Inv host known) (held : v ∈ (s.nat n).holds)
    (single : s.nholds n = 1) (val : (s.state v).val ≠ 0) :
    Served host known none s <| s.revise v n
      { s.state v with val := 0, dirtysize := 4, status := .dirty } (s.mem v)
      (s.regs n + (s.state v).val) := by
  have placed := inv.placed n v held
  have whole := placed.offset val
  have alone := holds_eq_singleton held single
  refine Served.revise inv held ⟨.inr rfl, rfl, rfl⟩ (.inr alone) ?_ (fun _ => alone) nofun ?_
  · exact ⟨.inr ⟨rfl, .inr (.inr rfl)⟩, placed.valid, whole.ge, nofun,
      fun i _ high low => absurd (show i < 8 * (s.state v).validsize from low)
        (by rw [whole]; exact Nat.not_lt.mpr high)⟩
  · rw [value_held inv.linked held, whole, splice_all (by decide), splice_all (by decide)]
    simpa using SameLow.refl _ _

theorem store_eq (byteReg : (s.state v).dirtysize = 1 → host.ByteReg n)
    (stored : s.store host v n = some s') :
    s' = s.setMem v (splice (s.state v).dirtysize (s.regs n) (s.mem v)) := by
  unfold Live.store at stored
  split at stored
  next one =>
    cases stored
    have low : splice 1 ((host.storedByte s.regs n).setWidth 32) (s.mem v) =
        splice 1 (s.regs n) (s.mem v) := by
      apply BitVec.eq_of_getLsbD_eq
      intro i _
      rw [splice_bit, splice_bit, byteReg one s.regs, BitVec.getLsbD_setWidth,
        BitVec.getLsbD_setWidth]
      split
      · simp [show i < 32 by omega, show i < 8 by omega]
      · rfl
    rw [one, low]
  next two =>
    cases stored
    rw [two]
  next four =>
    cases stored
    rw [four, splice_all (by decide)]
  · cases stored

theorem Served.clean (inv : s.Inv host known) (held : v ∈ (s.nat n).holds) :
    Served host known none s <| s.revise v n { s.state v with status := .clean, dirtysize := 0 }
      (splice (s.state v).dirtysize (s.regs n) (s.mem v)) (s.regs n) := by
  have placed := inv.placed n v held
  refine Served.revise inv held ⟨.inl rfl, rfl, rfl⟩ (.inl rfl) ?_ (inv.alone n v held) nofun ?_
  · refine ⟨.inl ⟨rfl, rfl⟩, placed.valid, Nat.zero_le _, placed.offset, fun i low _ valid => ?_⟩
    rw [splice_bit]
    split
    · rfl
    next clean => exact placed.agrees i low (Nat.not_lt.mp clean) valid
  · rw [value_held inv.linked held, splice_splice placed.fewer]
    exact .refl _ _

theorem writeback_eq (inv : s.Inv host known) (held : v ∈ (s.nat n).holds)
    (done : s.writeback host v n = some s') :
    s' = s.revise v n { s.state v with status := .clean, dirtysize := 0 }
      (splice (s.state v).dirtysize (s.regs n) (s.mem v)) (s.regs n) := by
  rw [Live.writeback] at done
  split at done
  · obtain ⟨now, stored, rfl⟩ := Option.map_eq_some_iff.mp done
    rw [store_eq (inv.byteReg n v held) stored]
    simp [Live.modify, Live.setMem, Live.revise]
  next other =>
    cases done
    obtain ⟨clean, none_dirty⟩ := (inv.placed n v held).status.resolve_right fun dirty =>
      other dirty.1
    have same : { s.state v with status := .clean, dirtysize := 0 } = s.state v := by
      rw [← clean, ← none_dirty]
    rw [same, none_dirty, splice_zero, revise_same]

theorem revise_revise (s : Live N) (v : VReg) (n : Fin N) (st st' : RegStatus N)
    (m m' c c' : BitVec 32) : (s.revise v n st m c).revise v n st' m' c' = s.revise v n st' m' c' := by
  simp [Live.revise]

/-- `tomem` leaves a register clean where it is. -/
theorem tomem_spec (inv : s.Inv host known) (held : v ∈ (s.nat n).holds)
    (done : s.tomem host v = some s') :
    Served host known none s s' ∧ ∃ st m c, s' = s.revise v n st m c ∧
      (s.state v).Stays st ∧ (c = s.regs n ∨ (s.nat n).holds = [v]) ∧ st.dirtysize = 0 := by
  obtain ⟨inreg, realreg⟩ := (inv.linked.holds_iff n v).mp held
  simp only [Live.tomem, realreg, Live.applyOffset] at done
  by_cases fold : s.isinreg v = true ∧ (s.state v).val ≠ 0 ∧ s.nholds n = 1 ∧
      (s.nat n).locked = 0
  · rw [if_pos fold] at done
    have adjusted := Served.adjust inv held fold.2.2.1 fold.2.1
    have eq : (s.adjustNreg n (s.state v).val).modify v (fun st =>
        { st with val := 0, dirtysize := 4, status := .dirty }) = s.revise v n
          { s.state v with val := 0, dirtysize := 4, status := .dirty } (s.mem v)
          (s.regs n + (s.state v).val) := by
      simp [Live.adjustNreg, Live.setReg, Live.modify, Live.revise]
    rw [eq] at done
    have cleaned := writeback_eq adjusted.inv held done
    refine ⟨adjusted.trans (cleaned ▸ Served.clean adjusted.inv held), ?_⟩
    rw [cleaned, revise_revise]
    refine ⟨_, _, _, rfl, ?_, .inr (holds_eq_singleton held fold.2.2.1), rfl⟩
    simp [Live.revise, RegStatus.Stays]
  · rw [if_neg fold] at done
    have cleaned := writeback_eq inv held done
    refine ⟨cleaned ▸ Served.clean inv held, _, _, _, cleaned, ⟨.inl rfl, rfl, rfl⟩, .inl rfl, rfl⟩

/-- The same but for the index. -/
structure RegStatus.Alike (st st' : RegStatus N) : Prop where
  val : st'.val = st.val
  status : st'.status = st.status
  realreg : st'.realreg = st.realreg
  validsize : st'.validsize = st.validsize
  dirtysize : st'.dirtysize = st.dirtysize

theorem RegStatus.Alike.refl (st : RegStatus N) : st.Alike st := ⟨rfl, rfl, rfl, rfl, rfl⟩

theorem Placed.alike {k : Nat} {st st' : RegStatus N} {m c : BitVec 32} (placed : Placed k st m c)
    (alike : st.Alike st') : Placed k st' m c := by
  obtain ⟨status, valid, fewer, offset, agrees⟩ := placed
  constructor
  · rw [alike.status, alike.dirtysize]
    exact status
  · rw [alike.validsize]
    exact valid
  · rw [alike.validsize, alike.dirtysize]
    exact fewer
  · rw [alike.val, alike.validsize]
    exact offset
  · rw [alike.validsize, alike.dirtysize]
    exact agrees

theorem Live.Linked.index_unique (linked : s.Linked) (held : v ∈ (s.nat n).holds) {j : Nat}
    (at_ : (s.nat n).holds[j]? = some v) : j = (s.state v).realind :=
  (List.getElem?_inj (List.getElem?_eq_some_iff.mp at_).1 (linked.nodup n)).mp
    (at_.trans (linked.realind n v held).symm)

theorem Live.Linked.realind_lt (linked : s.Linked) (held : v ∈ (s.nat n).holds) :
    (s.state v).realind < (s.nat n).holds.length :=
  (List.getElem?_eq_some_iff.mp (linked.realind n v held)).1

/-- What `detach` does to the records. -/
theorem detach_state (linked : s.Linked) (held : v ∈ (s.nat n).holds) (u : VReg) :
    (s.detach v n).state u =
      if u = v then { s.state v with realreg := none, status := .inmem }
      else if (s.nat n).holds.getLast? = some u then
        { s.state u with realind := (s.state v).realind }
      else s.state u := by
  have some_held := List.ne_nil_of_mem held
  obtain ⟨topreg, last⟩ := Option.isSome_iff_exists.mp (List.getLast?_isSome.mpr some_held)
  have index := linked.realind n v held
  simp only [Live.detach, last, Option.some.injEq]
  by_cases at_end : (s.nat n).holds.length - 1 = (s.state v).realind
  · -- The register is the last entry itself.
    have top : topreg = v := by
      rw [List.getLast?_eq_getElem?, at_end, index] at last
      exact (Option.some.inj last).symm
    subst top
    by_cases same : u = topreg
    · simp [at_end, same, Live.modify, Live.modifyNat]
    · simp [at_end, same, Ne.symm same, Live.modify, Live.modifyNat]
  · have top : topreg ≠ v := by
      rintro rfl
      rw [List.getLast?_eq_getElem?] at last
      exact at_end (linked.index_unique held last)
    rw [if_pos at_end]
    by_cases same : u = v
    · simp [same, Live.modify, Live.modifyNat, Ne.symm top]
    · by_cases moved : topreg = u
      · subst moved
        simp [same, Live.modify, Live.modifyNat]
      · simp [same, moved, Ne.symm moved, Live.modify, Live.modifyNat]

theorem detach_nat (s : Live N) (v : VReg) (n : Fin N) : (s.detach v n).nat =
    Function.update s.nat n
      { s.nat n with holds := swapRemove (s.nat n).holds (s.state v).realind } := by
  unfold Live.detach
  simp only
  split
  · split <;> rfl
  · rfl

theorem detach_regs (s : Live N) (v : VReg) (n : Fin N) : (s.detach v n).regs = s.regs := by
  unfold Live.detach
  simp only
  split
  · split <;> rfl
  · rfl

theorem detach_mem (s : Live N) (v : VReg) (n : Fin N) : (s.detach v n).mem = s.mem := by
  unfold Live.detach
  simp only
  split
  · split <;> rfl
  · rfl

theorem detach_alike (linked : s.Linked) (held : v ∈ (s.nat n).holds) {u : VReg}
    (other : u ≠ v) : (s.state u).Alike ((s.detach v n).state u) := by
  rw [detach_state linked held, if_neg other]
  split
  · exact ⟨rfl, rfl, rfl, rfl, rfl⟩
  · exact .refl _

theorem detach_isinreg (linked : s.Linked) (held : v ∈ (s.nat n).holds) (u : VReg) :
    (s.detach v n).isinreg u = if u = v then false else s.isinreg u := by
  split
  next same =>
    rw [same, Live.isinreg, detach_state linked held, if_pos rfl]
    rfl
  next other => rw [Live.isinreg, Live.isinreg, (detach_alike linked held other).status]

theorem detach_holds (linked : s.Linked) (held : v ∈ (s.nat n).holds) (n' : Fin N) (u : VReg) :
    u ∈ ((s.detach v n).nat n').holds ↔ u ∈ (s.nat n').holds ∧ u ≠ v := by
  rw [detach_nat]
  by_cases here : n' = n
  · subst here
    have inside := linked.realind_lt held
    have entry := (List.getElem?_eq_some_iff.mp (linked.realind n' v held)).2
    rw [Function.update_self, mem_swapRemove (linked.nodup n') inside, entry]
  · rw [Function.update_of_ne here]
    refine (and_iff_left_of_imp ?_).symm
    rintro held' rfl
    exact here (linked.unique held' held)

theorem Live.Linked.detach (linked : s.Linked) (held : v ∈ (s.nat n).holds) :
    (s.detach v n).Linked := by
  refine ⟨fun u inreg => ?_, fun n' u => ?_, fun n' u held' => ?_, fun n' => ?_⟩
  · rw [detach_isinreg linked held] at inreg
    split at inreg
    · cases inreg
    next other =>
      obtain ⟨n', held'⟩ := linked.somewhere u inreg
      exact ⟨n', (detach_holds linked held n' u).mpr ⟨held', other⟩⟩
  · rw [detach_holds linked held, linked.holds_iff, detach_isinreg linked held]
    by_cases same : u = v
    · simp [same]
    · simp [same, (detach_alike linked held same).realreg]
  · obtain ⟨before, other⟩ := (detach_holds linked held n' u).mp held'
    have index := linked.realind n' u before
    rw [detach_nat, detach_state linked held, if_neg other]
    by_cases here : n' = n
    · subst here
      have inside := linked.realind_lt held
      have room := linked.realind_lt before
      have apart : (s.state u).realind ≠ (s.state v).realind := by
        intro same
        rw [same, linked.realind n' v held] at index
        exact other (Option.some.inj index).symm
      rw [Function.update_self]
      by_cases top : (s.nat n').holds.getLast? = some u
      · -- The last entry is not that of the register, so that its place is taken.
        rw [if_pos top]
        have last : (s.nat n').holds.length - 1 = (s.state u).realind :=
          linked.index_unique before (by rw [← List.getLast?_eq_getElem?, top])
        simp only
        rw [getElem?_swapRemove _ inside (by omega), if_pos rfl, top]
      · have below : (s.state u).realind + 1 < (s.nat n').holds.length := by
          by_contra at_end
          rw [List.getLast?_eq_getElem?] at top
          exact top (by rw [show (s.nat n').holds.length - 1 = (s.state u).realind by omega, index])
        rw [if_neg top]
        simp only
        rw [getElem?_swapRemove _ inside below, if_neg apart, index]
    · rw [Function.update_of_ne here]
      have elsewhere : (s.nat n).holds.getLast? ≠ some u := fun top =>
        here (linked.unique before (List.mem_of_getLast? top))
      rw [if_neg elsewhere]
      exact index
  · rw [detach_nat]
    by_cases here : n' = n
    · subst here
      rw [Function.update_self]
      exact nodup_swapRemove (linked.nodup n') (linked.realind_lt held)
    · rw [Function.update_of_ne here]
      exact linked.nodup n'

/-- `v` has left `n` for memory, and all others are where they were. -/
structure Evicted (host : Host N) (known : VReg → Nat) (v : VReg) (n : Fin N) (s s' : Live N) :
    Prop where
  served : Served host known none s s'
  status : (s'.state v).status = .inmem
  nat : ∀ m ≠ n, s'.nat m = s.nat m
  regs : ∀ m ≠ n, s'.regs m = s.regs m
  holds : ∀ u, u ∈ (s'.nat n).holds ↔ u ∈ (s.nat n).holds ∧ u ≠ v
  other : ∀ u, u ∉ (s.nat n).holds → s'.state u = s.state u ∧ s'.mem u = s.mem u
  stay : ∀ u ∈ (s.nat n).holds, u ≠ v →
    (s.state u).Alike (s'.state u) ∧ s'.mem u = s.mem u ∧ s'.regs n = s.regs n

theorem Live.Inv.detach (inv : s.Inv host known) (held : v ∈ (s.nat n).holds) :
    (s.detach v n).Inv host known := by
  have linked := inv.linked
  refine ⟨linked.detach held, fun n' u held' => ?_, fun n' u held' narrow => ?_,
    fun n' u held' one => ?_, inv.flagx⟩ <;>
    obtain ⟨before, other⟩ := (detach_holds linked held n' u).mp held' <;>
    have alike := detach_alike linked held other
  · rw [detach_mem, detach_regs]
    exact (inv.placed n' u before).alike alike
  · -- A register that is alone is not with the one that leaves.
    rw [alike.validsize] at narrow
    have alone := inv.alone n' u before narrow
    have here : n' ≠ n := by
      rintro rfl
      rw [alone] at held
      exact other (List.mem_singleton.mp held).symm
    rw [detach_nat, Function.update_of_ne here, alone]
  · rw [alike.dirtysize] at one
    exact inv.byteReg n' u before one

theorem Evicted.detach (inv : s.Inv host known) (held : v ∈ (s.nat n).holds)
    (clean : (s.state v).dirtysize = 0) : Evicted host known v n s (s.detach v n) := by
  have linked := inv.linked
  have state_of_not_mem {u : VReg} (out : u ∉ (s.nat n).holds) :
      (s.detach v n).state u = s.state u := by
    have other : u ≠ v := fun same => out (same ▸ held)
    have top : (s.nat n).holds.getLast? ≠ some u := fun top => out (List.mem_of_getLast? top)
    rw [detach_state linked held, if_neg other, if_neg top]
  refine ⟨⟨inv.detach held, fun u => ?_, fun m => ?_, fun u _ out => ?_, fun u undefined => ?_⟩,
    ?_, fun m apart => ?_,
    fun m _ => ?_, fun u => detach_holds linked held n u, fun u out => ?_, fun u _ other => ?_⟩
  · by_cases same : u = v
    · -- Its valid bytes are in memory, as far as they are known.
      subst same
      have value : (s.detach u n).value u = s.mem u + (s.state u).val := by
        rw [Live.value, detach_state linked held, if_pos rfl, detach_mem]
        rfl
      rw [value, value_held linked held]
      refine SameLow.add (fun i low => ?_) _
      rw [splice_bit]
      split
      next valid =>
        exact ((inv.placed n u held).agrees i low (by rw [clean]; exact Nat.zero_le _) valid).symm
      · rfl
    · have alike := detach_alike linked held same
      have value : (s.detach v n).value u = s.value u := by
        rw [Live.value, Live.value, RegStatus.value, RegStatus.value, Live.content, Live.content,
          alike.status, alike.val, alike.validsize, alike.realreg, detach_mem, detach_regs]
      rw [value]
      exact .refl _ _
  · rw [detach_nat]
    by_cases here : m = n
    · subst here
      rw [Function.update_self]
    · rw [Function.update_of_ne here]
  · have out' : u ∉ (s.nat n).holds := linked.not_mem out n
    exact ⟨state_of_not_mem out', by rw [detach_mem]⟩
  · by_cases same : u = v
    · rw [same, detach_state linked held, if_pos rfl] at undefined
      cases undefined
    · rwa [(detach_alike linked held same).status] at undefined
  · rw [detach_state linked held, if_pos rfl]
  · rw [detach_nat, Function.update_of_ne apart]
  · rw [detach_regs]
  · exact ⟨state_of_not_mem out, by rw [detach_mem]⟩
  · exact ⟨detach_alike linked held other, by rw [detach_mem], by rw [detach_regs]⟩

/-- `evict` of a register that is in a native one. -/
theorem evict_spec (inv : s.Inv host known) (held : v ∈ (s.nat n).holds)
    (done : s.evict host v = some s') : Evicted host known v n s s' := by
  obtain ⟨inreg, realreg⟩ := (inv.linked.holds_iff n v).mp held
  rw [Live.evict, if_neg (not_not.mpr inreg)] at done
  obtain ⟨now, stored, removed⟩ := Option.bind_eq_some_iff.mp done
  obtain ⟨served, st, m, c, rfl, stays, reg, clean⟩ := tomem_spec inv held stored
  have state_v : (s.revise v n st m c).state v = st := Function.update_self _ _ _
  have state_other {u : VReg} (other : u ≠ v) : (s.revise v n st m c).state u = s.state u :=
    Function.update_of_ne other _ _
  simp only [state_v, stays.2.1, realreg] at removed
  split at removed
  · cases removed
  · cases removed
    have gone := Evicted.detach served.inv held (by rw [state_v, clean])
    refine ⟨served.trans gone.served, gone.status, gone.nat, fun m apart => ?_, gone.holds,
      fun u out => ?_, fun u member other => ?_⟩
    · rw [gone.regs m apart]
      exact Function.update_of_ne apart _ _
    · have other : u ≠ v := fun same => out (same ▸ held)
      obtain ⟨state, mem⟩ := gone.other u out
      exact ⟨state.trans (state_other other), mem.trans (Function.update_of_ne other _ _)⟩
    · obtain ⟨alike, mem, regs⟩ := gone.stay u member other
      rw [state_other other] at alike
      refine ⟨alike, mem.trans (Function.update_of_ne other _ _), regs.trans ?_⟩
      exact revise_regs reg other member

end Evict

/-! ### free_nreg -/

/-- Registers that were in `b` are evicted from there. -/
structure Freeing (host : Host N) (known : VReg → Nat) (b : Fin N) (s s' : Live N) : Prop where
  served : Served host known none s s'
  nat : ∀ m ≠ b, s'.nat m = s.nat m
  regs : ∀ m ≠ b, s'.regs m = s.regs m
  holds : ∀ u ∈ (s'.nat b).holds, u ∈ (s.nat b).holds
  other : ∀ u, u ∉ (s.nat b).holds → s'.state u = s.state u ∧ s'.mem u = s.mem u

theorem Freeing.refl (inv : s.Inv host known) (b : Fin N) : Freeing host known b s s :=
  ⟨.refl inv none, fun _ _ => rfl, fun _ _ => rfl, fun _ => id, fun _ _ => ⟨rfl, rfl⟩⟩

theorem Freeing.trans {b : Fin N} {s'' : Live N} (first : Freeing host known b s s')
    (second : Freeing host known b s' s'') : Freeing host known b s s'' := by
  refine ⟨first.served.trans second.served, fun m apart => (second.nat m apart).trans
    (first.nat m apart), fun m apart => (second.regs m apart).trans (first.regs m apart),
    fun u held => first.holds u (second.holds u held), fun u out => ?_⟩
  obtain ⟨state, mem⟩ := first.other u out
  obtain ⟨state', mem'⟩ := second.other u fun held => out (first.holds u held)
  exact ⟨state'.trans state, mem'.trans mem⟩

theorem Evicted.freeing {v : VReg} {n : Fin N} (gone : Evicted host known v n s s') :
    Freeing host known n s s' :=
  ⟨gone.served, gone.nat, gone.regs, fun u held => ((gone.holds u).mp held).1, gone.other⟩

theorem evictFrom_spec (inv : s.Inv host known) (b : Fin N) {i : Nat}
    (done : s.evictFrom host b i = some s') : Freeing host known b s s' := by
  induction i generalizing s with
  | zero =>
    cases done
    exact .refl inv b
  | succ i ih =>
    rw [Live.evictFrom] at done
    split at done
    next vr entry =>
      obtain ⟨now, evicted, rest⟩ := Option.bind_eq_some_iff.mp done
      have gone := evict_spec inv (List.mem_of_getElem? entry) evicted
      exact gone.freeing.trans (ih gone.served.inv rest)
    · exact ih inv done

theorem freeNreg_spec (inv : s.Inv host known) {b : Fin N} (done : s.freeNreg host b = some s') :
    Freeing host known b s s' ∧ (s'.nat b).holds = [] := by
  obtain ⟨now, evicted, rest⟩ := Option.bind_eq_some_iff.mp done
  simp only [Option.ite_none_left_eq_some, not_not, Option.some_inj] at rest
  obtain ⟨empty, rfl⟩ := rest
  exact ⟨evictFrom_spec inv b evicted, List.eq_nil_of_length_eq_zero empty⟩

/-- `if (live.nat[b].nholds>0) free_nreg(b);` -/
theorem freed_spec (inv : s.Inv host known) {b : Fin N}
    (done : (if 0 < s.nholds b then s.freeNreg host b else some s) = some s') :
    Freeing host known b s s' ∧ (s'.nat b).holds = [] := by
  split at done
  · exact freeNreg_spec inv done
  next empty =>
    cases done
    exact ⟨.refl inv b, List.eq_nil_of_length_eq_zero (Nat.eq_zero_of_not_pos empty)⟩

end BasiliskII.Jit
