import BasiliskII.Jit.RegisterAccess

/-!
# Runs of the register allocator

Any number of calls from the state of `init_comp` on, with what they emit in between. Apart from
the state there is a record of how much of each virtual register's value is to be kept.
-/
namespace BasiliskII.Jit

open ByteLanes StepSystem

variable {N : Nat} {host : Host N} {known : VReg → Nat} {s s' : Live N}

/-- What the functions of the middle layer call, and the instructions they emit for a register
that is written. -/
inductive Call (N : Nat)
  | readreg (r : VReg) (size : Nat) (spec : Option (Fin N)) (canOffset : Bool)
  | writereg (r : VReg) (size : Nat) (spec : Option (Fin N))
  | rmw (r : VReg) (wsize rsize : Nat) (spec : Option (Fin N))
  | unlock2 (n : Fin N)
  | evict (r : VReg)
  | setConst (r : VReg) (val : BitVec 32)
  | addOffset (r : VReg) (offset : BitVec 32)
  | removeOffset (r : VReg) (spec : Option (Fin N))
  | movLRr (d r : VReg)
  | emit (r : VReg) (size : Nat) (result : BitVec 32)

/-- The instruction writes the low bytes of the native register. -/
def Live.emit (r : VReg) (size : Nat) (result : BitVec 32) (s : Live N) : Option (Live N) :=
  (s.state r).realreg.map fun n => s.setReg n (splice size result (s.regs n))

def Live.call (host : Host N) (s : Live N) : Call N → Option (Live N)
  | .readreg r size spec canOffset =>
    (s.readregGeneral host r size spec canOffset).map Prod.snd
  | .writereg r size spec => (s.writeregGeneral host r size spec).map Prod.snd
  | .rmw r wsize rsize spec => (s.rmwGeneral host r wsize rsize spec).map Prod.snd
  | .unlock2 n => s.unlock2 n
  | .evict r => s.evict host r
  | .setConst r val => s.setConst host r val
  | .addOffset r offset => s.leaLBrr host r offset
  | .removeOffset r spec => s.removeOffset host r spec
  | .movLRr d r => s.movLRr host d r
  | .emit r size result => s.emit r size result

/-- The register a call writes, and how many of its bytes. -/
def Call.written : Call N → Option (VReg × Nat)
  | .readreg .. | .unlock2 _ | .evict _ | .removeOffset .. => none
  | .writereg r size _ => some (r, size)
  | .rmw r wsize _ _ => some (r, wsize)
  | .setConst r _ => some (r, 4)
  | .addOffset r _ => some (r, 0)
  | .movLRr d r => if d = r then none else some (d, 4)
  | .emit r size _ => some (r, size)

/-- The register a call loads though it is undefined, for which there is a warning in the log. -/
def Call.madeUp (s : Live N) (c : Call N) : Option VReg :=
  let loads (r : VReg) := if (s.state r).status = .undef then some r else none
  let loadsOffset (r : VReg) := if (s.state r).val ≠ 0 then loads r else none
  match c with
  | .readreg r .. | .rmw r .. => loads r
  | .writereg r size _ => if size < 4 then loadsOffset r else none
  | .removeOffset r _ => loadsOffset r
  | .movLRr d r => if d = r then none else loads r
  | .unlock2 _ | .evict _ | .setConst .. | .addOffset .. | .emit .. => none

/-- What the callers see to: an offset is added to a register all of whose bytes are valid if it is
in a native one, what is asked for is a byte register, and an instruction writes what was made
ready for it. -/
def Call.Fair (host : Host N) (s : Live N) : Call N → Prop
  | .readreg _ _ spec _ | .writereg _ _ spec => host.Bytes spec
  | .rmw _ wsize _ spec => (wsize = 1 ∨ wsize = 2 ∨ wsize = 4) ∧ host.Bytes spec
  | .addOffset r _ => s.isinreg r = true → (s.state r).validsize = 4
  | .emit r size _ => ∃ n, s.Writable r size n
  | .unlock2 _ | .evict _ | .setConst .. | .removeOffset .. | .movLRr .. => True

/-- How many bytes a register has. -/
def width (r : VReg) : Nat := if r = flagx then 1 else 4

/-- With how many low bytes of each value the last call was to keep, and the registers that were
loaded while they were undefined. -/
structure Traced (N : Nat) where
  live : Live N
  kept : VReg → Nat
  undefined : List VReg

/-- A value that is in no native register is in memory or a constant, and all of it is known. -/
def Traced.knows (t : Traced N) (v : VReg) : Nat :=
  if t.live.isinreg v then t.kept v else width v

/-- A register that is made up is not known until it is written. -/
def Call.learn (s : Live N) (known : VReg → Nat) (c : Call N) : VReg → Nat :=
  let known := (c.madeUp s).elim known (forget known)
  c.written.elim known fun (r, size) =>
    Function.update known r (min (width r) (max (known r) size))

def Traced.step (host : Host N) (t : Traced N) (c : Call N) : Option (Traced N) :=
  (t.live.call host c).map fun s =>
    ⟨s, c.learn t.live t.knows, (c.madeUp t.live).toList ++ t.undefined⟩

def Traced.start (s : Live N) : Traced N := ⟨s, width, []⟩

/-! ### Every call -/

section Calls

variable {d r : VReg}

theorem Served.called {sake : Option VReg} (served : Served host known sake s s')
    (target : Option VReg) : Called host known target s s' :=
  ⟨served.inv, fun v _ => served.keeps v⟩

theorem evict_called (inv : s.Inv host known) (done : s.evict host r = some s') :
    Called host known none s s' := by
  rcases inv.linked.cases r with out | ⟨n, held, -, -⟩
  · rw [Live.evict, if_pos (by simp [out])] at done
    cases done
    exact (Served.refl inv none).called none
  · exact (evict_spec inv held done).served.called none

theorem modify_isinreg {f : RegStatus N → RegStatus N} (out : s.isinreg r = false)
    (stays : (s.modify r f).isinreg r = false) (v : VReg) :
    (s.modify r f).isinreg v = s.isinreg v := by
  by_cases same : v = r
  · rw [same, stays, out]
  · rw [Live.isinreg, modify_state f same]
    rfl

/-- The record of a register that is in no native one changes. -/
theorem modify_called {f : RegStatus N → RegStatus N} (inv : s.Inv host (forget known r))
    (out : s.isinreg r = false) (stays : (s.modify r f).isinreg r = false)
    (flagx : known Jit.flagx ≤ 1) : Called host known (some r) s (s.modify r f) := by
  have linked := inv.linked
  have inreg := modify_isinreg out stays
  have apart {n : Fin N} {v : VReg} (held : v ∈ (s.nat n).holds) : v ≠ r := by
    rintro rfl
    exact linked.not_mem out n held
  have linked' : (s.modify r f).Linked := by
    refine ⟨fun v inreg' => ?_, fun n v => ?_, fun n v held => ?_, linked.nodup⟩
    · rw [inreg] at inreg'
      exact linked.somewhere v inreg'
    · rw [inreg]
      by_cases same : v = r
      · subst same
        simp only [out, Bool.false_eq_true, false_and, iff_false]
        exact linked.not_mem out n
      · rw [modify_state f same]
        exact linked.holds_iff n v
    · rw [modify_state f (apart held)]
      exact linked.realind n v held
  refine ⟨⟨linked', fun n v held => ?_, fun n v held => ?_, fun n v held => ?_, flagx⟩,
    fun v other => ?_⟩
  · rw [modify_state f (apart held)]
    have placed := inv.placed n v held
    rwa [forget_of_ne (apart held)] at placed
  · rw [modify_state f (apart held)]
    exact inv.alone n v held
  · rw [modify_state f (apart held)]
    exact inv.byteReg n v held
  · have other : v ≠ r := fun same => other (same ▸ rfl)
    have value : (s.modify r f).value v = s.value v := by
      rw [Live.value, Live.value, Live.content, Live.content, modify_state f other]
      rfl
    rw [value]
    exact .refl _ _

theorem setConst_called (inv : s.Inv host (forget known r)) (flagx : known Jit.flagx ≤ 1)
    {val : BitVec 32} (done : s.setConst host r val = some s') :
    Called host known (some r) s s' := by
  obtain ⟨s₁, gone, rfl⟩ := Option.map_eq_some_iff.mp done
  obtain ⟨served, out, -, -⟩ := disassociate_spec inv (forget_self known r) gone
  have stays : (s₁.modify r fun st => { st with val, status := .isconst }).isinreg r = false := by
    simp [Live.isinreg, Live.modify]
  have called := modify_called served.inv out stays flagx
  refine ⟨called.inv, fun v other => (called.keeps v other).trans ?_⟩
  have apart : v ≠ r := by
    rintro rfl
    exact other rfl
  have kept := served.keeps v
  rwa [forget_of_ne apart] at kept

/-- An offset is added to a register that has all of its bytes, if it is in a native one. -/
theorem leaLBrr_called (inv : s.Inv host known) {offset : BitVec 32}
    (whole : s.isinreg r = true → (s.state r).validsize = 4)
    (done : s.leaLBrr host r offset = some s') : Called host known (some r) s s' := by
  rw [Live.leaLBrr] at done
  split at done
  · exact setConst_called (inv.mono (forget_le known r)) inv.flagx done
  next not_const =>
    cases done
    rcases inv.linked.cases r with out | ⟨n, held, inreg, -⟩
    · refine modify_called (inv.mono (forget_le known r)) out ?_ inv.flagx
      rw [Live.isinreg]
      simpa [Live.modify, Live.isinreg] using out
    · have placed := inv.placed n r held
      have stays : (s.state r).Stays { s.state r with val := (s.state r).val + offset } :=
        ⟨isinreg_iff.mp inreg, rfl, rfl⟩
      have eq : s.addOffset r offset = s.revise r n
          { s.state r with val := (s.state r).val + offset } (s.mem r) (s.regs n) := by
        simp [Live.addOffset, Live.modify, Live.revise]
      rw [eq]
      refine ⟨inv.revise held stays (.inl rfl) ?_ (inv.alone n r held) (inv.byteReg n r held),
        fun v other => ?_⟩
      · exact ⟨placed.status, placed.valid, placed.fewer, fun _ => whole inreg, placed.agrees⟩
      · have apart : v ≠ r := by
          rintro rfl
          exact other rfl
        rw [value_revise_of_ne inv.linked (.inl rfl) apart]
        exact .refl _ _

theorem emit_called (inv : s.Inv host known) {size : Nat} {n : Fin N} {result : BitVec 32}
    (ready : s.Writable r size n) (done : s.emit r size result = some s') :
    Called host known (some r) s s' := by
  obtain ⟨alone, dirty, fits⟩ := ready
  have held : r ∈ (s.nat n).holds := by
    rw [alone]
    exact List.mem_singleton_self r
  have realreg := ((inv.linked.holds_iff n r).mp held).2
  rw [Live.emit, realreg] at done
  cases done
  have placed := inv.placed n r held
  have stays : (s.state r).Stays (s.state r) := ⟨.inr dirty, rfl, rfl⟩
  change Called host known (some r) s (s.setReg n (splice size result (s.regs n)))
  have eq : s.setReg n (splice size result (s.regs n)) =
      s.revise r n (s.state r) (s.mem r) (splice size result (s.regs n)) := by
    simp [Live.setReg, Live.revise]
  rw [eq]
  refine ⟨inv.revise held stays (.inr alone) ?_ (fun _ => alone) (inv.byteReg n r held),
    fun v other => ?_⟩
  · -- The bytes that are written are dirty.
    refine ⟨placed.status, placed.valid, placed.fewer, placed.offset, fun i low high valid => ?_⟩
    rw [splice_bit, if_neg (by omega)]
    exact placed.agrees i low high valid
  · have apart : v ≠ r := by
      rintro rfl
      exact other rfl
    rw [value_revise_of_ne inv.linked (.inr alone) apart]
    exact .refl _ _

theorem movLRr_called (inv : s.Inv host (forget known d)) (flagx : known Jit.flagx ≤ 1)
    (other : d ≠ r) (undefined : (s.state r).status = .undef → known r = 0)
    (done : s.movLRr host d r = some s') : Called host known (some d) s s' := by
  rw [Live.movLRr, if_neg other] at done
  split at done
  · exact setConst_called inv flagx done
  · obtain ⟨s₁, gone, done⟩ := Option.bind_eq_some_iff.mp done
    obtain ⟨⟨n, s₂⟩, read, unlocked⟩ := Option.bind_eq_some_iff.mp done
    obtain ⟨served₁, out₁, -, -⟩ := disassociate_spec inv (forget_self known d) gone
    have unknown (undef : (s₁.state r).status = .undef) : forget known d r = 0 := by
      rw [forget_of_ne other.symm]
      exact undefined (served₁.undef r undef)
    have anywhere : host.Bytes none := fun _ none => by cases none
    obtain ⟨s₃, served₂, held, whole, rfl⟩ := readreg_spec served₁.inv unknown anywhere read
    have served := (served₁.of_none _).trans served₂
    have locked := lockAnswer_held s₃ n
    have inv₄ := locked.inv served₂.inv
    have out₄ : (Live.lockAnswer n s₃).isinreg d = false := by
      have apart : some r ≠ some d := fun same => other (Option.some.inj same).symm
      rw [Live.isinreg, locked.state, (served₂.out d apart out₁).1]
      exact out₁
    dsimp only at unlocked
    generalize Live.lockAnswer n s₃ = s₄ at *
    have held₄ : r ∈ (s₄.nat n).holds := by
      rw [locked.holds]
      exact held
    have whole₄ : ∀ u ∈ (s₄.nat n).holds, (s₄.state u).validsize = 4 := by
      intro u held'
      have valid := (inv₄.placed n u held').valid
      by_contra narrow
      have alone := inv₄.alone n u held' (by omega)
      rw [alone] at held₄
      obtain rfl := List.mem_singleton.mp held₄
      exact narrow (by rw [locked.state]; exact whole rfl)
    generalize record :
      ({ val := (s₄.state r).val
         status := .dirty
         realreg := some n
         realind := s₄.nholds n
         validsize := 4
         dirtysize := 4 } : RegStatus N) = st at unlocked
    have placed (k : Nat) : Placed k st (s₄.mem d) (s₄.regs n) := by
      rw [← record]
      exact ⟨.inr ⟨rfl, .inr (.inr rfl)⟩, .inr (.inr rfl), Nat.le_refl _, fun _ => rfl,
        fun i _ high low => absurd low (Nat.not_lt.mpr high)⟩
    have attached := Served.attach inv₄ out₄ (.inl rfl) (placed _)
      (.inr ⟨by rw [← record], whole₄⟩) (fun one => by
        rw [← record] at one
        exact absurd one (by decide : 4 ≠ 1))
      (by rw [forget_self]; exact sameLow_zero _ _)
    have eq : (s₄.modify d fun _ => st).modifyNat n (fun x => { x with holds := x.holds ++ [d] }) =
        s₄.attach d n st (s₄.regs n) := by
      simp [Live.modify, Live.modifyNat, Live.attach, ← record]
    rw [eq] at unlocked
    have same := unlock2_held unlocked
    have learned : (s₄.attach d n st (s₄.regs n)).Inv host known := by
      refine attached.inv.learn flagx fun m held' => ?_
      have held_n : d ∈ ((s₄.attach d n st (s₄.regs n)).nat n).holds :=
        (attach_holds n d).mpr (.inr ⟨rfl, rfl⟩)
      obtain rfl := attached.inv.linked.unique held' held_n
      have now := placed (known d)
      rw [← record] at now
      simpa [Live.attach, ← record] using now
    refine ⟨same.inv learned, fun v apart => ?_⟩
    have apart : v ≠ d := by
      rintro rfl
      exact apart rfl
    have kept := (attached.keeps v).trans (locked.value served₂.inv.linked v ▸ served.keeps v)
    rw [forget_of_ne apart] at kept
    rw [same.value learned.linked]
    exact kept

/-! ### What is known after a call -/

theorem forget_update (known : VReg → Nat) (r : VReg) (k : Nat) :
    forget (Function.update known r k) r = forget known r := Function.update_idem _ _ _

theorem update_flagx (flagx : known Jit.flagx ≤ 1) {k : Nat} (few : k ≤ width r) :
    Function.update known r k Jit.flagx ≤ 1 := by
  by_cases same : Jit.flagx = r
  · subst same
    rw [Function.update_self]
    exact few
  · rw [Function.update_of_ne same]
    exact flagx

theorem width_le (r : VReg) : width r ≤ 4 := by
  unfold width
  split <;> decide

theorem Called.mono {known' : VReg → Nat} {target : Option VReg}
    (called : Called host known target s s') (fewer : ∀ v, known' v ≤ known v) :
    Called host known' target s s' :=
  ⟨called.inv.mono fewer, fun v other => (called.keeps v other).mono (fewer v)⟩

/-- The bytes of a register that instructions may write are known. -/
theorem Live.Writable.learn {size k : Nat} {n : Fin N} (ready : s.Writable r size n)
    (inv : s.Inv host known) (few : k ≤ width r) (fewer : k ≤ max (known r) size) :
    s.Inv host (Function.update known r k) := by
  have forgot : s.Inv host (forget (Function.update known r k) r) := by
    rw [forget_update]
    exact inv.mono (forget_le known r)
  refine forgot.learn (update_flagx inv.flagx few) fun m held => ?_
  have placed := inv.placed m r held
  have fits := ready.fits
  rw [Function.update_self]
  exact ⟨placed.status, placed.valid, placed.fewer, placed.offset,
    fun i low high valid => placed.agrees i (by omega) high valid⟩

theorem call_called (inv : s.Inv host known) {c : Call N} (fair : c.Fair host s)
    (done : s.call host c = some s') :
    Called host (c.learn s known) (c.written.map Prod.fst) s s' := by
  obtain ⟨κ, made⟩ : ∃ κ, κ = (c.madeUp s).elim known (forget known) := ⟨_, rfl⟩
  have inv : s.Inv host κ := by
    subst made
    cases c.madeUp s with
    | none => exact inv
    | some r => exact inv.mono (forget_le known r)
  have unknown {r : VReg} (isMade : c.madeUp s = some r) : κ r = 0 := by
    rw [made, isMade]
    exact forget_self known r
  rw [Call.learn, ← made]
  clear made
  cases c with
  | readreg r size spec canOffset =>
    obtain ⟨⟨n, s₁⟩, read, rfl⟩ := Option.map_eq_some_iff.mp done
    obtain ⟨s₁, served, -, -, rfl⟩ :=
      readreg_spec inv (fun undef => unknown (by simp [Call.madeUp, undef])) fair read
    exact (lockAnswer_held s₁ n).called (served.called none)
  | writereg r size spec =>
    obtain ⟨⟨n, s₁⟩, written, rfl⟩ := Option.map_eq_some_iff.mp done
    have few : min (width r) (max (κ r) size) ≤ width r := min_le_left _ _
    by_cases whole : 4 ≤ size
    · -- Nothing of the register is needed where it is written whole.
      have few4 := width_le r
      have called := (writereg_spec (inv.mono (forget_le κ r)) (fun _ _ _ => forget_self κ r) fair
        (fun _ => forget_self κ r) (k := min (width r) (max (κ r) size)) (by omega) ?_ written).1
      · rwa [forget, Function.update_idem] at called
      · rintro rfl
        exact few
    · refine (writereg_spec inv (fun undef val less => unknown ?_) fair
        (fun less => absurd less whole) (min_le_right _ _) ?_ written).1
      · simpa [Call.madeUp, undef, less] using val
      · rintro rfl
        exact few
  | rmw r wsize rsize spec =>
    obtain ⟨⟨n, s₁⟩, modified, rfl⟩ := Option.map_eq_some_iff.mp done
    refine (rmw_spec inv (fun undef => unknown (by simp [Call.madeUp, undef])) fair.2 fair.1
      (min_le_right _ _) ?_ modified).1
    rintro rfl
    exact min_le_left _ _
  | unlock2 n =>
    exact (unlock2_held done).called ((Served.refl inv none).called none)
  | evict r => exact evict_called inv done
  | setConst r val =>
    change Called host (Function.update κ r (min (width r) (max (κ r) 4))) (some r) s s'
    refine setConst_called ?_ (update_flagx inv.flagx (min_le_left _ _)) done
    rw [forget_update]
    exact inv.mono (forget_le κ r)
  | addOffset r offset =>
    change Called host (Function.update κ r (min (width r) (max (κ r) 0))) (some r) s s'
    refine (leaLBrr_called inv fair done).mono fun v => ?_
    by_cases same : v = r
    · subst same
      rw [Function.update_self]
      omega
    · rw [Function.update_of_ne same]
  | removeOffset r spec =>
    refine (removeOffset_spec inv (fun undef val => unknown ?_) done).called none
    simpa [Call.madeUp, undef] using val
  | movLRr d r =>
    by_cases same : d = r
    · subst same
      rw [Live.call, Live.movLRr, if_pos rfl] at done
      cases done
      simpa [Call.written] using (Served.refl inv none).called none
    · have forgot : s.Inv host
          (forget (Function.update κ d (min (width d) (max (κ d) 4))) d) := by
        rw [forget_update]
        exact inv.mono (forget_le κ d)
      have called := movLRr_called forgot (update_flagx inv.flagx (min_le_left _ _)) same
        (fun undef => by
          rw [Function.update_of_ne (Ne.symm same)]
          exact unknown (by simp [Call.madeUp, same, undef])) done
      simpa [Call.written, same] using called
  | emit r size result =>
    obtain ⟨n, ready⟩ := fair
    exact emit_called (ready.learn inv (min_le_left _ _) (min_le_right _ _)) ready done

end Calls

/-! ### Runs -/

theorem initComp_inv (host : Host N) (s : Live N) (compPcP : BitVec 32) :
    (s.initComp host compPcP).Inv host width := by
  have out (v : VReg) : (s.initComp host compPcP).isinreg v = false := by
    simp only [Live.isinreg, Live.initComp]
    split
    · rfl
    · split <;> rfl
  have empty (n : Fin N) : ((s.initComp host compPcP).nat n).holds = [] := rfl
  refine ⟨⟨fun v inreg => ?_, fun n v => ?_, fun n v held => ?_, fun n => ?_⟩, fun n v held => ?_,
    fun n v held => ?_, fun n v held => ?_, le_rfl⟩
  · cases (out v).symm.trans inreg
  · simp [out v, empty n]
  · cases held
  · exact List.nodup_nil
  · cases held
  · cases held
  · cases held

theorem Traced.knows_inv {t : Traced N} (inv : t.live.Inv host t.kept) :
    t.live.Inv host t.knows := by
  refine ⟨inv.linked, fun n v held => ?_, inv.alone, inv.byteReg, ?_⟩
  · rw [Traced.knows, if_pos ((inv.linked.holds_iff n v).mp held).1]
    exact inv.placed n v held
  · unfold Traced.knows
    split
    · exact inv.flagx
    · exact le_rfl

theorem step_called {t t' : Traced N} {c : Call N} (inv : t.live.Inv host t.kept)
    (fair : c.Fair host t.live) (done : t.step host c = some t') :
    Called host t'.kept (c.written.map Prod.fst) t.live t'.live := by
  obtain ⟨s, called, rfl⟩ := Option.map_eq_some_iff.mp done
  exact call_called (Traced.knows_inv inv) fair called

theorem learn_of_ne {c : Call N} {v : VReg} (made : c.madeUp s ≠ some v)
    (written : c.written.map Prod.fst ≠ some v) : c.learn s known v = known v := by
  have forgot : (c.madeUp s).elim known (forget known) v = known v := by
    cases other : c.madeUp s with
    | none => rfl
    | some r =>
      rw [other] at made
      exact forget_of_ne fun same => made (congrArg some same.symm)
  cases other : c.written with
  | none => simpa [Call.learn, other] using forgot
  | some w =>
    have apart : v ≠ w.1 := by
      rintro rfl
      rw [other] at written
      exact written rfl
    simpa [Call.learn, other, apart] using forgot

/-- A register that was never loaded undefined is known as a whole. -/
theorem learn_whole {c : Call N} {v : VReg} (whole : known v = width v)
    (made : c.madeUp s ≠ some v) : c.learn s known v = width v := by
  by_cases written : c.written.map Prod.fst = some v
  · obtain ⟨⟨r, size⟩, writes, rfl⟩ := Option.map_eq_some_iff.mp written
    have forgot : (c.madeUp s).elim known (forget known) r = known r := by
      cases other : c.madeUp s with
      | none => rfl
      | some u =>
        rw [other] at made
        exact forget_of_ne fun same => made (congrArg some same.symm)
    simp only [Call.learn, writes, Option.elim_some, Function.update_self, forgot, whole]
    omega
  · rw [learn_of_ne made written, whole]

theorem knows_whole {t : Traced N} {v : VReg} (whole : t.kept v = width v) :
    t.knows v = width v := by
  rw [Traced.knows, whole, ite_self]

theorem reached_inv {s₀ : Live N} {compPcP : BitVec 32} {t : Traced N}
    (reached : Reachable (Traced.step host) (fun t c => c.Fair host t.live)
      (Traced.start (s₀.initComp host compPcP)) t) :
    t.live.Inv host t.kept ∧ ∀ v ∉ t.undefined, t.kept v = width v := by
  refine reached.invariant
    (P := fun t : Traced N => t.live.Inv host t.kept ∧ ∀ v ∉ t.undefined, t.kept v = width v)
    ⟨initComp_inv host s₀ compPcP, fun _ _ => rfl⟩ ?_
  rintro t c t' ⟨inv, whole⟩ fair done
  refine ⟨(step_called inv fair done).inv, fun v defined => ?_⟩
  obtain ⟨s, -, rfl⟩ := Option.map_eq_some_iff.mp done
  rw [List.mem_append, not_or, Option.mem_toList] at defined
  exact learn_whole (knows_whole (whole v defined.2)) defined.1

/-- Allocation, eviction, the removal of offsets, moves and splits leave the values alone. -/
theorem allocation_keeps {s₀ : Live N} {compPcP : BitVec 32} {t : Traced N}
    (reached : Reachable (Traced.step host) (fun t c => c.Fair host t.live)
      (Traced.start (s₀.initComp host compPcP)) t) :
    t.live.Linked ∧ ∀ c t', c.Fair host t.live → t.step host c = some t' →
      ∀ v, c.madeUp t.live ≠ some v → c.written.map Prod.fst ≠ some v →
        SameLow (t.knows v) (t'.live.value v) (t.live.value v) ∧
        (v ∉ t.undefined → SameLow (width v) (t'.live.value v) (t.live.value v)) := by
  obtain ⟨inv, whole⟩ := reached_inv reached
  refine ⟨inv.linked, fun c t' fair done v made written => ?_⟩
  have keeps := (step_called inv fair done).keeps v written
  obtain ⟨s, -, rfl⟩ := Option.map_eq_some_iff.mp done
  change SameLow (c.learn t.live t.knows v) (s.value v) (t.live.value v) at keeps
  rw [learn_of_ne made written] at keeps
  refine ⟨keeps, fun defined => ?_⟩
  rwa [knows_whole (whole v defined)] at keeps

/-- Nothing is in a native register, memory is zero, and the native registers are not. -/
def garbage (N : Nat) : Live N where
  state _ :=
    { val := 0, status := .undef, realreg := none, realind := 0, validsize := 0, dirtysize := 0 }
  nat _ := { touched := 0, holds := [], locked := 0 }
  touchcnt := 0
  regs _ := 0xFFFFFFFF
  mem _ := 0

/-- The register that is written is split off the one that shares its native register. -/
theorem allocation_keeps_shared : ∃ t t' : Traced 16,
    exec (Traced.step x86_64) (Traced.start ((garbage 16).initComp x86_64 0))
      [.readreg 1 4 none true, .unlock2 0, .movLRr 2 1] = some t ∧
    t.step x86_64 (.writereg 1 1 none) = some t' ∧
    SameLow 4 (t'.live.value 2) (t.live.value 2) := by
  have runs : ((exec (Traced.step x86_64) (Traced.start ((garbage 16).initComp x86_64 0))
      [.readreg 1 4 none true, .unlock2 0, .movLRr 2 1]).bind fun t =>
        t.step x86_64 (.writereg 1 1 none)).isSome = true := by decide
  have defined : (exec (Traced.step x86_64) (Traced.start ((garbage 16).initComp x86_64 0))
      [.readreg 1 4 none true, .unlock2 0, .movLRr 2 1]).map Traced.undefined = some [] := by decide
  obtain ⟨t', both⟩ := Option.isSome_iff_exists.mp runs
  obtain ⟨t, executed, split⟩ := Option.bind_eq_some_iff.mp both
  rw [executed] at defined
  have fair : ∀ c ∈ ([.readreg 1 4 none true, .unlock2 0, .movLRr 2 1] : List (Call 16)),
      ∀ u : Traced 16, c.Fair x86_64 u.live := by
    simp [Call.Fair, Host.Bytes]
  have made : Call.madeUp t.live (.writereg 1 1 none) ≠ some 2 := by
    simp [Call.madeUp]
  refine ⟨t, t', executed, split, ?_⟩
  have bytes : Call.Fair x86_64 t.live (.writereg 1 1 none) := by
    simp [Call.Fair, Host.Bytes]
  refine ((allocation_keeps ⟨_, run_of_exec_allowed executed fair⟩).2 _ _ bytes split 2 made
    (by decide)).2 ?_
  rw [Option.some.inj defined]
  exact List.not_mem_nil

/-- The values of a register before and after the last call. -/
def valuesAround (host : Host N) (calls : List (Call N)) (last : Call N) (v : VReg) :
    Option (BitVec 32 × BitVec 32) :=
  (exec (Live.call host) ((garbage N).initComp host 0) calls).bind fun s =>
    (s.call host last).map fun s' => (s.value v, s'.value v)

/-- An eviction changes a register to which an offset was added while only two bytes were valid,
FLAGX is loaded as a byte, an undefined register that was loaded goes to memory in part, and a byte
register is not what was asked for. -/
theorem values_changed :
    valuesAround x86_64
      [.writereg 0 2 none, .emit 0 2 0, .unlock2 0, .addOffset 0 1] (.evict 0) 0 =
        some (1, 0xFFFF0001) ∧
    valuesAround x86_64 [] (.readreg flagx 4 none false) flagx = some (0, 0xFFFFFF00) ∧
    valuesAround x86_64
      [.readreg 19 4 none false, .unlock2 0, .writereg 19 1 none, .emit 19 1 0, .unlock2 0]
      (.evict 19) 19 = some (0xFFFFFF00, 0) ∧
    valuesAround i386 [.writereg 0 1 (some 6), .emit 0 1 0x55, .unlock2 6] (.evict 0) 0 =
      some (0x55, 0xFF) := by
  decide

end BasiliskII.Jit
