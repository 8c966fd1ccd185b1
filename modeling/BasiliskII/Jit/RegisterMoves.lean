import BasiliskII.Jit.RegisterContents

/-!
# Moves of registers

Allocation, moves to other native registers, splitting and the removal of offsets: what each keeps
of the values, and where it leaves the register it is for.
-/
namespace BasiliskII.Jit

open ByteLanes

variable {N : Nat} {host : Host N} {known : VReg → Nat} {s s' : Live N}

/-! ### alloc_reg_hinted -/

variable {size : Nat} {hint : Option (Fin N)} {b : Fin N}

theorem bestreg_spec {best : Option (Fin N)} {is : List (Fin N)} {limit : Int}
    (fine : ∀ b, best = some b → (s.nat b).locked = 0 ∧ host.suits size b = true)
    (found : s.bestreg host size hint is best limit = some b) :
    (s.nat b).locked = 0 ∧ host.suits size b = true := by
  induction is generalizing best limit with
  | nil => exact fine b found
  | cons i is ih =>
    rw [Live.bestreg] at found
    generalize (if hint = some i then
        (if s.nholds i = 0 then 0 else (s.nat i).touched.toInt) - 200000000
      else if s.nholds i = 0 then 0 else (s.nat i).touched.toInt) = badness at found
    split at found
    next fits =>
      have here : (s.nat i).locked = 0 ∧ host.suits size i = true := ⟨fits.1, fits.2.2⟩
      split at found
      · cases found
        exact here
      · refine ih (fun b same => ?_) found
        cases same
        exact here
    · exact ih fine found

/-- A register that is in no native one is put into `n`. -/
def Live.attach (s : Live N) (v : VReg) (n : Fin N) (st : RegStatus N) (c : BitVec 32) : Live N :=
  { s with
    state := Function.update s.state v { st with realreg := some n, realind := s.nholds n }
    nat := Function.update s.nat n { s.nat n with holds := (s.nat n).holds ++ [v] }
    regs := Function.update s.regs n c }

section Attach

variable {v : VReg} {n : Fin N} {st : RegStatus N} {c : BitVec 32}

theorem attach_isinreg (status : st.status = .clean ∨ st.status = .dirty) (u : VReg) :
    (s.attach v n st c).isinreg u = if u = v then true else s.isinreg u := by
  split
  next same =>
    rw [same, isinreg_iff]
    simpa [Live.attach] using status
  next other => simp [Live.isinreg, Live.attach, other]

theorem attach_holds (n' : Fin N) (u : VReg) :
    u ∈ ((s.attach v n st c).nat n').holds ↔ u ∈ (s.nat n').holds ∨ n' = n ∧ u = v := by
  by_cases here : n' = n
  · subst here
    simp [Live.attach]
  · simp [Live.attach, here]

theorem Live.Linked.attach (linked : s.Linked) (out : s.isinreg v = false)
    (status : st.status = .clean ∨ st.status = .dirty) : (s.attach v n st c).Linked := by
  have state_other {u : VReg} (other : u ≠ v) : (s.attach v n st c).state u = s.state u :=
    Function.update_of_ne other _ _
  refine ⟨fun u inreg => ?_, fun n' u => ?_, fun n' u held => ?_, fun n' => ?_⟩
  · rw [attach_isinreg status] at inreg
    split at inreg
    next same => exact ⟨n, (attach_holds n u).mpr (.inr ⟨rfl, same⟩)⟩
    next other =>
      obtain ⟨n', held⟩ := linked.somewhere u inreg
      exact ⟨n', (attach_holds n' u).mpr (.inl held)⟩
  · rw [attach_holds, attach_isinreg status]
    by_cases same : u = v
    · subst same
      simp [linked.not_mem out, Live.attach, eq_comm]
    · rw [state_other same, linked.holds_iff]
      simp [same]
  · rcases (attach_holds n' u).mp held with before | ⟨rfl, rfl⟩
    · have other : u ≠ v := fun same => linked.not_mem out n' (same ▸ before)
      rw [state_other other]
      have index := linked.realind n' u before
      by_cases here : n' = n
      · subst here
        simp only [Live.attach, Function.update_self]
        rw [List.getElem?_append_left (linked.realind_lt before), index]
      · simpa [Live.attach, here] using index
    · simp [Live.attach, Live.nholds]
  · by_cases here : n' = n
    · subst here
      simp only [Live.attach, Function.update_self]
      rw [← List.concat_eq_append]
      exact (List.nodup_concat _ _).mpr ⟨linked.not_mem out n', linked.nodup n'⟩
    · simpa [Live.attach, here] using linked.nodup n'

/-- Others in `n` are not touched, and have all of their bytes there. -/
theorem Live.Inv.attach (inv : s.Inv host known) (out : s.isinreg v = false)
    (reg : c = s.regs n ∨ (s.nat n).holds = []) (placed : Placed (known v) st (s.mem v) c)
    (wide : (s.nat n).holds = [] ∨
      st.validsize = 4 ∧ ∀ u ∈ (s.nat n).holds, (s.state u).validsize = 4)
    (byteReg : st.dirtysize = 1 → host.ByteReg n) : (s.attach v n st c).Inv host known := by
  have status : st.status = .clean ∨ st.status = .dirty :=
    placed.status.imp And.left And.left
  have state_self : (s.attach v n st c).state v =
      { st with realreg := some n, realind := s.nholds n } := Function.update_self _ _ _
  have state_other {u : VReg} (other : u ≠ v) : (s.attach v n st c).state u = s.state u :=
    Function.update_of_ne other _ _
  have ne_of_held {u : VReg} {n' : Fin N} (before : u ∈ (s.nat n').holds) : u ≠ v :=
    fun same => inv.linked.not_mem out n' (same ▸ before)
  refine ⟨inv.linked.attach out status, fun n' u held => ?_, fun n' u held narrow => ?_,
    fun n' u held => ?_, inv.flagx⟩ <;>
    rcases (attach_holds n' u).mp held with before | ⟨rfl, rfl⟩
  · rw [state_other (ne_of_held before)]
    have regs : (s.attach v n st c).regs n' = s.regs n' := by
      by_cases here : n' = n
      · subst here
        rcases reg with kept | empty
        · simp [Live.attach, kept]
        · rw [empty] at before
          cases before
      · simp [Live.attach, here]
    rw [regs]
    exact inv.placed n' u before
  · rw [state_self]
    simp only [Live.attach, Function.update_self]
    exact ⟨placed.status, placed.valid, placed.fewer, placed.offset, placed.agrees⟩
  · rw [state_other (ne_of_held before)] at narrow
    have alone := inv.alone n' u before narrow
    by_cases here : n' = n
    · subst here
      rcases wide with empty | ⟨-, others⟩
      · rw [empty] at before
        cases before
      · have whole := others u before
        omega
    · simpa [Live.attach, here] using alone
  · rw [state_self] at narrow
    rcases wide with empty | ⟨whole, -⟩
    · simp [Live.attach, empty]
    · exact absurd narrow (by simp [whole])
  · rw [state_other (ne_of_held before)]
    exact inv.byteReg n' u before
  · rw [state_self]
    exact byteReg

theorem Served.attach (inv : s.Inv host known) (out : s.isinreg v = false)
    (reg : c = s.regs n ∨ (s.nat n).holds = []) (placed : Placed (known v) st (s.mem v) c)
    (wide : (s.nat n).holds = [] ∨
      st.validsize = 4 ∧ ∀ u ∈ (s.nat n).holds, (s.state u).validsize = 4)
    (byteReg : st.dirtysize = 1 → host.ByteReg n)
    (value : SameLow (known v) (splice st.validsize c (s.mem v) + st.val) (s.value v)) :
    Served host known (some v) s (s.attach v n st c) := by
  have inv' := inv.attach out reg placed wide byteReg
  have state_other {u : VReg} (other : u ≠ v) : (s.attach v n st c).state u = s.state u :=
    Function.update_of_ne other _ _
  refine ⟨inv', fun u => ?_, fun m => ?_, fun u other _ => ?_, fun u undefined => ?_⟩
  · by_cases same : u = v
    · subst same
      rw [value_held inv'.linked ((attach_holds n u).mpr (.inr ⟨rfl, rfl⟩))]
      simpa [Live.attach] using value
    · have kept : (s.attach v n st c).value u = s.value u := by
        cases inreg : s.isinreg u with
        | false => exact value_out inreg (by rw [state_other same]; exact ⟨rfl, rfl⟩) rfl
        | true =>
          obtain ⟨n', held⟩ := inv.linked.somewhere u inreg
          rw [value_held inv.linked held,
            value_held inv'.linked ((attach_holds n' u).mpr (.inl held)), state_other same]
          have regs : (s.attach v n st c).regs n' = s.regs n' := by
            by_cases here : n' = n
            · subst here
              rcases reg with kept | empty
              · simp [Live.attach, kept]
              · rw [empty] at held
                cases held
            · simp [Live.attach, here]
          rw [regs]
          rfl
      rw [kept]
      exact .refl _ _
  · by_cases here : m = n
    · subst here
      simp [Live.attach]
    · simp [Live.attach, here]
  · exact ⟨state_other fun same => other (same ▸ rfl), rfl⟩
  · by_cases same : u = v
    · subst same
      have state_self : (s.attach u n st c).state u =
          { st with realreg := some n, realind := s.nholds n } := Function.update_self _ _ _
      rw [state_self] at undefined
      rcases placed.status with status | status <;> cases status.1.symm.trans undefined
    · rwa [state_other same] at undefined

end Attach

theorem Served.congr {sake : Option VReg} {s'' : Live N} (served : Served host known sake s s')
    (same : s'.SameHeld s'') (locked : ∀ n, (s''.nat n).locked = (s'.nat n).locked) :
    Served host known sake s s'' := by
  refine ⟨same.inv served.inv, fun v => ?_, fun n => (locked n).trans (served.locked n),
    fun u other out => ?_, fun v undefined => ?_⟩
  · rw [same.value served.inv.linked]
    exact served.keeps v
  · rw [same.state, same.mem]
    exact served.out u other out
  · rw [same.state] at undefined
    exact served.undef v undefined

/-- What `do_load_reg` loads is the register's place in memory, as far as that is known. -/
theorem sameLow_loaded (flagx : known flagx ≤ 1) (s : Live N) (n : Fin N) (r : VReg) :
    SameLow (known r) ((s.loadReg host n r).regs n) (s.mem r) := by
  simp only [Live.loadReg, Live.setReg, Function.update_self]
  split
  next byte_sized =>
    subst byte_sized
    split
    · exact sameLow_splice flagx _ _
    · split
      · exact sameLow_splice (flagx.trans (by decide)) _ _
      · exact .refl _ _
  · exact .refl _ _

theorem bswap32_bit (v : BitVec 32) {i : Nat} (inside : i < 32) :
    (bswap32 v).getLsbD i = v.getLsbD (24 - 8 * (i / 8) + i % 8) := by
  have byte (start j : Nat) (low : j < 8) :
      (v.extractLsb' start 8).getLsbD j = v.getLsbD (start + j) := by
    rw [BitVec.getLsbD_extractLsb', decide_eq_true low, Bool.true_and]
  simp only [bswap32, BitVec.getLsbD_append]
  split
  · rw [byte _ _ (by omega)]
    congr 1
    omega
  · split
    · rw [byte _ _ (by omega)]
      congr 1
      omega
    · split
      · rw [byte _ _ (by omega)]
        congr 1
        omega
      · rw [byte _ _ (by omega)]
        congr 1
        omega

theorem zeroExtend16_bit (v : BitVec 32) (i : Nat) :
    (zeroExtend16 v).getLsbD i = (decide (i < 16) && v.getLsbD i) := by
  rw [zeroExtend16, BitVec.getLsbD_setWidth, BitVec.getLsbD_setWidth]
  by_cases low : i < 16
  · simp [low, show i < 32 by omega]
  · simp [low]

/-- The halves of the register and of memory are put together. -/
theorem merged_eq (a m : BitVec 32) :
    zeroExtend16 a + bswap32 (zeroExtend16 (bswap32 m)) = splice 2 a m := by
  -- The low half of memory is lost while it is the upper one.
  have upper {i : Nat} (inside : i < 32) : (bswap32 (zeroExtend16 (bswap32 m))).getLsbD i =
      (decide (16 ≤ i) && m.getLsbD i) := by
    rw [bswap32_bit _ inside, zeroExtend16_bit, bswap32_bit _ (by omega)]
    by_cases high : 16 ≤ i
    · rw [decide_eq_true (by omega), decide_eq_true high]
      congr 2
      omega
    · rw [decide_eq_false (by omega), decide_eq_false high, Bool.false_and, Bool.false_and]
  rw [BitVec.add_eq_or_of_and_eq_zero]
  · apply BitVec.eq_of_getLsbD_eq
    intro i inside
    rw [BitVec.getLsbD_or, zeroExtend16_bit, upper inside, splice_bit]
    by_cases low : i < 16
    · simp [low, Nat.not_le.mpr low]
    · simp [low, Nat.not_lt.mp low]
  · apply BitVec.eq_of_getLsbD_eq
    intro i inside
    rw [BitVec.getLsbD_and, zeroExtend16_bit, upper inside, BitVec.getLsbD_zero]
    by_cases low : i < 16
    · simp [Nat.not_le.mpr low]
    · simp [low]

/-! ### What is known -/

theorem Placed.mono {j k : Nat} {st : RegStatus N} {m c : BitVec 32} (placed : Placed k st m c)
    (fewer : j ≤ k) : Placed j st m c :=
  ⟨placed.status, placed.valid, placed.fewer, placed.offset,
    fun i low => placed.agrees i (by omega)⟩

theorem Live.Inv.mono {known' : VReg → Nat} (inv : s.Inv host known)
    (fewer : ∀ v, known' v ≤ known v) : s.Inv host known' :=
  ⟨inv.linked, fun n v held => (inv.placed n v held).mono (fewer v), inv.alone, inv.byteReg,
    (fewer Jit.flagx).trans inv.flagx⟩

theorem Served.mono {known' : VReg → Nat} {sake : Option VReg}
    (served : Served host known sake s s') (fewer : ∀ v, known' v ≤ known v) :
    Served host known' sake s s' :=
  ⟨served.inv.mono fewer, fun v => (served.keeps v).mono (fewer v), served.locked, served.out,
    served.undef⟩

/-- Nothing is known of the register any more. -/
def forget (known : VReg → Nat) (r : VReg) : VReg → Nat := Function.update known r 0

theorem forget_self (known : VReg → Nat) (r : VReg) : forget known r r = 0 :=
  Function.update_self _ _ _

variable {r : VReg}

theorem forget_of_ne {v : VReg} (other : v ≠ r) : forget known r v = known v :=
  Function.update_of_ne other _ _

theorem forget_le (known : VReg → Nat) (r v : VReg) : forget known r v ≤ known v := by
  by_cases same : v = r
  · rw [same, forget_self]
    exact Nat.zero_le _
  · rw [forget_of_ne same]

theorem Live.Inv.learn (inv : s.Inv host (forget known r)) (flagx : known Jit.flagx ≤ 1)
    (placed : ∀ n, r ∈ (s.nat n).holds → Placed (known r) (s.state r) (s.mem r) (s.regs n)) :
    s.Inv host known := by
  refine ⟨inv.linked, fun n v held => ?_, inv.alone, inv.byteReg, flagx⟩
  by_cases same : v = r
  · subst same
    exact placed n held
  · have before := inv.placed n v held
    rwa [forget_of_ne same] at before

/-! ### Registers that are loaded or clobbered -/

theorem enter_held (s : Live N) (r : VReg) (b : Fin N) (st : RegStatus N) (c : BitVec 32) :
    (s.attach r b st c).SameHeld <| Live.enter
      { s with state := Function.update s.state r st, regs := Function.update s.regs b c } r b := by
  refine ⟨?_, fun n => ?_, ?_, ?_⟩
  · simp [Live.enter, Live.attach, Live.touch, Live.modify, Live.modifyNat, Live.nholds]
  · by_cases here : n = b
    · subst here
      simp [Live.enter, Live.attach, Live.touch, Live.modify, Live.modifyNat]
    · simp [Live.enter, Live.attach, Live.touch, Live.modify, Live.modifyNat, here]
  · simp [Live.enter, Live.attach, Live.touch, Live.modify, Live.modifyNat]
  · simp [Live.enter, Live.attach, Live.touch, Live.modify, Live.modifyNat]

theorem enter_locked (s : Live N) (r : VReg) (b n : Fin N) :
    ((s.enter r b).nat n).locked = (s.nat n).locked := by
  by_cases here : n = b
  · subst here
    simp [Live.enter, Live.touch, Live.modify, Live.modifyNat]
  · simp [Live.enter, Live.touch, Live.modify, Live.modifyNat, here]

theorem attach_locked (s : Live N) (r : VReg) (b : Fin N) (st : RegStatus N) (c : BitVec 32)
    (n : Fin N) : ((s.attach r b st c).nat n).locked = (s.nat n).locked := by
  by_cases here : n = b
  · subst here
    simp [Live.attach]
  · simp [Live.attach, here]

theorem fill_loaded (host : Host N) (b : Fin N) (size : Nat) (flagx : known flagx ≤ 1)
    (out : s.isinreg r = false) (undefined : (s.state r).status = .undef → known r = 0) :
    ∃ st c, s.fill host r b size false =
        { s with state := Function.update s.state r st, regs := Function.update s.regs b c } ∧
      Placed (known r) st (s.mem r) c ∧ st.validsize = 4 ∧ st.dirtysize ≠ 1 ∧
      SameLow (known r) (splice 4 c (s.mem r) + st.val) (s.value r) := by
  have loaded : SameLow (known r) ((s.loadReg host b r).regs b) (s.mem r) :=
    sameLow_loaded flagx s b r
  have agrees (i : Nat) (low : i < 8 * known r) :
      ((s.loadReg host b r).regs b).getLsbD i = (s.mem r).getLsbD i := loaded i low
  have kept : s.loadReg host b r = s.setReg b ((s.loadReg host b r).regs b) := by
    simp [Live.loadReg, Live.setReg]
  cases status : (s.state r).status with
  | undef =>
    refine ⟨{ s.state r with val := 0, dirtysize := 0, status := .clean, validsize := 4 },
      s.regs b, ?_, ?_, rfl, Nat.zero_ne_one, ?_⟩
    · simp [Live.fill, status, Live.modify]
    · refine ⟨.inl ⟨rfl, rfl⟩, .inr (.inr rfl), Nat.zero_le _, fun _ => rfl, fun i low => ?_⟩
      rw [undefined status] at low
      exact absurd low (Nat.not_lt_zero i)
    · rw [undefined status]
      exact sameLow_zero _ _
  | isconst =>
    refine ⟨{ s.state r with val := 0, dirtysize := 4, status := .dirty, validsize := 4 },
      (s.state r).val, ?_, ?_, rfl, (by decide : 4 ≠ 1), ?_⟩
    · simp [Live.fill, status, Live.isconst, Live.modify, Live.setReg]
    · exact ⟨.inr ⟨rfl, .inr (.inr rfl)⟩, .inr (.inr rfl), Nat.le_refl _, fun _ => rfl,
        fun i _ high low => absurd low (Nat.not_lt.mpr high)⟩
    · rw [splice_all (by decide), Live.value, RegStatus.value, status]
      simpa using SameLow.refl _ _
  | inmem =>
    refine ⟨{ s.state r with dirtysize := 0, status := .clean, validsize := 4 },
      (s.loadReg host b r).regs b, ?_, ?_, rfl, Nat.zero_ne_one, ?_⟩
    · have not_const : s.isconst r = false := by simp [Live.isconst, status]
      rw [Live.fill, if_pos (by decide), if_pos (by simp [status]), if_neg (by simp [not_const])]
      rw [kept]
      simp [Live.modify, Live.setReg]
    · exact ⟨.inl ⟨rfl, rfl⟩, .inr (.inr rfl), Nat.zero_le _, fun _ => rfl,
        fun i low _ _ => agrees i low⟩
    · rw [splice_all (by decide), Live.value, RegStatus.value, status]
      exact loaded.add _
  | clean => rw [isinreg_iff.mpr (.inl status)] at out; cases out
  | dirty => rw [isinreg_iff.mpr (.inr status)] at out; cases out

theorem suits_iff : host.suits size b = true ↔
    size = 1 ∧ host.canbyte b = true ∨ size = 2 ∧ host.canword b = true ∨ size = 4 := by
  simp [Host.suits, or_assoc]

/-- A register that is clobbered is dirty as far as it is valid. -/
theorem fill_clobbered (suits : host.suits size b = true) :
    ∃ st c, s.fill host r b size true =
        { s with state := Function.update s.state r st, regs := Function.update s.regs b c } ∧
      (∀ k m, Placed k st m c) ∧ (st.dirtysize = 1 → host.canbyte b = true) := by
  by_cases whole : ¬ s.isconst r = true ∨ size = 4
  · refine ⟨{ s.state r with validsize := size, dirtysize := size, val := 0, status := .dirty },
      s.regs b, ?_, fun k m => ?_, fun one => ?_⟩
    · simp only [Live.fill, not_true_eq_false, if_false, if_pos whole]
      simp [Live.modify]
    · have sizes : size = 1 ∨ size = 2 ∨ size = 4 := by
        rcases suits_iff.mp suits with fits | fits | fits
        · exact .inl fits.1
        · exact .inr (.inl fits.1)
        · exact .inr (.inr fits)
      exact ⟨.inr ⟨rfl, sizes⟩, sizes, Nat.le_refl _, fun moved => absurd rfl moved,
        fun i _ high low => absurd low (Nat.not_lt.mpr high)⟩
    · have narrow : size = 1 := one
      rcases suits_iff.mp suits with fits | fits | fits
      · exact fits.2
      · exact absurd fits.1 (by omega)
      · exact absurd fits (by omega)
  · refine ⟨{ s.state r with val := 0, validsize := 4, dirtysize := 4, status := .dirty },
      (s.state r).val, ?_, fun k m => ?_, fun one => absurd one (by decide : 4 ≠ 1)⟩
    · simp only [Live.fill, not_true_eq_false, if_false, if_neg whole]
      simp [Live.modify, Live.setReg]
    · exact ⟨.inr ⟨rfl, .inr (.inr rfl)⟩, .inr (.inr rfl), Nat.le_refl _, fun _ => rfl,
        fun i _ high low => absurd low (Nat.not_lt.mpr high)⟩

theorem take_loaded (inv : s.Inv host known) (size : Nat) (out : s.isinreg r = false)
    (empty : (s.nat b).holds = []) (undefined : (s.state r).status = .undef → known r = 0) :
    Served host known (some r) s (s.take host r b size false) ∧
      ((s.take host r b size false).nat b).holds = [r] ∧
      ((s.take host r b size false).state r).validsize = 4 := by
  obtain ⟨st, c, filled, placed, whole, narrow, value⟩ :=
    fill_loaded host b size inv.flagx out undefined
  rw [Live.take, filled]
  have held := enter_held s r b st c
  rw [← whole] at value
  have served := Served.attach inv out (.inr empty) placed (.inl empty)
    (fun one => absurd one narrow) value
  refine ⟨served.congr held fun n => ?_, ?_, ?_⟩
  · rw [enter_locked, attach_locked]
  · rw [held.holds]
    simp [Live.attach, empty]
  · rw [held.state]
    simp [Live.attach, whole]

/-- `r` is taken over for a write; the values of all others are kept. -/
structure Renewed (host : Host N) (known : VReg → Nat) (r : VReg) (s s' : Live N) : Prop where
  inv : s'.Inv host known
  served : Served host (forget known r) (some r) s s'

theorem Served.renewed (served : Served host known (some r) s s') : Renewed host known r s s' :=
  ⟨served.inv, served.mono (forget_le known r)⟩

theorem Renewed.trans {s'' : Live N} (first : Renewed host known r s s')
    (second : Renewed host known r s' s'') : Renewed host known r s s'' :=
  ⟨second.inv, first.served.trans second.served⟩

theorem take_clobbered (inv : s.Inv host known) (out : s.isinreg r = false)
    (empty : (s.nat b).holds = []) (suits : host.suits size b = true) :
    Renewed host known r s (s.take host r b size true) ∧
      ((s.take host r b size true).nat b).holds = [r] ∧
      (∀ n ≠ b, (s.take host r b size true).regs n = s.regs n) ∧
      (s.take host r b size true).mem = s.mem := by
  obtain ⟨st, c, filled, placed, byteReg⟩ := fill_clobbered (s := s) (r := r) suits
  rw [Live.take, filled]
  have held := enter_held s r b st c
  have byteReg' (one : st.dirtysize = 1) : host.ByteReg b :=
    fun regs => host.stored_of_canbyte regs b (byteReg one)
  have inv' := inv.attach out (.inr empty) (placed _ _) (.inl empty) byteReg'
  have served := Served.attach (inv.mono (forget_le known r)) out (.inr empty) (placed _ _)
    (.inl empty) byteReg' (by rw [forget_self]; exact sameLow_zero _ _)
  refine ⟨⟨held.inv inv', served.congr held fun n => ?_⟩, ?_, fun n apart => ?_, ?_⟩
  · rw [enter_locked, attach_locked]
  · rw [held.holds]
    simp [Live.attach, empty]
  · rw [held.regs]
    exact Function.update_of_ne apart _ _
  · rw [held.mem]
    rfl

/-! ### disassociate -/

theorem tomem_clean (status : (s.state r).status = .clean) (val : (s.state r).val = 0) :
    s.tomem host r = some s := by
  unfold Live.tomem
  split
  · rfl
  · simp [Live.applyOffset, Live.writeback, status, val]

/-- The register is out of its native one, and nothing is stored. -/
theorem disassociate_spec (inv : s.Inv host known) (unknown : known r = 0)
    (done : s.disassociate host r = some s') :
    Served host known none s s' ∧ s'.isinreg r = false ∧ s'.regs = s.regs ∧ s'.mem = s.mem := by
  rw [Live.disassociate, Live.isclean] at done
  cases inreg : s.isinreg r with
  | false =>
    rw [if_pos (by simp [inreg]), Live.evict, if_pos (by simp [inreg])] at done
    cases done
    exact ⟨.refl inv none, inreg, rfl, rfl⟩
  | true =>
    obtain ⟨n, held⟩ := inv.linked.somewhere r inreg
    have realreg := ((inv.linked.holds_iff n r).mp held).2
    have cleaned : Served host known none s <| s.revise r n
        { s.state r with validsize := 4, dirtysize := 0, val := 0, status := .clean } (s.mem r)
        (s.regs n) := by
      refine Served.revise inv held ⟨.inl rfl, rfl, rfl⟩ (.inl rfl) ?_
        (fun less => absurd less (Nat.lt_irrefl 4)) (fun one => absurd one Nat.zero_ne_one) ?_
      · refine ⟨.inl ⟨rfl, rfl⟩, .inr (.inr rfl), Nat.zero_le _, fun _ => rfl, fun i low => ?_⟩
        exact absurd low (by omega)
      · rw [unknown]
        exact sameLow_zero _ _
    have eq : (s.modify r fun st =>
        { st with validsize := 4, dirtysize := 0, val := 0, status := .clean }) = s.revise r n
          { s.state r with validsize := 4, dirtysize := 0, val := 0, status := .clean } (s.mem r)
          (s.regs n) := by
      simp [Live.modify, Live.revise]
    rw [if_neg (by simp [inreg]), eq] at done
    generalize revised : s.revise r n
      { s.state r with validsize := 4, dirtysize := 0, val := 0, status := .clean } (s.mem r)
      (s.regs n) = s₁ at cleaned done
    have state : s₁.state r =
        { s.state r with validsize := 4, dirtysize := 0, val := 0, status := .clean } := by
      rw [← revised]
      exact Function.update_self _ _ _
    have regs : s₁.regs = s.regs := by
      rw [← revised]
      exact Function.update_eq_self _ _
    have mem : s₁.mem = s.mem := by
      rw [← revised]
      exact Function.update_eq_self _ _
    have held₁ : r ∈ (s₁.nat n).holds := by
      rw [← revised]
      exact held
    have inreg₁ : s₁.isinreg r = true := isinreg_iff.mpr (.inl (by rw [state]))
    rw [Live.evict, if_neg (not_not.mpr inreg₁), tomem_clean (by rw [state]) (by rw [state]),
      Option.bind_some] at done
    have realreg₁ : (s₁.state r).realreg = some n := by
      rw [state]
      exact realreg
    simp only [realreg₁] at done
    split at done
    · cases done
    · cases done
      have gone := Evicted.detach cleaned.inv held₁ (by rw [state])
      refine ⟨cleaned.trans gone.served, ?_, ?_, ?_⟩
      · rw [Live.isinreg, gone.status]
        rfl
      · rw [detach_regs, regs]
      · rw [detach_mem, mem]

/-! ### Allocation -/

theorem Live.Linked.cases (linked : s.Linked) (r : VReg) : s.isinreg r = false ∨
    ∃ n, r ∈ (s.nat n).holds ∧ s.isinreg r = true ∧ (s.state r).realreg = some n := by
  cases inreg : s.isinreg r with
  | false => exact .inl rfl
  | true =>
    obtain ⟨n, held⟩ := linked.somewhere r inreg
    exact .inr ⟨n, held, rfl, ((linked.holds_iff n r).mp held).2⟩

/-- The upper half of a register that has the lower one only comes from memory. -/
theorem mergeHalves_spec (inv : s.Inv host known) {rr : Fin N} (held : r ∈ (s.nat rr).holds)
    (single : s.nholds rr = 1) (half : (s.state r).validsize = 2) (empty : (s.nat b).holds = []) :
    Served host known none s (s.mergeHalves r rr b) ∧
      ((s.mergeHalves r rr b).nat rr).holds = [r] ∧
      ((s.mergeHalves r rr b).state r).validsize = 4 := by
  have alone := holds_eq_singleton held single
  have apart : b ≠ rr := by
    rintro rfl
    rw [empty] at held
    cases held
  have placed := inv.placed rr r held
  -- What `b` ends up with does not matter, as it holds nothing.
  let junk := bswap32 (zeroExtend16 (bswap32 (s.mem r)))
  have cleared : Served host known none s (s.setReg b junk) := by
    have regs (n : Fin N) (some_held : (s.nat n).holds ≠ []) :
        (s.setReg b junk).regs n = s.regs n := by
      refine Function.update_of_ne ?_ _ _
      rintro rfl
      exact some_held empty
    refine ⟨inv.congr rfl (fun _ => rfl) regs rfl, fun v => ?_, fun _ => rfl, fun _ _ _ => ⟨rfl, rfl⟩,
      fun _ => id⟩
    have state : (s.setReg b junk).state = s.state := rfl
    rw [value_congr inv.linked state regs rfl]
    exact .refl _ _
  have eq : s.mergeHalves r rr b = (s.setReg b junk).revise r rr
      { s.state r with validsize := 4 } (s.mem r) (splice 2 (s.regs rr) (s.mem r)) := by
    rw [← merged_eq]
    simp [Live.mergeHalves, Live.setReg, Live.modify, Live.revise, junk, apart.symm,
      Function.update_comm apart]
  have merged : Served host known none (s.setReg b junk) ((s.setReg b junk).revise r rr
      { s.state r with validsize := 4 } (s.mem r) (splice 2 (s.regs rr) (s.mem r))) := by
    refine Served.revise cleared.inv held ?_ (.inr alone) ?_ (fun _ => alone)
      (inv.byteReg rr r held) ?_
    · exact ⟨isinreg_iff.mp ((inv.linked.holds_iff rr r).mp held).1, rfl, rfl⟩
    · refine ⟨placed.status, .inr (.inr rfl), ?_, fun _ => rfl, fun i low dirty _ => ?_⟩
      · exact (placed.fewer.trans half.le).trans (Nat.le_of_ble_eq_true rfl)
      · rw [splice_bit]
        split
        next lower => exact placed.agrees i low dirty (by rw [half]; exact lower)
        · rfl
    · have value : (s.setReg b junk).value r =
          splice 2 (s.regs rr) (s.mem r) + (s.state r).val := by
        have regs : (s.setReg b junk).regs rr = s.regs rr := Function.update_of_ne apart.symm _ _
        rw [value_held cleared.inv.linked held, regs]
        simp only [Live.setReg, half]
      rw [value, splice_all (Nat.le_refl 32)]
      exact .refl _ _
  rw [eq]
  refine ⟨cleared.trans merged, alone, ?_⟩
  simp [Live.revise]

theorem touch_held (s : Live N) (n : Fin N) : s.SameHeld (s.touch n) := by
  refine ⟨rfl, fun m => ?_, rfl, rfl⟩
  by_cases here : m = n
  · subst here
    simp [Live.touch, Live.modifyNat]
  · simp [Live.touch, Live.modifyNat, here]

theorem touch_locked (s : Live N) (n m : Fin N) :
    ((s.touch n).nat m).locked = (s.nat m).locked := by
  by_cases here : m = n
  · subst here
    simp [Live.touch, Live.modifyNat]
  · simp [Live.touch, Live.modifyNat, here]

/-- A native register is emptied and taken, or the other half is loaded to the register's own. -/
theorem allocReg_cases {willclobber : Bool} {n : Fin N}
    (done : s.allocRegHinted host r size willclobber hint = some (n, s')) :
    ∃ b s₁, ((s.nat b).locked = 0 ∧ host.suits size b = true) ∧
      (if 0 < s.nholds b then s.freeNreg host b else some s) = some s₁ ∧
      ((s₁.Linked → s₁.isinreg r = false) ∧ n = b ∧
          s' = s₁.take host r b size willclobber ∨
        willclobber = false ∧ s₁.isinreg r = true ∧ ∃ rr, (s₁.state r).realreg = some rr ∧
          s₁.nholds rr = 1 ∧
          (size = 4 ∧ (s₁.state r).validsize = 2 ∧ n = rr ∧
              s' = (s₁.mergeHalves r rr b).touch rr ∨
            n = b ∧ ∃ s₂, s₁.evict host r = some s₂ ∧ s' = s₂.take host r b size willclobber)) := by
  rw [Live.allocRegHinted] at done
  obtain ⟨b, best, done⟩ := Option.bind_eq_some_iff.mp done
  obtain ⟨s₁, free, done⟩ := Option.bind_eq_some_iff.mp done
  refine ⟨b, s₁, bestreg_spec (fun _ none => by cases none) best, free, ?_⟩
  split at done
  next rr inreg realreg =>
    rw [Option.ite_none_left_eq_some, Option.ite_none_left_eq_some, not_or, not_not] at done
    obtain ⟨⟨keeps, -⟩, single, done⟩ := done
    refine .inr ⟨Bool.not_eq_true _ ▸ keeps, inreg, rr, realreg, single, ?_⟩
    split at done
    next halves =>
      cases done
      exact .inl ⟨halves.1, halves.2, rfl, rfl⟩
    · obtain ⟨s₂, evicted, taken⟩ := Option.map_eq_some_iff.mp done
      cases taken
      exact .inr ⟨rfl, s₂, evicted, rfl⟩
  next other =>
    cases done
    refine .inl ⟨fun linked => ?_, rfl, rfl⟩
    rcases linked.cases r with out | ⟨rr, -, inreg, realreg⟩
    · exact out
    · exact (other rr inreg realreg).elim

/-- `alloc_reg_hinted` without `willclobber` -/
theorem allocReg_spec (inv : s.Inv host known) {n : Fin N}
    (undefined : (s.state r).status = .undef → known r = 0)
    (done : s.allocRegHinted host r size false hint = some (n, s')) :
    Served host known (some r) s s' ∧ (s'.nat n).holds = [r] ∧ (s'.state r).validsize = 4 ∧
      host.suits size n = true := by
  obtain ⟨b, s₁, ⟨-, suits⟩, free, outcome⟩ := allocReg_cases done
  obtain ⟨freed, empty⟩ := freed_spec inv free
  rcases outcome with ⟨absent, rfl, rfl⟩ | ⟨-, inreg, rr, realreg, single, outcome⟩
  · have out := absent freed.served.inv.linked
    obtain ⟨served, holds, whole⟩ := take_loaded freed.served.inv size out empty
      fun undef => undefined (freed.served.undef r undef)
    exact ⟨(freed.served.of_none _).trans served, holds, whole, suits⟩
  have held := freed.served.inv.linked.mem_of_isinreg inreg realreg
  rcases outcome with ⟨four, half, rfl, rfl⟩ | ⟨rfl, s₂, evicted, rfl⟩
  · -- Its own native register has the whole of it.
    obtain ⟨served, holds, whole⟩ := mergeHalves_spec freed.served.inv held single half empty
    have same := touch_held (s₁.mergeHalves r n b) n
    refine ⟨(freed.served.trans (served.congr same (touch_locked _ n))).of_none _, ?_, ?_, ?_⟩
    · rw [same.holds, holds]
    · rw [same.state, whole]
    · exact suits_iff.mpr (.inr (.inr four))
  · have gone := evict_spec freed.served.inv held evicted
    have out : s₂.isinreg r = false := by
      rw [Live.isinreg, gone.status]
      rfl
    have apart : n ≠ rr := by
      rintro rfl
      rw [empty] at held
      cases held
    have empty₂ : (s₂.nat n).holds = [] := by rw [gone.nat n apart, empty]
    obtain ⟨served, holds, whole⟩ := take_loaded gone.served.inv size out empty₂ fun undef => by
      rw [gone.status] at undef
      cases undef
    exact ⟨((freed.served.trans gone.served).of_none _).trans served, holds, whole, suits⟩

/-- `alloc_reg_hinted` with `willclobber` -/
theorem allocReg_clobbered (inv : s.Inv host known) {n : Fin N}
    (done : s.allocRegHinted host r size true hint = some (n, s')) :
    Renewed host known r s s' ∧ (s'.nat n).holds = [r] ∧ (s.nat n).locked = 0 ∧
      host.suits size n = true ∧ (∀ m ≠ n, s'.regs m = s.regs m) ∧
      (s.isinreg r = false → s'.mem r = s.mem r) := by
  obtain ⟨b, s₁, ⟨unlocked, suits⟩, free, outcome⟩ := allocReg_cases done
  obtain ⟨freed, empty⟩ := freed_spec inv free
  rcases outcome with ⟨absent, rfl, rfl⟩ | ⟨keeps, -⟩
  · have out := absent freed.served.inv.linked
    obtain ⟨renewed, holds, regs, mem⟩ := take_clobbered freed.served.inv out empty suits
    refine ⟨(freed.served.of_none _).renewed.trans renewed, holds, unlocked, suits,
      fun m apart => (regs m apart).trans (freed.regs m apart), fun before => ?_⟩
    rw [mem, (freed.served.out r (fun none => by cases none) before).2]
  · cases keeps

/-! ### mov_nregs -/

theorem relocate_kept (d : Fin N) (entries : List (VReg × Nat)) (s : Live N) :
    (s.relocate d entries).nat = s.nat ∧ (s.relocate d entries).regs = s.regs ∧
      (s.relocate d entries).mem = s.mem := by
  induction entries generalizing s with
  | nil => exact ⟨rfl, rfl, rfl⟩
  | cons e es ih => exact ih _

theorem relocate_of_not_mem {d : Fin N} {holds : List VReg} {k : Nat} {v : VReg} (out : v ∉ holds) :
    (s.relocate d (holds.zipIdx k)).state v = s.state v := by
  induction holds generalizing k s with
  | nil => rfl
  | cons u us ih =>
    rw [List.mem_cons, not_or] at out
    refine Eq.trans (ih out.2) ?_
    exact Function.update_of_ne out.1 _ _

theorem relocate_of_mem {d : Fin N} {holds : List VReg} {k i : Nat} {v : VReg}
    (nodup : holds.Nodup) (entry : holds[i]? = some v) :
    (s.relocate d (holds.zipIdx k)).state v =
      { s.state v with realreg := some d, realind := k + i } := by
  induction holds generalizing k i s with
  | nil => cases entry
  | cons u us ih =>
    obtain ⟨apart, nodup⟩ := List.nodup_cons.mp nodup
    rw [List.zipIdx_cons]
    cases i with
    | zero =>
      obtain rfl : u = v := Option.some.inj entry
      refine Eq.trans (relocate_of_not_mem apart) ?_
      exact Function.update_self _ _ _
    | succ i =>
      have member : v ∈ us := List.mem_of_getElem? (i := i) (by simpa using entry)
      have other : v ≠ u := fun same => apart (same ▸ member)
      refine Eq.trans (ih nodup (by simpa using entry)) ?_
      have before : (s.modify u fun st => { st with realreg := some d, realind := k }).state v =
          s.state v := Function.update_of_ne other _ _
      rw [before, show k + 1 + i = k + (i + 1) by omega]

section Transfer

variable {d n : Fin N} {v : VReg}

theorem transfer_nat (s : Live N) (apart : n ≠ d) (m : Fin N) : ((s.transfer d n).nat m).holds =
    if m = n then [] else if m = d then (s.nat n).holds else (s.nat m).holds := by
  obtain ⟨nat, -, -⟩ := relocate_kept d ((s.nat n).holds.zipIdx) (s.setReg d (s.regs n))
  simp only [Live.transfer, Live.modifyNat, nat]
  by_cases at_n : m = n
  · simp [at_n]
  · by_cases at_d : m = d
    · subst at_d
      simp [at_n]
    · simp [at_n, at_d, Live.setReg]

theorem transfer_locked (s : Live N) (m : Fin N) :
    ((s.transfer d n).nat m).locked = (s.nat m).locked := by
  obtain ⟨nat, -, -⟩ := relocate_kept d ((s.nat n).holds.zipIdx) (s.setReg d (s.regs n))
  simp only [Live.transfer, Live.modifyNat, nat]
  by_cases at_n : m = n
  · by_cases same : n = d <;> simp [at_n, same, Live.setReg]
  · by_cases at_d : m = d
    · subst at_d
      simp [at_n, Live.setReg]
    · simp [at_n, at_d, Live.setReg]

theorem transfer_regs (s : Live N) : (s.transfer d n).regs = Function.update s.regs d (s.regs n) :=
  (relocate_kept d ((s.nat n).holds.zipIdx) (s.setReg d (s.regs n))).2.1

theorem transfer_mem (s : Live N) : (s.transfer d n).mem = s.mem :=
  (relocate_kept d ((s.nat n).holds.zipIdx) (s.setReg d (s.regs n))).2.2

theorem transfer_of_not_mem (out : v ∉ (s.nat n).holds) : (s.transfer d n).state v = s.state v :=
  relocate_of_not_mem out

theorem transfer_of_mem (linked : s.Linked) (held : v ∈ (s.nat n).holds) :
    (s.transfer d n).state v = { s.state v with realreg := some d } := by
  refine (relocate_of_mem (linked.nodup n) (linked.realind n v held)).trans ?_
  rw [Nat.zero_add]
  rfl

theorem transfer_isinreg (linked : s.Linked) (v : VReg) :
    (s.transfer d n).isinreg v = s.isinreg v := by
  by_cases held : v ∈ (s.nat n).holds
  · rw [Live.isinreg, transfer_of_mem linked held]
    rfl
  · rw [Live.isinreg, transfer_of_not_mem held]
    rfl

/-- What `n` held is in `d`, which held nothing. -/
theorem transfer_holds (apart : n ≠ d) (empty : (s.nat d).holds = [])
    (m : Fin N) (v : VReg) : v ∈ ((s.transfer d n).nat m).holds ↔
      v ∈ (s.nat n).holds ∧ m = d ∨ v ∈ (s.nat m).holds ∧ m ≠ n := by
  rw [transfer_nat s apart]
  by_cases at_n : m = n
  · simp [at_n, apart]
  · by_cases at_d : m = d
    · simp [at_d, apart.symm, empty]
    · simp [at_n, at_d]

theorem Live.Linked.transfer (linked : s.Linked) (apart : n ≠ d) (empty : (s.nat d).holds = []) :
    (s.transfer d n).Linked := by
  refine ⟨fun v inreg => ?_, fun m v => ?_, fun m v held => ?_, fun m => ?_⟩
  · rw [transfer_isinreg linked] at inreg
    obtain ⟨m, held⟩ := linked.somewhere v inreg
    by_cases at_n : m = n
    · exact ⟨d, (transfer_holds apart empty d v).mpr (.inl ⟨at_n ▸ held, rfl⟩)⟩
    · exact ⟨m, (transfer_holds apart empty m v).mpr (.inr ⟨held, at_n⟩)⟩
  · rw [transfer_holds apart empty, transfer_isinreg linked]
    by_cases moved : v ∈ (s.nat n).holds
    · have elsewhere : ¬ (v ∈ (s.nat m).holds ∧ m ≠ n) := fun both =>
        both.2 (linked.unique both.1 moved)
      rw [transfer_of_mem linked moved, or_iff_left elsewhere,
        ((linked.holds_iff n v).mp moved).1]
      simp [moved, eq_comm]
    · rw [transfer_of_not_mem moved, linked.holds_iff m]
      have away : s.isinreg v = true ∧ (s.state v).realreg = some m → m ≠ n := by
        rintro at_m rfl
        exact moved ((linked.holds_iff m v).mpr at_m)
      simpa [moved] using away
  · rcases (transfer_holds apart empty m v).mp held with ⟨moved, rfl⟩ | ⟨stays, away⟩
    · rw [transfer_of_mem linked moved, transfer_nat s apart, if_neg apart.symm, if_pos rfl]
      exact linked.realind n v moved
    · have at_d : m ≠ d := by
        rintro rfl
        rw [empty] at stays
        cases stays
      have moved : v ∉ (s.nat n).holds := fun moved => away (linked.unique stays moved)
      rw [transfer_of_not_mem moved, transfer_nat s apart, if_neg away, if_neg at_d]
      exact linked.realind m v stays
  · rw [transfer_nat s apart]
    split
    · exact List.nodup_nil
    · split
      · exact linked.nodup n
      · exact linked.nodup m

theorem Served.transfer (inv : s.Inv host known) (apart : n ≠ d) (empty : (s.nat d).holds = [])
    (byteReg : ∀ v ∈ (s.nat n).holds, (s.state v).dirtysize = 1 → host.ByteReg d) :
    Served host known none s (s.transfer d n) := by
  have linked := inv.linked
  have linked' := linked.transfer apart empty
  have regs_d : (s.transfer d n).regs d = s.regs n := by
    rw [transfer_regs, Function.update_self]
  have stays_ne {m : Fin N} {v : VReg} (stays : v ∈ (s.nat m).holds) : m ≠ d := by
    rintro rfl
    rw [empty] at stays
    cases stays
  have regs_stays {m : Fin N} {v : VReg} (stays : v ∈ (s.nat m).holds) :
      (s.transfer d n).regs m = s.regs m := by
    rw [transfer_regs, Function.update_of_ne (stays_ne stays)]
  have not_moved {m : Fin N} {v : VReg} (stays : v ∈ (s.nat m).holds) (away : m ≠ n) :
      v ∉ (s.nat n).holds := fun moved => away (linked.unique stays moved)
  refine ⟨⟨linked', fun m v held => ?_, fun m v held narrow => ?_, fun m v held one => ?_,
    inv.flagx⟩, fun v => ?_, transfer_locked s, fun v _ out => ?_, fun v undefined => ?_⟩
  · rw [transfer_mem]
    rcases (transfer_holds apart empty m v).mp held with ⟨moved, rfl⟩ | ⟨stays, away⟩
    · have placed := inv.placed n v moved
      rw [transfer_of_mem linked moved, regs_d]
      exact ⟨placed.status, placed.valid, placed.fewer, placed.offset, placed.agrees⟩
    · rw [transfer_of_not_mem (not_moved stays away), regs_stays stays]
      exact inv.placed m v stays
  · rw [transfer_nat s apart]
    rcases (transfer_holds apart empty m v).mp held with ⟨moved, rfl⟩ | ⟨stays, away⟩
    · rw [transfer_of_mem linked moved] at narrow
      rw [if_neg apart.symm, if_pos rfl]
      exact inv.alone n v moved narrow
    · rw [transfer_of_not_mem (not_moved stays away)] at narrow
      rw [if_neg away, if_neg (stays_ne stays)]
      exact inv.alone m v stays narrow
  · rcases (transfer_holds apart empty m v).mp held with ⟨moved, rfl⟩ | ⟨stays, away⟩
    · rw [transfer_of_mem linked moved] at one
      exact byteReg v moved one
    · rw [transfer_of_not_mem (not_moved stays away)] at one
      exact inv.byteReg m v stays one
  · have kept : (s.transfer d n).value v = s.value v := by
      rcases linked.cases v with out | ⟨m, held, -, -⟩
      · have moved := linked.not_mem out n
        exact value_out out (by rw [transfer_of_not_mem moved]; exact ⟨rfl, rfl⟩)
          (by rw [transfer_mem])
      · rw [value_held linked held]
        by_cases at_n : m = n
        · subst at_n
          rw [value_held linked' ((transfer_holds apart empty d v).mpr (.inl ⟨held, rfl⟩)),
            transfer_of_mem linked held, regs_d, transfer_mem]
        · rw [value_held linked'
            ((transfer_holds apart empty m v).mpr (.inr ⟨held, at_n⟩)),
            transfer_of_not_mem (not_moved held at_n), regs_stays held, transfer_mem]
    rw [kept]
    exact .refl _ _
  · rw [transfer_of_not_mem (linked.not_mem out n), transfer_mem]
    exact ⟨rfl, rfl⟩
  · by_cases held : v ∈ (s.nat n).holds
    · rwa [transfer_of_mem linked held] at undefined
    · rwa [transfer_of_not_mem held] at undefined

/-- `mov_nregs`: the records of the registers that move say where they are now. -/
theorem movNregs_spec (inv : s.Inv host known)
    (byteReg : ∀ v ∈ (s.nat n).holds, (s.state v).dirtysize = 1 → host.ByteReg d)
    (done : s.movNregs host d n = some s') :
    Served host known none s s' ∧ (s'.nat d).holds = (s.nat n).holds ∧
      ∀ v ∈ (s.nat n).holds, s'.state v = { s.state v with realreg := some d } := by
  rw [Live.movNregs] at done
  split at done
  next same =>
    cases done
    subst same
    refine ⟨.refl inv none, rfl, fun v held => ?_⟩
    rw [← ((inv.linked.holds_iff n v).mp held).2]
  next apart =>
    obtain ⟨s₁, free, rfl⟩ := Option.map_eq_some_iff.mp done
    obtain ⟨freed, empty⟩ := freed_spec inv free
    have holds : (s₁.nat n).holds = (s.nat n).holds := by rw [freed.nat n apart]
    have state {v : VReg} (held : v ∈ (s.nat n).holds) : s₁.state v = s.state v :=
      (freed.other v fun held' => apart (inv.linked.unique held held')).1
    have moved := Served.transfer freed.served.inv apart empty fun v held one => by
      rw [holds] at held
      rw [state held] at one
      exact byteReg v held one
    refine ⟨freed.served.trans moved, ?_, fun v held => ?_⟩
    · rw [transfer_nat s₁ apart, if_neg (Ne.symm apart), if_pos rfl, holds]
    · rw [transfer_of_mem freed.served.inv.linked (holds ▸ held), state held]

end Transfer

end BasiliskII.Jit
