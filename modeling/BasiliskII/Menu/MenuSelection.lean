import BasiliskII.Menu.MediaMenu

/-!
# The menu's selection is valid

The searches for a category that is not empty end, as there are always aspect ratios, and
the entry selected is one of the category after every call.
-/
namespace BasiliskII.Menu

/-- The lists have been read, and are as `parse_dir` leaves them. -/
structure MenuState.Scanned (st : MenuState) : Prop where
  cdroms : ∃ files, st.cdroms = some files ∧ files.length ≤ maxMedia
  floppies : ∃ files, st.floppies = some files ∧ files.length ≤ maxMedia
  imaps : ∃ files, st.imaps = some files ∧ files.length ≤ maxMedia

/-- `sel` is an entry of the category. -/
structure MenuState.Selected (st : MenuState) : Prop where
  range : st.idx ≤ 3
  max : st.max = st.count st.idx
  sel : st.sel < st.max

structure MenuState.Valid (st : MenuState) : Prop extends st.Scanned, st.Selected

/-- Before a call: nothing was selected yet, or an entry is. -/
def MenuState.Ready (st : MenuState) : Prop := st = .initial ∨ st.Valid

/-! ### The searches -/

theorem count_aspects (st : MenuState) : st.count 3 = numaspectratios := rfl

/-- A search ends at a category that is not empty and changes nothing but `max` and `idx`, when
every turn at an empty one brings it closer to the aspect ratios. -/
theorem searchLoop_finds {next : BitVec 32 → BitVec 32} (left : BitVec 32 → Nat)
    (closer : ∀ idx ≤ 3, idx ≠ 3 → next idx ≤ 3 ∧ left (next idx) < left idx) {fuel : Nat}
    {st : MenuState} (empty : st.max = 0) (range : st.idx ≤ 3) (enough : left st.idx < fuel) :
    ∃ idx ≤ 3, st.count idx ≠ 0 ∧
      st.searchLoop next fuel = some { st with max := st.count idx, idx := idx } := by
  induction fuel generalizing st with
  | zero => exact absurd enough (Nat.not_lt_zero _)
  | succ fuel ih =>
    rw [MenuState.searchLoop, if_pos empty]
    by_cases none_there : st.count st.idx = 0
    -- The aspect ratios are never empty, so it goes on from another category.
    · have other : st.idx ≠ 3 := by
        intro aspect
        rw [aspect, count_aspects] at none_there
        exact absurd none_there (by decide)
      obtain ⟨inside, fewer⟩ := closer st.idx range other
      have further : left (next st.idx) < fuel :=
        Nat.lt_of_lt_of_le fewer (Nat.le_of_lt_succ enough)
      obtain ⟨idx, range, some_there, found⟩ :=
        @ih { st with max := st.count st.idx, idx := next st.idx } none_there inside further
      refine ⟨idx, range, some_there, ?_⟩
      rw [if_neg (fun some_there => some_there none_there)]
      exact found
    · exact ⟨st.idx, range, none_there, if_pos none_there⟩

theorem forward_range (idx : BitVec 32) : forward idx ≤ 3 := by
  unfold forward
  split <;> bv_omega

theorem backward_range {idx : BitVec 32} (range : idx ≤ 3) : backward idx ≤ 3 := by
  unfold backward
  split <;> bv_omega

theorem forward_closer (idx : BitVec 32) (range : idx ≤ 3) (other : idx ≠ 3) :
    forward idx ≤ 3 ∧ 3 - (forward idx).toNat < 3 - idx.toNat := by
  refine ⟨forward_range idx, ?_⟩
  unfold forward
  split <;> bv_omega

theorem backward_closer (idx : BitVec 32) (range : idx ≤ 3) (other : idx ≠ 3) :
    backward idx ≤ 3 ∧ ((backward idx).toNat + 1) % 4 < (idx.toNat + 1) % 4 := by
  refine ⟨backward_range range, ?_⟩
  unfold backward
  split <;> bv_omega

/-! ### The steps of a call -/

variable {st : MenuState} {n : Nat}

theorem zero_lt_of_ne {max : BitVec 32} (some_there : max ≠ 0) : 0 < max := by
  bv_omega

theorem MenuState.Scanned.of_same {st' : MenuState} (scanned : st.Scanned)
    (cdroms : st'.cdroms = st.cdroms) (floppies : st'.floppies = st.floppies)
    (imaps : st'.imaps = st.imaps) : st'.Scanned where
  cdroms := cdroms ▸ scanned.cdroms
  floppies := floppies ▸ scanned.floppies
  imaps := imaps ▸ scanned.imaps

/-- A search that begins with entry 0 of no category ends with entry 0 of one that has it. -/
theorem search_valid {next : BitVec 32 → BitVec 32} (left : BitVec 32 → Nat)
    (closer : ∀ idx ≤ 3, idx ≠ 3 → next idx ≤ 3 ∧ left (next idx) < left idx) {fuel : Nat}
    (scanned : st.Scanned) (first : st.sel = 0) (empty : st.max = 0) (range : st.idx ≤ 3)
    (enough : left st.idx < fuel) : ∃ st', st.searchLoop next fuel = some st' ∧ st'.Valid := by
  obtain ⟨idx, range, some_there, found⟩ := searchLoop_finds left closer empty range enough
  have inside : st.sel < st.count idx := first ▸ zero_lt_of_ne some_there
  exact ⟨_, found, scanned.of_same rfl rfl rfl, range, rfl, inside⟩

theorem search_forward (scanned : st.Scanned) (first : st.sel = 0) (empty : st.max = 0)
    (range : st.idx ≤ 3) : ∃ st', st.searchLoop forward (n + 4) = some st' ∧ st'.Valid := by
  have enough : 3 - st.idx.toNat < n + 4 := by omega
  exact search_valid (fun idx => 3 - idx.toNat) forward_closer scanned first empty range enough

theorem search_backward (scanned : st.Scanned) (first : st.sel = 0) (empty : st.max = 0)
    (range : st.idx ≤ 3) : ∃ st', st.searchLoop backward (n + 4) = some st' ∧ st'.Valid := by
  have enough : (st.idx.toNat + 1) % 4 < n + 4 := by omega
  exact search_valid (fun idx => (idx.toNat + 1) % 4) backward_closer scanned first empty range
    enough

theorem selectCategory_valid (ctrl : SceCtrl) (buttons pad : BitVec 32) (valid : st.Valid) :
    ∃ st', st.selectCategory ctrl (n + 4) buttons pad = some st' ∧ st'.Valid := by
  have scanned : ∀ idx, { st with idx := idx, sel := 0, max := 0 }.Scanned :=
    fun _ => valid.toScanned.of_same rfl rfl rfl
  unfold MenuState.selectCategory
  split
  · split
    · exact search_backward (scanned _) rfl rfl (backward_range valid.range)
    · split
      · exact search_forward (scanned _) rfl rfl (forward_range st.idx)
      · exact ⟨st, rfl, valid⟩
  · exact ⟨st, rfl, valid⟩

theorem MenuState.Valid.with_sel (valid : st.Valid) {sel : BitVec 32} (below : sel < st.max) :
    { st with sel := sel }.Valid :=
  ⟨valid.toScanned.of_same rfl rfl rfl, valid.range, valid.max, below⟩

theorem left_below {sel max : BitVec 32} (below : sel < max) :
    (if 0 < sel then sel - 1 else max - 1) < max := by
  split <;> bv_omega

theorem right_below {sel max : BitVec 32} (below : sel < max) :
    (if sel < max - 1 then sel + 1 else 0) < max := by
  split <;> bv_omega

theorem selectEntry_valid (ctrl : SceCtrl) (buttons pad : BitVec 32) (valid : st.Valid) :
    (st.selectEntry ctrl buttons pad).Valid := by
  unfold MenuState.selectEntry
  -- Left first, then Right on what Left has left: both may have changed in one frame.
  have moved : (if isSet buttons ctrl.left && isSet pad ctrl.left then
      { st with sel := if 0 < st.sel then st.sel - 1 else st.max - 1 } else st).Valid := by
    split
    · exact valid.with_sel (left_below valid.sel)
    · exact valid
  revert moved
  generalize (if isSet buttons ctrl.left && isSet pad ctrl.left then
      { st with sel := if 0 < st.sel then st.sel - 1 else st.max - 1 } else st) = st'
  intro moved
  dsimp only
  split
  · exact moved.with_sel (right_below moved.sel)
  · exact moved

theorem entry_isSome {list : Option (List FileEntry)} {files : List FileEntry} (read : list = some files)
    (short : files.length ≤ maxMedia) (sel : st.sel < BitVec.ofNat 32 (list.getD []).length) :
    (st.entry list).isSome := by
  subst read
  have bound : files.length ≤ 64 := short
  have below : st.sel.toNat < files.length := by
    have value := BitVec.lt_def.mp sel
    rw [BitVec.toNat_ofNat, Option.getD_some] at value
    omega
  rw [MenuState.entry, Option.getD_some, List.getElem?_eq_getElem below]
  rfl

/-- What is drawn and what is loaded are taken from the list of the category, or from the aspect
ratios. -/
theorem category_cases (valid : st.Valid) :
    st.idx = 0 ∧ (st.entry st.imaps).isSome ∨ st.idx = 1 ∧ (st.entry st.floppies).isSome ∨
      st.idx = 2 ∧ (st.entry st.cdroms).isSome ∨ st.idx = 3 ∧ st.sel.toNat < aspectratios.length := by
  obtain ⟨cdroms, read_cdroms, short_cdroms⟩ := valid.cdroms
  obtain ⟨floppies, read_floppies, short_floppies⟩ := valid.floppies
  obtain ⟨imaps, read_imaps, short_imaps⟩ := valid.imaps
  have sel := valid.sel
  rw [valid.max, MenuState.count] at sel
  -- One category after the other, as `count` tests them.
  by_cases first : st.idx = 0
  · rw [if_pos first] at sel
    exact .inl ⟨first, entry_isSome read_imaps short_imaps sel⟩
  rw [if_neg first] at sel
  by_cases second : st.idx = 1
  · rw [if_pos second] at sel
    exact .inr (.inl ⟨second, entry_isSome read_floppies short_floppies sel⟩)
  rw [if_neg second] at sel
  by_cases third : st.idx = 2
  · rw [if_pos third] at sel
    exact .inr (.inr (.inl ⟨third, entry_isSome read_cdroms short_cdroms sel⟩))
  rw [if_neg third] at sel
  have range := valid.range
  have last : st.idx = 3 := by bv_omega
  exact .inr (.inr (.inr ⟨last, BitVec.lt_def.mp sel⟩))

theorem text_isSome (valid : st.Valid) : ∃ text, st.text = some text := by
  rw [← Option.isSome_iff_exists, MenuState.text]
  obtain ⟨idx, there⟩ | ⟨idx, there⟩ | ⟨idx, there⟩ | ⟨idx, below⟩ := category_cases valid
  · simp [idx, there]
  · simp [idx, there]
  · simp [idx, there]
  · simp [idx, List.getElem?_eq_getElem below]

theorem load_isSome (call : MenuCall) (valid : st.Valid) : ∃ action, st.load call = some action := by
  rw [← Option.isSome_iff_exists, MenuState.load]
  obtain ⟨idx, there⟩ | ⟨idx, there⟩ | ⟨idx, there⟩ | ⟨idx, below⟩ := category_cases valid
  · simp [idx, there]
  -- With a medium in the drive the list is not read.
  · cases call.floppyInserted <;> simp [idx, there]
  · cases call.cdromInserted <;> simp [idx, there]
  · simp [idx]

/-! ### Whole calls -/

/-- What `parse_dir` has found, or finds now. -/
theorem read_short (list : Option (List FileEntry)) (host : Host) (path : CString)
    (short : ∀ files, list = some files → files.length ≤ maxMedia) :
    (list.getD (parseDir host path maxMedia)).length ≤ maxMedia := by
  cases list with
  | none => exact parseDir_length host path (by decide)
  | some files => exact short files rfl

theorem MenuState.Ready.scan (ready : st.Ready) (psp_home : CString) (host : Host) :
    (st.scan psp_home host).Scanned := by
  have short : ∀ list ∈ [st.cdroms, st.floppies, st.imaps], ∀ files, list = some files →
      files.length ≤ maxMedia := by
    intro list member files read
    obtain rfl | valid := ready
    · simp [MenuState.initial] at member
      rw [member] at read
      cases read
    · obtain ⟨cdroms, read_cdroms, short_cdroms⟩ := valid.cdroms
      obtain ⟨floppies, read_floppies, short_floppies⟩ := valid.floppies
      obtain ⟨imaps, read_imaps, short_imaps⟩ := valid.imaps
      simp only [read_cdroms, read_floppies, read_imaps, List.mem_cons, List.not_mem_nil,
        or_false] at member
      obtain rfl | rfl | rfl := member <;> cases read <;> assumption
  exact ⟨⟨_, rfl, read_short _ _ _ (short _ (by simp))⟩,
    ⟨_, rfl, read_short _ _ _ (short _ (by simp))⟩, ⟨_, rfl, read_short _ _ _ (short _ (by simp))⟩⟩

theorem MenuState.Valid.scan (valid : st.Valid) (psp_home : CString) (host : Host) :
    st.scan psp_home host = st := by
  obtain ⟨cdroms, read_cdroms, _⟩ := valid.cdroms
  obtain ⟨floppies, read_floppies, _⟩ := valid.floppies
  obtain ⟨imaps, read_imaps, _⟩ := valid.imaps
  cases st
  subst read_cdroms read_floppies read_imaps
  rfl

/-- The search before the buttons: it looks for a category in the first call only. -/
theorem begin_valid (ready : st.Ready) (psp_home : CString) (host : Host) :
    ∃ st', (st.scan psp_home host).searchLoop forward (n + 4) = some st' ∧ st'.Valid := by
  have scanned := ready.scan psp_home host
  obtain rfl | valid := ready
  -- The first call: nothing has been counted yet.
  · exact search_forward scanned rfl rfl (show (0 : BitVec 32) ≤ 3 by decide)
  · rw [valid.scan]
    -- A category with an entry selected is not empty.
    have some_there : st.max ≠ 0 := by
      have inside := valid.sel
      bv_omega
    exact ⟨st, if_neg some_there, valid⟩

theorem handleMenu_valid (ctrl : SceCtrl) (psp_home : CString) (call : MenuCall)
    (ready : st.Ready) :
    ∃ frame, handleMenu ctrl psp_home (n + 4) call st = some frame ∧ frame.st.Valid := by
  obtain ⟨begun, search, valid⟩ := begin_valid (n := n) ready psp_home call.host
  have pressed : { begun with oldButtons := call.buttons }.Valid :=
    ⟨valid.toScanned.of_same rfl rfl rfl, valid.range, valid.max, valid.sel⟩
  obtain ⟨turned, category, valid⟩ :=
    selectCategory_valid (n := n) ctrl (call.buttons ^^^ begun.oldButtons) call.buttons pressed
  have valid := selectEntry_valid ctrl (call.buttons ^^^ begun.oldButtons) call.buttons valid
  obtain ⟨text, drawn⟩ := text_isSome valid
  obtain ⟨action, loaded⟩ := load_isSome call valid
  simp only [handleMenu, search, category, drawn, loaded, Option.bind_eq_bind, Option.bind_some]
  split
  · exact ⟨_, rfl, valid⟩
  · exact ⟨_, rfl, valid⟩

theorem menuFrames_valid (ctrl : SceCtrl) (psp_home : CString) (calls : List MenuCall)
    (ready : st.Ready) :
    ∃ frames, menuFrames ctrl psp_home (n + 4) calls st = some frames ∧
      ∀ frame ∈ frames, frame.st.Valid := by
  induction calls generalizing st with
  | nil => exact ⟨[], rfl, by simp⟩
  | cons call calls ih =>
    obtain ⟨frame, called, valid⟩ := handleMenu_valid (n := n) ctrl psp_home call ready
    obtain ⟨frames, rest, all_valid⟩ := ih (.inr valid)
    refine ⟨frame :: frames, ?_, by simpa using ⟨valid, all_valid⟩⟩
    simp only [menuFrames, called, rest, Option.bind_eq_bind, Option.bind_some]

/-- Whatever is pressed and whatever the directories hold, four turns of a search are enough,
and every frame has drawn, and loaded, an entry of the category it shows. -/
theorem menu_selection_valid (ctrl : SceCtrl) (psp_home : CString) (calls : List MenuCall) (n : Nat) :
    ∃ frames, menuFrames ctrl psp_home (n + 4) calls .initial = some frames ∧
      ∀ frame ∈ frames, frame.st.idx ≤ 3 ∧ frame.st.max = frame.st.count frame.st.idx ∧
        frame.st.sel < frame.st.max := by
  obtain ⟨frames, run, valid⟩ := menuFrames_valid (n := n) ctrl psp_home calls (.inl rfl)
  exact ⟨frames, run, fun frame member =>
    ⟨(valid frame member).range, (valid frame member).max, (valid frame member).sel⟩⟩

end BasiliskII.Menu
