import BasiliskII.Video.GammaTable

/-!
# Setting the gamma table

When `cscSetGamma` tells the truth: it returns `noErr` exactly if the user's table was valid and
stands in the block of the driver, and otherwise what was in effect stays in effect.
-/
namespace BasiliskII.Video.PaletteState

open ByteMemory

/-- The user's table stands in the block, and the palette of a direct mode was loaded with it. -/
structure Installed (st : PaletteState) (userTable : BitVec 32) (after : PaletteState) : Prop where
  block : after.gamma.table ≠ 0
  size : userSize st.mem userTable ≤ after.gamma.allocSize
  bytes : ∀ i < userSize st.mem userTable,
    after.mem (after.gamma.table + BitVec.ofNat 32 i) = userByte st.mem userTable i
  loaded : isDirectMode after.depth = true → ∃ before : PaletteState,
    before.mem = after.mem ∧ before.gamma = after.gamma ∧ before.loadRampPalette = some after

/-- The table that was installed, its size and the palette are still in effect. -/
structure Kept (st after : PaletteState) : Prop where
  gamma : after.gamma = st.gamma
  bytes : ∀ i < st.gamma.allocSize,
    after.mem (st.gamma.table + BitVec.ofNat 32 i) = st.mem (st.gamma.table + BitVec.ofNat 32 i)
  palette : after.palette = st.palette
  shown : after.shown = st.shown

def AllocationFails (traps : GammaTraps) (userTable : BitVec 32) (st : PaletteState) : Prop :=
  st.gamma.allocSize < userSize st.mem userTable ∧
    (st.requestBlock traps (userSize st.mem userTable)).1 = 0

/-- The call returns `noErr` exactly if the table was valid and is installed; on an invalid table
or a failed allocation it returns an error and changes nothing. -/
def SetGammaRight (traps : GammaTraps) (param : BitVec 32) (st : PaletteState) : Prop :=
  let userTable := getLong st.mem (param + csGTable)
  ∃ err after, st.setGamma traps param = some (err, after) ∧
    (err = noErr ↔ ValidTable st.mem userTable ∧ Installed st userTable after) ∧
    (¬ ValidTable st.mem userTable ∨ AllocationFails traps userTable st →
      err ≠ noErr ∧ Kept st after)

/-- The table is valid, and there is room for it, or the Mac OS gives a larger block and leaves
the user's table as it was. -/
def CanInstall (traps : GammaTraps) (userTable : BitVec 32) (st : PaletteState) : Prop :=
  ValidTable st.mem userTable ∧
    (st.gamma.allocSize < userSize st.mem userTable →
      (st.requestBlock traps (userSize st.mem userTable)).1 ≠ 0 ∧
      ∀ i < userSize st.mem userTable,
        userByte (st.requestBlock traps (userSize st.mem userTable)).2 userTable i =
          userByte st.mem userTable i)

/-! ### The outcomes of the call -/

theorem loadRampPalette_keeps {st after : PaletteState} (loaded : st.loadRampPalette = some after) :
    after.mem = st.mem ∧ after.gamma = st.gamma := by
  simp only [loadRampPalette, Option.bind_eq_bind, Option.bind_eq_some_iff] at loaded
  obtain ⟨_, _, _, _, result⟩ := loaded
  cases result
  exact ⟨rfl, rfl⟩

theorem reloadPalette_keeps {st after : PaletteState} {ok : Bool}
    (reloaded : st.reloadPalette = some (ok, after)) :
    ok = true ∧ after.mem = st.mem ∧ after.gamma = st.gamma := by
  unfold reloadPalette at reloaded
  split at reloaded
  · simp only [Option.bind_eq_bind, Option.bind_eq_some_iff] at reloaded
    obtain ⟨_, loaded, result⟩ := reloaded
    cases result
    exact ⟨rfl, loadRampPalette_keeps loaded⟩
  · cases reloaded
    exact ⟨rfl, rfl, rfl⟩

variable {traps : GammaTraps} {userTable : BitVec 32}

/-- Every error code is true as a `bool`. -/
theorem setGammaTable_ok {st after : PaletteState} {ok : Bool}
    (result : st.setGammaTable traps userTable = some (ok, after)) : ok = true := by
  by_cases valid : ValidTable st.mem userTable
  · rw [setGammaTable_valid traps valid] at result
    dsimp only at result
    split at result
    · cases result
      rfl
    · exact (reloadPalette_keeps result).1
  · rw [setGammaTable_invalid traps valid] at result
    cases result
    rfl

theorem setGamma_result {param : BitVec 32} {st after : PaletteState} {err : BitVec 16}
    (result : st.setGamma traps param = some (err, after)) :
    err = noErr ∧
      st.setGammaTable traps (getLong st.mem (param + csGTable)) = some (true, after) := by
  simp only [setGamma, Option.bind_eq_bind, Option.bind_eq_some_iff] at result
  obtain ⟨⟨ok, other⟩, set, returned⟩ := result
  cases setGammaTable_ok set
  cases returned
  exact ⟨rfl, set⟩

/-- A granted block holds the user's table as the memory has it then. -/
theorem bytes_granted {st after : PaletteState} (valid : ValidTable st.mem userTable)
    (larger : st.gamma.allocSize < userSize st.mem userTable)
    (got : (st.requestBlock traps (userSize st.mem userTable)).1 ≠ 0)
    (set : st.setGammaTable traps userTable = some (true, after)) {i : Nat}
    (inside : i < userSize st.mem userTable) :
    after.mem (after.gamma.table + BitVec.ofNat 32 i) =
      userByte (st.requestBlock traps (userSize st.mem userTable)).2 userTable i := by
  rw [setGammaTable_valid traps valid] at set
  dsimp only at set
  rw [allocate_grants larger got] at set
  obtain ⟨-, mem, gamma⟩ := reloadPalette_keeps set
  rw [mem, gamma]
  exact installBytes_byte valid inside

/-- Once the bytes are in a block that is large enough, the rest of the call succeeds. -/
theorem reload_installed {st placed : PaletteState} (valid : ValidTable st.mem userTable)
    (block : placed.gamma.table ≠ 0) (size : userSize st.mem userTable ≤ placed.gamma.allocSize)
    (bytes : ∀ i < userSize st.mem userTable,
      placed.mem (placed.gamma.table + BitVec.ofNat 32 i) = userByte st.mem userTable i) :
    ∃ after, placed.reloadPalette = some (true, after) ∧ Installed st userTable after := by
  have bounds := userSize_bounds valid
  unfold sizeofGammaTbl at bounds
  -- The correction reads the header in the block, which is that of the user's table.
  have holds : placed.HoldsTable := by
    intro _
    obtain ⟨header, long⟩ :=
      installed_header valid fun i inside => bytes i (Nat.lt_trans inside bounds.1)
    exact ⟨header, long ▸ size⟩
  obtain ⟨palette, shown, reloaded⟩ := reloadPalette_inside holds
  refine ⟨_, reloaded, block, size, bytes, fun direct => ⟨placed, rfl, rfl, ?_⟩⟩
  unfold reloadPalette at reloaded
  rw [if_pos direct] at reloaded
  simp only [Option.bind_eq_bind, Option.bind_eq_some_iff] at reloaded
  obtain ⟨_, loaded, result⟩ := reloaded
  cases result
  exact loaded

theorem setGammaTable_installs {st : PaletteState} (can : CanInstall traps userTable st) :
    ∃ after, st.setGammaTable traps userTable = some (true, after) ∧
      Installed st userTable after := by
  obtain ⟨valid, room⟩ := can
  rw [setGammaTable_valid traps valid]
  dsimp only
  -- Without a larger block the bytes go over the old table, and nothing else changed before.
  by_cases larger : st.gamma.allocSize < userSize st.mem userTable
  · obtain ⟨got, same⟩ := room larger
    rw [allocate_grants larger got]
    refine reload_installed valid got (Nat.le_refl _) fun i inside => ?_
    exact (installBytes_byte valid inside).trans (same i inside)
  · have fits : userSize st.mem userTable ≤ st.gamma.allocSize := Nat.not_lt.mp larger
    have positive := (userSize_bounds valid).1
    rw [allocate_fits fits]
    refine reload_installed valid (fun none => ?_) fits fun i inside =>
      installBytes_byte valid inside
    have empty := st.gamma.empty none
    omega

/-- `cscSetGamma` is right exactly where the table is valid and can be installed. -/
theorem set_gamma_right_iff (traps : GammaTraps) (param : BitVec 32) (st : PaletteState) :
    SetGammaRight traps param st ↔ CanInstall traps (getLong st.mem (param + csGTable)) st := by
  unfold SetGammaRight
  generalize user : getLong st.mem (param + csGTable) = userTable
  constructor
  · rintro ⟨err, after, result, honest, atomic⟩
    obtain ⟨success, set⟩ := setGamma_result result
    rw [user] at set
    -- The call always says `noErr`, so what it says of the table has to be true.
    obtain ⟨valid, installed⟩ := honest.mp success
    refine ⟨valid, fun larger => ?_⟩
    have got : (st.requestBlock traps (userSize st.mem userTable)).1 ≠ 0 := fun fails =>
      (atomic (.inr ⟨larger, fails⟩)).1 success
    refine ⟨got, fun i inside => ?_⟩
    rw [← bytes_granted valid larger got set inside]
    exact installed.bytes i inside
  · intro can
    obtain ⟨after, set, installed⟩ := setGammaTable_installs can
    refine ⟨noErr, after, by simp [setGamma, user, set], ?_, ?_⟩
    · exact ⟨fun _ => ⟨can.1, installed⟩, fun _ => rfl⟩
    · rintro (invalid | ⟨larger, fails⟩)
      · exact absurd can.1 invalid
      · exact absurd fails (can.2 larger).1

/-! ### An error that is returned as success -/

/-- Memory that can give nothing. -/
def noMemory : GammaTraps := ⟨fun _ mem => mem, fun _ mem => (0, mem)⟩

/-- A parameter block at 0 that points to a table of version 1 at 0x100. -/
def versionOne : PaletteState where
  mem := putWord (putLong (fun _ => 0) 0 0x100) 0x100 1
  gamma := noBlock
  depth := .depth8bit
  luminanceMapping := false
  palette := grayPalette
  shown := (grayPalette, 256)

theorem invalid_table_accepted :
    ¬ ∀ (traps : GammaTraps) (param : BitVec 32) (st : PaletteState),
      SetGammaRight traps param st := by
  intro all
  obtain ⟨err, after, result, _, atomic⟩ := all noMemory 0 versionOne
  have invalid : ¬ ValidTable versionOne.mem (getLong versionOne.mem (0 + csGTable)) := by
    rintro (null | header)
    · exact absurd null (by decide +kernel)
    · exact absurd header.version (by decide +kernel)
  exact (atomic (.inl invalid)).1 (setGamma_result result).1

end BasiliskII.Video.PaletteState
