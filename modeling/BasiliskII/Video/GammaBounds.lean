import BasiliskII.Library.StepSystem
import BasiliskII.Video.GammaTable

/-!
# Palette and gamma accesses over runs

The calls of the driver in any order, between them anything else that changes Mac memory. A call
that accesses the palette or a gamma table outside has no result.
-/
namespace BasiliskII.Video

open ByteMemory StepSystem

inductive VideoCall
  | setGamma (traps : GammaTraps) (param : BitVec 32)
  | setEntries (direct : Bool) (param : BitVec 32)
  | getEntries (param : BitVec 32)
  | setGray (enable : Bool)
  | grayPage (fill : Memory 32 → Memory 32)
  | switchMode (depth : VideoDepth) (effect : Memory 32 → Memory 32)
  /-- The Mac runs, or another call of the driver. -/
  | other (effect : Memory 32 → Memory 32)

namespace PaletteState

def videoCall (st : PaletteState) : VideoCall → Option PaletteState
  | .setGamma traps param => (st.setGamma traps param).map (·.2)
  | .setEntries direct param => (st.setEntries direct param).map (·.2)
  | .getEntries param => (st.getEntries param).map (·.2)
  | .setGray enable => some { st with luminanceMapping := enable }
  | .grayPage fill => st.grayPage fill
  | .switchMode depth effect => some (st.switchMode depth effect)
  | .other effect => some { st with mem := effect st.mem }

/-- The header of the table in the block is not written to. -/
def HeaderKept (st : PaletteState) (mem : Memory 32) : Prop :=
  st.gamma.table ≠ 0 → ∀ i < 12,
    mem (st.gamma.table + BitVec.ofNat 32 i) = st.mem (st.gamma.table + BitVec.ofNat 32 i)

/-- Where a larger block is needed, getting it leaves the header of the user's table as it was. -/
def UserHeaderKept (traps : GammaTraps) (userTable : BitVec 32) (st : PaletteState) : Prop :=
  userTable ≠ 0 → ValidTable st.mem userTable → st.gamma.allocSize < userSize st.mem userTable →
    ∀ i < 12, (st.requestBlock traps (userSize st.mem userTable)).2
      (userTable + BitVec.ofNat 32 i) = st.mem (userTable + BitVec.ofNat 32 i)

/-- `GetEntries` is not asked to put a colour into the header of the table in the block. -/
def EntriesApart (param : BitVec 32) (st : PaletteState) : Prop :=
  st.gamma.table ≠ 0 → ∀ i ≤ (getWord st.mem (param + csCount)).toNat,
    ∀ k, 2 ≤ k → k < 8 → ∀ j < 12,
      st.gamma.table + BitVec.ofNat 32 j ≠
        getLong st.mem (param + csTable) + BitVec.ofNat 32 (8 * i + k)

def Allowed (st : PaletteState) : VideoCall → Prop
  | .setGamma traps param => UserHeaderKept traps (getLong st.mem (param + csGTable)) st
  | .setEntries _ _ => True
  | .getEntries param => EntriesApart param st
  | .setGray _ => True
  | .grayPage fill => HeaderKept st (fill st.mem)
  | .switchMode _ effect => HeaderKept st (effect st.mem)
  | .other effect => HeaderKept st (effect st.mem)

variable {st : PaletteState}

theorem HoldsTable.frame (holds : st.HoldsTable) {after : PaletteState}
    (gamma : after.gamma = st.gamma) (kept : HeaderKept st after.mem) : after.HoldsTable := by
  intro block
  rw [gamma] at block ⊢
  obtain ⟨valid, fits⟩ := holds block
  exact ⟨valid.congr (kept block), (tableSize_congr (kept block)).trans_le fits⟩

/-! ### Setting a table -/

theorem reload_holds (holds : st.HoldsTable) :
    ∃ after, st.reloadPalette = some (true, after) ∧ after.HoldsTable := by
  obtain ⟨palette, shown, reloaded⟩ := reloadPalette_inside holds
  exact ⟨_, reloaded, holds⟩

theorem disposed_empty (traps : GammaTraps) (st : PaletteState) :
    (st.disposeGammaTable traps).gamma.table = 0 := by
  unfold disposeGammaTable
  split
  next none => exact none
  · rfl

theorem setGammaTable_inside (traps : GammaTraps) (userTable : BitVec 32) (holds : st.HoldsTable)
    (kept : UserHeaderKept traps userTable st) :
    ∃ after, st.setGammaTable traps userTable = some (true, after) ∧ after.HoldsTable := by
  by_cases valid : ValidTable st.mem userTable
  · have bounds := userSize_bounds valid
    unfold sizeofGammaTbl at bounds
    rw [setGammaTable_valid traps valid]
    dsimp only
    -- A block was refused, or granted, or is there already.
    by_cases larger : st.gamma.allocSize < userSize st.mem userTable
    · by_cases got : (st.requestBlock traps (userSize st.mem userTable)).1 = 0
      · rw [allocate_fails larger got]
        exact ⟨_, rfl, fun block => absurd (disposed_empty traps st) block⟩
      · rw [allocate_grants larger got]
        apply reload_holds
        intro _
        have bytes : ∀ i < 12, installBytes (st.requestBlock traps (userSize st.mem userTable)).2
            (st.requestBlock traps (userSize st.mem userTable)).1 userTable
            (userSize st.mem userTable)
            ((st.requestBlock traps (userSize st.mem userTable)).1 + BitVec.ofNat 32 i) =
              userByte st.mem userTable i := by
          intro i inside
          rw [installBytes_byte valid (Nat.lt_trans inside bounds.1)]
          unfold userByte
          split
          · rfl
          next user => exact kept user valid larger i inside
        have header := installed_header valid bytes
        exact ⟨header.1, header.2.le⟩
    · rw [allocate_fits (Nat.not_lt.mp larger)]
      apply reload_holds
      intro _
      have header := installed_header (m := installBytes st.mem st.gamma.table userTable
        (userSize st.mem userTable)) valid fun i inside =>
          installBytes_byte valid (Nat.lt_trans inside bounds.1)
      exact ⟨header.1, header.2.trans_le (Nat.not_lt.mp larger)⟩
  · exact ⟨st, setGammaTable_invalid traps valid, holds⟩

/-! ### Entries of the palette -/

theorem specIndex_lt (mem : Memory 32) (spec : BitVec 32) : specIndex mem spec < 256 := by
  unfold specIndex
  rw [BitVec.toNat_and]
  exact Nat.and_lt_two_pow _ (by decide : (0xff : BitVec 16).toNat < 2 ^ 8)

/-- The entries a loop goes through are entries of the palette. -/
def EntriesInside (start : Option Nat) (left i : Nat) : Prop :=
  ∀ first, start = some first → first + i + left ≤ 256

variable {start : Option Nat}

theorem entryIndex_lt (mem : Memory 32) {left i : Nat} (room : EntriesInside start (left + 1) i)
    (spec : BitVec 32) : entryIndex mem start i spec < 256 := by
  cases start with
  | none => exact specIndex_lt mem spec
  | some first =>
    have bound := room first rfl
    change first + i < 256
    omega

theorem EntriesInside.next {left i : Nat} (room : EntriesInside start (left + 1) i) :
    EntriesInside start left (i + 1) := by
  intro first same
  have bound := room first same
  omega

theorem entriesInside_of_checked {start number : Nat}
    (range : ¬ (start ≠ 0xffff ∧ start + number > 255)) :
    EntriesInside (if start = 0xffff then none else some start) (number + 1) 0 := by
  intro first same
  split at same
  · cases same
  · cases same
    omega

theorem setEntriesLoop_inside {tables : Option GammaTables} (inside : st.TablesInside tables)
    {left i : Nat} (room : EntriesInside start left i) (spec : BitVec 32) (palette : Palette) :
    ∃ p, st.setEntriesLoop tables start left i spec palette = some p := by
  induction left generalizing i spec palette with
  | zero => exact ⟨palette, rfl⟩
  | succ left ih =>
    obtain ⟨c, converted⟩ : ∃ c, st.convertColour tables spec = some c := correct_inside inside _
    obtain ⟨q, stored⟩ := setEntry_inside palette (entryIndex_lt st.mem room spec) c
    obtain ⟨p, rest⟩ := ih room.next (spec + 8) q
    refine ⟨p, ?_⟩
    rw [setEntriesLoop, converted]
    simp only [Option.bind_eq_bind, Option.bind_some]
    rw [stored]
    exact rest

/-- The call reads and writes inside, and leaves Mac memory and the block alone. -/
theorem setEntries_inside (holds : st.HoldsTable) (direct : Bool) (param : BitVec 32) :
    ∃ err after, st.setEntries direct param = some (err, after) ∧
      after.mem = st.mem ∧ after.gamma = st.gamma := by
  unfold setEntries
  split
  · exact ⟨_, _, rfl, rfl, rfl⟩
  · dsimp only
    split
    · exact ⟨_, _, rfl, rfl, rfl⟩
    next count =>
      obtain ⟨tables, found, inside⟩ := findTables_inside holds
      rw [found]
      simp only [Option.bind_eq_bind, Option.bind_some]
      split
      · exact ⟨_, _, rfl, rfl, rfl⟩
      next range =>
        generalize (getWord st.mem (param + csStart)).toNat = start at *
        generalize (getWord st.mem (param + csCount)).toNat = number at *
        have room := entriesInside_of_checked range
        obtain ⟨p, stored⟩ := setEntriesLoop_inside inside room (getLong st.mem (param + csTable))
          st.palette
        rw [stored]
        exact ⟨_, _, rfl, rfl, rfl⟩

theorem putColour_apart (mem : Memory 32) (spec : BitVec 32) (c : Colour) {x : BitVec 32}
    (apart : ∀ k, 2 ≤ k → k < 8 → x ≠ spec + BitVec.ofNat 32 k) : putColour mem spec c x = mem x := by
  have at2 := apart 2 (by decide) (by decide)
  have at3 := apart 3 (by decide) (by decide)
  have at4 := apart 4 (by decide) (by decide)
  have at5 := apart 5 (by decide) (by decide)
  have at6 := apart 6 (by decide) (by decide)
  have at7 := apart 7 (by decide) (by decide)
  simp [putColour, putWord, put, BitVec.add_assoc, at2, at3, at4, at5, at6, at7]

theorem getEntriesLoop_inside (palette : Palette) {left i : Nat} (room : EntriesInside start left i)
    (spec : BitVec 32) (mem : Memory 32) :
    ∃ m, getEntriesLoop palette start left i spec mem = some m ∧
      ∀ x, (∀ n < left, ∀ k, 2 ≤ k → k < 8 → x ≠ spec + BitVec.ofNat 32 (8 * n + k)) →
        m x = mem x := by
  induction left generalizing i spec mem with
  | zero => exact ⟨mem, rfl, fun _ _ => rfl⟩
  | succ left ih =>
    have index := entryIndex_lt mem room spec
    obtain ⟨m, rest, same⟩ := ih room.next (spec + 8) (putColour mem spec (palette ⟨_, index⟩))
    refine ⟨m, ?_, fun x apart => ?_⟩
    · rw [getEntriesLoop, Palette.entry, dif_pos index]
      exact rest
    · -- `x` is apart from the later colours, which start eight bytes further, and from the first.
      have later : m x = putColour mem spec (palette ⟨_, index⟩) x := by
        apply same
        intro n below k low high
        have further := apart (n + 1) (by omega) k low high
        rwa [show 8 * (n + 1) + k = 8 + (8 * n + k) by omega, BitVec.ofNat_add,
          ← BitVec.add_assoc] at further
      rw [later]
      refine putColour_apart mem spec _ fun k low high => ?_
      have first := apart 0 (by omega) k low high
      rwa [Nat.mul_zero, Nat.zero_add] at first

theorem getEntries_inside {param : BitVec 32} (apart : EntriesApart param st) :
    ∃ err after, st.getEntries param = some (err, after) ∧ after.gamma = st.gamma ∧
      HeaderKept st after.mem := by
  have unchanged : HeaderKept st st.mem := fun _ _ _ => rfl
  unfold EntriesApart at apart
  unfold getEntries
  dsimp only
  split
  · exact ⟨_, _, rfl, rfl, unchanged⟩
  next count =>
    split
    · exact ⟨_, _, rfl, rfl, unchanged⟩
    next range =>
      generalize (getWord st.mem (param + csStart)).toNat = start at *
      generalize (getWord st.mem (param + csCount)).toNat = number at *
      have room := entriesInside_of_checked range
      obtain ⟨m, stored, same⟩ := getEntriesLoop_inside st.palette room
        (getLong st.mem (param + csTable)) st.mem
      rw [stored]
      refine ⟨_, _, rfl, rfl, fun block j inside => same _ fun n below k low high => ?_⟩
      exact apart block n (by omega) k low high j inside

/-! ### Runs -/

theorem grayPage_inside (holds : st.HoldsTable) {fill : Memory 32 → Memory 32}
    (kept : HeaderKept st (fill st.mem)) :
    ∃ after, st.grayPage fill = some after ∧ after.HoldsTable := by
  have filled : HoldsTable { st with mem := fill st.mem } := holds.frame rfl kept
  unfold grayPage
  dsimp only
  split
  · obtain ⟨palette, shown, loaded⟩ := loadRampPalette_inside filled
    exact ⟨_, loaded, filled⟩
  · exact ⟨_, rfl, filled⟩

/-- An allowed call accesses nothing outside, and leaves a table in the block that fits. -/
theorem videoCall_inside (holds : st.HoldsTable) {call : VideoCall} (allowed : Allowed st call) :
    ∃ after, st.videoCall call = some after ∧ after.HoldsTable := by
  cases call with
  | setGamma traps param =>
    obtain ⟨after, set, holds⟩ := setGammaTable_inside traps _ holds allowed
    exact ⟨after, by simp [videoCall, setGamma, set], holds⟩
  | setEntries direct param =>
    obtain ⟨err, after, set, mem, gamma⟩ := setEntries_inside holds direct param
    exact ⟨after, by simp [videoCall, set], holds.frame gamma fun _ _ _ => by rw [mem]⟩
  | getEntries param =>
    obtain ⟨err, after, read, gamma, kept⟩ := getEntries_inside allowed
    exact ⟨after, by simp [videoCall, read], holds.frame gamma kept⟩
  | setGray enable => exact ⟨_, rfl, holds⟩
  | grayPage fill => exact grayPage_inside holds allowed
  | switchMode depth effect => exact ⟨_, rfl, holds.frame rfl allowed⟩
  | other effect => exact ⟨_, rfl, holds.frame rfl allowed⟩

theorem driverOpen_inside (traps : GammaTraps) (st : PaletteState) :
    ∃ opened, st.driverOpen traps = some opened ∧ opened.HoldsTable := by
  have holds : HoldsTable { st with gamma := noBlock, luminanceMapping := false } :=
    fun block => absurd rfl block
  obtain ⟨after, set, afterHolds⟩ :=
    setGammaTable_inside traps 0 holds fun user => absurd rfl user
  refine ⟨after.setGrayPalette, ?_, afterHolds⟩
  rw [driverOpen, set]
  rfl

/-- In every state that allowed calls reach, every allowed call stays inside. -/
theorem gamma_accesses_inside (traps : GammaTraps) (st opened u : PaletteState)
    (calls : List VideoCall) (call : VideoCall) (start : st.driverOpen traps = some opened)
    (run : Run videoCall Allowed opened calls u) (allowed : Allowed u call) :
    (u.videoCall call).isSome = true := by
  obtain ⟨first, same, firstHolds⟩ := driverOpen_inside traps st
  cases same.symm.trans start
  have holds : u.HoldsTable := by
    refine run.invariant (P := HoldsTable) (fun s call t holds allowed taken => ?_) firstHolds
    obtain ⟨after, result, afterHolds⟩ := videoCall_inside holds allowed
    cases result.symm.trans taken
    exact afterHolds
  obtain ⟨after, result, _⟩ := videoCall_inside holds allowed
  rw [result]
  rfl

/-! ### A table inside the old block -/

/-- The Mac OS gives a block and clears it, and writes to no other memory. -/
def clears (block : BitVec 32) : GammaTraps where
  disposePtr := fun _ mem => mem
  newPtrSysClear := fun size mem =>
    (block, fun x => if (x - block).toNat < size.toNat then 0 else mem x)

/-- The calls made as the driver is used: the Mac writes to no byte of the block, and the traps
write to the block they return only. -/
def GuestApart (st : PaletteState) : VideoCall → Prop
  | .setGamma traps _ => ∃ block, traps = clears block
  | .setEntries _ _ | .getEntries _ | .setGray _ => True
  | .grayPage effect | .switchMode _ effect | .other effect =>
    SameBytes st.mem (effect st.mem) st.gamma.table st.gamma.allocSize

/-- At 0x100 a parameter block of `SetGamma` with the table at 0x200, at 0x110 one with the table
in the driver's block, at 0x120 one of `SetEntries`. The formula data of the table at 0x200 is the
header of a table with 256 entries. -/
def nestedMemory : Memory 32 := fun x =>
  if x = 0x102 then 0x02
  else if x = 0x111 then 0x02 else if x = 0x113 then 0x0c
  else if x = 0x122 then 0x03
  else if x = 0x205 then 0x0c else if x = 0x207 then 1 else if x = 0x209 then 1
  else if x = 0x211 then 0x04 else if x = 0x213 then 1
  else if x = 0x214 then 1 else if x = 0x217 then 8
  else 0

def nestedStart : PaletteState where
  mem := nestedMemory
  gamma := noBlock
  depth := .depth8bit
  luminanceMapping := false
  palette := grayPalette
  shown := (grayPalette, 256)

def nestedOpened : PaletteState := (nestedStart.driverOpen (clears 0x20000)).getD nestedStart

def nestedFirst : VideoCall := .setGamma (clears 0x20000) 0x100

/-- The larger block ends eight bytes into the header that it was asked for. -/
def nestedSecond : VideoCall := .setGamma (clears 0x1ff04) 0x110

def nestedOnce : PaletteState := (nestedOpened.videoCall nestedFirst).getD nestedStart

def nestedTwice : PaletteState := (nestedOnce.videoCall nestedSecond).getD nestedStart

theorem getD_of_isSome {α : Type} {result : Option α} (some : result.isSome = true) (d : α) :
    result = .some (result.getD d) := by
  cases result with
  | none => cases some
  | some value => rfl

theorem nested_opened : nestedStart.driverOpen (clears 0x20000) = some nestedOpened :=
  getD_of_isSome (by decide +kernel) _

theorem nested_first : nestedOpened.videoCall nestedFirst = some nestedOnce :=
  getD_of_isSome (by decide +kernel) _

theorem table_in_old_block :
    ¬ ∀ (block : BitVec 32) (st opened u : PaletteState) (calls : List VideoCall)
      (call : VideoCall), st.driverOpen (clears block) = some opened →
      Run videoCall GuestApart opened calls u → GuestApart u call →
      (u.videoCall call).isSome = true := by
  intro all
  have inside := all 0x20000 nestedStart nestedOpened nestedTwice [nestedFirst, nestedSecond]
    (.setEntries false 0x120) nested_opened
    (.next ⟨_, rfl⟩ nested_first
      (.next ⟨_, rfl⟩ (getD_of_isSome (by decide +kernel) _) (.done _)))
    trivial
  have outside : (nestedTwice.videoCall (.setEntries false 0x120)).isSome = false := by
    decide +kernel
  rw [inside] at outside
  cases outside

/-- A user's table that fits is set, and an entry of the palette is corrected with it. -/
theorem entries_after_gamma : (nestedOnce.videoCall (.setEntries false 0x120)).isSome = true := by
  refine gamma_accesses_inside (clears 0x20000) nestedStart nestedOpened nestedOnce [nestedFirst]
    (.setEntries false 0x120) nested_opened (.next ?_ nested_first (.done _)) trivial
  intro _ _ larger
  exact absurd larger (by decide +kernel)

end PaletteState

end BasiliskII.Video
