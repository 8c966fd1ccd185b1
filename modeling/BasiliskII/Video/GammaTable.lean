import BasiliskII.Video.Gamma
import Mathlib.Tactic.IntervalCases

/-!
# Gamma tables in Mac memory

What a gamma table that passes the checks of `set_gamma_table` is, how the bytes of a table get
into the block of the driver, and that a colour is corrected inside the block when the table in
it is valid.
-/
namespace BasiliskII.Video

open ByteMemory

/-! ### Bytes at offsets -/

theorem offset_inj {w : Nat} (a : BitVec w) {i j : Nat} (hi : i < 2 ^ w) (hj : j < 2 ^ w) :
    a + BitVec.ofNat w i = a + BitVec.ofNat w j ↔ i = j := by
  constructor
  · intro same
    have value := congrArg BitVec.toNat (BitVec.add_right_inj a |>.mp same)
    rwa [BitVec.toNat_ofNat, BitVec.toNat_ofNat, Nat.mod_eq_of_lt hi, Nat.mod_eq_of_lt hj] at value
  · rintro rfl
    rfl

theorem copyBytes_inside (mem : Memory 32) (dest src : BitVec 32) {n i : Nat} (inside : i < n)
    (small : n ≤ 2 ^ 32) :
    PaletteState.copyBytes mem dest src n (dest + BitVec.ofNat 32 i) =
      mem (src + BitVec.ofNat 32 i) := by
  have offset : dest + BitVec.ofNat 32 i - dest = BitVec.ofNat 32 i := by grind
  have value : (BitVec.ofNat 32 i).toNat = i := by
    rw [BitVec.toNat_ofNat, Nat.mod_eq_of_lt (by omega)]
  rw [PaletteState.copyBytes, offset, value, if_pos inside]

/-! ### The linear ramp -/

def rampHeader : List (BitVec 8) := [0, 0, 0, 0, 0, 0, 0, 1, 1, 0, 0, 8]

/-- The bytes of the table that is built where the user gives none. -/
def linearRamp (i : Nat) : BitVec 8 :=
  if i < gFormulaData then rampHeader.getD i 0 else BitVec.ofNat 8 (i - gFormulaData)

theorem ramp_loop (mem : Memory 32) (table : BitVec 32) {n i : Nat} (few : n ≤ 256)
    (small : i < 2 ^ 32) :
    (List.range n).foldl (fun mem i =>
        put mem (table + BitVec.ofNat 32 gFormulaData + BitVec.ofNat 32 i) (BitVec.ofNat 8 i)) mem
        (table + BitVec.ofNat 32 i) =
      if gFormulaData ≤ i ∧ i < gFormulaData + n then BitVec.ofNat 8 (i - gFormulaData)
      else mem (table + BitVec.ofNat 32 i) := by
  -- Each turn of the loop writes one byte behind those written before.
  induction n with
  | zero =>
    have none : ¬ (gFormulaData ≤ i ∧ i < gFormulaData + 0) := by omega
    rw [if_neg none]
    rfl
  | succ n ih =>
    rw [List.range_succ, List.foldl_append, List.foldl_cons, List.foldl_nil, put,
      BitVec.add_assoc, ofNat_add_ofNat, ih (by omega)]
    by_cases here : i = gFormulaData + n
    · subst here
      rw [if_pos rfl, if_pos (by omega), Nat.add_sub_cancel_left]
    · have different := mt (offset_inj table small
        (show gFormulaData + n < 2 ^ 32 by unfold gFormulaData; omega)).mp here
      rw [if_neg different]
      have same : (gFormulaData ≤ i ∧ i < gFormulaData + (n + 1)) ↔
          (gFormulaData ≤ i ∧ i < gFormulaData + n) := by omega
      simp only [same]

theorem putLinearRamp_byte (mem : Memory 32) (table : BitVec 32) {i : Nat} (inside : i < 268) :
    PaletteState.putLinearRamp mem table (table + BitVec.ofNat 32 i) = linearRamp i := by
  rw [PaletteState.putLinearRamp, ramp_loop _ table (Nat.le_refl 256) (by omega)]
  -- The loop wrote the body; the header is what stood there before it.
  by_cases body : gFormulaData ≤ i
  · rw [if_pos ⟨body, by unfold gFormulaData; omega⟩, linearRamp, if_neg (by omega)]
  · rw [if_neg (fun both => body both.1), linearRamp, if_pos (by omega)]
    have header : i < 12 := Nat.lt_of_not_le body
    interval_cases i <;>
      simp [putWord, put, BitVec.add_assoc, gVersion, gType, gFormulaSize, gChanCnt, gDataCnt,
        gDataWidth, rampHeader]

namespace PaletteState

/-! ### Valid tables -/

/-- What `set_gamma_table` checks in a header. -/
structure ValidHeader (mem : Memory 32) (table : BitVec 32) : Prop where
  version : headerWord mem table gVersion = 0
  type : headerWord mem table gType = 0
  channels : headerWord mem table gChanCnt = 1 ∨ headerWord mem table gChanCnt = 3
  width : headerWord mem table gDataWidth ≤ 8
  count : headerWord mem table gDataCnt = 1 <<< headerWord mem table gDataWidth

/-- Bytes of a table with its header. -/
def tableSize (mem : Memory 32) (table : BitVec 32) : Nat :=
  sizeofGammaTbl + headerWord mem table gFormulaSize +
    headerWord mem table gChanCnt * headerWord mem table gDataCnt

theorem headerWord_lt (mem : Memory 32) (table : BitVec 32) (ofs : Nat) :
    headerWord mem table ofs < 2 ^ 16 :=
  BitVec.isLt _

variable {mem : Memory 32}

theorem ValidHeader.count_le {table : BitVec 32} (valid : ValidHeader mem table) :
    0 < headerWord mem table gDataCnt ∧ headerWord mem table gDataCnt ≤ 256 := by
  rw [valid.count, Nat.one_shiftLeft]
  exact ⟨Nat.two_pow_pos _, Nat.pow_le_pow_right (by decide) valid.width⟩

theorem ValidHeader.size_bounds {table : BitVec 32} (valid : ValidHeader mem table) :
    sizeofGammaTbl < tableSize mem table ∧ tableSize mem table < 2 ^ 32 := by
  have formula := headerWord_lt mem table gFormulaSize
  obtain ⟨positive, few⟩ := valid.count_le
  unfold tableSize sizeofGammaTbl
  rcases valid.channels with one | three
  · rw [one]
    omega
  · rw [three]
    omega

theorem headerWord_congr {m m' : Memory 32} {a b : BitVec 32} {ofs : Nat}
    (same : ∀ i < 12, m' (b + BitVec.ofNat 32 i) = m (a + BitVec.ofNat 32 i))
    (inside : ofs + 1 < 12) : headerWord m' b ofs = headerWord m a ofs := by
  have next (c : BitVec 32) : c + BitVec.ofNat 32 ofs + 1 = c + BitVec.ofNat 32 (ofs + 1) := by
    rw [BitVec.add_assoc, BitVec.ofNat_add]
    rfl
  unfold headerWord getWord
  rw [next, next, same ofs (by omega), same (ofs + 1) inside]

section
variable {m m' : Memory 32} {a b : BitVec 32}
  (same : ∀ i < 12, m' (b + BitVec.ofNat 32 i) = m (a + BitVec.ofNat 32 i))
include same

/-- The checks see nothing but the twelve bytes of the header. -/
theorem ValidHeader.congr (valid : ValidHeader m a) : ValidHeader m' b where
  version := (headerWord_congr same (by decide)).trans valid.version
  type := (headerWord_congr same (by decide)).trans valid.type
  channels := by
    rw [headerWord_congr same (by decide)]
    exact valid.channels
  width := by
    rw [headerWord_congr same (by decide)]
    exact valid.width
  count := by
    rw [headerWord_congr same (by decide), headerWord_congr same (by decide)]
    exact valid.count

theorem tableSize_congr : tableSize m' b = tableSize m a := by
  unfold tableSize
  rw [headerWord_congr same (by decide), headerWord_congr same (by decide),
    headerWord_congr same (by decide)]

end

/-- The linear ramp in a memory of its own. -/
def rampMemory : Memory 32 := fun x => linearRamp x.toNat

theorem rampMemory_valid : ValidHeader rampMemory 0#32 := by
  constructor <;> decide +kernel

theorem rampMemory_size : tableSize rampMemory 0#32 = sizeofGammaTbl + 256 := by
  decide +kernel

/-- What the user's table is: the linear ramp where the pointer is null. -/
def userByte (mem : Memory 32) (userTable : BitVec 32) (i : Nat) : BitVec 8 :=
  if userTable = 0 then linearRamp i else mem (userTable + BitVec.ofNat 32 i)

def ValidTable (mem : Memory 32) (userTable : BitVec 32) : Prop :=
  userTable = 0 ∨ ValidHeader mem userTable

def userSize (mem : Memory 32) (userTable : BitVec 32) : Nat :=
  if userTable = 0 then sizeofGammaTbl + 256 else tableSize mem userTable

/-- The bytes of the user's table, stored at the start of the block. -/
def installBytes (mem : Memory 32) (table userTable : BitVec 32) (size : Nat) : Memory 32 :=
  if userTable = 0 then putLinearRamp mem table else copyBytes mem table userTable size

variable {userTable : BitVec 32}

theorem userSize_bounds (valid : ValidTable mem userTable) :
    sizeofGammaTbl < userSize mem userTable ∧ userSize mem userTable < 2 ^ 32 := by
  unfold userSize
  split
  · decide
  next user => exact (valid.resolve_left user).size_bounds

theorem installBytes_byte {m : Memory 32} {table : BitVec 32} (valid : ValidTable mem userTable)
    {i : Nat} (inside : i < userSize mem userTable) :
    installBytes m table userTable (userSize mem userTable) (table + BitVec.ofNat 32 i) =
      userByte m userTable i := by
  have bounds := userSize_bounds valid
  unfold installBytes userByte
  by_cases ramp : userTable = 0
  · rw [if_pos ramp, if_pos ramp]
    rw [userSize, if_pos ramp] at inside
    exact putLinearRamp_byte m table inside
  · rw [if_neg ramp, if_neg ramp]
    exact copyBytes_inside m table userTable inside (by omega)

/-- A table that stands in the block as the user's does is as valid and as long. -/
theorem installed_header {m : Memory 32} {table : BitVec 32} (valid : ValidTable mem userTable)
    (bytes : ∀ i < 12, m (table + BitVec.ofNat 32 i) = userByte mem userTable i) :
    ValidHeader m table ∧ tableSize m table = userSize mem userTable := by
  by_cases ramp : userTable = 0
  · have same : ∀ i < 12, m (table + BitVec.ofNat 32 i) = rampMemory (0#32 + BitVec.ofNat 32 i) := by
      intro i inside
      rw [bytes i inside, userByte, if_pos ramp, BitVec.zero_add, rampMemory, BitVec.toNat_ofNat,
        Nat.mod_eq_of_lt (by omega)]
    refine ⟨rampMemory_valid.congr same, ?_⟩
    rw [tableSize_congr same, rampMemory_size, userSize, if_pos ramp]
  · have same : ∀ i < 12, m (table + BitVec.ofNat 32 i) = mem (userTable + BitVec.ofNat 32 i) := by
      intro i inside
      rw [bytes i inside, userByte, if_neg ramp]
    refine ⟨(valid.resolve_left ramp).congr same, ?_⟩
    rw [tableSize_congr same, userSize, if_neg ramp]

/-! ### `set_gamma_table` by cases -/

theorem setGammaTable_invalid {st : PaletteState} (traps : GammaTraps)
    (invalid : ¬ ValidTable st.mem userTable) :
    st.setGammaTable traps userTable = some (true, st) := by
  -- Each check that fails returns the same; that all succeed would make the table valid.
  rw [setGammaTable, if_neg fun null => invalid (.inl null)]
  split
  · rfl
  next version =>
    split
    · rfl
    next type =>
      dsimp only
      split
      · rfl
      next channels =>
        split
        · rfl
        next width =>
          split
          · rfl
          next count =>
            refine absurd (.inr ?_) invalid
            exact ⟨by omega, by omega, by omega, by omega, by omega⟩

theorem setGammaTable_valid {st : PaletteState} (traps : GammaTraps)
    (valid : ValidTable st.mem userTable) :
    st.setGammaTable traps userTable =
      let size := userSize st.mem userTable
      let (ok, after) := st.allocateGammaTable traps size
      if !ok then some (true, after)
      else reloadPalette
        { after with mem := installBytes after.mem after.gamma.table userTable size } := by
  by_cases ramp : userTable = 0
  · simp only [setGammaTable, userSize, installBytes, if_pos ramp]
    rfl
  · have header := valid.resolve_left ramp
    have channels : ¬ (headerWord st.mem userTable gChanCnt ≠ 1 ∧
        headerWord st.mem userTable gChanCnt ≠ 3) := by
      have allowed := header.channels
      omega
    simp only [setGammaTable, userSize, installBytes, if_neg ramp, if_neg channels]
    rw [if_neg (not_not_intro header.version), if_neg (not_not_intro header.type),
      if_neg (Nat.not_lt.mpr header.width), if_neg (not_not_intro header.count)]
    rfl

section
variable {st : PaletteState} {traps : GammaTraps} {size : Nat}

theorem allocate_fits (fits : size ≤ st.gamma.allocSize) :
    st.allocateGammaTable traps size = (true, st) := by
  rw [allocateGammaTable, if_neg (Nat.not_lt.mpr fits)]

theorem allocate_fails (larger : st.gamma.allocSize < size)
    (fails : (st.requestBlock traps size).1 = 0) :
    st.allocateGammaTable traps size =
      (false, { st.disposeGammaTable traps with mem := (st.requestBlock traps size).2 }) := by
  rw [allocateGammaTable, if_pos larger]
  dsimp only
  rw [dif_pos fails]

theorem allocate_grants (larger : st.gamma.allocSize < size)
    (got : (st.requestBlock traps size).1 ≠ 0) :
    st.allocateGammaTable traps size =
      (true, { st.disposeGammaTable traps with
        mem := (st.requestBlock traps size).2
        gamma := ⟨(st.requestBlock traps size).1, size, fun none => absurd none got⟩ }) := by
  rw [allocateGammaTable, if_pos larger]
  dsimp only
  rw [dif_neg got]

end

/-! ### Correction inside the block -/

/-- There is no block, or a valid table that fits into it. -/
def HoldsTable (st : PaletteState) : Prop :=
  st.gamma.table ≠ 0 →
    ValidHeader st.mem st.gamma.table ∧ tableSize st.mem st.gamma.table ≤ st.gamma.allocSize

/-- A channel's table of the given width stands in the block. -/
def ChannelInside (st : PaletteState) (gamma dataWidth : Nat) : Prop :=
  gamma + 2 ^ dataWidth ≤ st.gamma.allocSize

theorem gammaValue_inside {st : PaletteState} {gamma dataWidth : Nat} (narrow : dataWidth ≤ 8)
    (inside : st.ChannelInside gamma dataWidth) (v : BitVec 8) :
    (st.gammaValue gamma dataWidth v).isSome = true := by
  -- The shift leaves as many bits as an index into the table has.
  have split : 2 ^ dataWidth * 2 ^ (8 - dataWidth) = 256 := by
    rw [← Nat.pow_add, show dataWidth + (8 - dataWidth) = 8 by omega]
  have below : v.toNat >>> (8 - dataWidth) < 2 ^ dataWidth := by
    rw [Nat.shiftRight_eq_div_pow, Nat.div_lt_iff_lt_mul (Nat.two_pow_pos _), split]
    exact v.isLt
  unfold ChannelInside at inside
  rw [gammaValue, if_pos narrow, blockByte, if_pos (by omega)]
  rfl

/-- The three channels, where there are tables, stand in the block. -/
def TablesInside (st : PaletteState) : Option GammaTables → Prop
  | none => True
  | some t => t.dataWidth ≤ 8 ∧ st.ChannelInside t.redGamma t.dataWidth ∧
      st.ChannelInside t.greenGamma t.dataWidth ∧ st.ChannelInside t.blueGamma t.dataWidth

theorem correct_inside {st : PaletteState} {tables : Option GammaTables}
    (inside : st.TablesInside tables) (c : Colour) : ∃ d, st.correct tables c = some d := by
  cases tables with
  | none => exact ⟨c, rfl⟩
  | some t =>
    obtain ⟨narrow, red, green, blue⟩ := inside
    obtain ⟨r, foundRed⟩ := Option.isSome_iff_exists.mp (gammaValue_inside narrow red c.red)
    obtain ⟨g, foundGreen⟩ := Option.isSome_iff_exists.mp (gammaValue_inside narrow green c.green)
    obtain ⟨b, foundBlue⟩ := Option.isSome_iff_exists.mp (gammaValue_inside narrow blue c.blue)
    exact ⟨⟨r, g, b⟩, by simp [correct, foundRed, foundGreen, foundBlue]⟩

theorem blockWord_inside {st : PaletteState} {ofs : Nat} (inside : ofs + 1 < st.gamma.allocSize) :
    st.blockWord ofs = some (getWord st.mem (st.gamma.table + BitVec.ofNat 32 ofs)) :=
  if_pos inside

/-- The tables of a valid gamma table are found, and stand in the block. -/
theorem findTables_inside {st : PaletteState} (holds : st.HoldsTable) :
    ∃ tables, st.findTables = some tables ∧ st.TablesInside tables := by
  unfold findTables
  split
  · exact ⟨none, rfl, trivial⟩
  next block =>
    obtain ⟨valid, fits⟩ := holds block
    have large : 12 < st.gamma.allocSize := Nat.lt_of_lt_of_le valid.size_bounds.1 fits
    rw [blockWord_inside (by unfold gFormulaSize; omega),
      blockWord_inside (by unfold gChanCnt; omega), blockWord_inside (by unfold gDataWidth; omega),
      blockWord_inside (by unfold gDataCnt; omega)]
    simp only [Option.bind_eq_bind, Option.bind_some]
    have width := valid.width
    have count := valid.count
    rw [Nat.one_shiftLeft] at count
    unfold tableSize sizeofGammaTbl at fits
    rw [count] at fits
    -- The channels stand one behind the other, or there is one for all of them.
    split
    next one =>
      have channels : headerWord st.mem st.gamma.table gChanCnt = 1 := congrArg BitVec.toNat one
      rw [channels] at fits
      refine ⟨_, rfl, width, ?_, ?_, ?_⟩ <;>
        · unfold ChannelInside gFormulaData
          simp only [headerWord] at *
          omega
    next several =>
      have channels : headerWord st.mem st.gamma.table gChanCnt = 3 := by
        refine valid.channels.resolve_left fun one => several ?_
        exact BitVec.eq_of_toNat_eq one
      rw [channels] at fits
      refine ⟨_, rfl, width, ?_, ?_, ?_⟩ <;>
        · unfold ChannelInside gFormulaData
          simp only [headerWord] at *
          omega

theorem setEntry_inside (p : Palette) {k : Nat} (inside : k < 256) (c : Colour) :
    ∃ q, p.setEntry k c = some q :=
  ⟨_, if_pos inside⟩

theorem rampLoop_inside {st : PaletteState} {tables : Option GammaTables}
    (inside : st.TablesInside tables) (num : Nat) {left i : Nat} (room : i + left ≤ 256)
    (palette : Palette) : ∃ p, st.rampLoop tables num left i palette = some p := by
  -- `i + left` stays the same from turn to turn.
  induction left generalizing i palette with
  | zero => exact ⟨palette, rfl⟩
  | succ left ih =>
    obtain ⟨c, corrected⟩ := correct_inside inside
      ⟨BitVec.ofNat 8 (i * 256 / num), BitVec.ofNat 8 (i * 256 / num), BitVec.ofNat 8 (i * 256 / num)⟩
    obtain ⟨q, stored⟩ := setEntry_inside palette (show i < 256 by omega) c
    obtain ⟨p, rest⟩ := ih (show i + 1 + left ≤ 256 by omega) q
    exact ⟨p, by simp [rampLoop, corrected, stored, rest]⟩

/-- The ramp is loaded inside the block and the palette, and changes nothing else. -/
theorem loadRampPalette_inside {st : PaletteState} (holds : st.HoldsTable) :
    ∃ palette shown, st.loadRampPalette = some { st with palette := palette, shown := shown } := by
  obtain ⟨tables, found, inside⟩ := findTables_inside holds
  have few : 0 + (if st.depth = .depth16bit then 32 else 256) ≤ 256 := by
    split <;> decide
  unfold loadRampPalette
  generalize (if st.depth = .depth16bit then 32 else 256) = num at *
  obtain ⟨p, loaded⟩ := rampLoop_inside inside num few st.palette
  exact ⟨p, (p, num), by simp [found, loaded]⟩

theorem reloadPalette_inside {st : PaletteState} (holds : st.HoldsTable) :
    ∃ palette shown,
      st.reloadPalette = some (true, { st with palette := palette, shown := shown }) := by
  unfold reloadPalette
  split
  · obtain ⟨palette, shown, loaded⟩ := loadRampPalette_inside holds
    exact ⟨palette, shown, by simp [loaded]⟩
  · exact ⟨st.palette, st.shown, rfl⟩

end PaletteState

end BasiliskII.Video
