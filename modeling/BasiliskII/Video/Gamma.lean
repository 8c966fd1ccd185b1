import BasiliskII.Library.ByteMemory
import BasiliskII.Video.Monitor
import Mathlib.Tactic.Common

/-!
# Palette and gamma table

The calls of the video driver (video.cpp) that work on the palette of a monitor and on its gamma
table. The table stands in a block of Mac memory that the driver gets from the Mac OS. An access
outside the palette or outside the block has no result.
-/
namespace BasiliskII.Video

open ByteMemory

def csTable : BitVec 32 := 0
def csStart : BitVec 32 := 4
def csCount : BitVec 32 := 6
def csGTable : BitVec 32 := 0

def gVersion : Nat := 0
def gType : Nat := 2
def gFormulaSize : Nat := 4
def gChanCnt : Nat := 6
def gDataCnt : Nat := 8
def gDataWidth : Nat := 10
def gFormulaData : Nat := 12
def sizeofGammaTbl : Nat := 12

def noErr : BitVec 16 := 0
def controlErr : BitVec 16 := -17
def paramErr : BitVec 16 := -50
def memFullErr : BitVec 16 := -108

/-- An error code that is returned as `bool`. -/
def asBool (err : BitVec 16) : Bool := err ≠ 0

def isDirectMode (depth : VideoDepth) : Bool :=
  depth = .depth16bit || depth = .depth32bit

def paletteSize : VideoDepth → Nat
  | .depth1bit => 2
  | .depth2bit => 4
  | .depth4bit => 16
  | .depth8bit => 256
  | .depth16bit => 32
  | .depth32bit => 256

/-! ### The driver's variables -/

structure Colour where
  red : BitVec 8
  green : BitVec 8
  blue : BitVec 8
  deriving DecidableEq, Repr

abbrev Palette := Fin 256 → Colour

def Palette.entry (p : Palette) (k : Nat) : Option Colour :=
  if inside : k < 256 then some (p ⟨k, inside⟩) else none

def Palette.setEntry (p : Palette) (k : Nat) (c : Colour) : Option Palette :=
  if k < 256 then some fun i => if i.val = k then c else p i else none

def grayPalette : Palette := fun _ => ⟨127, 127, 127⟩

/-- `gamma_table` and `alloc_gamma_table_size`. -/
structure GammaBlock where
  table : BitVec 32
  allocSize : Nat
  empty : table = 0 → allocSize = 0

def noBlock : GammaBlock := ⟨0, 0, fun _ => rfl⟩

structure PaletteState where
  mem : Memory 32
  gamma : GammaBlock
  /-- The depth of `current_mode`. -/
  depth : VideoDepth
  luminanceMapping : Bool
  palette : Palette
  /-- What `set_palette` was called with last. -/
  shown : Palette × Nat

/-- The Mac OS calls for blocks of memory. -/
structure GammaTraps where
  disposePtr : BitVec 32 → Memory 32 → Memory 32
  newPtrSysClear : BitVec 32 → Memory 32 → BitVec 32 × Memory 32

namespace PaletteState

/-- A byte of the gamma block. -/
def blockByte (st : PaletteState) (ofs : Nat) : Option (BitVec 8) :=
  if ofs < st.gamma.allocSize then some (st.mem (st.gamma.table + BitVec.ofNat 32 ofs)) else none

def blockWord (st : PaletteState) (ofs : Nat) : Option (BitVec 16) :=
  if ofs + 1 < st.gamma.allocSize then
    some (getWord st.mem (st.gamma.table + BitVec.ofNat 32 ofs))
  else none

/-! ### Gamma correction -/

/-- Where `red_gamma`, `green_gamma` and `blue_gamma` point to, from the start of the block. -/
structure GammaTables where
  redGamma : Nat
  greenGamma : Nat
  blueGamma : Nat
  dataWidth : Nat

/-- Find tables for gamma correction: no tables where there is no block. -/
def findTables (st : PaletteState) : Option (Option GammaTables) :=
  if st.gamma.table = 0 then some none
  else do
    let formulaSize ← st.blockWord gFormulaSize
    let redGamma := gFormulaData + formulaSize.toNat
    let chanCnt ← st.blockWord gChanCnt
    if chanCnt = 1 then
      let dataWidth ← st.blockWord gDataWidth
      some (some ⟨redGamma, redGamma, redGamma, dataWidth.toNat⟩)
    else
      -- Any other number of channels is taken for three.
      let ofs ← st.blockWord gDataCnt
      let dataWidth ← st.blockWord gDataWidth
      some (some ⟨redGamma, redGamma + ofs.toNat, redGamma + ofs.toNat + ofs.toNat,
        dataWidth.toNat⟩)

/-- `gamma[v >> (8 - data_width)]`; the shift is undefined for greater widths. -/
def gammaValue (st : PaletteState) (gamma dataWidth : Nat) (v : BitVec 8) : Option (BitVec 8) :=
  if dataWidth ≤ 8 then st.blockByte (gamma + v.toNat >>> (8 - dataWidth)) else none

def correct (st : PaletteState) (tables : Option GammaTables) (c : Colour) : Option Colour :=
  match tables with
  | none => some c
  | some t => do
    let red ← st.gammaValue t.redGamma t.dataWidth c.red
    let green ← st.gammaValue t.greenGamma t.dataWidth c.green
    let blue ← st.gammaValue t.blueGamma t.dataWidth c.blue
    some ⟨red, green, blue⟩

/-- The part of the black-to-white ramp from entry `i` on. -/
def rampLoop (st : PaletteState) (tables : Option GammaTables) (num : Nat) :
    Nat → Nat → Palette → Option Palette
  | 0, _, palette => some palette
  | left + 1, i, palette => do
    let v := BitVec.ofNat 8 (i * 256 / num)
    let c ← st.correct tables ⟨v, v, v⟩
    let palette ← palette.setEntry i c
    rampLoop st tables num left (i + 1) palette

/-- Load gamma-corrected black-to-white ramp to palette for direct-color mode. -/
def loadRampPalette (st : PaletteState) : Option PaletteState := do
  let tables ← st.findTables
  let num := if st.depth = .depth16bit then 32 else 256
  let palette ← st.rampLoop tables num num 0 st.palette
  some { st with palette := palette, shown := (palette, num) }

/-! ### Setting a gamma table -/

/-- A field in the header of a gamma table. -/
def headerWord (mem : Memory 32) (table : BitVec 32) (ofs : Nat) : Nat :=
  (getWord mem (table + BitVec.ofNat 32 ofs)).toNat

/-- `DisposePtr` of the old table, if there is one. -/
def disposeGammaTable (traps : GammaTraps) (st : PaletteState) : PaletteState :=
  if st.gamma.table = 0 then st
  else { st with mem := traps.disposePtr st.gamma.table st.mem, gamma := noBlock }

/-- What `NewPtrSysClear` gives after the old table was disposed of, and the memory then. -/
def requestBlock (traps : GammaTraps) (size : Nat) (st : PaletteState) : BitVec 32 × Memory 32 :=
  traps.newPtrSysClear (BitVec.ofNat 32 size) (st.disposeGammaTable traps).mem

/-- Allocate gamma table of specified size. -/
def allocateGammaTable (traps : GammaTraps) (size : Nat) (st : PaletteState) :
    Bool × PaletteState :=
  if size > st.gamma.allocSize then
    let (block, mem) := st.requestBlock traps size
    -- The old block is gone, also when there is no new one.
    let st := { st.disposeGammaTable traps with mem := mem }
    if got : block = 0 then (false, st)
    else (true, { st with gamma := ⟨block, size, fun none => absurd none got⟩ })
  else (true, st)

/-- Header of the linear ramp, and the ramp itself. -/
def putLinearRamp (mem : Memory 32) (table : BitVec 32) : Memory 32 :=
  let mem := putWord mem (table + BitVec.ofNat 32 gVersion) 0
  let mem := putWord mem (table + BitVec.ofNat 32 gType) 0
  let mem := putWord mem (table + BitVec.ofNat 32 gFormulaSize) 0
  let mem := putWord mem (table + BitVec.ofNat 32 gChanCnt) 1
  let mem := putWord mem (table + BitVec.ofNat 32 gDataCnt) 256
  let mem := putWord mem (table + BitVec.ofNat 32 gDataWidth) 8
  (List.range 256).foldl (fun mem i =>
    put mem (table + BitVec.ofNat 32 gFormulaData + BitVec.ofNat 32 i) (BitVec.ofNat 8 i)) mem

/-- `Mac2Mac_memcpy`. Areas that overlap, which C leaves open, are copied as by `memmove`. -/
def copyBytes (mem : Memory 32) (dest src : BitVec 32) (n : Nat) : Memory 32 :=
  fun x => if (x - dest).toNat < n then mem (src + (x - dest)) else mem x

/-- The end of `set_gamma_table`. -/
def reloadPalette (st : PaletteState) : Option (Bool × PaletteState) :=
  if isDirectMode st.depth then do
    let st ← st.loadRampPalette
    some (true, st)
  else some (true, st)

/-- Set gamma table (0 = build linear ramp). -/
def setGammaTable (traps : GammaTraps) (userTable : BitVec 32) (st : PaletteState) :
    Option (Bool × PaletteState) :=
  if userTable = 0 then
    let (ok, st) := st.allocateGammaTable traps (sizeofGammaTbl + 256)
    if !ok then some (asBool memFullErr, st)
    else reloadPalette { st with mem := putLinearRamp st.mem st.gamma.table }
  else if headerWord st.mem userTable gVersion ≠ 0 then some (asBool paramErr, st)
  else if headerWord st.mem userTable gType ≠ 0 then some (asBool paramErr, st)
  else
    let chanCnt := headerWord st.mem userTable gChanCnt
    if chanCnt ≠ 1 ∧ chanCnt ≠ 3 then some (asBool paramErr, st)
    else
      let dataWidth := headerWord st.mem userTable gDataWidth
      if dataWidth > 8 then some (asBool paramErr, st)
      else
        let dataCnt := headerWord st.mem userTable gDataCnt
        if dataCnt ≠ 1 <<< dataWidth then some (asBool paramErr, st)
        else
          let size := sizeofGammaTbl + headerWord st.mem userTable gFormulaSize + chanCnt * dataCnt
          let (ok, st) := st.allocateGammaTable traps size
          if !ok then some (asBool memFullErr, st)
          else reloadPalette { st with mem := copyBytes st.mem st.gamma.table userTable size }

/-- `cscSetGamma`. -/
def setGamma (traps : GammaTraps) (param : BitVec 32) (st : PaletteState) :
    Option (BitVec 16 × PaletteState) := do
  let (ok, st) ← st.setGammaTable traps (getLong st.mem (param + csGTable))
  -- The source takes every result but `false` for success.
  some (if ok then noErr else memFullErr, st)

/-! ### Palette entries -/

def luminance (c : Colour) : Colour :=
  let y := BitVec.ofNat 8
    ((c.red.toNat * 0x4ccc + c.green.toNat * 0x970a + c.blue.toNat * 0x1c29) >>> 16)
  ⟨y, y, y⟩

/-- The colour of a `ColorSpec`, as the palette is to have it. -/
def convertColour (st : PaletteState) (tables : Option GammaTables) (spec : BitVec 32) :
    Option Colour :=
  let c : Colour := ⟨(getWord st.mem (spec + 2)).extractLsb' 8 8,
    (getWord st.mem (spec + 4)).extractLsb' 8 8, (getWord st.mem (spec + 6)).extractLsb' 8 8⟩
  st.correct tables (if st.luminanceMapping && !isDirectMode st.depth then luminance c else c)

/-- The index in a `ColorSpec`. -/
def specIndex (mem : Memory 32) (spec : BitVec 32) : Nat := (getWord mem spec &&& 0xff).toNat

/-- The entry of the palette that is next; `start` is `none` where the entries are indexed. -/
def entryIndex (mem : Memory 32) (start : Option Nat) (i : Nat) (spec : BitVec 32) : Nat :=
  match start with
  | none => specIndex mem spec
  | some start => start + i

/-- The conversion loop. -/
def setEntriesLoop (st : PaletteState) (tables : Option GammaTables) (start : Option Nat) :
    Nat → Nat → BitVec 32 → Palette → Option Palette
  | 0, _, _, palette => some palette
  | left + 1, i, spec, palette => do
    let c ← st.convertColour tables spec
    let palette ← palette.setEntry (entryIndex st.mem start i spec) c
    setEntriesLoop st tables start left (i + 1) (spec + 8) palette

/-- `cscSetEntries` and `cscDirectSetEntries`. -/
def setEntries (direct : Bool) (param : BitVec 32) (st : PaletteState) :
    Option (BitVec 16 × PaletteState) :=
  if direct ≠ isDirectMode st.depth then some (controlErr, st)
  else
    let spec := getLong st.mem (param + csTable)
    let start := (getWord st.mem (param + csStart)).toNat
    let count := (getWord st.mem (param + csCount)).toNat
    if spec = 0 ∨ count > 255 then some (paramErr, st)
    else do
      let tables ← st.findTables
      -- A start of 0xffff stands for entries that have their own index.
      if start ≠ 0xffff ∧ start + count > 255 then some (paramErr, st)
      else
        let sequential := if start = 0xffff then none else some start
        let palette ← st.setEntriesLoop tables sequential (count + 1) 0 spec st.palette
        some (noErr, { st with palette := palette, shown := (palette, paletteSize st.depth) })

/-- The three channels of an entry, each twice in its word. -/
def putColour (mem : Memory 32) (spec : BitVec 32) (c : Colour) : Memory 32 :=
  let mem := putWord mem (spec + 2) (c.red ++ c.red)
  let mem := putWord mem (spec + 4) (c.green ++ c.green)
  putWord mem (spec + 6) (c.blue ++ c.blue)

def getEntriesLoop (palette : Palette) (start : Option Nat) :
    Nat → Nat → BitVec 32 → Memory 32 → Option (Memory 32)
  | 0, _, _, mem => some mem
  | left + 1, i, spec, mem => do
    let c ← palette.entry (entryIndex mem start i spec)
    getEntriesLoop palette start left (i + 1) (spec + 8) (putColour mem spec c)

/-- `cscGetEntries`. -/
def getEntries (param : BitVec 32) (st : PaletteState) : Option (BitVec 16 × PaletteState) :=
  let spec := getLong st.mem (param + csTable)
  let start := (getWord st.mem (param + csStart)).toNat
  let count := (getWord st.mem (param + csCount)).toNat
  if spec = 0 ∨ count > 255 then some (paramErr, st)
  else if start ≠ 0xffff ∧ start + count > 255 then some (paramErr, st)
  else do
    let sequential := if start = 0xffff then none else some start
    let mem ← getEntriesLoop st.palette sequential (count + 1) 0 spec st.mem
    some (noErr, { st with mem := mem })

/-! ### Modes -/

/-- `set_gray_palette`. -/
def setGrayPalette (st : PaletteState) : PaletteState :=
  { st with palette := grayPalette, shown := (grayPalette, 256) }

/-- The part of `switch_mode` that is about the palette; what the call does to Mac memory, with
the traps it makes, is given. -/
def switchMode (depth : VideoDepth) (effect : Memory 32 → Memory 32) (st : PaletteState) :
    PaletteState :=
  { st.setGrayPalette with depth := depth, mem := effect st.mem }

/-- `cscGrayPage` for page 0, which fills the frame buffer. -/
def grayPage (fill : Memory 32 → Memory 32) (st : PaletteState) : Option PaletteState :=
  let st := { st with mem := fill st.mem }
  if isDirectMode st.depth then st.loadRampPalette else some st

/-- The part of `driver_open` that is about the palette. -/
def driverOpen (traps : GammaTraps) (st : PaletteState) : Option PaletteState := do
  -- Whether there was memory for the ramp is not looked at.
  let (_, st) ← { st with gamma := noBlock, luminanceMapping := false }.setGammaTable traps 0
  some st.setGrayPalette

end PaletteState

end BasiliskII.Video
