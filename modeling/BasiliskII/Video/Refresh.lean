import BasiliskII.Video.Gamma
import Mathlib.Algebra.GroupWithZero.Nat

/-!
# Drawing the frame buffer of a direct mode

`set_palette`, `refresh15` and `refresh24` of video_psp.cpp. The tables for a depth have what each
byte of a pixel adds to its colour on the screen. At 16 bit the green of a pixel stands
in both bytes, and is drawn right where the ramp has the greens of the two parts as bits apart.
-/
namespace BasiliskII.Video

structure Cluts where
  clut256 : BitVec 8 → BitVec 32
  clut0_15 : BitVec 8 → BitVec 32
  clut1_15 : BitVec 8 → BitVec 32
  clut0_24 : BitVec 8 → BitVec 32
  clut1_24 : BitVec 8 → BitVec 32
  clut2_24 : BitVec 8 → BitVec 32

/-- An entry of `pal`. -/
def Palette.at (pal : Palette) (i : BitVec 8) : Colour := pal ⟨i.toNat, i.isLt⟩

def opaqueBlack : BitVec 32 := 0xff#32 <<< 24

/-- A colour of the screen. -/
def Colour.word (c : Colour) : BitVec 32 :=
  opaqueBlack ||| c.blue.setWidth 32 <<< 16 ||| c.green.setWidth 32 <<< 8 ||| c.red.setWidth 32

def Cluts.set15 (c : Cluts) : Cluts :=
  { c with
    -- xrrr rrgg
    clut0_15 := fun i =>
      opaqueBlack ||| (c.clut256 ((i &&& 3) <<< 3) &&& 0x0000ff00) |||
        (c.clut256 ((i &&& 0x7c) >>> 2) &&& 0x000000ff)
    -- gggb bbbb
    clut1_15 := fun i =>
      opaqueBlack ||| (c.clut256 (i &&& 0x1f) &&& 0x00ff0000) |||
        (c.clut256 ((i &&& 0xe0) >>> 5) &&& 0x0000ff00) }

def Cluts.set24 (c : Cluts) : Cluts :=
  { c with
    clut0_24 := fun i => opaqueBlack ||| (c.clut256 i &&& 0x000000ff)
    clut1_24 := fun i => opaqueBlack ||| (c.clut256 i &&& 0x0000ff00)
    clut2_24 := fun i => opaqueBlack ||| (c.clut256 i &&& 0x00ff0000) }

/-- `PSP_monitor_desc::set_palette` with `psp_screen_d`. -/
def Cluts.setPalette (depth : VideoDepth) (pal : Palette) (c : Cluts) : Cluts :=
  let c := { c with clut256 := fun i => (pal.at i).word }
  let c := if depth = .depth16bit then c.set15 else c
  if depth = .depth32bit then c.set24 else c

/-- The loops of the refresh functions; what is drawn for column `i` of line `j` is given. -/
def refresh (pixel : Nat → Nat → BitVec 32) (psp_screen_x psp_screen_y : Nat)
    (screen_data : Nat → BitVec 32) : Nat → BitVec 32 :=
  (List.range psp_screen_y).foldl (fun screen_data j =>
    (List.range psp_screen_x).foldl (fun screen_data i =>
      Function.update screen_data (i + 768 * j) (pixel i j)) screen_data) screen_data

def Cluts.refresh15 (c : Cluts) (the_buffer : Nat → BitVec 8) :
    Nat → Nat → (Nat → BitVec 32) → Nat → BitVec 32 :=
  refresh fun i j =>
    c.clut0_15 (the_buffer (i * 2 + 768 * j * 2)) |||
      c.clut1_15 (the_buffer (i * 2 + 1 + 768 * j * 2))

def Cluts.refresh24 (c : Cluts) (the_buffer : Nat → BitVec 8) :
    Nat → Nat → (Nat → BitVec 32) → Nat → BitVec 32 :=
  refresh fun i j =>
    c.clut0_24 (the_buffer (i * 4 + 1 + 768 * j * 4)) |||
      c.clut1_24 (the_buffer (i * 4 + 2 + 768 * j * 4)) |||
      c.clut2_24 (the_buffer (i * 4 + 3 + 768 * j * 4))

/-! ### The loops -/

/-- Every place that is written has its pixel, where pixels of one place are the same. -/
theorem foldl_update (value : Nat → BitVec 32) (places : List Nat) (screen : Nat → BitVec 32)
    {k : Nat} (done : k ∈ places ∨ screen k = value k) :
    places.foldl (fun screen k => Function.update screen k (value k)) screen k = value k := by
  induction places generalizing screen with
  | nil => exact done.resolve_left List.not_mem_nil
  | cons place places ih =>
    rw [List.foldl_cons]
    apply ih
    by_cases here : k = place
    · subst here
      exact .inr (Function.update_self ..)
    · obtain later | old := done
      · exact .inl ((List.mem_cons.mp later).resolve_left here)
      · exact .inr ((Function.update_of_ne here ..).trans old)

theorem refresh_pixel {pixel : Nat → Nat → BitVec 32} (value : Nat → BitVec 32)
    (same : ∀ i j, pixel i j = value (i + 768 * j)) {x y i j : Nat} (column : i < x) (line : j < y)
    (screen : Nat → BitVec 32) : refresh pixel x y screen (i + 768 * j) = pixel i j := by
  have places : refresh pixel x y screen =
      ((List.range y).flatMap fun j => (List.range x).map fun i => i + 768 * j).foldl
        (fun screen k => Function.update screen k (value k)) screen := by
    simp only [refresh, List.foldl_flatMap, List.foldl_map, same]
  rw [places, same]
  refine foldl_update value _ screen (.inl ?_)
  exact List.mem_flatMap.mpr ⟨j, List.mem_range.mpr line,
    List.mem_map.mpr ⟨i, List.mem_range.mpr column, rfl⟩⟩

/-! ### Words of the screen -/

/-- A word by its bytes. -/
def bytes (a b g r : BitVec 8) : BitVec 32 := a ++ (b ++ (g ++ r))

theorem bytes_or (a b g r a' b' g' r' : BitVec 8) :
    bytes a b g r ||| bytes a' b' g' r' = bytes (a ||| a') (b ||| b') (g ||| g') (r ||| r') := by
  have low : g ++ r ||| g' ++ r' = (g ||| g') ++ (r ||| r') := BitVec.or_append
  have middle : b ++ (g ++ r) ||| b' ++ (g' ++ r') = (b ||| b') ++ (g ++ r ||| g' ++ r') :=
    BitVec.or_append
  calc bytes a b g r ||| bytes a' b' g' r'
      = (a ||| a') ++ (b ++ (g ++ r) ||| b' ++ (g' ++ r')) := BitVec.or_append
    _ = bytes (a ||| a') (b ||| b') (g ||| g') (r ||| r') := by rw [middle, low]; rfl

theorem bytes_and (a b g r a' b' g' r' : BitVec 8) :
    bytes a b g r &&& bytes a' b' g' r' = bytes (a &&& a') (b &&& b') (g &&& g') (r &&& r') := by
  have low : g ++ r &&& g' ++ r' = (g &&& g') ++ (r &&& r') := BitVec.and_append
  have middle : b ++ (g ++ r) &&& b' ++ (g' ++ r') = (b &&& b') ++ (g ++ r &&& g' ++ r') :=
    BitVec.and_append
  calc bytes a b g r &&& bytes a' b' g' r'
      = (a &&& a') ++ (b ++ (g ++ r) &&& b' ++ (g' ++ r')) := BitVec.and_append
    _ = bytes (a &&& a') (b &&& b') (g &&& g') (r &&& r') := by rw [middle, low]; rfl

theorem bytes_green (a b g r : BitVec 8) : (bytes a b g r).extractLsb' 8 8 = g := by
  apply BitVec.eq_of_getLsbD_eq
  intro i inside
  simp only [bytes, BitVec.getLsbD_extractLsb', BitVec.getLsbD_append]
  grind

theorem byte_shift_8 (x : BitVec 8) : x.setWidth 32 <<< 8 = bytes 0 0 x 0 := by
  apply BitVec.eq_of_getLsbD_eq
  intro i inside
  simp only [bytes, BitVec.getLsbD_shiftLeft, BitVec.getLsbD_setWidth, BitVec.getLsbD_append,
    BitVec.ofNat_eq_ofNat, BitVec.getLsbD_zero]
  grind

theorem byte_shift_16 (x : BitVec 8) : x.setWidth 32 <<< 16 = bytes 0 x 0 0 := by
  apply BitVec.eq_of_getLsbD_eq
  intro i inside
  simp only [bytes, BitVec.getLsbD_shiftLeft, BitVec.getLsbD_setWidth, BitVec.getLsbD_append,
    BitVec.ofNat_eq_ofNat, BitVec.getLsbD_zero]
  grind

theorem byte_low (x : BitVec 8) : x.setWidth 32 = bytes 0 0 0 x := by
  apply BitVec.eq_of_getLsbD_eq
  intro i inside
  simp only [bytes, BitVec.getLsbD_setWidth, BitVec.getLsbD_append, BitVec.ofNat_eq_ofNat,
    BitVec.getLsbD_zero]
  grind

theorem opaqueBlack_eq : opaqueBlack = bytes 0xff 0 0 0 := rfl

theorem Colour.word_eq (c : Colour) : c.word = bytes 0xff c.blue c.green c.red := by
  rw [Colour.word, opaqueBlack_eq, byte_shift_16, byte_shift_8, byte_low, bytes_or, bytes_or,
    bytes_or]
  simp only [BitVec.or_zero, BitVec.zero_or, BitVec.ofNat_eq_ofNat]

theorem masked_channels (c : Colour) (b g r : BitVec 8) :
    c.word &&& bytes 0 b g r = bytes 0 (c.blue &&& b) (c.green &&& g) (c.red &&& r) := by
  rw [Colour.word_eq, bytes_and]
  rfl

/-! ### 16 bit -/

/-- Entry 0 to 31 of a ramp, for a channel of a pixel. -/
def Palette.ramp (pal : Palette) (v : BitVec 5) : Colour := pal.at (v.setWidth 8)

/-- The colour of a pixel that is stored as `xrrr rrgg gggb bbbb`. -/
def Palette.colour15 (pal : Palette) (hi lo : BitVec 8) : Colour where
  red := (pal.ramp ((hi ++ lo).extractLsb' 10 5)).red
  green := (pal.ramp ((hi ++ lo).extractLsb' 5 5)).green
  blue := (pal.ramp ((hi ++ lo).extractLsb' 0 5)).blue

/-- The greens of the ramp are put together from those of the bits in either byte. -/
def Palette.GreenSplits (pal : Palette) : Prop :=
  ∀ (h : BitVec 2) (l : BitVec 3),
    (pal.ramp (h ++ 0#3)).green ||| (pal.ramp (0#2 ++ l)).green = (pal.ramp (h ++ l)).green

theorem red_bits (hi lo : BitVec 8) :
    (hi ++ lo).extractLsb' 10 5 = hi.extractLsb' 2 5 := by
  apply BitVec.eq_of_getLsbD_eq
  intro i inside
  simp only [BitVec.getLsbD_extractLsb', BitVec.getLsbD_append]
  grind

theorem green_bits (hi lo : BitVec 8) :
    (hi ++ lo).extractLsb' 5 5 = hi.extractLsb' 0 2 ++ lo.extractLsb' 5 3 := by
  apply BitVec.eq_of_getLsbD_eq
  intro i inside
  simp only [BitVec.getLsbD_extractLsb', BitVec.getLsbD_append]
  grind

theorem blue_bits (hi lo : BitVec 8) : (hi ++ lo).extractLsb' 0 5 = lo.extractLsb' 0 5 := by
  apply BitVec.eq_of_getLsbD_eq
  intro i inside
  simp only [BitVec.getLsbD_extractLsb', BitVec.getLsbD_append]
  grind

theorem red_index : ∀ hi : BitVec 8, (hi &&& 0x7c) >>> 2 = (hi.extractLsb' 2 5).setWidth 8 := by
  decide

theorem green_high_index :
    ∀ hi : BitVec 8, (hi &&& 3) <<< 3 = (hi.extractLsb' 0 2 ++ 0#3).setWidth 8 := by
  decide

theorem green_low_index :
    ∀ lo : BitVec 8, (lo &&& 0xe0) >>> 5 = (0#2 ++ lo.extractLsb' 5 3).setWidth 8 := by
  decide

theorem blue_index : ∀ lo : BitVec 8, lo &&& 0x1f = (lo.extractLsb' 0 5).setWidth 8 := by
  decide

theorem and_byte (x : BitVec 8) : x &&& 255#8 = x := BitVec.and_allOnes

variable (pal : Palette) (c : Cluts)

theorem clut0_15_eq (hi : BitVec 8) : (c.setPalette .depth16bit pal).clut0_15 hi =
    bytes 0xff 0 (pal.ramp (hi.extractLsb' 0 2 ++ 0#3)).green (pal.ramp (hi.extractLsb' 2 5)).red := by
  -- Green, then red, are added to the black of the entry.
  have green := masked_channels (pal.ramp (hi.extractLsb' 0 2 ++ 0#3)) 0 0xff 0
  have red := masked_channels (pal.ramp (hi.extractLsb' 2 5)) 0 0 0xff
  calc (c.setPalette .depth16bit pal).clut0_15 hi
      = opaqueBlack ||| ((pal.at ((hi &&& 3) <<< 3)).word &&& bytes 0 0 0xff 0) |||
          ((pal.at ((hi &&& 0x7c) >>> 2)).word &&& bytes 0 0 0 0xff) := rfl
    _ = _ := by
      rw [green_high_index, red_index, ← Palette.ramp, ← Palette.ramp, green, red,
        opaqueBlack_eq, bytes_or, bytes_or]
      simp [and_byte]

theorem clut1_15_eq (lo : BitVec 8) : (c.setPalette .depth16bit pal).clut1_15 lo =
    bytes 0xff (pal.ramp (lo.extractLsb' 0 5)).blue (pal.ramp (0#2 ++ lo.extractLsb' 5 3)).green 0 := by
  have blue := masked_channels (pal.ramp (lo.extractLsb' 0 5)) 0xff 0 0
  have green := masked_channels (pal.ramp (0#2 ++ lo.extractLsb' 5 3)) 0 0xff 0
  calc (c.setPalette .depth16bit pal).clut1_15 lo
      = opaqueBlack ||| ((pal.at (lo &&& 0x1f)).word &&& bytes 0 0xff 0 0) |||
          ((pal.at ((lo &&& 0xe0) >>> 5)).word &&& bytes 0 0 0xff 0) := rfl
    _ = _ := by
      rw [blue_index, green_low_index, ← Palette.ramp, ← Palette.ramp, blue, green,
        opaqueBlack_eq, bytes_or, bytes_or]
      simp [and_byte]

/-- One pixel is right exactly when its green is. -/
theorem pixel15_right_iff (hi lo : BitVec 8) :
    (c.setPalette .depth16bit pal).clut0_15 hi ||| (c.setPalette .depth16bit pal).clut1_15 lo =
        (pal.colour15 hi lo).word ↔
      (pal.ramp (hi.extractLsb' 0 2 ++ 0#3)).green ||| (pal.ramp (0#2 ++ lo.extractLsb' 5 3)).green =
        (pal.ramp (hi.extractLsb' 0 2 ++ lo.extractLsb' 5 3)).green := by
  rw [clut0_15_eq, clut1_15_eq, bytes_or, Colour.word_eq]
  simp only [Palette.colour15, red_bits, green_bits, blue_bits, BitVec.or_self,
    BitVec.ofNat_eq_ofNat, BitVec.zero_or, BitVec.or_zero]
  constructor
  · intro same
    simpa only [bytes_green] using congrArg (BitVec.extractLsb' 8 8) same
  · intro green
    rw [green]

theorem refresh15_pixel (the_buffer : Nat → BitVec 8) {psp_screen_x psp_screen_y i j : Nat}
    (column : i < psp_screen_x) (line : j < psp_screen_y) (screen_data : Nat → BitVec 32) :
    c.refresh15 the_buffer psp_screen_x psp_screen_y screen_data (i + 768 * j) =
      c.clut0_15 (the_buffer (i * 2 + 768 * j * 2)) |||
        c.clut1_15 (the_buffer (i * 2 + 1 + 768 * j * 2)) := by
  refine refresh_pixel (fun k => c.clut0_15 (the_buffer (k * 2)) ||| c.clut1_15 (the_buffer (k * 2 + 1)))
    (fun i j => ?_) column line screen_data
  rw [Nat.add_mul, Nat.add_right_comm]

theorem refresh15_splits (splits : pal.GreenSplits) (the_buffer : Nat → BitVec 8)
    {psp_screen_x psp_screen_y i j : Nat} (column : i < psp_screen_x) (line : j < psp_screen_y)
    (screen_data : Nat → BitVec 32) :
    (c.setPalette .depth16bit pal).refresh15 the_buffer psp_screen_x psp_screen_y screen_data
        (i + 768 * j) =
      (pal.colour15 (the_buffer (i * 2 + 768 * j * 2)) (the_buffer (i * 2 + 1 + 768 * j * 2))).word := by
  rw [refresh15_pixel _ _ column line]
  exact (pixel15_right_iff pal c _ _).mpr (splits _ _)

/-- The screen shows the palette, whatever is in the frame buffer, exactly when the greens of the
ramp are put together from those of the two parts. -/
theorem refresh15_right_iff :
    (∀ (the_buffer : Nat → BitVec 8) (psp_screen_x psp_screen_y : Nat)
      (screen_data : Nat → BitVec 32) (i j : Nat), i < psp_screen_x → j < psp_screen_y →
      (c.setPalette .depth16bit pal).refresh15 the_buffer psp_screen_x psp_screen_y screen_data
          (i + 768 * j) =
        (pal.colour15 (the_buffer (i * 2 + 768 * j * 2)) (the_buffer (i * 2 + 1 + 768 * j * 2))).word) ↔
      pal.GreenSplits := by
  constructor
  · intro right h l
    -- A frame buffer of one pixel, with these bits of green.
    have pixel := right (fun k => if k = 0 then 0#6 ++ h else l ++ 0#5) 1 1 (fun _ => 0) 0 0
      Nat.one_pos Nat.one_pos
    rw [refresh15_pixel _ _ Nat.one_pos Nat.one_pos] at pixel
    have green := (pixel15_right_iff pal c (0#6 ++ h) (l ++ 0#5)).mp pixel
    rwa [BitVec.extractLsb'_append_eq_right, BitVec.extractLsb'_append_eq_left] at green
  · exact fun splits the_buffer x y screen i j column line =>
      refresh15_splits pal c splits the_buffer column line screen

/-! ### 32 bit -/

theorem refresh24_pixel (the_buffer : Nat → BitVec 8) {psp_screen_x psp_screen_y i j : Nat}
    (column : i < psp_screen_x) (line : j < psp_screen_y) (screen_data : Nat → BitVec 32) :
    c.refresh24 the_buffer psp_screen_x psp_screen_y screen_data (i + 768 * j) =
      c.clut0_24 (the_buffer (i * 4 + 1 + 768 * j * 4)) |||
        c.clut1_24 (the_buffer (i * 4 + 2 + 768 * j * 4)) |||
        c.clut2_24 (the_buffer (i * 4 + 3 + 768 * j * 4)) := by
  refine refresh_pixel (fun k => c.clut0_24 (the_buffer (k * 4 + 1)) |||
    c.clut1_24 (the_buffer (k * 4 + 2)) ||| c.clut2_24 (the_buffer (k * 4 + 3)))
    (fun i j => ?_) column line screen_data
  rw [Nat.add_mul, Nat.add_right_comm (i * 4) (768 * j * 4) 1,
    Nat.add_right_comm (i * 4) (768 * j * 4) 2, Nat.add_right_comm (i * 4) (768 * j * 4) 3]

theorem channel_word (x : Colour) (b g r : BitVec 8) :
    opaqueBlack ||| (x.word &&& bytes 0 b g r) =
      bytes 0xff (x.blue &&& b) (x.green &&& g) (x.red &&& r) := by
  rw [masked_channels, opaqueBlack_eq, bytes_or]
  simp

theorem pixel24_right (red green blue : BitVec 8) :
    (c.setPalette .depth32bit pal).clut0_24 red ||| (c.setPalette .depth32bit pal).clut1_24 green |||
        (c.setPalette .depth32bit pal).clut2_24 blue =
      (Colour.mk (pal.at red).red (pal.at green).green (pal.at blue).blue).word := by
  calc (c.setPalette .depth32bit pal).clut0_24 red ||| (c.setPalette .depth32bit pal).clut1_24 green |||
        (c.setPalette .depth32bit pal).clut2_24 blue
      = (opaqueBlack ||| ((pal.at red).word &&& bytes 0 0 0 0xff)) |||
          (opaqueBlack ||| ((pal.at green).word &&& bytes 0 0 0xff 0)) |||
          (opaqueBlack ||| ((pal.at blue).word &&& bytes 0 0xff 0 0)) := rfl
    _ = _ := by
      rw [channel_word, channel_word, channel_word, bytes_or, bytes_or, Colour.word_eq]
      simp [and_byte]

/-- The sibling for 32 bit shows every palette, as no channel is in two bytes. -/
theorem refresh24_right (the_buffer : Nat → BitVec 8) {psp_screen_x psp_screen_y i j : Nat}
    (column : i < psp_screen_x) (line : j < psp_screen_y) (screen_data : Nat → BitVec 32) :
    (c.setPalette .depth32bit pal).refresh24 the_buffer psp_screen_x psp_screen_y screen_data
        (i + 768 * j) =
      (Colour.mk (pal.at (the_buffer (i * 4 + 1 + 768 * j * 4))).red
        (pal.at (the_buffer (i * 4 + 2 + 768 * j * 4))).green
        (pal.at (the_buffer (i * 4 + 3 + 768 * j * 4))).blue).word := by
  rw [refresh24_pixel _ _ column line]
  exact pixel24_right pal c _ _ _

/-- A pixel of red 1, green 2 and blue 3. -/
theorem refresh24_right_pixel :
    (Cluts.setPalette .depth32bit
        (fun i => ⟨BitVec.ofFin i, BitVec.ofFin i, BitVec.ofFin i⟩)
        ⟨fun _ => 0, fun _ => 0, fun _ => 0, fun _ => 0, fun _ => 0, fun _ => 0⟩).refresh24
      (BitVec.ofNat 8) 1 1 (fun _ => 0) (0 + 768 * 0) = 0xff030201 :=
  (refresh24_right _ _ _ Nat.one_pos Nat.one_pos _).trans (by decide)

/-! ### Ramps -/

namespace PaletteState

def gray (v : BitVec 8) : Colour := ⟨v, v, v⟩

/-- Every entry the loop has come to is the gray of its place, corrected. -/
theorem rampLoop_entry {st : PaletteState} {tables : Option GammaTables} {num left i : Nat}
    {palette after : Palette} (loaded : st.rampLoop tables num left i palette = some after)
    (k : Fin 256) :
    (k.val < i → after k = palette k) ∧ (i ≤ k.val → k.val < i + left →
      st.correct tables (gray (BitVec.ofNat 8 (k.val * 256 / num))) = some (after k)) := by
  induction left generalizing i palette with
  | zero =>
    obtain rfl := Option.some.inj loaded
    exact ⟨fun _ => rfl, fun low high => absurd high (Nat.not_lt_of_le low)⟩
  | succ left ih =>
    obtain ⟨colour, corrected, loaded⟩ := Option.bind_eq_some_iff.mp loaded
    obtain ⟨stored, entry, loaded⟩ := Option.bind_eq_some_iff.mp loaded
    obtain ⟨before, behind⟩ := ih loaded
    unfold Palette.setEntry at entry
    split at entry
    next inside =>
      obtain rfl := Option.some.inj entry
      refine ⟨fun low => ?_, fun low high => ?_⟩
      · exact (before (Nat.lt_succ_of_lt low)).trans (if_neg (Nat.ne_of_lt low))
      · obtain here | above := Nat.eq_or_lt_of_le low
        · -- Later turns leave the entry as this one has set it.
          have set_here := (before (here ▸ Nat.lt_succ_self i)).trans (if_pos here.symm)
          rw [set_here, ← here]
          exact corrected
        · exact behind above (by omega)
    next outside => cases entry

/-- The ramp that is passed to `set_palette` in a 16-bit mode. -/
theorem loadRampPalette_entry {st st' : PaletteState} (sixteen : st.depth = .depth16bit)
    (loaded : st.loadRampPalette = some st') (v : BitVec 5) :
    ∃ tables, st.findTables = some tables ∧
      st.correct tables (gray (v.setWidth 8 * 8)) = some (st'.shown.1.ramp v) := by
  obtain ⟨tables, found, loaded⟩ := Option.bind_eq_some_iff.mp loaded
  obtain ⟨palette, ramp, loaded⟩ := Option.bind_eq_some_iff.mp loaded
  obtain rfl := Option.some.inj loaded
  refine ⟨tables, found, ?_⟩
  rw [if_pos sixteen] at ramp
  have small : v.toNat < 32 := v.isLt
  have index : (v.setWidth 8).toNat = v.toNat := by
    rw [BitVec.toNat_setWidth, Nat.mod_eq_of_lt (Nat.lt_trans small (by decide))]
  have inside : (v.setWidth 8).toNat < 0 + 32 := by omega
  have entry := (rampLoop_entry ramp ⟨(v.setWidth 8).toNat, (v.setWidth 8).isLt⟩).2 (Nat.zero_le _)
    inside
  have place : BitVec.ofNat 8 ((v.setWidth 8).toNat * 256 / 32) = v.setWidth 8 * 8 := by
    apply BitVec.eq_of_toNat_eq
    have eight : (8 : BitVec 8).toNat = 8 := rfl
    rw [BitVec.toNat_ofNat, BitVec.toNat_mul, eight]
    omega
  rw [← place]
  exact entry

theorem linear_ramp {st st' : PaletteState} (sixteen : st.depth = .depth16bit)
    (no_table : st.gamma.table = 0) (loaded : st.loadRampPalette = some st') (v : BitVec 5) :
    st'.shown.1.ramp v = gray (v.setWidth 8 * 8) := by
  obtain ⟨tables, found, corrected⟩ := loadRampPalette_entry sixteen loaded v
  rw [findTables, if_pos no_table] at found
  obtain rfl := Option.some.inj found
  exact (Option.some.inj corrected).symm

theorem linear_ramp_splits {st st' : PaletteState} (sixteen : st.depth = .depth16bit)
    (no_table : st.gamma.table = 0) (loaded : st.loadRampPalette = some st') :
    st'.shown.1.GreenSplits := by
  intro h l
  simp only [linear_ramp sixteen no_table loaded]
  revert h l
  decide

/-- A table that inverts, in the block at 0x1000. -/
def inverted : PaletteState where
  mem := fun a =>
    if a = 0x1007 then 1
    else if a = 0x100b then 8
    else if a < 0x100c then 0
    else 255 - (a - 0x100c).setWidth 8
  gamma := ⟨0x1000, 268, fun empty => absurd empty (by decide)⟩
  depth := .depth16bit
  luminanceMapping := false
  palette := grayPalette
  shown := (grayPalette, 256)

/-- With this table green 9 is drawn as the bits of green 8 or green 1. -/
theorem inverted_ramp_wrong : ¬∀ (st st' : PaletteState) (c : Cluts), st.depth = .depth16bit →
    st.loadRampPalette = some st' →
    ∀ (the_buffer : Nat → BitVec 8) (psp_screen_x psp_screen_y : Nat)
      (screen_data : Nat → BitVec 32) (i j : Nat), i < psp_screen_x → j < psp_screen_y →
      (c.setPalette .depth16bit st'.shown.1).refresh15 the_buffer psp_screen_x psp_screen_y
          screen_data (i + 768 * j) =
        (st'.shown.1.colour15 (the_buffer (i * 2 + 768 * j * 2))
          (the_buffer (i * 2 + 1 + 768 * j * 2))).word := by
  intro claim
  have greens : inverted.loadRampPalette.map (fun st' =>
      ((st'.shown.1.ramp 8).green, (st'.shown.1.ramp 1).green, (st'.shown.1.ramp 9).green)) =
      some (191, 247, 183) := by decide +kernel
  obtain ⟨st', loaded, greens⟩ := Option.map_eq_some_iff.mp greens
  let blank : BitVec 8 → BitVec 32 := fun _ => 0
  have splits := (refresh15_right_iff st'.shown.1 ⟨blank, blank, blank, blank, blank, blank⟩).mp
    (claim inverted st' _ rfl loaded) 1 1
  obtain ⟨eight, one_nine⟩ := Prod.mk.inj greens
  obtain ⟨one, nine⟩ := Prod.mk.inj one_nine
  have ors : (191 : BitVec 8) ||| 247 = 183 := by
    rw [← eight, ← one, ← nine]
    exact splits
  exact absurd ors (by decide)

/-- Without a gamma table every pixel has its channels on the screen. -/
theorem linear_ramp_shown {st st' : PaletteState} (sixteen : st.depth = .depth16bit)
    (no_table : st.gamma.table = 0) (loaded : st.loadRampPalette = some st') (c : Cluts)
    (the_buffer : Nat → BitVec 8) {psp_screen_x psp_screen_y i j : Nat} (column : i < psp_screen_x)
    (line : j < psp_screen_y) (screen_data : Nat → BitVec 32) :
    (c.setPalette .depth16bit st'.shown.1).refresh15 the_buffer psp_screen_x psp_screen_y
        screen_data (i + 768 * j) =
      let pixel := the_buffer (i * 2 + 768 * j * 2) ++ the_buffer (i * 2 + 1 + 768 * j * 2)
      (Colour.mk ((pixel.extractLsb' 10 5).setWidth 8 * 8)
        ((pixel.extractLsb' 5 5).setWidth 8 * 8) ((pixel.extractLsb' 0 5).setWidth 8 * 8)).word := by
  rw [refresh15_splits _ c (linear_ramp_splits sixteen no_table loaded) the_buffer column line]
  simp only [Palette.colour15, linear_ramp sixteen no_table loaded, gray]

theorem linear_ramp_shown_red :
    ∃ st', loadRampPalette { inverted with gamma := ⟨0, 0, fun _ => rfl⟩ } = some st' ∧
      (Cluts.setPalette .depth16bit st'.shown.1
          ⟨fun _ => 0, fun _ => 0, fun _ => 0, fun _ => 0, fun _ => 0, fun _ => 0⟩).refresh15
        (fun k => if k = 0 then 0x7c else 0) 1 1 (fun _ => 0) (0 + 768 * 0) = 0xff0000f8 := by
  have loads : (loadRampPalette { inverted with gamma := ⟨0, 0, fun _ => rfl⟩ }).isSome = true := by
    decide +kernel
  obtain ⟨st', loaded⟩ := Option.isSome_iff_exists.mp loads
  exact ⟨st', loaded,
    (linear_ramp_shown rfl rfl loaded _ _ Nat.one_pos Nat.one_pos _).trans (by decide)⟩

end PaletteState

end BasiliskII.Video
