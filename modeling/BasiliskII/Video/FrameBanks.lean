import BasiliskII.Library.ByteMemory

/-!
# Frame-buffer banks

The accessors of memory.cpp for the four frame-buffer layouts, on a
little-endian host, and the banks made of them. The host's memory is indexed by
host addresses; `FrameBaseDiff` leads there from a Mac address.
-/
namespace BasiliskII.Video

open ByteMemory

abbrev HostMemory := Memory 32

/-- `swap_words` on a little-endian host. -/
def swapWords (l : BitVec 32) : BitVec 32 := l >>> 16 ||| l <<< 16

section Accessors

variable (FrameBaseDiff : BitVec 32) (m : HostMemory) (addr : BitVec 32)

def frameDirectLget : BitVec 32 := getLong m (FrameBaseDiff + addr)

def frameDirectWget : BitVec 16 := getWord m (FrameBaseDiff + addr)

def frameDirectBget : BitVec 8 := m (FrameBaseDiff + addr)

def frameDirectLput (l : BitVec 32) : HostMemory := putLong m (FrameBaseDiff + addr) l

def frameDirectWput (w : BitVec 16) : HostMemory := putWord m (FrameBaseDiff + addr) w

def frameDirectBput (b : BitVec 8) : HostMemory := put m (FrameBaseDiff + addr) b

def frameHost555Lget : BitVec 32 := swapWords (getLongLE m (FrameBaseDiff + addr))

def frameHost555Wget : BitVec 16 := getWordLE m (FrameBaseDiff + addr)

def frameHost555Lput (l : BitVec 32) : HostMemory := putLongLE m (FrameBaseDiff + addr) (swapWords l)

def frameHost555Wput (w : BitVec 16) : HostMemory := putWordLE m (FrameBaseDiff + addr) w

def frameHost565Lget : BitVec 32 :=
  let l := getLongLE m (FrameBaseDiff + addr)
  -- Blue stays, red and green lose the lowest bit of green.
  let l := (l &&& 0x001f001f#32) ||| (l >>> 1 &&& 0x7fe07fe0#32)
  swapWords l

def frameHost565Wget : BitVec 16 :=
  let w := getWordLE m (FrameBaseDiff + addr)
  (w &&& 0x1f#16) ||| (w >>> 1 &&& 0x7fe0#16)

def frameHost565Lput (l : BitVec 32) : HostMemory :=
  let l := (l &&& 0x001f001f#32) ||| (l <<< 1 &&& 0xffc0ffc0#32)
  putLongLE m (FrameBaseDiff + addr) (swapWords l)

def frameHost565Wput (w : BitVec 16) : HostMemory :=
  putWordLE m (FrameBaseDiff + addr) ((w &&& 0x1f#16) ||| (w <<< 1 &&& 0xffc0#16))

def frameHost888Lget : BitVec 32 := getLongLE m (FrameBaseDiff + addr)

def frameHost888Lput (l : BitVec 32) : HostMemory := putLongLE m (FrameBaseDiff + addr) l

end Accessors

/-- `addrbank`, less the translation to host addresses. -/
structure AddrBank where
  lget : HostMemory → BitVec 32 → BitVec 32
  wget : HostMemory → BitVec 32 → BitVec 16
  bget : HostMemory → BitVec 32 → BitVec 8
  lput : HostMemory → BitVec 32 → BitVec 32 → HostMemory
  wput : HostMemory → BitVec 32 → BitVec 16 → HostMemory
  bput : HostMemory → BitVec 32 → BitVec 8 → HostMemory

/-- `MacFrameLayout`, where there is a frame buffer. -/
inductive FrameLayout
  | direct | host555 | host565 | host888
  deriving DecidableEq, Repr

section

variable (FrameBaseDiff : BitVec 32)

def frameDirectBank : AddrBank where
  lget := frameDirectLget FrameBaseDiff
  wget := frameDirectWget FrameBaseDiff
  bget := frameDirectBget FrameBaseDiff
  lput := frameDirectLput FrameBaseDiff
  wput := frameDirectWput FrameBaseDiff
  bput := frameDirectBput FrameBaseDiff

def frameHost555Bank : AddrBank where
  lget := frameHost555Lget FrameBaseDiff
  wget := frameHost555Wget FrameBaseDiff
  bget := frameDirectBget FrameBaseDiff
  lput := frameHost555Lput FrameBaseDiff
  wput := frameHost555Wput FrameBaseDiff
  bput := frameDirectBput FrameBaseDiff

def frameHost565Bank : AddrBank where
  lget := frameHost565Lget FrameBaseDiff
  wget := frameHost565Wget FrameBaseDiff
  bget := frameDirectBget FrameBaseDiff
  lput := frameHost565Lput FrameBaseDiff
  wput := frameHost565Wput FrameBaseDiff
  bput := frameDirectBput FrameBaseDiff

def frameHost888Bank : AddrBank where
  lget := frameHost888Lget FrameBaseDiff
  wget := frameDirectWget FrameBaseDiff
  bget := frameDirectBget FrameBaseDiff
  lput := frameHost888Lput FrameBaseDiff
  wput := frameDirectWput FrameBaseDiff
  bput := frameDirectBput FrameBaseDiff

/-- The bank `memory_init` maps. -/
def FrameLayout.bank : FrameLayout → AddrBank
  | .direct => frameDirectBank FrameBaseDiff
  | .host555 => frameHost555Bank FrameBaseDiff
  | .host565 => frameHost565Bank FrameBaseDiff
  | .host888 => frameHost888Bank FrameBaseDiff

end

/-- A write of the Mac to its frame buffer. -/
inductive FrameWrite
  | byte (addr : BitVec 32) (b : BitVec 8)
  | word (addr : BitVec 32) (w : BitVec 16)
  | long (addr : BitVec 32) (l : BitVec 32)

def FrameWrite.addr : FrameWrite → BitVec 32
  | .byte addr _ => addr
  | .word addr _ => addr
  | .long addr _ => addr

/-- The bytes a write covers. -/
def FrameWrite.length : FrameWrite → Nat
  | .byte .. => 1
  | .word .. => 2
  | .long .. => 4

def AddrBank.write (bank : AddrBank) (m : HostMemory) : FrameWrite → HostMemory
  | .byte addr b => bank.bput m addr b
  | .word addr w => bank.wput m addr w
  | .long addr l => bank.lput m addr l

def AddrBank.run (bank : AddrBank) (m : HostMemory) (writes : List FrameWrite) : HostMemory :=
  writes.foldl bank.write m

/-- The bits of a word the layout can hold. -/
def FrameLayout.pixelBits : FrameLayout → BitVec 16
  | .host565 => 0x7fff
  | _ => 0xffff

/-- The big-endian concatenation of two bytes, -/
def beWord (hi lo : BitVec 8) : BitVec 16 := hi ++ lo

/-- and of two words. -/
def beLong (hi lo : BitVec 16) : BitVec 32 := hi ++ lo

/-- A read of the width of a write, at its address, returns what it wrote. -/
def ReadsBack (layout : FrameLayout) (bank : AddrBank) (m : HostMemory) : FrameWrite → Prop
  | .byte addr b => bank.bget m addr = b
  | .word addr w => bank.wget m addr = w &&& layout.pixelBits
  | .long addr l => bank.lget m addr = l &&& beLong layout.pixelBits layout.pixelBits

/-- One view of the memory the writes have left: reads of all widths at `addr` agree, and each
write whose bytes no later write has touched reads back. -/
structure OneView (layout : FrameLayout) (bank : AddrBank) (m : HostMemory)
    (writes : List FrameWrite) (addr : BitVec 32) : Prop where
  words : bank.lget (bank.run m writes) addr =
    beLong (bank.wget (bank.run m writes) addr) (bank.wget (bank.run m writes) (addr + 2))
  bytes : bank.lget (bank.run m writes) addr =
    beLong (beWord (bank.bget (bank.run m writes) addr) (bank.bget (bank.run m writes) (addr + 1)))
      (beWord (bank.bget (bank.run m writes) (addr + 2)) (bank.bget (bank.run m writes) (addr + 3)))
  last : ∀ before write later, writes = before ++ write :: later →
    (∀ other ∈ later, Apart other.addr other.length write.addr write.length) →
    ReadsBack layout bank (bank.run m writes) write

/-- The bytes from a host address on for which the accessors of a layout agree. -/
def ViewsAgree (layout : FrameLayout) (m : HostMemory) (a : BitVec 32) : Prop :=
  match layout with
  | .direct => True
  -- Words are little-endian, but not bytes.
  | .host555 => m a = m (a + 1) ∧ m (a + 2) = m (a + 3)
  | .host565 =>
    (m a = 0 ∧ m (a + 1) = 0 ∨ m a = 0x5f ∧ m (a + 1) = 0xbf) ∧
      (m (a + 2) = 0 ∧ m (a + 3) = 0 ∨ m (a + 2) = 0x5f ∧ m (a + 3) = 0xbf)
  -- A long is little-endian, words and bytes are not.
  | .host888 => m a = m (a + 3) ∧ m (a + 1) = m (a + 2)

-- Words and pixels of a long.

theorem append_inj_iff {n k : Nat} (x x' : BitVec n) (y y' : BitVec k) :
    x ++ y = x' ++ y' ↔ x = x' ∧ y = y' := by
  constructor
  · intro same
    have high := congrArg (BitVec.extractLsb' k n) same
    have low := congrArg (BitVec.extractLsb' 0 k) same
    rw [BitVec.extractLsb'_append_eq_left, BitVec.extractLsb'_append_eq_left] at high
    rw [BitVec.extractLsb'_append_eq_right, BitVec.extractLsb'_append_eq_right] at low
    exact ⟨high, low⟩
  · rintro ⟨rfl, rfl⟩
    rfl

theorem beWord_inj (x x' y y' : BitVec 8) : beWord x y = beWord x' y' ↔ x = x' ∧ y = y' :=
  append_inj_iff x x' y y'

theorem beLong_inj (x x' y y' : BitVec 16) : beLong x y = beLong x' y' ↔ x = x' ∧ y = y' :=
  append_inj_iff x x' y y'

theorem getWord_bytes (m : HostMemory) (a : BitVec 32) : getWord m a = beWord (m a) (m (a + 1)) :=
  rfl

theorem getWordLE_bytes (m : HostMemory) (a : BitVec 32) :
    getWordLE m a = beWord (m (a + 1)) (m a) := rfl

theorem getLongLE_words (m : HostMemory) (a : BitVec 32) :
    getLongLE m a = beLong (getWordLE m (a + 2)) (getWordLE m a) := rfl

theorem swapWords_words (x y : BitVec 16) : swapWords (beLong x y) = beLong y x := by
  apply BitVec.eq_of_getLsbD_eq
  intro i inside
  simp only [swapWords, beLong, BitVec.getLsbD_or, BitVec.getLsbD_ushiftRight,
    BitVec.getLsbD_shiftLeft, BitVec.getLsbD_append]
  by_cases low : i < 16
  · simp [low]
  · simp [low, inside, show i - 16 < 16 by omega, BitVec.getLsbD_of_ge x i (by omega)]

/-- The conversion of a pixel of 565 in the host's memory to one of 555. -/
def pixel555 (w : BitVec 16) : BitVec 16 := (w &&& 0x1f#16) ||| (w >>> 1 &&& 0x7fe0#16)

theorem pixel555_getLsbD (w : BitVec 16) {i : Nat} (inside : i < 16) :
    (pixel555 w).getLsbD i =
      if i < 5 then w.getLsbD i else if i < 15 then w.getLsbD (i + 1) else false := by
  have low : ∀ i < 16, (0x1f#16).getLsbD i = decide (i < 5) := by decide
  have high : ∀ i < 16, (0x7fe0#16).getLsbD i = decide (5 ≤ i ∧ i < 15) := by decide
  simp only [pixel555, BitVec.getLsbD_or, BitVec.getLsbD_and, BitVec.getLsbD_ushiftRight,
    low i inside, high i inside, Nat.add_comm 1]
  split
  next blue => simp [blue, show ¬ 5 ≤ i by omega]
  next above =>
    split
    next green => simp [above, green, show 5 ≤ i by omega]
    next top => simp [above, top]

theorem pixels555 (x y : BitVec 16) :
    (beLong x y &&& 0x001f001f#32) ||| (beLong x y >>> 1 &&& 0x7fe07fe0#32) =
      beLong (pixel555 x) (pixel555 y) := by
  have low : ∀ i < 32, (0x001f001f#32).getLsbD i = decide (i % 16 < 5) := by decide
  have high : ∀ i < 32, (0x7fe07fe0#32).getLsbD i = decide (5 ≤ i % 16 ∧ i % 16 < 15) := by decide
  apply BitVec.eq_of_getLsbD_eq
  intro i inside
  simp only [beLong, BitVec.getLsbD_or, BitVec.getLsbD_and, BitVec.getLsbD_ushiftRight,
    low i inside, high i inside, BitVec.getLsbD_append, Nat.add_comm 1]
  by_cases first : i < 16
  · rw [if_pos first, if_pos first, pixel555_getLsbD y first, Nat.mod_eq_of_lt first]
    by_cases blue : i < 5
    · simp [blue, show ¬ 5 ≤ i by omega]
    · by_cases green : i < 15
      · simp [blue, green, show 5 ≤ i by omega, show i + 1 < 16 by omega]
      · simp [blue, green]
  · have place : i % 16 = i - 16 := by omega
    rw [if_neg first, if_neg first, pixel555_getLsbD x (by omega : i - 16 < 16), place]
    by_cases blue : i - 16 < 5
    · simp [blue, show ¬ 5 ≤ i - 16 by omega]
    · by_cases green : i - 16 < 15
      · simp [blue, green, show 5 ≤ i - 16 by omega, show ¬ i + 1 < 16 by omega,
          show i + 1 - 16 = i - 16 + 1 by omega]
      · simp [blue, green]

/-- Only two pixels are the same number to a host of 565 and, byte by byte, to the Mac. -/
theorem pixel555_bytes_iff (b0 b1 : BitVec 8) :
    pixel555 (beWord b1 b0) = beWord b0 b1 ↔ b0 = 0 ∧ b1 = 0 ∨ b0 = 0x5f ∧ b1 = 0xbf := by
  -- The high byte of the pixel is the other one shifted.
  have high : (pixel555 (beWord b1 b0)).extractLsb' 8 8 = b1 >>> 1 := by
    apply BitVec.eq_of_getLsbD_eq
    intro i inside
    rw [BitVec.getLsbD_extractLsb', pixel555_getLsbD _ (by omega : 8 + i < 16),
      BitVec.getLsbD_ushiftRight, if_neg (by omega : ¬ 8 + i < 5)]
    by_cases top : i < 7
    · rw [if_pos (by omega : 8 + i < 15), beWord, BitVec.getLsbD_append,
        if_neg (by omega : ¬ 8 + i + 1 < 8), show 8 + i + 1 - 8 = 1 + i by omega]
      simp [inside]
    · obtain rfl : i = 7 := by omega
      simp
  have alone : ∀ b : BitVec 8,
      pixel555 (beWord b (b >>> 1)) = beWord (b >>> 1) b ↔ b = 0 ∨ b = 0xbf := by
    decide
  constructor
  · intro same
    have shifted := congrArg (BitVec.extractLsb' 8 8) same
    rw [high, beWord, BitVec.extractLsb'_append_eq_left] at shifted
    rw [← shifted] at same
    obtain rfl | rfl := (alone b1).mp same
    · exact .inl ⟨shifted.symm, rfl⟩
    · exact .inr ⟨shifted.symm, rfl⟩
  · rintro (⟨rfl, rfl⟩ | ⟨rfl, rfl⟩) <;> decide

-- The reads of different widths.

section

variable (FrameBaseDiff : BitVec 32) (m : HostMemory) (addr : BitVec 32)

theorem frameHost565Lget_words :
    frameHost565Lget FrameBaseDiff m addr =
      beLong (frameHost565Wget FrameBaseDiff m addr)
        (frameHost565Wget FrameBaseDiff m (addr + 2)) := by
  simp only [frameHost565Lget, frameHost565Wget, getLongLE_words, pixels555, swapWords_words,
    ← BitVec.add_assoc]
  rfl

/-- Long and word reads agree in all layouts but 888, and byte reads where `ViewsAgree` says. -/
theorem FrameLayout.views_iff (layout : FrameLayout) :
    ((layout.bank FrameBaseDiff).lget m addr =
        beLong ((layout.bank FrameBaseDiff).wget m addr)
          ((layout.bank FrameBaseDiff).wget m (addr + 2)) ∧
      (layout.bank FrameBaseDiff).lget m addr =
        beLong
          (beWord ((layout.bank FrameBaseDiff).bget m addr)
            ((layout.bank FrameBaseDiff).bget m (addr + 1)))
          (beWord ((layout.bank FrameBaseDiff).bget m (addr + 2))
            ((layout.bank FrameBaseDiff).bget m (addr + 3)))) ↔
      ViewsAgree layout m (FrameBaseDiff + addr) := by
  have at1 : FrameBaseDiff + (addr + 1) = FrameBaseDiff + addr + 1 := (BitVec.add_assoc _ _ _).symm
  have at2 : FrameBaseDiff + (addr + 2) = FrameBaseDiff + addr + 2 := (BitVec.add_assoc _ _ _).symm
  have at3 : FrameBaseDiff + (addr + 3) = FrameBaseDiff + addr + 2 + 1 := by
    rw [BitVec.add_assoc, BitVec.add_assoc]
    rfl
  have last : FrameBaseDiff + addr + 3 = FrameBaseDiff + addr + 2 + 1 := by
    rw [BitVec.add_assoc (FrameBaseDiff + addr)]
    rfl
  cases layout with
  | direct =>
    simp only [FrameLayout.bank, frameDirectBank, frameDirectLget, frameDirectWget, frameDirectBget,
      ViewsAgree, at1, at2, at3]
    exact iff_of_true ⟨rfl, rfl⟩ trivial
  | host555 =>
    simp only [FrameLayout.bank, frameHost555Bank, frameHost555Lget, frameHost555Wget,
      frameDirectBget, ViewsAgree, at1, at2, at3, last, getLongLE_words, swapWords_words,
      getWordLE_bytes, beLong_inj, beWord_inj, true_and]
    constructor
    · rintro ⟨⟨first, -⟩, second, -⟩
      exact ⟨first.symm, second.symm⟩
    · rintro ⟨first, second⟩
      exact ⟨⟨first.symm, first⟩, second.symm, second⟩
  | host565 =>
    have words := frameHost565Lget_words FrameBaseDiff m addr
    simp only [FrameLayout.bank, frameHost565Bank, words, true_and]
    simp only [frameHost565Wget, frameDirectBget, ViewsAgree, at1, at2, at3, last,
      getWordLE_bytes, beLong_inj]
    exact and_congr (pixel555_bytes_iff _ _) (pixel555_bytes_iff _ _)
  | host888 =>
    simp only [FrameLayout.bank, frameHost888Bank, frameHost888Lget, frameDirectWget,
      frameDirectBget, ViewsAgree, at1, at2, at3, last, getLongLE_words, getWordLE_bytes,
      getWord_bytes, beLong_inj, beWord_inj, and_self]
    constructor
    · rintro ⟨⟨outer, inner⟩, -⟩
      exact ⟨outer.symm, inner.symm⟩
    · rintro ⟨outer, inner⟩
      exact ⟨⟨outer.symm, inner.symm⟩, inner, outer⟩

end

-- What a write leaves to be read.

theorem swapWords_swapWords (l : BitVec 32) : swapWords (swapWords l) = l := by
  have split : l = beLong (l.extractLsb' 16 16) (l.extractLsb' 0 16) := (extract_append_long l).symm
  rw [split, swapWords_words, swapWords_words]

/-- The conversion of a pixel of 555 to one of 565, the low bit of green unset. -/
def pixel565 (w : BitVec 16) : BitVec 16 := (w &&& 0x1f#16) ||| (w <<< 1 &&& 0xffc0#16)

theorem pixel565_getLsbD (w : BitVec 16) {i : Nat} (inside : i < 16) :
    (pixel565 w).getLsbD i =
      if i < 5 then w.getLsbD i else if i < 6 then false else w.getLsbD (i - 1) := by
  have low : ∀ i < 16, (0x1f#16).getLsbD i = decide (i < 5) := by decide
  have high : ∀ i < 16, (0xffc0#16).getLsbD i = decide (6 ≤ i) := by decide
  simp only [pixel565, BitVec.getLsbD_or, BitVec.getLsbD_and, BitVec.getLsbD_shiftLeft,
    low i inside, high i inside]
  split
  next blue => simp [blue, show ¬ 6 ≤ i by omega]
  next above =>
    split
    next green => simp [above, show ¬ 6 ≤ i by omega]
    next top => simp [above, inside, show 6 ≤ i by omega, show ¬ i < 1 by omega]

theorem pixel555_pixel565 (w : BitVec 16) : pixel555 (pixel565 w) = w &&& 0x7fff := by
  have kept : ∀ i < 16, (0x7fff : BitVec 16).getLsbD i = decide (i < 15) := by decide
  apply BitVec.eq_of_getLsbD_eq
  intro i inside
  rw [pixel555_getLsbD _ inside, BitVec.getLsbD_and, kept i inside]
  by_cases blue : i < 5
  · rw [if_pos blue, pixel565_getLsbD w inside, if_pos blue]
    simp [show i < 15 by omega]
  · rw [if_neg blue]
    by_cases green : i < 15
    · rw [if_pos green, pixel565_getLsbD w (by omega : i + 1 < 16), if_neg (by omega : ¬ i + 1 < 5),
        if_neg (by omega : ¬ i + 1 < 6)]
      simp [green]
    · simp [green]

theorem pixels565 (x y : BitVec 16) :
    (beLong x y &&& 0x001f001f#32) ||| (beLong x y <<< 1 &&& 0xffc0ffc0#32) =
      beLong (pixel565 x) (pixel565 y) := by
  have low : ∀ i < 32, (0x001f001f#32).getLsbD i = decide (i % 16 < 5) := by decide
  have high : ∀ i < 32, (0xffc0ffc0#32).getLsbD i = decide (6 ≤ i % 16) := by decide
  apply BitVec.eq_of_getLsbD_eq
  intro i inside
  simp only [beLong, BitVec.getLsbD_or, BitVec.getLsbD_and, BitVec.getLsbD_shiftLeft,
    low i inside, high i inside, BitVec.getLsbD_append]
  by_cases first : i < 16
  · rw [if_pos first, if_pos first, pixel565_getLsbD y first, Nat.mod_eq_of_lt first]
    by_cases blue : i < 5
    · simp [blue, show ¬ 6 ≤ i by omega]
    · by_cases green : i < 6
      · simp [blue, show ¬ 6 ≤ i by omega, green]
      · simp [blue, green, inside, show 6 ≤ i by omega, show ¬ i < 1 by omega,
          show i - 1 < 16 by omega]
  · have place : i % 16 = i - 16 := by omega
    rw [if_neg first, if_neg first, pixel565_getLsbD x (by omega : i - 16 < 16), place]
    by_cases blue : i - 16 < 5
    · simp [blue, show ¬ 6 ≤ i - 16 by omega]
    · by_cases green : i - 16 < 6
      · simp [blue, show ¬ 6 ≤ i - 16 by omega, green]
      · simp [blue, green, inside, show 6 ≤ i - 16 by omega, show ¬ i < 1 by omega,
          show ¬ i - 1 < 16 by omega, show i - 1 - 16 = i - 16 - 1 by omega]

theorem wide32 : 2 ≤ 32 := by decide

section

variable (FrameBaseDiff : BitVec 32) (layout : FrameLayout) (m : HostMemory)

theorem FrameLayout.write_readsBack (write : FrameWrite) :
    ReadsBack layout (layout.bank FrameBaseDiff) ((layout.bank FrameBaseDiff).write m write)
      write := by
  have wordBits (w : BitVec 16) : w &&& 0xffff = w := BitVec.and_allOnes
  have longBits (l : BitVec 32) : l &&& beLong 0xffff 0xffff = l := BitVec.and_allOnes
  cases write with
  | byte addr b =>
    have read : frameDirectBget FrameBaseDiff (frameDirectBput FrameBaseDiff m addr b) addr = b :=
      if_pos rfl
    cases layout <;> exact read
  | word addr w =>
    have read : frameDirectWget FrameBaseDiff (frameDirectWput FrameBaseDiff m addr w) addr =
        w &&& 0xffff := by
      rw [wordBits]
      exact getWord_putWord wide32 m _ w
    cases layout with
    | direct => exact read
    | host888 => exact read
    | host555 => exact (getWordLE_putWordLE wide32 m _ w).trans (wordBits w).symm
    | host565 =>
      calc pixel555 (getWordLE (putWordLE m (FrameBaseDiff + addr) (pixel565 w))
            (FrameBaseDiff + addr)) = pixel555 (pixel565 w) := by
              rw [getWordLE_putWordLE wide32]
        _ = w &&& 0x7fff := pixel555_pixel565 w
  | long addr l =>
    cases layout with
    | direct => exact (getLong_putLong wide32 m _ l).trans (longBits l).symm
    | host888 => exact (getLongLE_putLongLE wide32 m _ l).trans (longBits l).symm
    | host555 =>
      calc swapWords (getLongLE (putLongLE m (FrameBaseDiff + addr) (swapWords l))
            (FrameBaseDiff + addr)) = swapWords (swapWords l) := by
              rw [getLongLE_putLongLE wide32]
        _ = l := swapWords_swapWords l
        _ = l &&& beLong 0xffff 0xffff := (longBits l).symm
    | host565 =>
      -- Both pixels go through the conversion and back.
      obtain ⟨x, y, rfl⟩ : ∃ x y, l = beLong x y := ⟨_, _, (extract_append_long l).symm⟩
      have masked : beLong x y &&& beLong 0x7fff 0x7fff =
          beLong (x &&& 0x7fff) (y &&& 0x7fff) := BitVec.and_append
      simp only [ReadsBack, AddrBank.write, FrameLayout.bank, frameHost565Bank, frameHost565Lget,
        frameHost565Lput, FrameLayout.pixelBits, getLongLE_putLongLE wide32, pixels565,
        swapWords_words, pixels555, pixel555_pixel565]
      exact masked.symm

theorem FrameLayout.write_sameBytes (write : FrameWrite) {b : BitVec 32} {k : Nat}
    (apart : Apart (FrameBaseDiff + write.addr) write.length b k) :
    SameBytes m ((layout.bank FrameBaseDiff).write m write) b k := by
  cases write with
  | byte addr v => cases layout <;> exact put_sameBytes m v apart
  | word addr v =>
    cases layout with
    | direct => exact putWord_sameBytes m v apart
    | host888 => exact putWord_sameBytes m v apart
    | host555 => exact putWordLE_sameBytes m v apart
    | host565 => exact putWordLE_sameBytes m _ apart
  | long addr v =>
    cases layout with
    | direct => exact putLong_sameBytes m v apart
    | host888 => exact putLongLE_sameBytes m v apart
    | host555 => exact putLongLE_sameBytes m _ apart
    | host565 => exact putLongLE_sameBytes m _ apart

variable {m}

/-- Whether a write reads back depends on its own bytes only. -/
theorem FrameLayout.readsBack_congr {m' : HostMemory} {write : FrameWrite}
    (same : SameBytes m m' (FrameBaseDiff + write.addr) write.length)
    (before : ReadsBack layout (layout.bank FrameBaseDiff) m write) :
    ReadsBack layout (layout.bank FrameBaseDiff) m' write := by
  cases write with
  | byte addr v =>
    have read : frameDirectBget FrameBaseDiff m' addr = frameDirectBget FrameBaseDiff m addr := by
      have first := same 0 Nat.zero_lt_one
      rwa [BitVec.add_zero] at first
    cases layout <;> exact read.trans before
  | word addr v =>
    have big := getWord_congr same
    have little := getWordLE_congr same
    cases layout with
    | direct => exact big.trans before
    | host888 => exact big.trans before
    | host555 => exact little.trans before
    | host565 => exact (congrArg pixel555 little).trans before
  | long addr v =>
    have big := getLong_congr same
    have little := getLongLE_congr same
    cases layout with
    | direct => exact big.trans before
    | host888 => exact little.trans before
    | host555 => exact (congrArg swapWords little).trans before
    | host565 =>
      have read : frameHost565Lget FrameBaseDiff m' addr = frameHost565Lget FrameBaseDiff m addr := by
        have little : getLongLE m' (FrameBaseDiff + addr) = getLongLE m (FrameBaseDiff + addr) := little
        rw [frameHost565Lget, little, frameHost565Lget]
      exact read.trans before

theorem apart_translate {a b : BitVec 32} {n k : Nat} (apart : Apart a n b k) :
    Apart (FrameBaseDiff + a) n (FrameBaseDiff + b) k := by
  have offset : FrameBaseDiff + b - (FrameBaseDiff + a) = b - a := by grind
  rwa [Apart, offset]

/-- Writes apart from a write do not keep it from being read back. -/
theorem FrameLayout.run_readsBack {write : FrameWrite} (later : List FrameWrite)
    (apart : ∀ other ∈ later, Apart other.addr other.length write.addr write.length)
    (before : ReadsBack layout (layout.bank FrameBaseDiff) m write) :
    ReadsBack layout (layout.bank FrameBaseDiff) ((layout.bank FrameBaseDiff).run m later)
      write := by
  induction later generalizing m with
  | nil => exact before
  | cons other rest ih =>
    have same := layout.write_sameBytes FrameBaseDiff m other
      (apart_translate FrameBaseDiff (apart other List.mem_cons_self))
    exact ih (fun next among => apart next (List.mem_cons_of_mem other among))
      (layout.readsBack_congr FrameBaseDiff same before)

/-- The last write of each place reads back, whatever the layout and the writes. -/
theorem FrameLayout.last_write (m : HostMemory) (writes before later : List FrameWrite)
    (write : FrameWrite) (history : writes = before ++ write :: later)
    (apart : ∀ other ∈ later, Apart other.addr other.length write.addr write.length) :
    ReadsBack layout (layout.bank FrameBaseDiff) ((layout.bank FrameBaseDiff).run m writes)
      write := by
  subst history
  rw [AddrBank.run, List.foldl_append, List.foldl_cons]
  exact layout.run_readsBack FrameBaseDiff later apart (layout.write_readsBack FrameBaseDiff _ write)

end

/-- The Mac has one view of its frame buffer exactly where the layout swaps nothing that shows. -/
theorem frame_one_view_iff (layout : FrameLayout) (FrameBaseDiff : BitVec 32) (m : HostMemory)
    (writes : List FrameWrite) (addr : BitVec 32) :
    OneView layout (layout.bank FrameBaseDiff) m writes addr ↔
      ViewsAgree layout ((layout.bank FrameBaseDiff).run m writes) (FrameBaseDiff + addr) := by
  rw [← layout.views_iff FrameBaseDiff]
  constructor
  · intro view
    exact ⟨view.words, view.bytes⟩
  · rintro ⟨words, bytes⟩
    exact
      { words, bytes
        last := fun before write later => layout.last_write FrameBaseDiff m writes before later write }

/-- A word written to a 555 screen comes back byte by byte the other way round. -/
theorem frame_host555_word_swapped :
    ¬ ∀ (layout : FrameLayout) (FrameBaseDiff : BitVec 32) (m : HostMemory)
      (writes : List FrameWrite) (addr : BitVec 32),
      OneView layout (layout.bank FrameBaseDiff) m writes addr := by
  intro always
  have bytes := (always .host555 0 (fun _ => 0) [.word 0 0x1234] 0).bytes
  revert bytes
  decide

end BasiliskII.Video
