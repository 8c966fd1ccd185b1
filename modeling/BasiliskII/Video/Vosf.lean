import BasiliskII.Library.SentinelScan
import BasiliskII.Video.Monitor
import BasiliskII.Library.StepSystem
import Mathlib.Algebra.Group.Nat.Defs

/-!
# Video on SEGV signals

The table of dirty pages of video_vosf.h: how it is set up, how a write to the
frame buffer marks a page, and the update of a window from it. Reading or
writing outside a table is a failure. Page counts and lengths are natural
numbers that the source keeps in a `uint32`, and the offsets of a blit integers
that it keeps in an `int`.
-/
namespace BasiliskII.Video

open SentinelScan

def pflagSetValue : BitVec 8 := 0
def pflagClearValue : BitVec 8 := 1

/-- `PFLAG_ISSET` of a byte of the table. -/
def pflagIsSet (flag : BitVec 8) : Bool := flag = pflagSetValue

/-- `PFLAG_ISCLEAR` of a byte of the table. -/
def pflagIsClear (flag : BitVec 8) : Bool := flag ≠ pflagSetValue

/-- The conversion to an `int`. -/
def int32 (n : Nat) : Int := (BitVec.ofNat 32 n).toInt

/-- The conversion to an `unsigned`. -/
def uint32 (n : Nat) : Nat := n % 2 ^ 32

structure ScreenPageInfo where
  top : Int
  bottom : Int

structure ScreenInfo where
  memStart : BitVec 64
  memLength : Nat
  pageSize : Nat
  pageBits : Nat
  pageCount : Nat
  dirty : Bool
  dirtyPages : List (BitVec 8)
  pageInfo : List ScreenPageInfo

/-- `memset` of the table from `first` up to `last`. -/
def setRange (table : List (BitVec 8)) (first last : Nat) (value : BitVec 8) :
    Option (List (BitVec 8)) :=
  if first ≤ last ∧ last ≤ table.length then
    some (table.take first ++ List.replicate (last - first) value ++ table.drop last)
  else none

def findNextPageSet (table : List (BitVec 8)) (page : Nat) : Option Nat :=
  scan pflagIsClear table page

def findNextPageClear (table : List (BitVec 8)) (page : Nat) : Option Nat :=
  scan pflagIsSet table page

/-- `log_base_2`, with the mask at bit `l - 1`. -/
def logBase2 (x : BitVec 32) : Nat → Int
  | 0 => -1
  | l + 1 => if x.getLsbD l then l else logBase2 x l

/-- What the drivers hand to `video_vosf_init`: `vm_acquire` gives whole pages, and the sizes are
computed as an `int` before the length is extended to a page. -/
structure Surface where
  theBuffer : BitVec 64
  theBufferSize : Nat
  pageBits : Nat
  mode : VideoMode
  aligned : theBuffer &&& (BitVec.ofNat 64 (2 ^ pageBits) - 1) = 0
  pageBits_lt : pageBits < 32
  size_le : theBufferSize ≤ 2 ^ 31
  rows : 0 < mode.y.toNat
  rows_lt : mode.y.toNat < 2 ^ 31
  bytes : 0 < mode.bytesPerRow.toNat
  bytes_lt : mode.bytesPerRow.toNat < 2 ^ 31

/-- `vm_get_page_size()` -/
def Surface.pageSize (g : Surface) : Nat := 2 ^ g.pageBits

/-- The scanline of the byte at an offset, or the last one. -/
def scanlineAt (mode : VideoMode) (offset : Nat) : Nat :=
  let y := uint32 (offset / mode.bytesPerRow.toNat)
  if y ≥ mode.y.toNat then mode.y.toNat - 1 else y

/-- The loop that fills in `pageInfo`, from offset `a` on. -/
def fillPageInfo (g : Surface) : Nat → Nat → List ScreenPageInfo
  | 0, _ => []
  | n + 1, a =>
    let info := ⟨int32 (scanlineAt g.mode a), int32 (scanlineAt g.mode (a + g.pageSize))⟩
    let a := uint32 (a + g.pageSize)
    info :: fillPageInfo g n (if a > g.theBufferSize then g.theBufferSize else a)

/-- `video_vosf_init`. `contents` is what `malloc` leaves in the table, `done` whether the
allocations and `vm_protect` succeed. -/
def videoVosfInit (g : Surface) (contents : Nat → BitVec 8) (done : Bool) : Option ScreenInfo := do
  let pageMask := BitVec.ofNat 64 g.pageSize - 1
  let pageCount := uint32 ((g.theBufferSize + (g.pageSize - 1)) / g.pageSize)
  let table := (List.range (pageCount + 2)).map contents
  let table ← setRange table 0 pageCount pflagClearValue
  let table ← setRange table pageCount (pageCount + 1) pflagClearValue
  let table ← setRange table (pageCount + 1) (pageCount + 2) pflagSetValue
  if done then
    some {
      memStart := (g.theBuffer + pageMask) &&& ~~~pageMask
      memLength := g.theBufferSize
      pageSize := g.pageSize
      pageBits := (logBase2 (BitVec.ofNat 32 g.pageSize) 32).toNat
      pageCount := pageCount
      dirty := false
      dirtyPages := table
      pageInfo := fillPageInfo g pageCount 0 }
  else none

/-- What happens besides the changes of `mainBuffer`; a `PFLAG_CLEAR_RANGE` is told as well. -/
inductive Effect
  | clearRange (first last : Nat)
  | vmProtect (addr : BitVec 64) (length : Nat) (writable : Bool)
  | screenBlit (dst src n : Int)
  | updateRect (y height : Int)

/-- `Screen_fault_handler`: whether the fault was one of the frame buffer. -/
def screenFaultHandler (b : ScreenInfo) (addr : BitVec 64) :
    Option (Bool × ScreenInfo × List Effect) :=
  if (addr - b.memStart).toNat < b.memLength then do
    let page := (addr - b.memStart).toNat >>> b.pageBits
    let flag ← b.dirtyPages[page]?
    if pflagIsClear flag then
      let table ← setRange b.dirtyPages page (page + 1) pflagSetValue
      some (true, { b with dirtyPages := table, dirty := true },
        [.vmProtect (addr &&& -BitVec.ofNat 64 b.pageSize) b.pageSize true])
    else some (true, { b with dirty := true }, [])
  else some (false, b, [])

/-- The loop that blits `n` scanlines. -/
def blitLoop (srcBytesPerRow dstBytesPerRow : Int) : Nat → Int → Int → List Effect
  | 0, _, _ => []
  | n + 1, i1, i2 =>
    .screenBlit i2 i1 srcBytesPerRow ::
      blitLoop srcBytesPerRow dstBytesPerRow n (i1 + srcBytesPerRow) (i2 + dstBytesPerRow)

/-- What is done about the dirty pages from `first` up to `page`. -/
def showPages (mode : VideoMode) (dstBytesPerRow : Nat) (b : ScreenInfo) (first page : Nat) :
    Option (List Effect) := do
  let y1 := (← b.pageInfo[first]?).top
  let y2 := (← b.pageInfo[page - 1]?).bottom
  -- Make the dirty pages read-only again
  let offset := int32 (first <<< b.pageBits)
  let length := uint32 ((page - first) <<< b.pageBits)
  let src := int32 mode.bytesPerRow.toNat
  some ([.clearRange first page, .vmProtect (b.memStart + BitVec.ofInt 64 offset) length false] ++
    blitLoop src dstBytesPerRow (y2 + 1 - y1).toNat (y1 * src) (y1 * dstBytesPerRow) ++
    [.updateRect y1 (y2 - y1 + 1)])

/-- The loop of `update_display_window_vosf`, with fuel. -/
def updateLoop (mode : VideoMode) (dstBytesPerRow : Nat) :
    Nat → ScreenInfo → Nat → Option (ScreenInfo × List Effect)
  | 0, _, _ => none
  | fuel + 1, b, page => do
    let first ← findNextPageSet b.dirtyPages page
    if first ≥ b.pageCount then some (b, [])
    else
      let page ← findNextPageClear b.dirtyPages first
      let table ← setRange b.dirtyPages first page pflagClearValue
      let effects ← showPages mode dstBytesPerRow b first page
      let (b, rest) ← updateLoop mode dstBytesPerRow fuel { b with dirtyPages := table } page
      some (b, effects ++ rest)

/-- `update_display_window_vosf`. There is at most one turn for each page, and the last one. -/
def updateDisplayWindowVosf (mode : VideoMode) (dstBytesPerRow : Nat) (b : ScreenInfo) :
    Option (ScreenInfo × List Effect) :=
  (updateLoop mode dstBytesPerRow (b.pageCount + 1) b 0).map fun (b, effects) =>
    ({ b with dirty := false }, effects)

inductive VosfAction
  | fault (addr : BitVec 64)
  | update (dstBytesPerRow : Nat)

def vosfStep (g : Surface) (b : ScreenInfo) : VosfAction → Option ScreenInfo
  | .fault addr => (screenFaultHandler b addr).map fun (_, b, _) => b
  | .update dstBytesPerRow =>
    (updateDisplayWindowVosf g.mode dstBytesPerRow b).map fun (b, _) => b

end BasiliskII.Video

/-!
## What an update of the window does

The table ends with a clear page and a set page, which stop the scans. Each run
of dirty pages is cleared, protected and shown in one turn of the loop.
-/
namespace BasiliskII.Video

open SentinelScan StepSystem

/-- The page is dirty. -/
def Dirty (table : List (BitVec 8)) (page : Nat) : Prop := table[page]? = some pflagSetValue

instance (table : List (BitVec 8)) (page : Nat) : Decidable (Dirty table page) :=
  inferInstanceAs (Decidable (_ = _))

/-- The number of pages the length takes up. -/
def Surface.pages (g : Surface) : Nat := (g.theBufferSize + (g.pageSize - 1)) / g.pageSize

theorem Surface.pageSize_pos (g : Surface) : 0 < g.pageSize := Nat.two_pow_pos _

theorem Surface.pageSize_le (g : Surface) : g.pageSize ≤ 2 ^ 31 :=
  Nat.pow_le_pow_right (by decide) (Nat.le_of_lt_succ g.pageBits_lt)

theorem Surface.pages_mul_lt (g : Surface) : g.pages * g.pageSize < 2 ^ 32 := by
  have covered := Nat.div_mul_le_self (g.theBufferSize + (g.pageSize - 1)) g.pageSize
  have size := g.size_le
  have page := g.pageSize_le
  have some_bytes := g.pageSize_pos
  unfold Surface.pages
  omega

theorem Surface.page_lt (g : Surface) {p : Nat} (inside : p < g.pages) :
    p * g.pageSize < g.theBufferSize := by
  have some_bytes := g.pageSize_pos
  have covered : (p + 1) * g.pageSize ≤ g.theBufferSize + (g.pageSize - 1) :=
    (Nat.le_div_iff_mul_le some_bytes).mp inside
  rw [Nat.add_mul, Nat.one_mul] at covered
  omega

/-- The scanline of the byte at an offset, clamped. -/
def clampedScanline (mode : VideoMode) (offset : Nat) : Nat :=
  min (offset / mode.bytesPerRow.toNat) (mode.y.toNat - 1)

theorem int32_of_lt {n : Nat} (small : n < 2 ^ 31) : int32 n = n := by
  have value : (BitVec.ofNat 32 n).toNat = n := by
    rw [BitVec.toNat_ofNat, Nat.mod_eq_of_lt (by omega)]
  rw [int32, BitVec.toInt_eq_toNat_cond, value, if_pos (by omega)]

theorem scanlineAt_eq (g : Surface) {offset : Nat} (inside : offset < 2 ^ 32) :
    int32 (scanlineAt g.mode offset) = clampedScanline g.mode offset := by
  have rows := g.rows
  have rows_lt := g.rows_lt
  have small : uint32 (offset / g.mode.bytesPerRow.toNat) = offset / g.mode.bytesPerRow.toNat :=
    Nat.mod_eq_of_lt (Nat.lt_of_le_of_lt (Nat.div_le_self _ _) inside)
  unfold scanlineAt clampedScanline
  dsimp only
  rw [small]
  split
  · rw [int32_of_lt (by omega), Nat.min_eq_right (by omega)]
  · rw [int32_of_lt (by omega), Nat.min_eq_left (by omega)]

theorem fillPageInfo_get (g : Surface) {n k i : Nat} (upto : k + n = g.pages) (inside : i < n) :
    (fillPageInfo g n (k * g.pageSize))[i]? =
      some ⟨clampedScanline g.mode ((k + i) * g.pageSize),
        clampedScanline g.mode ((k + i + 1) * g.pageSize)⟩ := by
  have fits : ∀ m, m ≤ g.pages → m * g.pageSize < 2 ^ 32 := fun m upto =>
    Nat.lt_of_le_of_lt (Nat.mul_le_mul_right _ upto) g.pages_mul_lt
  induction n generalizing k i with
  | zero => omega
  | succ n ih =>
    have after : k * g.pageSize + g.pageSize = (k + 1) * g.pageSize := by
      rw [Nat.add_mul, Nat.one_mul]
    rw [fillPageInfo, after]
    cases i with
    | zero =>
      rw [List.getElem?_cons_zero, scanlineAt_eq g (fits k (by omega)),
        scanlineAt_eq g (fits (k + 1) (by omega))]
      rfl
    | succ i =>
      -- The clamp of `a` is only reached behind the last page.
      have inside_buffer : (k + 1) * g.pageSize < g.theBufferSize := g.page_lt (by omega)
      have next : uint32 ((k + 1) * g.pageSize) = (k + 1) * g.pageSize :=
        Nat.mod_eq_of_lt (fits (k + 1) (by omega))
      have index : k + (i + 1) = k + 1 + i := by omega
      rw [List.getElem?_cons_succ, next, if_neg (by omega), ih (by omega) (by omega), index]

/-- The state of the frame buffer between updates. -/
structure VosfInvariant (g : Surface) (b : ScreenInfo) : Prop where
  memStart : b.memStart = g.theBuffer
  memLength : b.memLength = g.theBufferSize
  pageSize : b.pageSize = g.pageSize
  pageBits : b.pageBits = g.pageBits
  pageCount : b.pageCount = g.pages
  length : b.dirtyPages.length = g.pages + 2
  clearGuard : b.dirtyPages[g.pages]? = some pflagClearValue
  setGuard : b.dirtyPages[g.pages + 1]? = some pflagSetValue
  pageInfo : b.pageInfo = fillPageInfo g g.pages 0

theorem setRange_some {table : List (BitVec 8)} {first last : Nat} (value : BitVec 8)
    (ordered : first ≤ last) (inside : last ≤ table.length) :
    ∃ after, setRange table first last value = some after := ⟨_, if_pos ⟨ordered, inside⟩⟩

theorem setRange_get {table after : List (BitVec 8)} {first last : Nat} {value : BitVec 8}
    (set : setRange table first last value = some after) (i : Nat) :
    after[i]? = if first ≤ i ∧ i < last then some value else table[i]? := by
  unfold setRange at set
  split at set
  next inside =>
    cases set
    by_cases before : i < first
    · rw [List.append_assoc, List.getElem?_append_left (by simp; omega), if_neg (by omega)]
      simp [before]
    · by_cases here : i < last
      · rw [List.getElem?_append_left (by simp; omega), List.getElem?_append_right (by simp; omega),
          if_pos (by omega)]
        simp [List.getElem?_replicate]
        omega
      · rw [List.getElem?_append_right (by simp; omega), if_neg (by omega)]
        simp
        congr 1
        omega
  · cases set

theorem setRange_length {table after : List (BitVec 8)} {first last : Nat} {value : BitVec 8}
    (set : setRange table first last value = some after) : after.length = table.length := by
  unfold setRange at set
  split at set
  · cases set
    simp
    omega
  · cases set

theorem round_up {a mask : BitVec 64} (aligned : a &&& mask = 0) : (a + mask) &&& ~~~mask = a := by
  rw [BitVec.add_eq_or_of_and_eq_zero _ _ aligned]
  apply BitVec.eq_of_getLsbD_eq
  intro i inside
  have bit : (a &&& mask).getLsbD i = false := by rw [aligned]; simp
  rw [BitVec.getLsbD_and] at bit
  rw [BitVec.getLsbD_and, BitVec.getLsbD_or, BitVec.getLsbD_not, decide_eq_true inside]
  cases set : a.getLsbD i <;> cases masked : mask.getLsbD i <;> simp_all

theorem pageBits_eq (g : Surface) :
    (logBase2 (BitVec.ofNat 32 g.pageSize) 32).toNat = g.pageBits := by
  have all : ∀ k < 32, (logBase2 (BitVec.ofNat 32 (2 ^ k)) 32).toNat = k := by decide
  exact all g.pageBits g.pageBits_lt

variable {b : ScreenInfo}

theorem videoVosfInit_invariant {g : Surface} {contents : Nat → BitVec 8} {done : Bool}
    (ready : videoVosfInit g contents done = some b) : VosfInvariant g b := by
  have count : uint32 ((g.theBufferSize + (g.pageSize - 1)) / g.pageSize) = g.pages := by
    have upto := Nat.le_mul_of_pos_right g.pages g.pageSize_pos
    exact Nat.mod_eq_of_lt (Nat.lt_of_le_of_lt upto g.pages_mul_lt)
  simp only [videoVosfInit, count, Option.bind_eq_bind, Option.bind_eq_some_iff] at ready
  obtain ⟨cleared, clear, guarded, clear_guard, table, set_guard, ready⟩ := ready
  split at ready
  · cases ready
    refine ⟨round_up g.aligned, rfl, rfl, pageBits_eq g, rfl, ?_, ?_, ?_, rfl⟩
    · rw [setRange_length set_guard, setRange_length clear_guard, setRange_length clear]
      simp
    · rw [setRange_get set_guard, if_neg (by omega), setRange_get clear_guard, if_pos (by omega)]
    · rw [setRange_get set_guard, if_pos (by omega)]
  · cases ready

theorem Surface.size_le_pages (g : Surface) : g.theBufferSize ≤ g.pages * g.pageSize := by
  have some_bytes := g.pageSize_pos
  have rounded := Nat.div_add_mod (g.theBufferSize + (g.pageSize - 1)) g.pageSize
  have rest := Nat.mod_lt (g.theBufferSize + (g.pageSize - 1)) some_bytes
  rw [Nat.mul_comm] at rounded
  unfold Surface.pages
  omega

theorem VosfInvariant.setRange {g : Surface} (inv : VosfInvariant g b) {table : List (BitVec 8)}
    {first last : Nat} {value : BitVec 8}
    (set : Video.setRange b.dirtyPages first last value = some table) (inside : last ≤ g.pages)
    (dirty : Bool) : VosfInvariant g { b with dirtyPages := table, dirty := dirty } where
  memStart := inv.memStart
  memLength := inv.memLength
  pageSize := inv.pageSize
  pageBits := inv.pageBits
  pageCount := inv.pageCount
  length := (setRange_length set).trans inv.length
  clearGuard := by
    refine (setRange_get set g.pages).trans ?_
    rw [if_neg (by omega), inv.clearGuard]
  setGuard := by
    refine (setRange_get set (g.pages + 1)).trans ?_
    rw [if_neg (by omega), inv.setGuard]
  pageInfo := inv.pageInfo

theorem VosfInvariant.setDirty {g : Surface} (inv : VosfInvariant g b) (dirty : Bool) :
    VosfInvariant g { b with dirty := dirty } :=
  ⟨inv.memStart, inv.memLength, inv.pageSize, inv.pageBits, inv.pageCount, inv.length,
    inv.clearGuard, inv.setGuard, inv.pageInfo⟩

theorem VosfInvariant.fault_page {g : Surface} (inv : VosfInvariant g b) {addr : BitVec 64}
    (inside : (addr - b.memStart).toNat < b.memLength) :
    (addr - b.memStart).toNat >>> b.pageBits < g.pages := by
  rw [inv.memLength] at inside
  rw [Nat.shiftRight_eq_div_pow, inv.pageBits]
  exact (Nat.div_lt_iff_lt_mul g.pageSize_pos).mpr (Nat.lt_of_lt_of_le inside g.size_le_pages)

theorem screenFaultHandler_invariant {g : Surface} {after : ScreenInfo} {addr : BitVec 64}
    {handled : Bool} {effects : List Effect} (inv : VosfInvariant g b)
    (done : screenFaultHandler b addr = some (handled, after, effects)) :
    VosfInvariant g after := by
  unfold screenFaultHandler at done
  split at done
  next inside =>
    simp only [Option.bind_eq_bind, Option.bind_eq_some_iff] at done
    obtain ⟨flag, _, done⟩ := done
    split at done
    · obtain ⟨table, set, done⟩ := Option.bind_eq_some_iff.mp done
      cases done
      exact inv.setRange set (inv.fault_page inside) true
    · cases done
      exact inv.setDirty true
  · cases done
    exact inv

-- The effects of one turn of the loop.

def Effect.Clears (p : Nat) : Effect → Prop
  | .clearRange first last => first ≤ p ∧ p < last
  | _ => False

instance (p : Nat) : DecidablePred (Effect.Clears p) := fun e => by
  unfold Effect.Clears
  split <;> infer_instance

/-- The page is made read-only by this. -/
def Effect.Protects (g : Surface) (p : Nat) : Effect → Prop
  | .vmProtect addr length writable =>
    writable = false ∧
      (g.theBuffer + BitVec.ofNat 64 (p * g.pageSize) - addr).toNat + g.pageSize ≤ length
  | _ => False

instance (g : Surface) (p : Nat) : DecidablePred (Effect.Protects g p) := fun e => by
  unfold Effect.Protects
  split <;> infer_instance

/-- The blit of scanline `y`. -/
def blitOf (g : Surface) (dstBytesPerRow y : Nat) : Effect :=
  .screenBlit (y * dstBytesPerRow : Nat) (y * g.mode.bytesPerRow.toNat : Nat)
    g.mode.bytesPerRow.toNat

theorem blitLoop_eq (g : Surface) (dstBytesPerRow n y : Nat) :
    blitLoop g.mode.bytesPerRow.toNat dstBytesPerRow n ((y : Int) * g.mode.bytesPerRow.toNat)
        ((y : Int) * dstBytesPerRow) =
      (List.range' y n).map (blitOf g dstBytesPerRow) := by
  induction n generalizing y with
  | zero => rfl
  | succ n ih =>
    have src : (y : Int) * g.mode.bytesPerRow.toNat + g.mode.bytesPerRow.toNat =
        ((y + 1 : Nat) : Int) * g.mode.bytesPerRow.toNat := by
      rw [Int.natCast_add, Int.add_mul]
      omega
    have dst : (y : Int) * dstBytesPerRow + dstBytesPerRow =
        ((y + 1 : Nat) : Int) * dstBytesPerRow := by
      rw [Int.natCast_add, Int.add_mul]
      omega
    rw [blitLoop, src, dst, ih, List.range'_succ, List.map_cons]
    simp [blitOf]

section Turn

variable (g : Surface) (dstBytesPerRow first page : Nat)

/-- The scanlines shown for the pages from `first` up to `page`. -/
def shownRows : List Nat :=
  let y1 := clampedScanline g.mode (first * g.pageSize)
  List.range' y1 (clampedScanline g.mode (page * g.pageSize) + 1 - y1)

/-- What one turn of the loop does. -/
def turnEffects (height : Int) : List Effect :=
  [.clearRange first page,
      .vmProtect (g.theBuffer + BitVec.ofNat 64 (first * g.pageSize))
        ((page - first) * g.pageSize) false] ++
    (shownRows g first page).map (blitOf g dstBytesPerRow) ++
    [.updateRect (clampedScanline g.mode (first * g.pageSize)) height]

theorem VosfInvariant.pageInfo_get {g : Surface} {b : ScreenInfo} (inv : VosfInvariant g b)
    {i : Nat} (inside : i < g.pages) :
    b.pageInfo[i]? = some ⟨clampedScanline g.mode (i * g.pageSize),
      clampedScanline g.mode ((i + 1) * g.pageSize)⟩ := by
  have info := fillPageInfo_get g (k := 0) (n := g.pages) (Nat.zero_add _) inside
  rw [Nat.zero_mul, Nat.zero_add] at info
  rw [inv.pageInfo, info]

theorem showPages_eq {b : ScreenInfo} (inv : VosfInvariant g b) (some_pages : first < page)
    (inside : page ≤ g.pages) :
    ∃ height, showPages g.mode dstBytesPerRow b first page =
      some (turnEffects g dstBytesPerRow first page height) := by
  have last : page - 1 + 1 = page := by omega
  have top := inv.pageInfo_get (i := first) (by omega)
  have bottom := inv.pageInfo_get (i := page - 1) (by omega)
  rw [last] at bottom
  have begins := g.page_lt (p := first) (by omega)
  have size := g.size_le
  have whole : (page - first) * g.pageSize ≤ g.pages * g.pageSize :=
    Nat.mul_le_mul_right _ (by omega)
  have fits := g.pages_mul_lt
  have shifted : ∀ pages : Nat, pages <<< b.pageBits = pages * g.pageSize := by
    intro pages
    rw [Nat.shiftLeft_eq, inv.pageBits]
    rfl
  have offset : b.memStart + BitVec.ofInt 64 (int32 (first <<< b.pageBits)) =
      g.theBuffer + BitVec.ofNat 64 (first * g.pageSize) := by
    rw [inv.memStart, shifted, int32_of_lt (by omega), BitVec.ofInt_natCast]
  have length : uint32 ((page - first) <<< b.pageBits) = (page - first) * g.pageSize := by
    rw [shifted]
    exact Nat.mod_eq_of_lt (by omega)
  have src : int32 g.mode.bytesPerRow.toNat = g.mode.bytesPerRow.toNat := int32_of_lt g.bytes_lt
  have rows : ∀ y1 y2 : Nat, ((y2 : Int) + 1 - y1).toNat = y2 + 1 - y1 := by omega
  exists (clampedScanline g.mode (page * g.pageSize) : Int) -
    clampedScanline g.mode (first * g.pageSize) + 1
  simp only [showPages, top, bottom, Option.bind_eq_bind, Option.bind_some, offset, length, src,
    rows, blitLoop_eq]
  rfl

/-- Neither the blits nor the update of the host's display count. -/
theorem turnEffects_countP (height : Int) (P : Effect → Prop) [DecidablePred P]
    (no_blit : ∀ y, ¬P (blitOf g dstBytesPerRow y)) (no_rect : ∀ y h, ¬P (.updateRect y h)) :
    (turnEffects g dstBytesPerRow first page height).countP (fun e => P e) =
      (if P (.clearRange first page) then 1 else 0) +
        if P (.vmProtect (g.theBuffer + BitVec.ofNat 64 (first * g.pageSize))
          ((page - first) * g.pageSize) false) then 1 else 0 := by
  have blits : ((shownRows g first page).map (blitOf g dstBytesPerRow)).countP (fun e => P e) =
      0 := by
    rw [List.countP_eq_zero]
    intro e member
    obtain ⟨y, _, rfl⟩ := List.mem_map.mp member
    simpa using no_blit y
  rw [turnEffects, List.countP_append, List.countP_append, blits]
  simp only [List.countP_cons, List.countP_nil, no_rect, decide_false, decide_eq_true_iff,
    Bool.false_eq_true, if_false, Nat.zero_add, Nat.add_zero]
  exact Nat.add_comm _ _

theorem turnEffects_clears (height : Int) (p : Nat) :
    (turnEffects g dstBytesPerRow first page height).countP (fun e => e.Clears p) =
      if first ≤ p ∧ p < page then 1 else 0 := by
  have protects : ¬Effect.Clears p (.vmProtect (g.theBuffer + BitVec.ofNat 64 (first * g.pageSize))
      ((page - first) * g.pageSize) false) := id
  rw [turnEffects_countP g dstBytesPerRow first page height (Effect.Clears p) (fun _ => id)
    fun _ _ => id, if_neg protects, Nat.add_zero]
  exact if_congr Iff.rfl rfl rfl

theorem turnEffects_protects (height : Int) {p : Nat} (in_buffer : p < g.pages)
    (some_pages : first < page) (inside : page ≤ g.pages) :
    (turnEffects g dstBytesPerRow first page height).countP (fun e => e.Protects g p) =
      if first ≤ p ∧ p < page then 1 else 0 := by
  have covered : (g.theBuffer + BitVec.ofNat 64 (p * g.pageSize) -
      (g.theBuffer + BitVec.ofNat 64 (first * g.pageSize))).toNat + g.pageSize ≤
        (page - first) * g.pageSize ↔ first ≤ p ∧ p < page := by
    have offset : g.theBuffer + BitVec.ofNat 64 (p * g.pageSize) -
        (g.theBuffer + BitVec.ofNat 64 (first * g.pageSize)) =
          BitVec.ofNat 64 (p * g.pageSize) - BitVec.ofNat 64 (first * g.pageSize) := by
      grind
    have in_word : ∀ m, m ≤ g.pages → m * g.pageSize < 2 ^ 32 := fun m upto =>
      Nat.lt_of_le_of_lt (Nat.mul_le_mul_right _ upto) g.pages_mul_lt
    have page_end := in_word p (by omega)
    have first_end := in_word first (by omega)
    have length := in_word (page - first) (by omega)
    rw [offset, BitVec.toNat_sub, BitVec.toNat_ofNat, BitVec.toNat_ofNat,
      Nat.mod_eq_of_lt (by omega : p * g.pageSize < 2 ^ 64),
      Nat.mod_eq_of_lt (by omega : first * g.pageSize < 2 ^ 64)]
    by_cases after : first ≤ p
    · obtain ⟨k, rfl⟩ := Nat.exists_eq_add_of_le after
      have behind : 2 ^ 64 - first * g.pageSize + (first + k) * g.pageSize =
          2 ^ 64 + k * g.pageSize := by
        rw [Nat.add_mul]
        omega
      have small := in_word k (by omega)
      rw [behind, Nat.add_mod_left, Nat.mod_eq_of_lt (by omega), ← Nat.succ_mul,
        Nat.mul_le_mul_right_iff g.pageSize_pos]
      omega
    · have before : p * g.pageSize < first * g.pageSize :=
        Nat.mul_lt_mul_of_pos_right (by omega) g.pageSize_pos
      rw [Nat.mod_eq_of_lt (by omega)]
      omega
  have clears : ¬Effect.Protects g p (.clearRange first page) := id
  rw [turnEffects_countP g dstBytesPerRow first page height (Effect.Protects g p) (fun _ => id)
    fun _ _ => id, if_neg clears, Nat.zero_add]
  exact if_congr ((and_iff_right rfl).trans covered) rfl rfl

theorem mem_shownRows {y : Nat} :
    y ∈ shownRows g first page ↔ clampedScanline g.mode (first * g.pageSize) ≤ y ∧
      y ≤ clampedScanline g.mode (page * g.pageSize) := by
  rw [shownRows, List.mem_range'_1]
  omega

/-- Scanline `y` has a byte in page `p`. -/
def RowInPage (y p : Nat) : Prop :=
  ∃ offset, offset / g.mode.bytesPerRow.toNat = y ∧ offset / g.pageSize = p

theorem shownRows_covers {y p : Nat} (in_mode : y < g.mode.y.toNat) (meets : RowInPage g y p)
    (lower : first ≤ p) (upper : p < page) : y ∈ shownRows g first page := by
  obtain ⟨offset, rfl, rfl⟩ := meets
  have begins : first * g.pageSize ≤ offset :=
    (Nat.le_div_iff_mul_le g.pageSize_pos).mp lower
  have ends : offset < page * g.pageSize := (Nat.div_lt_iff_lt_mul g.pageSize_pos).mp upper
  have top := Nat.div_le_div_right (c := g.mode.bytesPerRow.toNat) begins
  have bottom := Nat.div_le_div_right (c := g.mode.bytesPerRow.toNat) (Nat.le_of_lt ends)
  rw [mem_shownRows]
  unfold clampedScanline
  omega

theorem turnEffects_blits {height dst src n : Int}
    (shown : .screenBlit dst src n ∈ turnEffects g dstBytesPerRow first page height) :
    ∃ y < g.mode.y.toNat, .screenBlit dst src n = blitOf g dstBytesPerRow y := by
  have blit : .screenBlit dst src n ∈ (shownRows g first page).map (blitOf g dstBytesPerRow) := by
    simpa [turnEffects] using shown
  obtain ⟨y, member, same⟩ := List.mem_map.mp blit
  have rows := g.rows
  have bottom := (mem_shownRows g first page).mp member
  unfold clampedScanline at bottom
  exact ⟨y, by omega, same.symm⟩

end Turn

-- What the scans see.

section Flags

variable {table : List (BitVec 8)} {p : Nat}

theorem stops_clear_iff : Stops pflagIsClear table p ↔ Dirty table p := by
  constructor
  · rintro ⟨flag, here, stop⟩
    have set : flag = pflagSetValue := by simpa [pflagIsClear] using stop
    rw [Dirty, here, set]
  · intro dirty
    exact ⟨_, dirty, rfl⟩

theorem Dirty.not_passes (dirty : Dirty table p) : ¬Passes pflagIsClear table p := fun passes =>
  passes.not_stops (stops_clear_iff.mpr dirty)

theorem passes_set_iff : Passes pflagIsSet table p ↔ Dirty table p := by
  constructor
  · rintro ⟨flag, here, pass⟩
    have set : flag = pflagSetValue := by simpa [pflagIsSet] using pass
    rw [Dirty, here, set]
  · intro dirty
    exact ⟨_, dirty, rfl⟩

end Flags

/-- What an update from `page` on has done to `b` when it is through. -/
structure ShownFrom (g : Surface) (dstBytesPerRow page : Nat) (b after : ScreenInfo)
    (effects : List Effect) : Prop where
  inv : VosfInvariant g after
  kept : ∀ i, i < page ∨ g.pages ≤ i → after.dirtyPages[i]? = b.dirtyPages[i]?
  cleared : ∀ p, page ≤ p → p < g.pages → ¬Dirty after.dirtyPages p
  clears : ∀ p < g.pages, effects.countP (fun e => e.Clears p) =
    if page ≤ p ∧ Dirty b.dirtyPages p then 1 else 0
  protects : ∀ p < g.pages, effects.countP (fun e => e.Protects g p) =
    if page ≤ p ∧ Dirty b.dirtyPages p then 1 else 0
  covers : ∀ y < g.mode.y.toNat, ∀ p, page ≤ p → p < g.pages → Dirty b.dirtyPages p →
    RowInPage g y p → blitOf g dstBytesPerRow y ∈ effects
  in_mode : ∀ dst src n, .screenBlit dst src n ∈ effects →
    ∃ y < g.mode.y.toNat, .screenBlit dst src n = blitOf g dstBytesPerRow y

/-- A page is handled by this turn or by the rest of the update. -/
theorem turn_count {page first next : Nat} {table : List (BitVec 8)}
    (set : setRange b.dirtyPages first next pflagClearValue = some table)
    (skipped : ∀ p, page ≤ p → p < first → ¬Dirty b.dirtyPages p)
    (dirty : ∀ p, first ≤ p → p < next → Dirty b.dirtyPages p) (from_page : page ≤ first)
    (some_pages : first < next) {p : Nat} :
    ((if first ≤ p ∧ p < next then 1 else 0) + if next ≤ p ∧ Dirty table p then 1 else 0) =
      if page ≤ p ∧ Dirty b.dirtyPages p then 1 else 0 := by
  by_cases later : next ≤ p
  · have same : Dirty table p ↔ Dirty b.dirtyPages p := by
      unfold Dirty
      rw [setRange_get set, if_neg (by omega)]
    rw [if_neg (by omega), Nat.zero_add]
    exact if_congr ⟨fun h => ⟨by omega, same.mp h.2⟩, fun h => ⟨later, same.mpr h.2⟩⟩ rfl rfl
  · rw [if_neg (fun h : next ≤ p ∧ _ => later h.1), Nat.add_zero]
    by_cases here : first ≤ p
    · rw [if_pos ⟨here, by omega⟩, if_pos ⟨by omega, dirty p here (by omega)⟩]
    · have clear : ¬(page ≤ p ∧ Dirty b.dirtyPages p) := fun h =>
        skipped p h.1 (by omega) h.2
      rw [if_neg (by omega), if_neg clear]

/-- A turn in front of the rest of the update: the pages from `page` up to `first` are clear, those
from `first` up to `next` dirty, and `next` is clear. -/
theorem ShownFrom.turn {g : Surface} {dstBytesPerRow page first next : Nat} {after : ScreenInfo}
    {table : List (BitVec 8)} {height : Int} {rest : List Effect}
    (set : setRange b.dirtyPages first next pflagClearValue = some table)
    (skipped : ∀ p, page ≤ p → p < first → ¬Dirty b.dirtyPages p)
    (dirty : ∀ p, first ≤ p → p < next → Dirty b.dirtyPages p) (from_page : page ≤ first)
    (some_pages : first < next) (inside : next ≤ g.pages)
    (shown : ShownFrom g dstBytesPerRow next { b with dirtyPages := table } after rest) :
    ShownFrom g dstBytesPerRow page b after
      (turnEffects g dstBytesPerRow first next height ++ rest) where
  inv := shown.inv
  kept := by
    intro i outside
    refine (shown.kept i (by omega)).trans ((setRange_get set i).trans ?_)
    rw [if_neg (by omega)]
  cleared := by
    intro p lower upper
    by_cases later : next ≤ p
    · exact shown.cleared p later upper
    · -- The rest of the update leaves the pages of this turn alone.
      have now : after.dirtyPages[p]? = table[p]? := shown.kept p (by omega)
      unfold Dirty
      rw [now, setRange_get set]
      split
      · decide
      · exact skipped p lower (by omega)
  clears := by
    intro p upper
    rw [List.countP_append, turnEffects_clears, shown.clears p upper]
    exact turn_count set skipped dirty from_page some_pages
  protects := by
    intro p upper
    rw [List.countP_append, turnEffects_protects g dstBytesPerRow first next height upper some_pages
      inside, shown.protects p upper]
    exact turn_count set skipped dirty from_page some_pages
  covers := by
    intro y in_mode p lower upper is_dirty meets
    by_cases later : next ≤ p
    · have still : Dirty table p := by
        unfold Dirty
        rw [setRange_get set, if_neg (by omega)]
        exact is_dirty
      exact List.mem_append_right _ (shown.covers y in_mode p later upper still meets)
    · have from_first : first ≤ p := by
        by_contra before
        exact skipped p lower (by omega) is_dirty
      have row := shownRows_covers g first next in_mode meets from_first (by omega)
      apply List.mem_append_left
      simp only [turnEffects, List.mem_append]
      exact .inl (.inr (List.mem_map_of_mem row))
  in_mode := by
    intro dst src n member
    rcases List.mem_append.mp member with now | later
    · exact turnEffects_blits g dstBytesPerRow first next now
    · exact shown.in_mode dst src n later

/-- The loop comes to its end, with a turn for each run of dirty pages. -/
theorem updateLoop_shown {g : Surface} (dstBytesPerRow : Nat) {fuel page : Nat}
    (inv : VosfInvariant g b) (upto : page ≤ g.pages) (enough : g.pages - page < fuel) :
    ∃ after effects, updateLoop g.mode dstBytesPerRow fuel b page = some (after, effects) ∧
      ShownFrom g dstBytesPerRow page b after effects := by
  induction fuel generalizing page b with
  | zero => omega
  | succ fuel ih =>
    have set_guard : Stops pflagIsClear b.dirtyPages (g.pages + 1) :=
      stops_clear_iff.mpr inv.setGuard
    obtain ⟨first, search, from_page, _, stop, before⟩ :=
      scan_spec (i := page) (by omega) set_guard
    have skipped : ∀ p, page ≤ p → p < first → ¬Dirty b.dirtyPages p := fun p lower upper dirty =>
      dirty.not_passes (before p lower upper)
    have found : findNextPageSet b.dirtyPages page = some first := search
    by_cases no_more : first ≥ g.pages
    · have clear : ∀ p < g.pages, ¬(page ≤ p ∧ Dirty b.dirtyPages p) := fun p upper h =>
        skipped p h.1 (by omega) h.2
      refine ⟨b, [], ?_, inv, fun _ _ => rfl, ?_, ?_, ?_, ?_, by simp⟩
      · simp only [updateLoop, found, Option.bind_eq_bind, Option.bind_some, inv.pageCount,
          if_pos no_more]
      · exact fun p lower upper dirty => clear p upper ⟨lower, dirty⟩
      · exact fun p upper => (if_neg (clear p upper)).symm
      · exact fun p upper => (if_neg (clear p upper)).symm
      · exact fun y _ p lower upper dirty _ => absurd ⟨lower, dirty⟩ (clear p upper)
    · have is_dirty : Dirty b.dirtyPages first := stops_clear_iff.mp stop
      have clear_guard : Stops pflagIsSet b.dirtyPages g.pages := ⟨_, inv.clearGuard, rfl⟩
      obtain ⟨next, search, from_first, inside, stop, between⟩ :=
        scan_spec (i := first) (by omega) clear_guard
      have found_next : findNextPageClear b.dirtyPages first = some next := search
      have dirty : ∀ p, first ≤ p → p < next → Dirty b.dirtyPages p := fun p lower upper =>
        passes_set_iff.mp (between p lower upper)
      have some_pages : first < next := by
        have apart : first ≠ next := by
          rintro rfl
          exact (passes_set_iff.mpr is_dirty).not_stops stop
        omega
      have in_table : next ≤ b.dirtyPages.length := by
        rw [inv.length]
        omega
      obtain ⟨table, set⟩ := setRange_some pflagClearValue from_first in_table
      obtain ⟨height, show_pages⟩ := showPages_eq g dstBytesPerRow first next inv some_pages inside
      obtain ⟨after, rest, through, shown⟩ :=
        ih (inv.setRange set inside b.dirty) inside (by omega : g.pages - next < fuel)
      refine ⟨after, turnEffects g dstBytesPerRow first next height ++ rest, ?_,
        .turn set skipped dirty from_page some_pages inside shown⟩
      have go_on : ¬first ≥ b.pageCount := by
        rw [inv.pageCount]
        exact no_more
      simp only [updateLoop, found, Option.bind_eq_bind, Option.bind_some, if_neg go_on, found_next,
        set, show_pages]
      exact congrArg (Option.bind · _) through

/-- The window is up to date after it, and the table is clear. -/
theorem updateDisplayWindowVosf_shown {g : Surface} (dstBytesPerRow : Nat) (inv : VosfInvariant g b) :
    ∃ after effects, updateDisplayWindowVosf g.mode dstBytesPerRow b = some (after, effects) ∧
      ShownFrom g dstBytesPerRow 0 b after effects := by
  obtain ⟨after, effects, through, shown⟩ :=
    updateLoop_shown dstBytesPerRow inv (Nat.zero_le _) (by omega : g.pages - 0 < g.pages + 1)
  refine ⟨{ after with dirty := false }, effects, ?_, shown.inv.setDirty false, shown.kept,
    shown.cleared, shown.clears, shown.protects, shown.covers, shown.in_mode⟩
  rw [updateDisplayWindowVosf, inv.pageCount, through]
  rfl

/-- Faults and updates keep the table in order. -/
theorem vosfStep_invariant {g : Surface} {after : ScreenInfo} {action : VosfAction}
    (inv : VosfInvariant g b) (step : vosfStep g b action = some after) : VosfInvariant g after := by
  cases action with
  | fault addr =>
    obtain ⟨⟨_, next, _⟩, done, same⟩ := Option.map_eq_some_iff.mp step
    cases same
    exact screenFaultHandler_invariant inv done
  | update dstBytesPerRow =>
    obtain ⟨⟨next, _⟩, done, same⟩ := Option.map_eq_some_iff.mp step
    cases same
    obtain ⟨_, _, through, shown⟩ := updateDisplayWindowVosf_shown dstBytesPerRow inv
    cases through.symm.trans done
    exact shown.inv

/-- From any state faults and updates lead to, an update comes to its end without leaving the table.
It keeps the guards, clears and protects each dirty page once and shows the scanlines that have a
byte in one, all of them scanlines of the mode. -/
theorem updateDisplayWindowVosf_complete {g : Surface} {contents : Nat → BitVec 8} {done : Bool}
    {start b : ScreenInfo} (dstBytesPerRow : Nat)
    (ready : videoVosfInit g contents done = some start)
    (reached : Reachable (vosfStep g) Free start b) :
    b.dirtyPages.length = b.pageCount + 2 ∧
    ∃ after effects, updateDisplayWindowVosf g.mode dstBytesPerRow b = some (after, effects) ∧
      after.dirtyPages.length = b.pageCount + 2 ∧
      (b.dirtyPages[b.pageCount]? = some pflagClearValue ∧
        after.dirtyPages[b.pageCount]? = some pflagClearValue) ∧
      (b.dirtyPages[b.pageCount + 1]? = some pflagSetValue ∧
        after.dirtyPages[b.pageCount + 1]? = some pflagSetValue) ∧
      (∀ p < b.pageCount, ¬Dirty after.dirtyPages p ∧
        effects.countP (fun e => e.Clears p) = (if Dirty b.dirtyPages p then 1 else 0) ∧
        effects.countP (fun e => e.Protects g p) = if Dirty b.dirtyPages p then 1 else 0) ∧
      (∀ y < g.mode.y.toNat, ∀ p < b.pageCount, Dirty b.dirtyPages p → RowInPage g y p →
        blitOf g dstBytesPerRow y ∈ effects) ∧
      ∀ dst src n, .screenBlit dst src n ∈ effects →
        ∃ y < g.mode.y.toNat, .screenBlit dst src n = blitOf g dstBytesPerRow y := by
  have inv : VosfInvariant g b := reached.invariant (videoVosfInit_invariant ready)
    fun _ _ _ inv _ step => vosfStep_invariant inv step
  obtain ⟨after, effects, through, shown⟩ := updateDisplayWindowVosf_shown dstBytesPerRow inv
  have once : ∀ p, (0 ≤ p ∧ Dirty b.dirtyPages p) ↔ Dirty b.dirtyPages p := fun p =>
    and_iff_right (Nat.zero_le p)
  rw [inv.pageCount]
  refine ⟨inv.length, after, effects, through, shown.inv.length,
    ⟨inv.clearGuard, shown.inv.clearGuard⟩, ⟨inv.setGuard, shown.inv.setGuard⟩, ?_, ?_,
    shown.in_mode⟩
  · intro p inside
    have clears := shown.clears p inside
    have protects := shown.protects p inside
    rw [if_congr (once p) rfl rfl] at clears protects
    exact ⟨shown.cleared p (Nat.zero_le p) inside, clears, protects⟩
  · intro y in_mode p inside
    exact shown.covers y in_mode p (Nat.zero_le p) inside

/-- Three pages for eleven scanlines. -/
def smallSurface : Surface where
  theBuffer := 0x10000
  theBufferSize := 0x3000
  pageBits := 12
  mode := { x := 1024, y := 11, resolutionId := 0x80, depth := .depth8bit, bytesPerRow := 1024 }
  aligned := by decide
  pageBits_lt := by decide
  size_le := by decide
  rows := by decide
  rows_lt := by decide
  bytes := by decide
  bytes_lt := by decide

def smallStart : ScreenInfo :=
  { memStart := 0x10000, memLength := 0x3000, pageSize := 4096, pageBits := 12, pageCount := 3,
    dirty := false, dirtyPages := [1, 1, 1, 1, 0], pageInfo := [⟨0, 4⟩, ⟨4, 8⟩, ⟨8, 10⟩] }

theorem updateDisplayWindowVosf_complete_oneFault :
    ∃ b after effects, videoVosfInit smallSurface (fun _ => 0) true = some smallStart ∧
      Reachable (vosfStep smallSurface) Free smallStart b ∧
      updateDisplayWindowVosf smallSurface.mode 4096 b = some (after, effects) ∧
      effects.countP (fun e => e.Clears 1) = 1 := by
  have ready : videoVosfInit smallSurface (fun _ => 0) true = some smallStart := rfl
  have run : Run (vosfStep smallSurface) Free smallStart [.fault 0x11388]
      { smallStart with dirty := true, dirtyPages := [1, 0, 1, 1, 0] } := by
    have fault : screenFaultHandler smallStart 0x11388 = some
        (true, { smallStart with dirty := true, dirtyPages := [1, 0, 1, 1, 0] },
          [.vmProtect 0x11000 4096 true]) := by
      rw [screenFaultHandler, if_pos (by decide)]
      rfl
    refine run_of_exec ?_
    rw [exec, vosfStep, fault]
    rfl
  obtain ⟨_, after, effects, through, _, _, _, pages, _⟩ :=
    updateDisplayWindowVosf_complete 4096 ready ⟨_, run⟩
  exact ⟨_, after, effects, ready, ⟨_, run⟩, through, (pages 1 (by decide)).2.1⟩

end BasiliskII.Video
