import BasiliskII.Jit.BlockRuns
import BasiliskII.Library.WordSums
import Mathlib.Data.List.Chain
import Mathlib.Data.List.Permutation

/-!
# The ranges a block's checksums are about

`compile_block` walks the run of instructions `execute_normal` recorded backwards, and opens a new
range at every constant jump it is compiled through. `calc_checksum` reads the ranges that are not
too long, and `block_check_checksum` compares the sums after a lazy flush.
-/
namespace BasiliskII.Jit

def maxrun : Nat := 1024

/-- `LONGEST_68K_INST` -/
def longest68kInst : Nat := 16

/-- `MAX_CHECKSUM_LEN` -/
def maxChecksumLen : Nat := 2048

/-! ### Recorded runs -/

/-- An entry of `pc_hist`, and how many bytes the instruction there has. -/
structure Recorded where
  location : Nat
  length : Nat
  deriving DecidableEq

/-- What decides where ranges begin. -/
structure Tracer where
  followConstJumps : Bool
  isConstJump : BitVec 16 → Bool
  romBaseHost : Nat
  romSize : Nat

def Tracer.isinrom (t : Tracer) (addr : Nat) : Bool :=
  t.romBaseHost ≤ addr && addr < t.romBaseHost + t.romSize

/-- `DO_GET_OPCODE` -/
def getOpcode (m : CodeMemory) (a : Nat) : BitVec 16 := m a ++ m (a + 1)

variable (t : Tracer) (m : CodeMemory)

def Tracer.jumps (x : Recorded) : Bool := t.followConstJumps && t.isConstJump (getOpcode m x.location)

/-- A run as `execute_normal` records it and `compile_block` finds it: it goes on behind each
instruction but for the constant jumps, which are followed. -/
structure RecordedRun where
  pcHist : List Recorded
  ne_nil : pcHist ≠ []
  count : pcHist.length ≤ maxrun
  even : ∀ x ∈ pcHist, x.location % 2 = 0 ∧ x.length % 2 = 0
  /-- No instruction of the 68020 has more words than MOVE with two full extensions. -/
  sized : ∀ x ∈ pcHist, x.length ≤ 22
  follows : pcHist.IsChain fun x y => t.jumps m x = false → y.location = x.location + x.length

/-! ### compile_block -/

structure ChecksumInfo where
  startP : Nat
  length : BitVec 32
  deriving DecidableEq

/-- What the loop of `compile_block` is about to know of the run. -/
structure Walk where
  csi : List ChecksumInfo
  minPcp : Nat
  maxPcp : Nat
  traceInRom : Bool

/-- The chain with the range that is open. -/
def Walk.chain (w : Walk) : List ChecksumInfo :=
  ⟨w.minPcp, BitVec.ofInt 32 (w.maxPcp - w.minPcp + longest68kInst)⟩ :: w.csi

/-- One round of the loop. -/
def Walk.visit (x : Recorded) (w : Walk) : Walk :=
  let w := { w with traceInRom := w.traceInRom && t.isinrom x.location }
  let w := if t.jumps m x then { w with csi := w.chain, maxPcp := x.location } else w
  { w with minPcp := x.location }

/-- `i=blocklen; while (i--)` -/
def compileBlock (first last : Recorded) (pcHist : List Recorded) : Walk :=
  pcHist.foldr (Walk.visit t m) ⟨[], last.location, last.location, t.isinrom first.location⟩

variable {t m}

def RecordedRun.first (run : RecordedRun t m) : Recorded := run.pcHist.head run.ne_nil

def RecordedRun.last (run : RecordedRun t m) : Recorded := run.pcHist.getLast run.ne_nil

def RecordedRun.walk (run : RecordedRun t m) : Walk := compileBlock t m run.first run.last run.pcHist

/-- The chain `calc_checksum` gets, unless the block's trace is in ROM. -/
def RecordedRun.csi (run : RecordedRun t m) : List ChecksumInfo := run.walk.chain

/-! ### calc_checksum -/

/-- The values of `pos` in the loop over a range. Every round but for the last takes 4 off `len`. -/
def ChecksumInfo.positions (csi : ChecksumInfo) : List Nat :=
  let len := csi.length.toInt + (csi.startP % 4 : Nat)
  let tmp := csi.startP - csi.startP % 4
  if 0 ≤ len ∧ len ≤ maxChecksumLen then (List.range ((len.toNat + 3) / 4)).map fun i => tmp + 4 * i
  else []

/-- `c1` and `c2` -/
def calcChecksum (m : CodeMemory) (csi : List ChecksumInfo) : BitVec 32 × BitVec 32 :=
  WordSums.sums (loadLong m) (csi.flatMap ChecksumInfo.positions)

/-! ### Stretches -/

/-- The parts of a run that are executed one behind the other, up to the constant jumps. -/
def stretches (jumps : Recorded → Bool) : List Recorded → List (List Recorded)
  | [] => []
  | x :: xs =>
    if jumps x then [x] :: stretches jumps xs
    else
      match stretches jumps xs with
      | [] => [[x]]
      | s :: ss => (x :: s) :: ss

def firstLocation (s : List Recorded) : Nat := (s.head?.map Recorded.location).getD 0

def lastLocation (s : List Recorded) : Nat := (s.getLast?.map Recorded.location).getD 0

variable {s : List Recorded}

theorem lastLocation_cons (x : Recorded) (some_left : s ≠ []) :
    lastLocation (x :: s) = lastLocation s := by
  obtain ⟨y, ys, rfl⟩ := List.exists_cons_of_ne_nil some_left
  rw [lastLocation, lastLocation, List.getLast?_cons_cons]

theorem stretches_flatten (jumps : Recorded → Bool) (xs : List Recorded) :
    (stretches jumps xs).flatten = xs := by
  induction xs with
  | nil => rfl
  | cons x xs ih =>
    rw [stretches]
    split
    · rw [List.flatten_cons, ih, List.singleton_append]
    · split
      next empty =>
        rw [empty] at ih
        rw [← ih]
        rfl
      next s ss eq =>
        rw [eq, List.flatten_cons] at ih
        rw [List.flatten_cons, List.cons_append, ih]

variable {jumps : Recorded → Bool} {xs : List Recorded}

theorem ne_nil_of_mem_stretches (member : s ∈ stretches jumps xs) : s ≠ [] := by
  induction xs generalizing s with
  | nil => cases member
  | cons x xs ih =>
    rw [stretches] at member
    split at member
    · rcases List.mem_cons.mp member with rfl | later
      · exact List.cons_ne_nil _ _
      · exact ih later
    · split at member
      · rw [List.mem_singleton.mp member]
        exact List.cons_ne_nil _ _
      next eq =>
        rcases List.mem_cons.mp member with rfl | later
        · exact List.cons_ne_nil _ _
        · exact ih (eq ▸ List.mem_cons_of_mem _ later)

theorem not_jumps_of_mem_stretches (member : s ∈ stretches jumps xs) :
    ∀ x ∈ s.dropLast, jumps x = false := by
  induction xs generalizing s with
  | nil => cases member
  | cons x xs ih =>
    rw [stretches] at member
    split at member
    · rcases List.mem_cons.mp member with rfl | later
      · simp
      · exact ih later
    next onward =>
      split at member
      · rw [List.mem_singleton.mp member]
        simp
      next s' ss eq =>
        have first : s' ∈ stretches jumps xs := eq ▸ List.mem_cons_self
        rcases List.mem_cons.mp member with rfl | later
        · rw [List.dropLast_cons_of_ne_nil (ne_nil_of_mem_stretches first)]
          exact List.forall_mem_cons.mpr ⟨by simpa using onward, ih first⟩
        · exact ih (eq ▸ List.mem_cons_of_mem _ later)

/-- The range `compile_block` makes of a stretch. -/
def rangeOf (s : List Recorded) : ChecksumInfo :=
  ⟨firstLocation s, BitVec.ofInt 32 (lastLocation s - firstLocation s + longest68kInst)⟩

variable (t m) in
/-- What has a range: the stretches, and once more a constant jump the run ends with, since the walk
starts with a range that is open there. -/
def checked (last : Recorded) (pcHist : List Recorded) : List (List Recorded) :=
  stretches (t.jumps m) pcHist ++ if t.jumps m last then [[last]] else []

/-- The open range is that of the first stretch, and the others are on the chain. -/
theorem foldr_visit {last : Recorded} (inRom : Bool) (some_left : xs ≠ [])
    (ends : xs.getLast some_left = last) :
    (xs.foldr (Walk.visit t m) ⟨[], last.location, last.location, inRom⟩).chain =
      (checked t m last xs).map rangeOf := by
  -- The walk is backwards, so that the induction is from the last instruction on.
  suffices held : ∃ s ss, stretches (t.jumps m) xs = s :: ss ∧ ∀ w,
      w = xs.foldr (Walk.visit t m) ⟨[], last.location, last.location, inRom⟩ →
      w.minPcp = firstLocation s ∧ w.maxPcp = lastLocation s ∧
        w.csi = (ss ++ if t.jumps m last then [[last]] else []).map rangeOf by
    obtain ⟨s, ss, eq, known⟩ := held
    obtain ⟨minPcp, maxPcp, csi⟩ := known _ rfl
    rw [Walk.chain, minPcp, maxPcp, csi, checked, eq]
    rfl
  induction xs with
  | nil => exact absurd rfl some_left
  | cons x xs ih =>
    by_cases single : xs = []
    · subst single
      obtain rfl : x = last := ends
      refine ⟨[x], [], by simp [stretches], ?_⟩
      rintro w rfl
      by_cases jump : t.jumps m x = true <;>
        simp [Walk.visit, Walk.chain, jump, rangeOf, firstLocation, lastLocation]
    · rw [List.getLast_cons single] at ends
      obtain ⟨s, ss, eq, known⟩ := ih single ends
      obtain ⟨minPcp, maxPcp, csi⟩ := known _ rfl
      have some_s : s ≠ [] := ne_nil_of_mem_stretches (eq ▸ List.mem_cons_self)
      rw [List.foldr_cons]
      generalize xs.foldr (Walk.visit t m) _ = w at minPcp maxPcp csi
      by_cases jump : t.jumps m x = true
      · refine ⟨[x], s :: ss, by rw [stretches, if_pos jump, eq], ?_⟩
        rintro _ rfl
        simp [Walk.visit, Walk.chain, jump, minPcp, maxPcp, csi, rangeOf, firstLocation,
          lastLocation]
      · refine ⟨x :: s, ss, by rw [stretches, if_neg jump, eq], ?_⟩
        rintro _ rfl
        rw [lastLocation_cons x some_s]
        simp [Walk.visit, jump, maxPcp, csi, firstLocation]

def RecordedRun.stretches (run : RecordedRun t m) : List (List Recorded) :=
  Jit.stretches (t.jumps m) run.pcHist

def RecordedRun.checked (run : RecordedRun t m) : List (List Recorded) :=
  Jit.checked t m run.last run.pcHist

theorem RecordedRun.csi_eq (run : RecordedRun t m) : run.csi = run.checked.map rangeOf :=
  foldr_visit (t.isinrom run.first.location) run.ne_nil rfl

/-! ### What the ranges hold -/

theorem isChain_of_mem_stretches
    (follows : xs.IsChain fun x y => jumps x = false → y.location = x.location + x.length)
    (member : s ∈ Jit.stretches jumps xs) :
    s.IsChain fun x y => y.location = x.location + x.length := by
  have part : s <:+: xs := by
    have inside := List.infix_of_mem_flatten member
    rwa [stretches_flatten] at inside
  have inner := follows.infix part
  have onward := not_jumps_of_mem_stretches member
  clear follows member part
  induction s with
  | nil => exact .nil
  | cons x s ih =>
    cases s with
    | nil => exact .singleton x
    | cons y s =>
      rw [List.isChain_cons_cons] at inner
      rw [List.dropLast_cons_cons] at onward
      obtain ⟨here, later⟩ := List.forall_mem_cons.mp onward
      exact .cons_cons (inner.1 here) (ih inner.2 later)

theorem lastLocation_bounds (follows : s.IsChain fun x y => y.location = x.location + x.length)
    (sized : ∀ x ∈ s, x.length ≤ 22) :
    firstLocation s ≤ lastLocation s ∧ lastLocation s ≤ firstLocation s + 22 * s.length := by
  induction s with
  | nil => simp [firstLocation, lastLocation]
  | cons x s ih =>
    obtain ⟨here, later⟩ := List.forall_mem_cons.mp sized
    cases s with
    | nil => simp [firstLocation, lastLocation]
    | cons y s =>
      rw [List.isChain_cons_cons] at follows
      have bounds := ih follows.2 later
      rw [lastLocation_cons x (List.cons_ne_nil y s)]
      simp only [firstLocation, List.head?_cons, Option.map_some, Option.getD_some,
        List.length_cons] at bounds ⊢
      omega

theorem length_le_of_mem_stretches (member : s ∈ Jit.stretches jumps xs) :
    s.length ≤ xs.length := by
  have inside := (List.infix_of_mem_flatten member).length_le
  rwa [stretches_flatten] at inside

theorem RecordedRun.bounds (run : RecordedRun t m) (member : s ∈ run.checked) :
    firstLocation s ≤ lastLocation s ∧ lastLocation s ≤ firstLocation s + 22 * maxrun := by
  rcases List.mem_append.mp member with inside | again
  · have sized : ∀ x ∈ s, x.length ≤ 22 := fun x member =>
      run.sized x (stretches_flatten (t.jumps m) run.pcHist ▸ List.mem_flatten_of_mem inside member)
    have bounds := lastLocation_bounds (isChain_of_mem_stretches run.follows inside) sized
    have few := length_le_of_mem_stretches inside
    have count := run.count
    omega
  · split at again
    · rw [List.mem_singleton.mp again]
      exact ⟨Nat.le_refl _, Nat.le_add_right _ _⟩
    · cases again

theorem RecordedRun.rangeOf_toInt (run : RecordedRun t m) (member : s ∈ run.checked) :
    (rangeOf s).length.toInt = lastLocation s - firstLocation s + longest68kInst := by
  obtain ⟨above, below⟩ := run.bounds member
  simp only [maxrun, longest68kInst, rangeOf] at below ⊢
  rw [BitVec.toInt_ofInt, Int.bmod_eq_of_le] <;> omega

theorem RecordedRun.rangeOf_toNat (run : RecordedRun t m) (member : s ∈ run.checked) :
    firstLocation s + (rangeOf s).length.toNat = lastLocation s + longest68kInst := by
  obtain ⟨above, below⟩ := run.bounds member
  simp only [maxrun, longest68kInst, rangeOf] at below ⊢
  rw [BitVec.toNat_ofInt]
  omega

/-- From its first instruction, down to a whole word, the range ends within `MAX_CHECKSUM_LEN`. -/
def Short (s : List Recorded) : Prop :=
  lastLocation s + longest68kInst ≤ firstLocation s - firstLocation s % 4 + maxChecksumLen

/-- Where the words of a range begin. -/
def InSpan (s : List Recorded) (p : Nat) : Prop :=
  firstLocation s - firstLocation s % 4 ≤ p ∧ p < lastLocation s + longest68kInst

instance (s : List Recorded) (p : Nat) : Decidable (InSpan s p) := inferInstanceAs (Decidable (_ ∧ _))

instance (s : List Recorded) : Decidable (Short s) := inferInstanceAs (Decidable (_ ≤ _))

/-- The length is one for which `calc_checksum` reads the range. -/
def ChecksumInfo.Read (csi : ChecksumInfo) : Prop :=
  0 < csi.length.toInt ∧ csi.length.toInt + (csi.startP % 4 : Nat) ≤ maxChecksumLen

theorem RecordedRun.read_iff (run : RecordedRun t m) (member : s ∈ run.checked) :
    (rangeOf s).Read ↔ Short s := by
  obtain ⟨above, -⟩ := run.bounds member
  rw [ChecksumInfo.Read, run.rangeOf_toInt member, Short]
  simp only [rangeOf, longest68kInst, maxChecksumLen]
  omega

/-- The places of the words in a range. -/
def spanWords (s : List Recorded) : List Nat :=
  let start := firstLocation s - firstLocation s % 4
  (List.range ((lastLocation s + longest68kInst - start + 3) / 4)).map fun i => start + 4 * i

theorem RecordedRun.positions_eq (run : RecordedRun t m) (member : s ∈ run.checked) :
    (rangeOf s).positions = if Short s then spanWords s else [] := by
  obtain ⟨above, -⟩ := run.bounds member
  have start : (rangeOf s).startP = firstLocation s := rfl
  have len : (rangeOf s).length.toInt + ((rangeOf s).startP % 4 : Nat) =
      (lastLocation s + longest68kInst - (firstLocation s - firstLocation s % 4) : Nat) := by
    rw [run.rangeOf_toInt member, start]
    simp only [longest68kInst]
    omega
  have fits : 0 ≤ (rangeOf s).length.toInt + ((rangeOf s).startP % 4 : Nat) ∧
      (rangeOf s).length.toInt + ((rangeOf s).startP % 4 : Nat) ≤ maxChecksumLen ↔ Short s := by
    rw [len, Short]
    simp only [longest68kInst, maxChecksumLen]
    omega
  simp only [ChecksumInfo.positions, fits]
  by_cases short : Short s
  · rw [if_pos short, if_pos short, len, Int.toNat_natCast, start, spanWords]
  · rw [if_neg short, if_neg short]

variable {p : Nat}

theorem mem_spanWords : p ∈ spanWords s ↔ p % 4 = 0 ∧ InSpan s p := by
  simp only [spanWords, InSpan, List.mem_map, List.mem_range, longest68kInst]
  constructor
  · rintro ⟨i, inside, rfl⟩
    omega
  · rintro ⟨aligned, from_, below⟩
    exact ⟨(p - (firstLocation s - firstLocation s % 4)) / 4, by omega, by omega⟩

theorem nodup_spanWords (s : List Recorded) : (spanWords s).Nodup := by
  refine List.Nodup.map (fun i j same => ?_) List.nodup_range
  simpa using same

/-- How many ranges hold the word at a place. -/
def RecordedRun.readings (run : RecordedRun t m) (p : Nat) : Nat := run.checked.countP (InSpan · p)

/-- The places of the words `calc_checksum` reads. -/
def RecordedRun.places (run : RecordedRun t m) : List Nat :=
  (run.checked.filter fun s => Short s).flatMap spanWords

theorem RecordedRun.flatMap_positions (run : RecordedRun t m) :
    run.csi.flatMap ChecksumInfo.positions = run.places := by
  have each : ∀ ss : List (List Recorded), (∀ s ∈ ss, s ∈ run.checked) →
      (ss.map rangeOf).flatMap ChecksumInfo.positions =
        (ss.filter fun s => Short s).flatMap spanWords := by
    intro ss inside
    induction ss with
    | nil => rfl
    | cons s ss ih =>
      obtain ⟨here, later⟩ := List.forall_mem_cons.mp inside
      rw [List.map_cons, List.flatMap_cons, ih later, run.positions_eq here, List.filter_cons]
      by_cases short : Short s <;> simp [short]
  rw [csi_eq, places]
  exact each _ fun _ => id

theorem RecordedRun.count_places (run : RecordedRun t m) (short : ∀ s ∈ run.checked, Short s)
    (aligned : p % 4 = 0) : run.places.count p = run.readings p := by
  have all : (run.checked.filter fun s => Short s) = run.checked :=
    List.filter_eq_self.mpr fun s member => decide_eq_true (short s member)
  rw [places, all, readings]
  induction run.checked with
  | nil => rfl
  | cons s ss ih =>
    rw [List.flatMap_cons, List.count_append, ih, List.countP_cons, Nat.add_comm]
    congr 1
    by_cases held : InSpan s p
    · rw [(nodup_spanWords s).count, if_pos (mem_spanWords.mpr ⟨aligned, held⟩)]
      simp [held]
    · rw [List.count_eq_zero_of_not_mem fun member => held (mem_spanWords.mp member).2]
      simp [held]

theorem length_stretches_le (jumps : Recorded → Bool) (xs : List Recorded) :
    (Jit.stretches jumps xs).length ≤ xs.length := by
  induction xs with
  | nil => exact Nat.le_refl 0
  | cons x xs ih =>
    rw [Jit.stretches]
    split
    · exact Nat.succ_le_succ ih
    · split
      · exact Nat.succ_le_succ (Nat.zero_le _)
      next eq =>
        rw [eq] at ih
        exact Nat.le_succ_of_le ih

theorem RecordedRun.readings_le (run : RecordedRun t m) (p : Nat) :
    run.readings p ≤ maxrun + 1 := by
  have all : run.checked.length ≤ run.pcHist.length + 1 := by
    rw [RecordedRun.checked, Jit.checked, List.length_append]
    refine Nat.add_le_add (length_stretches_le _ _) ?_
    split <;> simp
  exact (List.countP_le_length).trans (all.trans (Nat.add_le_add_right run.count 1))

theorem RecordedRun.aligned (run : RecordedRun t m) (member : p ∈ run.places) : p % 4 = 0 := by
  obtain ⟨s, -, inside⟩ := List.mem_flatMap.mp member
  exact (mem_spanWords.mp inside).1

/-! ### Changes in memory -/

theorem loadLong_bit (m : CodeMemory) (p : Nat) {i : Nat} (inside : i < 32) :
    (loadLong m p).getLsbD i = (m (p + i / 8)).getLsbD (i % 8) := by
  simp only [loadLong, BitVec.getLsbD_append]
  split
  · rw [Nat.div_eq_of_lt ‹_›, Nat.mod_eq_of_lt ‹_›, Nat.add_zero]
  · split
    · rw [show i / 8 = 1 by omega, show i % 8 = i - 8 by omega]
    · split
      · rw [show i / 8 = 2 by omega, show i % 8 = i - 8 - 8 by omega]
      · rw [show i / 8 = 3 by omega, show i % 8 = i - 8 - 8 - 8 by omega]

theorem exists_bit_of_ne {v w : BitVec 32} (differ : v ≠ w) :
    ∃ i < 32, v.getLsbD i ≠ w.getLsbD i := by
  by_contra same
  push Not at same
  exact differ (BitVec.eq_of_getLsbD_eq same)

/-- One long word at `a` has changed and nothing else. -/
structure Changed (m m' : CodeMemory) (a : Nat) : Prop where
  word : loadLong m' a ≠ loadLong m a
  kept : ∀ x, x < a ∨ a + 4 ≤ x → m' x = m x

variable {m' : CodeMemory} {a : Nat}

theorem Changed.within {m : CodeMemory} (changed : Changed m m' a) {i : Nat} (inside : i < 32)
    (differs : (loadLong m' p).getLsbD i ≠ (loadLong m p).getLsbD i) :
    a ≤ p + i / 8 ∧ p + i / 8 < a + 4 := by
  by_contra out
  apply differs
  rw [loadLong_bit _ _ inside, loadLong_bit _ _ inside, changed.kept _ (by omega)]

/-- A byte of an instruction of the run -/
def RecordedRun.Holds (run : RecordedRun t m) (x : Nat) : Prop :=
  ∃ inst ∈ run.pcHist, inst.location ≤ x ∧ x < inst.location + inst.length

/-- The long word at `a` is one of instructions. -/
def RecordedRun.HoldsLong (run : RecordedRun t m) (a : Nat) : Prop :=
  ∀ x, a ≤ x → x < a + 4 → run.Holds x

variable {run : RecordedRun t m}

theorem RecordedRun.Holds.other_byte {x : Nat} (held : run.Holds x) (first : x % 2 = 0) :
    run.Holds (x + 1) := by
  obtain ⟨inst, member, from_, below⟩ := held
  obtain ⟨location, length⟩ := run.even inst member
  exact ⟨inst, member, by omega, by omega⟩

/-- The words of instructions are read, and those whose top byte may change an odd number of
times. -/
def RecordedRun.Counted (run : RecordedRun t m) : Prop :=
  ∀ p a, p % 4 = 0 → run.HoldsLong a → a < p + 4 → p < a + 4 →
    run.readings p ≠ 0 ∧ (p ≤ a → Odd (run.readings p))

theorem byte_bit (m : CodeMemory) (x : Nat) {j : Nat} (inside : j < 8) :
    (loadLong m (x - x % 4)).getLsbD (8 * (x % 4) + j) = (m x).getLsbD j := by
  rw [loadLong_bit _ _ (by omega), show x - x % 4 + (8 * (x % 4) + j) / 8 = x by omega,
    show (8 * (x % 4) + j) % 8 = j by omega]

/-- A change of a long word is one of the aligned words it is in. -/
theorem Changed.aligned_word {m : CodeMemory} (changed : Changed m m' a) :
    loadLong m' (a - a % 4) ≠ loadLong m (a - a % 4) ∨
      loadLong m' (a - a % 4 + 4) ≠ loadLong m (a - a % 4 + 4) := by
  obtain ⟨i, inside, differs⟩ := exists_bit_of_ne changed.word
  rw [loadLong_bit _ _ inside, loadLong_bit _ _ inside] at differs
  have small : i % 8 < 8 := Nat.mod_lt i (by decide)
  rw [← byte_bit m' _ small, ← byte_bit m _ small] at differs
  generalize x_eq : a + i / 8 = x at differs
  by_cases first : x - x % 4 = a - a % 4
  · rw [first] at differs
    exact .inl fun same => differs (by rw [same])
  · have second : x - x % 4 = a - a % 4 + 4 := by omega
    rw [second] at differs
    exact .inr fun same => differs (by rw [same])

theorem Changed.elsewhere {m : CodeMemory} {r : Nat} (changed : Changed m m' a)
    (aligned : r % 4 = 0) (first : r ≠ a - a % 4) (second : r ≠ a - a % 4 + 4) :
    loadLong m' r = loadLong m r := by
  by_contra differ
  obtain ⟨i, inside, differs⟩ := exists_bit_of_ne differ
  have within := changed.within inside differs
  omega

theorem Changed.lanes {m : CodeMemory} {i : Nat} (changed : Changed m m' a) (inside : i < 32) :
    (loadLong m' (a - a % 4)).getLsbD i = (loadLong m (a - a % 4)).getLsbD i ∨
      (loadLong m' (a - a % 4 + 4)).getLsbD i = (loadLong m (a - a % 4 + 4)).getLsbD i := by
  by_contra both
  obtain ⟨first, second⟩ := not_or.mp both
  have in_first := changed.within inside first
  have in_second := changed.within inside second
  omega

/-- The upper half of the second word is out of reach where the long word begins in the first half
of the first. -/
theorem Changed.high {m : CodeMemory} (changed : Changed m m' a) (half : a % 4 ≤ 2) :
    (loadLong m' (a - a % 4 + 4)).toNat / 2 ^ 16 = (loadLong m (a - a % 4 + 4)).toNat / 2 ^ 16 := by
  have shifted : loadLong m' (a - a % 4 + 4) >>> 16 = loadLong m (a - a % 4 + 4) >>> 16 := by
    apply BitVec.eq_of_getLsbD_eq
    intro i _
    rw [BitVec.getLsbD_ushiftRight, BitVec.getLsbD_ushiftRight]
    by_cases inside : 16 + i < 32
    · by_contra differs
      have within := changed.within inside differs
      omega
    · rw [BitVec.getLsbD_of_ge _ _ (by omega), BitVec.getLsbD_of_ge _ _ (by omega)]
  have equal := congrArg BitVec.toNat shifted
  rwa [BitVec.toNat_ushiftRight, BitVec.toNat_ushiftRight, Nat.shiftRight_eq_div_pow,
    Nat.shiftRight_eq_div_pow] at equal

theorem RecordedRun.calcChecksum_eq (run : RecordedRun t m) (m' : CodeMemory) :
    calcChecksum m' run.csi = WordSums.sums (loadLong m') run.places := by
  rw [calcChecksum, flatMap_positions]

/-- No change of a long word of instructions leaves both sums as they were. -/
theorem RecordedRun.calcChecksum_ne (run : RecordedRun t m) (short : ∀ s ∈ run.checked, Short s)
    (counted : run.Counted) (held : run.HoldsLong a) (changed : Changed m m' a) :
    calcChecksum m' run.csi ≠ calcChecksum m run.csi := by
  rw [calcChecksum_eq, calcChecksum_eq]
  have first_aligned : (a - a % 4) % 4 = 0 := by omega
  have second_aligned : (a - a % 4 + 4) % 4 = 0 := by omega
  obtain ⟨-, odd⟩ := counted (a - a % 4) a first_aligned held (by omega) (by omega)
  have elsewhere : ∀ r ∈ run.places, r ≠ a - a % 4 → r ≠ a - a % 4 + 4 →
      loadLong m' r = loadLong m r := fun r member => changed.elsewhere (run.aligned member)
  by_cases first : loadLong m' (a - a % 4) = loadLong m (a - a % 4)
  · -- The change is in the lower bytes of the second word, and `a` is not aligned.
    have second := changed.aligned_word.resolve_left (not_not_intro first)
    obtain ⟨i, inside, differs⟩ := exists_bit_of_ne second
    have reached := changed.within inside differs
    obtain ⟨some_read, -⟩ := counted _ a second_aligned held (by omega) (by omega)
    by_cases parity : Odd (run.readings (a - a % 4 + 4))
    · exact WordSums.sums_ne_of_odd (p := a - a % 4 + 4) (q := a - a % 4) (by omega)
        (fun r member second first => elsewhere r member first second)
        (by rwa [run.count_places short second_aligned]) differs (by rw [first])
    · have half : a % 4 ≤ 2 := by
        by_contra high
        -- The fourth byte of the second word would belong to the run with the third.
        have last_byte := (held (a + 3) (by omega) (by omega)).other_byte (by omega)
        rw [show a + 3 + 1 = a - a % 4 + 7 by omega] at last_byte
        have whole : run.HoldsLong (a - a % 4 + 4) := by
          intro x from_ below
          by_cases top : x = a - a % 4 + 7
          · exact top ▸ last_byte
          · exact held x (by omega) (by omega)
        exact parity ((counted _ _ second_aligned whole (by omega) (by omega)).2 (Nat.le_refl _))
      refine WordSums.sums_ne_of_low (p := a - a % 4 + 4) (k := 16) (fun r member apart => ?_) ?_ ?_
        second (changed.high half)
      · by_cases at_first : r = a - a % 4
        · rw [at_first, first]
        · exact elsewhere r member at_first apart
      · rwa [run.count_places short second_aligned]
      · rw [run.count_places short second_aligned]
        have few := run.readings_le (a - a % 4 + 4)
        simp only [maxrun] at few
        omega
  · obtain ⟨i, inside, differs⟩ := exists_bit_of_ne first
    exact WordSums.sums_ne_of_odd (by omega) elsewhere
      (by rw [run.count_places short first_aligned]; exact odd (by omega)) differs
      ((changed.lanes inside).resolve_left differs)

/-! ### Changes that are missed -/

theorem toNat_append_byte {w : Nat} (v : BitVec w) (b : BitVec 8) :
    (v ++ b).toNat = 256 * v.toNat + b.toNat := by
  rw [BitVec.toNat_append, ← Nat.shiftLeft_add_eq_or_of_lt b.isLt, Nat.shiftLeft_eq]
  omega

theorem changed_update {x : Nat} {v : BitVec 8} (from_ : a ≤ x) (below : x < a + 4)
    (differs : v ≠ m x) : Changed m (Function.update m x v) a := by
  refine ⟨fun same => differs ?_, fun y out => Function.update_of_ne (by omega) _ _⟩
  apply BitVec.eq_of_getLsbD_eq
  intro j inside
  have bit := congrArg (BitVec.getLsbD · (8 * (x - a) + j)) same
  rw [loadLong_bit _ _ (by omega), loadLong_bit _ _ (by omega)] at bit
  rwa [show a + (8 * (x - a) + j) / 8 = x by omega, show (8 * (x - a) + j) % 8 = j by omega,
    Function.update_self] at bit

theorem loadLong_update_top (m : CodeMemory) (p : Nat) :
    loadLong (Function.update m (p + 3) (m (p + 3) + 128)) p = loadLong m p + BitVec.twoPow 32 31 := by
  apply BitVec.eq_of_toNat_eq
  rw [BitVec.toNat_add, BitVec.toNat_twoPow_of_lt (by decide)]
  simp only [loadLong, toNat_append_byte, Function.update_self, BitVec.toNat_add]
  rw [Function.update_of_ne (by omega), Function.update_of_ne (by omega),
    Function.update_of_ne (by omega)]
  have byte := (m (p + 3)).isLt
  simp
  omega

theorem loadLong_update_of_out {x r : Nat} (v : BitVec 8) (out : x < r ∨ r + 4 ≤ x) :
    loadLong (Function.update m x v) r = loadLong m r :=
  loadLong_congr fun y from_ below => Function.update_of_ne (by omega) _ _

/-- Where the words are not counted, there is a change that the sums do not show. -/
theorem RecordedRun.exists_missed (run : RecordedRun t m) (short : ∀ s ∈ run.checked, Short s)
    (uncounted : ¬ run.Counted) :
    ∃ a m', run.HoldsLong a ∧ Changed m m' a ∧
      calcChecksum m' run.csi = calcChecksum m run.csi := by
  unfold RecordedRun.Counted at uncounted
  push Not at uncounted
  obtain ⟨p, a, aligned, held, above, below, missed⟩ := uncounted
  simp only [calcChecksum_eq]
  -- Any byte of the word will do when it is not read, and the top one when it is read twice.
  by_cases unread : run.readings p = 0
  · let x := max a p
    refine ⟨a, Function.update m x (m x + 1), held,
      changed_update (by omega) (by omega) (by simp), WordSums.sums_congr fun r member => ?_⟩
    have other : r ≠ p := by
      rintro rfl
      rw [← run.count_places short aligned] at unread
      exact List.count_eq_zero.mp unread member
    have r_aligned := run.aligned member
    exact loadLong_update_of_out _ (by omega)
  · obtain ⟨inside, even⟩ := missed unread
    refine ⟨a, Function.update m (p + 3) (m (p + 3) + 128), held,
      changed_update (by omega) (by omega) ?_,
      WordSums.sums_eq_of_even (p := p) (fun r member other => ?_) ?_ (loadLong_update_top m p)⟩
    · intro same
      exact absurd (add_eq_left.mp same) (by decide)
    · have r_aligned := run.aligned member
      exact loadLong_update_of_out _ (by omega)
    · rw [run.count_places short aligned]
      exact Nat.not_odd_iff_even.mp even

/-! ### block_check_checksum -/

section

open BackLinks StepSystem

variable {s : JitState} {bi fuel : Nat}

theorem setDhtu_ends {ds : List DepId} (chain : s.deps.Chain (.head bi) ds)
    (enough : ds.length ≤ fuel) (dh : Nat) : ∃ s', s.setDhtu fuel bi dh = some s' := by
  unfold JitState.setDhtu
  split
  · -- The loop goes along the chain, which it does not change.
    let I (rest : List DepId) (now : JitState) : Prop :=
      now.deps = s.deps ∧ ∃ r, s.deps.Chain r rest
    have body (x : DepId) (rest : List DepId) (now : JitState) (held : I (x :: rest) now) :
        (adjustBody dh x now).2 = rest.head? ∧ I rest (adjustBody dh x now).1 := by
      obtain ⟨deps, r, along⟩ := held
      unfold adjustBody
      split <;> exact ⟨by simpa [JitState.adjustJmpdep, deps] using along.2.link_eq, deps, _, along.2⟩
    have start : I ds s := ⟨rfl, _, chain⟩
    obtain ⟨now, ends⟩ := whileNode_ends I body start enough
    rw [chain.link_eq, ends]
    exact ⟨_, rfl⟩
  · exact ⟨s, rfl⟩

variable {env : Env}

theorem invalidateBlock_ends {ds : List DepId} (chain : s.deps.Chain (.head bi) ds)
    (enough : ds.length ≤ fuel) : ∃ s', s.invalidateBlock env fuel bi = some s' := by
  obtain ⟨now, ends⟩ := setDhtu_ends (s := s.modify bi fun b =>
    { b with
      optlevel := 0
      count := 10 - 1
      handler := 0
      handlerToUse := env.popallExecuteNormal
      directHandler := 0 }) chain enough _
  rw [JitState.invalidateBlock, ends]
  exact ⟨_, rfl⟩

variable {sums : Nat → BitVec 32 × BitVec 32}

/-- A block that has changed is invalidated, and the check says so. -/
theorem blockCheckChecksum_bad (consistent : s.Consistent) (live : s.live bi = true)
    (status : (s.block bi).status = .needCheck) (bad : s.isGood sums bi = false) :
    ∃ n, ∀ fuel, n ≤ fuel → ∀ depth, ∃ s',
      blockCheckChecksum env fuel sums (depth + 1) bi s = some (false, s') := by
  obtain ⟨M, C, D, holds⟩ := consistent
  refine ⟨(D bi).length, fun fuel enough depth => ?_⟩
  obtain ⟨s', ends⟩ : ∃ s', s.invalidateBlock env fuel bi = some s' :=
    invalidateBlock_ends (holds.deps.chain bi live) enough
  refine ⟨s'.raiseInClList env bi, ?_⟩
  simp [blockCheckChecksum, status, bad, ends]

theorem setDhtu_dep {s' : JitState} {dh : Nat} (set : s.setDhtu fuel bi dh = some s') (d : DepId) :
    s'.dep d = s.dep d := by
  unfold JitState.setDhtu at set
  split at set
  · obtain ⟨now, looped, rfl⟩ := Option.map_eq_some_iff.mp set
    have block : now.block = s.block := by
      refine whileNode_keeps (fun now => now.block = s.block) (fun x now same => ?_) rfl looped
      unfold adjustBody
      split <;> exact same
    have same := modify_keeps Blockinfo.dep now bi (fun b => { b with directHandlerToUse := dh }) d.1
      rfl
    rw [JitState.dep, same, block]
  · cases set
    rfl

/-- A block that looks unchanged, with no jumps to others, passes. -/
theorem blockCheckChecksum_good {s' : JitState} {depth : Nat} {isgood : Bool}
    (good : s.isGood sums bi = true) (jumps : ∀ i, (s.dep (bi, i)).jmpOff = none)
    (checked : blockCheckChecksum env fuel sums (depth + 1) bi s = some (isgood, s')) :
    isgood = true := by
  by_cases status : (s.block bi).status = .needCheck
  · simp only [blockCheckChecksum, status, good, ne_eq, not_true_eq_false, if_false, if_true,
      Option.bind_eq_some_iff] at checked
    obtain ⟨⟨called, now⟩, ⟨set, redirected, callees⟩, ends⟩ := checked
    -- There is nothing for `called_check_checksum` to look at.
    have idle (i : Fin 2) :
        ((set.modify bi fun b => { b with status := .checking }).dep (bi, i)).jmpOff = none := by
      rw [JitState.dep, modify_keeps Blockinfo.dep set bi _ bi rfl]
      change (set.dep (bi, i)).jmpOff = none
      rw [setDhtu_dep redirected, JitState.dep, modify_keeps Blockinfo.dep s bi _ bi rfl]
      exact jumps i
    simp only [calledCheckChecksum, idle, Option.some.injEq, Prod.mk.injEq] at callees
    rw [← callees.1] at ends
    simp only [if_true, Option.some.injEq, Prod.mk.injEq] at ends
    exact ends.1.symm
  · simp only [blockCheckChecksum, status, ne_eq, not_false_eq_true, if_true, Option.some.injEq,
      Prod.mk.injEq] at checked
    exact checked.1.symm

theorem isGood_iff :
    s.isGood sums bi = true ↔ ((s.block bi).c1, (s.block bi).c2) ≠ (0, 0) ∧
      sums bi = ((s.block bi).c1, (s.block bi).c2) := by
  rw [Ne, Prod.mk.injEq, not_and_or, JitState.isGood]
  by_cases shown : (s.block bi).c1 ≠ 0 ∨ (s.block bi).c2 ≠ 0
  · rw [if_pos shown]
    simp only [Prod.ext_iff, Bool.and_eq_true, decide_eq_true_eq]
    exact (and_iff_right shown).symm
  · obtain ⟨c1, c2⟩ : (s.block bi).c1 = 0 ∧ (s.block bi).c2 = 0 := by simpa using shown
    simp [c1, c2]

variable (m) in
/-- Every block that is to be checked, with the sums `compile_block` stored, fails the check when
memory is `m'`. -/
def Caught (csi : List ChecksumInfo) (m' : CodeMemory) : Prop :=
  ∀ (env : Env) (memory s : JitState) (bi : Nat) (sums : Nat → BitVec 32 × BitVec 32),
    Reachable (JitState.step env) JitState.Guard (memory.buildComp env) s →
    s.live bi = true → (s.block bi).status = .needCheck →
    ((s.block bi).c1, (s.block bi).c2) = calcChecksum m csi → sums bi = calcChecksum m' csi →
      ∃ n, ∀ fuel, n ≤ fuel → ∀ depth, ∃ s',
        blockCheckChecksum env fuel sums (depth + 1) bi s = some (false, s')

/-- A block without jumps is compiled, and caches are flushed. -/
def lazilyFlushed (c : BitVec 32 × BitVec 32) : List (Nat × Event) :=
  [(4, .compileStart ⟨0x4000, rfl⟩), (4, .compileEnd false false [0x81] fun _ => c),
    (4, .flushIcacheLazy)]

theorem lazilyFlushed_reaches (c : BitVec 32 × BitVec 32) : ∃ s : JitState,
    Reachable (JitState.step smallCache) JitState.Guard (JitState.zeroed.buildComp smallCache) s ∧
    s.live 25 = true ∧ (s.block 25).status = .needCheck ∧
      ((s.block 25).c1, (s.block 25).c2) = c ∧ ∀ i, (s.dep (25, i)).jmpOff = none := by
  have executed : ((exec (guarded (JitState.step smallCache) JitState.Guard)
      (JitState.zeroed.buildComp smallCache) (lazilyFlushed c)).map fun s =>
        (s.live 25, (s.block 25).status, ((s.block 25).c1, (s.block 25).c2),
          (s.dep (25, 0)).jmpOff, (s.dep (25, 1)).jmpOff)) =
      some (true, .needCheck, (c.1, c.2), none, none) := by
    cbv
  obtain ⟨s, executed, facts⟩ := Option.map_eq_some_iff.mp executed
  simp only [Prod.mk.injEq] at facts
  obtain ⟨live, status, ⟨c1, c2⟩, first, second⟩ := facts
  refine ⟨s, ⟨_, run_of_guarded_exec executed⟩, live, status, by rw [c1, c2], ?_⟩
  exact Fin.forall_fin_two.mpr ⟨first, second⟩

theorem caught_iff {csi : List ChecksumInfo} {m' : CodeMemory} :
    Caught m csi m' ↔
      calcChecksum m csi = (0, 0) ∨ calcChecksum m' csi ≠ calcChecksum m csi := by
  constructor
  · intro caught
    by_contra unlike
    obtain ⟨shown, same⟩ := not_or.mp unlike
    obtain ⟨s, reached, live, status, stored, jumps⟩ := lazilyFlushed_reaches (calcChecksum m csi)
    obtain ⟨n, fails⟩ := caught smallCache JitState.zeroed s 25 (fun _ => calcChecksum m' csi)
      reached
      live status stored rfl
    obtain ⟨s', checked⟩ := fails n (Nat.le_refl n) 0
    refine absurd (blockCheckChecksum_good ?_ jumps checked) Bool.false_ne_true
    rw [isGood_iff, stored]
    exact ⟨shown, not_not.mp same⟩
  · intro differ env memory s bi sums reached live status stored now
    refine blockCheckChecksum_bad (block_lists_consistent env memory reached) live status ?_
    rw [← Bool.not_eq_true, isGood_iff, stored, now]
    rintro ⟨shown, same⟩
    exact differ.elim shown fun other => other same

end

/-! ### Coverage -/

/-- All of the run is in ROM, so that its block is never to be checked. -/
def RecordedRun.InRom (run : RecordedRun t m) : Prop :=
  ∀ x ∈ run.pcHist, t.isinrom x.location = true

theorem RecordedRun.traceInRom_iff (run : RecordedRun t m) :
    run.walk.traceInRom = true ↔ run.InRom := by
  have all : ∀ (w : Walk) (xs : List Recorded), (xs.foldr (Walk.visit t m) w).traceInRom = true ↔
      w.traceInRom = true ∧ ∀ x ∈ xs, t.isinrom x.location = true := by
    intro w xs
    induction xs with
    | nil => simp
    | cons x xs ih =>
      have round (w : Walk) : (Walk.visit t m x w).traceInRom =
          (w.traceInRom && t.isinrom x.location) := by
        unfold Walk.visit
        split <;> rfl
      rw [List.foldr_cons, round, Bool.and_eq_true, ih, List.forall_mem_cons, and_assoc,
        and_comm (b := t.isinrom x.location = true)]
  rw [RecordedRun.walk, compileBlock, all, RecordedRun.InRom]
  exact and_iff_right_of_imp fun inRom => inRom _ (List.head_mem run.ne_nil)

/-- The ranges hold all stretches with room for their last instructions; they are read, or the block
is never good again; and a long word of the run's instructions does not change without the check
failing. -/
structure RecordedRun.Covered (run : RecordedRun t m) : Prop where
  holds : ∀ s ∈ run.stretches, ∃ csi ∈ run.csi, ∀ x, firstLocation s ≤ x →
    x < lastLocation s + longest68kInst → csi.startP ≤ x ∧ x < csi.startP + csi.length.toNat
  read : run.walk.traceInRom = false → (∀ csi ∈ run.csi, csi.Read) ∨ ∀ m', Caught m run.csi m'
  caught : run.walk.traceInRom = false → ∀ a m', run.HoldsLong a → Changed m m' a →
    Caught m run.csi m'

theorem RecordedRun.stretches_held (run : RecordedRun t m) : ∀ s ∈ run.stretches,
    ∃ csi ∈ run.csi, ∀ x, firstLocation s ≤ x → x < lastLocation s + longest68kInst →
      csi.startP ≤ x ∧ x < csi.startP + csi.length.toNat := by
  intro s member
  have inside : s ∈ run.checked := List.mem_append_left _ member
  refine ⟨rangeOf s, run.csi_eq ▸ List.mem_map_of_mem inside, fun x from_ below => ⟨from_, ?_⟩⟩
  rw [show (rangeOf s).startP = firstLocation s from rfl, run.rangeOf_toNat inside]
  exact below

theorem RecordedRun.read_all_iff (run : RecordedRun t m) :
    (∀ csi ∈ run.csi, csi.Read) ↔ ∀ s ∈ run.checked, Short s := by
  rw [csi_eq, List.forall_mem_map]
  exact forall₂_congr fun s member => run.read_iff member

/-- The words of all ranges that are not too long sum up to 0, both ways. -/
def RecordedRun.Blank (run : RecordedRun t m) : Prop :=
  WordSums.sums (loadLong m) run.places = (0, 0)

theorem RecordedRun.outside_iff (run : RecordedRun t m) :
    run.walk.traceInRom = false ↔ ¬ run.InRom := by
  rw [← run.traceInRom_iff, Bool.not_eq_true]

theorem RecordedRun.caught_iff (run : RecordedRun t m) :
    Caught m run.csi m' ↔
      run.Blank ∨ calcChecksum m' run.csi ≠ calcChecksum m run.csi := by
  rw [Jit.caught_iff, run.calcChecksum_eq m, RecordedRun.Blank]

/-- A range that is not read makes no difference to a check that may be passed. -/
theorem RecordedRun.Covered.short (covered : run.Covered) (inRom : ¬ run.InRom)
    (blank : ¬ run.Blank) : ∀ s ∈ run.checked, Short s := by
  rcases covered.read (run.outside_iff.mpr inRom) with read | never
  · exact run.read_all_iff.mp read
  · exact ((run.caught_iff.mp (never m)).resolve_left blank rfl).elim

theorem RecordedRun.Covered.counted (covered : run.Covered) (inRom : ¬ run.InRom)
    (blank : ¬ run.Blank) : run.Counted := by
  by_contra uncounted
  obtain ⟨a, m', held, changed, same⟩ :=
    run.exists_missed (covered.short inRom blank) uncounted
  rcases run.caught_iff.mp (covered.caught (run.outside_iff.mpr inRom) a m' held changed) with
    shown | other
  · exact blank shown
  · exact other same

theorem covered_iff (run : RecordedRun t m) :
    run.Covered ↔
      run.InRom ∨ run.Blank ∨ (∀ s ∈ run.checked, Short s) ∧ run.Counted := by
  constructor
  · intro covered
    by_contra unlike
    simp only [not_or] at unlike
    obtain ⟨inRom, blank, unmet⟩ := unlike
    exact unmet ⟨covered.short inRom blank, covered.counted inRom blank⟩
  · intro condition
    refine ⟨run.stretches_held, fun checked => ?_, fun checked a m' held changed => ?_⟩
    · rcases condition with inRom | blank | ⟨short, -⟩
      · exact absurd inRom (run.outside_iff.mp checked)
      · exact .inr fun m' => run.caught_iff.mpr (.inl blank)
      · exact .inl (run.read_all_iff.mpr short)
    · rcases condition with inRom | blank | ⟨short, counted⟩
      · exact absurd inRom (run.outside_iff.mp checked)
      · exact run.caught_iff.mpr (.inl blank)
      · exact run.caught_iff.mpr (.inr (run.calcChecksum_ne short counted held changed))

/-- BRA.W to 0x2000, with the opcode 0x6000, at 0x1000, and ORI #0,CCR elsewhere. -/
def branchMemory : CodeMemory := fun a =>
  if a = 0x1000 then 0x60 else if a = 0x1002 then 0x0F else if a = 0x1003 then 0xFE else 0

def inlining : Tracer where
  followConstJumps := true
  isConstJump opcode := opcode = 0x6000
  romBaseHost := 0
  romSize := 0

/-- The branch is recorded alone. -/
def lonelyBranch : RecordedRun inlining branchMemory where
  pcHist := [⟨0x1000, 4⟩]
  ne_nil := by decide
  count := by decide
  even := by decide
  sized := by decide
  follows := .singleton _

/-- The branch, and as many instructions from 0x2000 on as are recorded. -/
def longStretch : RecordedRun inlining branchMemory where
  pcHist := ⟨0x1000, 4⟩ :: (List.range 1023).map fun i => ⟨0x2000 + 4 * i, 4⟩
  ne_nil := List.cons_ne_nil _ _
  count := by simp [maxrun]
  even := by simp; omega
  sized := by simp
  follows := by decide +kernel

theorem blocks_miss_changes : ¬ lonelyBranch.Covered ∧ ¬ longStretch.Covered := by
  constructor
  · intro covered
    have inRom : ¬ lonelyBranch.InRom := fun all => absurd (all ⟨0x1000, 4⟩ (by decide)) (by decide)
    have blank : ¬ lonelyBranch.Blank := by
      unfold RecordedRun.Blank
      decide +kernel
    have held : lonelyBranch.HoldsLong 0x1000 := fun x from_ below =>
      ⟨⟨0x1000, 4⟩, by decide, from_, below⟩
    have twice : lonelyBranch.readings 0x1000 = 2 := by decide +kernel
    obtain ⟨-, odd⟩ := covered.counted inRom blank 0x1000 0x1000 (by decide) held (by decide)
      (by decide)
    exact absurd (twice ▸ odd (Nat.le_refl _)) (by decide)
  · intro covered
    have inRom : ¬ longStretch.InRom := fun all => absurd (all ⟨0x1000, 4⟩ (by decide)) (by decide)
    have blank : ¬ longStretch.Blank := by
      unfold RecordedRun.Blank
      decide +kernel
    have long : ∃ s ∈ longStretch.checked, ¬ Short s := by
      unfold Short
      decide +kernel
    obtain ⟨s, member, overlong⟩ := long
    exact overlong (covered.short inRom blank s member)

end BasiliskII.Jit
