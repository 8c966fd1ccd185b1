import Mathlib.Data.List.GetD

/-!
# Squeezing the empty cells out of an array

A loop over a shrinking prefix of an array: wherever it meets empty cells, it
moves the cells behind them down over them. What is left of the prefix are its
full cells, in their order.
-/
namespace Compaction

variable {α : Type}

/-- Copy `n` cells from `j` on to the places `k` lower, the lowest first. -/
def moveDown (k : Nat) : Nat → Nat → List (Option α) → List (Option α)
  | 0, _, cells => cells
  | n + 1, j, cells => moveDown k n (j + 1) (cells.set (j - k) (cells.getD j none))

/-- The first full cell from `k` on, or the one behind the `n` empty cells looked at. -/
def firstFull (cells : List (Option α)) : Nat → Nat → Nat
  | 0, k => k
  | n + 1, k => if (cells.getD k none).isSome then k else firstFull cells n (k + 1)

/-- An array and how many of its cells count. -/
structure Prefixed (α : Type) where
  count : Nat
  cells : List (Option α)
  deriving DecidableEq, Repr

def Prefixed.live (s : Prefixed α) : List (Option α) := s.cells.take s.count

/-- What the loop does at the place `i`. -/
def Prefixed.close (s : Prefixed α) (i : Nat) : Prefixed α :=
  let k := firstFull s.cells (s.count - i) i
  if k > i then ⟨s.count - (k - i), moveDown (k - i) (s.count - k) k s.cells⟩ else s

def squeeze : Nat → Nat → Prefixed α → Prefixed α
  | 0, _, s => s
  | fuel + 1, i, s => if i < s.count then squeeze fuel (i + 1) (s.close i) else s

-- `j + n` bounds the reads; a cell is overwritten only after it has been read.
theorem getElem?_moveDown {k n j : Nat} {cells : List (Option α)} (positive : 0 < k)
    (room : k ≤ j) (inside : j + n ≤ cells.length) (m : Nat) :
    (moveDown k n j cells)[m]? =
      if j ≤ m + k ∧ m + k < j + n then cells[m + k]? else cells[m]? := by
  induction n generalizing j cells with
  | zero =>
    rw [if_neg (by omega)]
    rfl
  | succ n ih =>
    have read : j < cells.length := by omega
    rw [moveDown, ih (by omega) (by simpa using by omega)]
    simp only [List.getElem?_set]
    by_cases here : j - k = m
    · obtain rfl : j = m + k := by omega
      rw [if_neg (by omega), if_pos here, if_pos (by omega), if_pos (by omega)]
      simp [read]
    · have apart : j - k ≠ m + k ∨ ¬ (j + 1 ≤ m + k ∧ m + k < j + 1 + n) := by omega
      by_cases moved : j + 1 ≤ m + k ∧ m + k < j + 1 + n
      · rw [if_pos moved, if_neg (by omega), if_pos (by omega)]
      · rw [if_neg moved, if_neg here, if_neg (by omega)]

theorem length_moveDown (k n j : Nat) (cells : List (Option α)) :
    (moveDown k n j cells).length = cells.length := by
  induction n generalizing j cells with
  | zero => rfl
  | succ n ih => rw [moveDown, ih, List.length_set]

/-- Moving everything behind `k` down to `i` drops the cells between. -/
theorem take_moveDown {i k count : Nat} {cells : List (Option α)} (gap : i < k)
    (within : k ≤ count) (inside : count ≤ cells.length) :
    (moveDown (k - i) (count - k) k cells).take (count - (k - i)) =
      cells.take i ++ (cells.take count).drop k := by
  apply List.ext_getElem?
  intro m
  have before : (cells.take i).length = i := by
    rw [List.length_take]
    omega
  rw [List.getElem?_take, getElem?_moveDown (by omega) (by omega) (by omega)]
  by_cases low : m < i
  · rw [if_pos (by omega), if_neg (by omega), List.getElem?_append_left (by omega),
      List.getElem?_take, if_pos low]
  · rw [List.getElem?_append_right (by omega), before, List.getElem?_drop, List.getElem?_take]
    have place : m + (k - i) = k + (m - i) := by omega
    by_cases kept : m < count - (k - i)
    · rw [if_pos kept, if_pos (by omega), if_pos (by omega), place]
    · rw [if_neg kept, if_neg (by omega)]

/-- The search passes empty cells only, and stops at a full one if it stops early. -/
theorem firstFull_spec (cells : List (Option α)) (n k : Nat) :
    k ≤ firstFull cells n k ∧ firstFull cells n k ≤ k + n ∧
      (∀ m, k ≤ m → m < firstFull cells n k → cells.getD m none = none) ∧
      (firstFull cells n k < k + n → (cells.getD (firstFull cells n k) none).isSome) := by
  induction n generalizing k with
  | zero =>
    refine ⟨Nat.le_refl _, Nat.le_refl _, ?_, ?_⟩
    · intro m low high
      simp only [firstFull] at high
      omega
    · intro early
      exact absurd early (Nat.lt_irrefl _)
  | succ n ih =>
    rw [firstFull]
    by_cases full : (cells.getD k none).isSome
    · rw [if_pos full]
      exact ⟨Nat.le_refl _, Nat.le_add_right _ _, fun m low high => by omega, fun _ => full⟩
    · rw [if_neg full]
      obtain ⟨low, high, empty, stop⟩ := ih (k + 1)
      refine ⟨by omega, by omega, ?_, fun early => stop (by omega)⟩
      intro m from_k below
      rcases Nat.eq_or_lt_of_le from_k with rfl | later
      · simpa using full
      · exact empty m later below

/-- What the loop keeps: the cells lie in the array, and those before `i` are full. -/
structure Squeezed (i : Nat) (s : Prefixed α) : Prop where
  inside : s.count ≤ s.cells.length
  full : ∀ m, m < i → m < s.count → (s.cells.getD m none).isSome

theorem live_split (s : Prefixed α) {i k : Nat} (ordered : i ≤ k) (within : k ≤ s.count) :
    s.live = s.cells.take i ++ (s.live.drop i).take (k - i) ++ s.live.drop k := by
  have start : s.cells.take i = s.live.take i := by
    rw [Prefixed.live, List.take_take, Nat.min_eq_left (Nat.le_trans ordered within)]
  have tail : s.live.drop k = (s.live.drop i).drop (k - i) := by
    rw [List.drop_drop]
    congr 1
    omega
  rw [start, tail, List.append_assoc, List.take_append_drop, List.take_append_drop]

theorem filter_gap (s : Prefixed α) {i k : Nat}
    (empty : ∀ m, i ≤ m → m < k → s.cells.getD m none = none) :
    ((s.live.drop i).take (k - i)).filter Option.isSome = [] := by
  rw [List.filter_eq_nil_iff]
  intro cell member
  obtain ⟨m, bound, rfl⟩ := List.getElem_of_mem member
  simp only [List.length_take, List.length_drop] at bound
  have none_here := empty (i + m) (by omega) (by omega)
  simp only [Prefixed.live, List.length_take] at bound
  have read : i + m < s.cells.length := by omega
  rw [List.getD_eq_getElem _ _ read] at none_here
  simp [Prefixed.live, none_here]

/-- One step closes the gap at `i` and loses no full cell. -/
theorem Squeezed.close {i : Nat} {s : Prefixed α} (squeezed : Squeezed i s)
    (more : i < s.count) :
    Squeezed (i + 1) (s.close i) ∧ (s.close i).count ≤ s.count ∧
      (s.close i).live.filter Option.isSome = s.live.filter Option.isSome := by
  obtain ⟨low, high, empty, stop⟩ := firstFull_spec s.cells (s.count - i) i
  unfold Prefixed.close
  generalize firstFull s.cells (s.count - i) i = k at low high empty stop
  have inside := squeezed.inside
  dsimp only
  by_cases gap : k > i
  · rw [if_pos gap]
    have bounded : k + (s.count - k) ≤ s.cells.length := by omega
    have moved := getElem?_moveDown (Nat.sub_pos_of_lt gap) (Nat.sub_le k i) bounded
    refine ⟨⟨?_, ?_⟩, Nat.sub_le _ _, ?_⟩
    · simpa only [length_moveDown] using Nat.le_trans (Nat.sub_le _ _) inside
    · intro m below counted
      simp only at counted
      rw [List.getD_eq_getElem?_getD, moved]
      by_cases last : m = i
      · have place : m + (k - i) = k := by omega
        rw [if_pos (by omega), place, ← List.getD_eq_getElem?_getD]
        exact stop (by omega)
      · rw [if_neg (by omega), ← List.getD_eq_getElem?_getD]
        exact squeezed.full m (by omega) (by omega)
    · have within : k ≤ s.count := by omega
      rw [live_split s low within, List.filter_append, List.filter_append, filter_gap s empty,
        List.append_nil, ← List.filter_append]
      simp only [Prefixed.live]
      rw [take_moveDown gap within inside]
  · rw [if_neg gap]
    refine ⟨⟨inside, ?_⟩, Nat.le_refl _, rfl⟩
    intro m below counted
    rcases Nat.lt_succ_iff_lt_or_eq.mp below with before | rfl
    · exact squeezed.full m before counted
    · have here : k = m := by omega
      rw [← here]
      exact stop (by omega)

theorem Squeezed.live_full {i : Nat} {s : Prefixed α} (squeezed : Squeezed i s)
    (done : s.count ≤ i) : s.live.filter Option.isSome = s.live := by
  rw [List.filter_eq_self]
  intro cell member
  obtain ⟨m, bound, rfl⟩ := List.getElem_of_mem member
  have inside := squeezed.inside
  simp only [Prefixed.live, List.length_take] at bound
  have full := squeezed.full m (by omega) (by omega)
  rw [List.getD_eq_getElem _ _ (by omega)] at full
  simpa [Prefixed.live] using full

/-- With a step for each cell behind `i`, the full cells are left. -/
theorem live_squeeze (fuel : Nat) {i : Nat} {s : Prefixed α} (squeezed : Squeezed i s)
    (enough : s.count ≤ i + fuel) :
    (squeeze fuel i s).live = s.live.filter Option.isSome ∧
      (squeeze fuel i s).count ≤ (squeeze fuel i s).cells.length := by
  induction fuel generalizing i s with
  | zero => exact ⟨(squeezed.live_full enough).symm, squeezed.inside⟩
  | succ fuel ih =>
    rw [squeeze]
    by_cases more : i < s.count
    · rw [if_pos more]
      obtain ⟨next, fewer, kept⟩ := squeezed.close more
      rw [← kept]
      exact ih next (by omega)
    · rw [if_neg more]
      exact ⟨(squeezed.live_full (by omega)).symm, squeezed.inside⟩

end Compaction
