import Mathlib.Data.List.Basic

/-!
# Memory with a record of its writes

A block store changes its own range only, and puts the range on record. What
was stored somewhere, and whether every store stayed within a limit, can then
be asked of the memory itself.
-/
namespace WriteLog

structure Area where
  bytes : Nat → BitVec 8
  /-- The ranges stored to so far, each with its start and its length. -/
  written : List (Nat × Nat)

/-- Memory nothing was stored to yet. -/
def Area.fresh (bytes : Nat → BitVec 8) : Area := ⟨bytes, []⟩

def Area.store (a : Area) (start : Nat) (data : List (BitVec 8)) : Area where
  bytes := fun i =>
    if start ≤ i ∧ i < start + data.length then data.getD (i - start) 0 else a.bytes i
  written := a.written ++ [(start, data.length)]

/-- The bytes of a range. -/
def slice (bytes : Nat → BitVec 8) (start n : Nat) : List (BitVec 8) :=
  (List.range n).map fun i => bytes (start + i)

def Within (limit : Nat) (a : Area) : Prop := ∀ w ∈ a.written, w.1 + w.2 ≤ limit

@[simp] theorem slice_length (bytes : Nat → BitVec 8) (start n : Nat) :
    (slice bytes start n).length = n := by
  simp [slice]

theorem slice_congr {bytes bytes' : Nat → BitVec 8} {start start' n : Nat}
    (same : ∀ i < n, bytes (start + i) = bytes' (start' + i)) :
    slice bytes start n = slice bytes' start' n :=
  List.map_congr_left fun i member => same i (List.mem_range.mp member)

theorem store_inside (a : Area) (start : Nat) (data : List (BitVec 8)) {i : Nat}
    (inside : i < data.length) : (a.store start data).bytes (start + i) = data.getD i 0 := by
  simp [Area.store, inside]

theorem store_outside (a : Area) {start : Nat} {data : List (BitVec 8)} {i : Nat}
    (outside : i < start ∨ start + data.length ≤ i) :
    (a.store start data).bytes i = a.bytes i := by
  have different : ¬ (start ≤ i ∧ i < start + data.length) := by omega
  simp [Area.store, different]

theorem fresh_within (limit : Nat) (bytes : Nat → BitVec 8) : Within limit (Area.fresh bytes) := by
  intro w member
  cases member

/-- One more store stays within the limit. -/
theorem Within.store {limit : Nat} {a : Area} (within : Within limit a) {start : Nat}
    {data : List (BitVec 8)} (fits : start + data.length ≤ limit) :
    Within limit (a.store start data) := by
  intro w member
  rcases List.mem_append.mp member with earlier | now
  · exact within w earlier
  · cases List.mem_singleton.mp now
    exact fits

theorem mem_written_store (a : Area) (start : Nat) (data : List (BitVec 8)) (w : Nat × Nat) :
    w ∈ (a.store start data).written ↔ w ∈ a.written ∨ w = (start, data.length) := by
  simp [Area.store]

end WriteLog
