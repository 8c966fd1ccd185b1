import Mathlib.Algebra.BigOperators.Group.List.Basic
import Mathlib.Algebra.GroupWithZero.Nat
import Mathlib.Data.List.Induction

/-!
# Segments of an address space

A segment is a start address and a 32-bit length. A list of segments stands for
the addresses it runs through, one segment after the other. Two segments that
meet may be made one as long as the length of both fits; a gathered list makes
them one whatever their length is.
-/
namespace SegmentList

variable {w : Nat}

structure Segment (w : Nat) where
  start : BitVec w
  len : BitVec 32
  deriving DecidableEq, Repr

/-- The address behind the segment. -/
def Segment.behind (s : Segment w) : BitVec w := s.start + s.len.setWidth w

def Segment.addresses (s : Segment w) : List (BitVec w) :=
  (List.range s.len.toNat).map fun i => s.start + BitVec.ofNat w i

def addresses (segments : List (Segment w)) : List (BitVec w) := segments.flatMap Segment.addresses

/-- The sum of the lengths, not reduced. -/
def total (segments : List (Segment w)) : Nat := (segments.map fun s => s.len.toNat).sum

theorem Segment.addresses_length (s : Segment w) : s.addresses.length = s.len.toNat := by
  simp [Segment.addresses]

theorem addresses_length (segments : List (Segment w)) :
    (addresses segments).length = total segments := by
  simp only [addresses, total, List.length_flatMap, Segment.addresses_length]

theorem addresses_append (first second : List (Segment w)) :
    addresses (first ++ second) = addresses first ++ addresses second :=
  List.flatMap_append

theorem addresses_singleton (s : Segment w) : addresses [s] = s.addresses := by
  simp [addresses]

theorem total_append (first second : List (Segment w)) :
    total (first ++ second) = total first + total second := by
  simp [total]

theorem total_singleton (s : Segment w) : total [s] = s.len.toNat := by
  simp [total]

/-- Segments that meet run through the same addresses when they are made one. -/
theorem merge_addresses {s t : Segment w} (meet : t.start = s.behind)
    (fits : s.len.toNat + t.len.toNat < 2 ^ 32) :
    Segment.addresses ⟨s.start, s.len + t.len⟩ = s.addresses ++ t.addresses := by
  have length : (s.len + t.len).toNat = s.len.toNat + t.len.toNat := by
    rw [BitVec.toNat_add, Nat.mod_eq_of_lt fits]
  have second : ∀ i, s.start + BitVec.ofNat w (s.len.toNat + i) = t.start + BitVec.ofNat w i := by
    intro i
    rw [meet, Segment.behind, BitVec.ofNat_add, BitVec.ofNat_toNat, BitVec.add_assoc]
  simp only [Segment.addresses, length, List.range_add, List.map_append, List.map_map]
  congr 1
  apply List.map_congr_left
  intro i _
  exact second i

/-- The entries with one more segment, which is made one with the last entry when they meet. -/
def join (entries : List (Segment w)) (s : Segment w) : List (Segment w) :=
  match entries.getLast? with
  | none => [s]
  | some previous =>
    if s.start = previous.behind then
      entries.dropLast ++ [⟨previous.start, previous.len + s.len⟩]
    else entries ++ [s]

def gathered (segments : List (Segment w)) : List (Segment w) := segments.foldl join []

theorem gathered_append_singleton (segments : List (Segment w)) (s : Segment w) :
    gathered (segments ++ [s]) = join (gathered segments) s := by
  simp [gathered]

/-- The addresses of a segment with less than the length of both begin like those of both. -/
theorem merge_sublist {s t : Segment w} (meet : t.start = s.behind) :
    List.Sublist (Segment.addresses ⟨s.start, s.len + t.len⟩) (s.addresses ++ t.addresses) := by
  by_cases fits : s.len.toNat + t.len.toNat < 2 ^ 32
  · rw [merge_addresses meet fits]
  · -- The sum wraps around to less than the first length.
    have shorter : (s.len + t.len).toNat ≤ s.len.toNat := by
      rw [BitVec.toNat_add]
      omega
    have first : List.Sublist (Segment.addresses ⟨s.start, s.len + t.len⟩) s.addresses :=
      (List.range_sublist.mpr shorter).map _
    exact first.trans (List.sublist_append_left _ _)

/-- Gathering loses addresses at most, and none as long as the lengths fit. -/
theorem addresses_gathered (segments : List (Segment w)) :
    List.Sublist (addresses (gathered segments)) (addresses segments) ∧
      (total segments < 2 ^ 32 → addresses (gathered segments) = addresses segments) := by
  induction segments using List.reverseRecOn with
  | nil => exact ⟨.refl _, fun _ => rfl⟩
  | append_singleton segments s ih =>
    rw [gathered_append_singleton, addresses_append, total_append, total_singleton,
      addresses_singleton]
    have appended : List.Sublist (addresses (gathered segments ++ [s]))
          (addresses segments ++ s.addresses) ∧
        (total segments + s.len.toNat < 2 ^ 32 →
          addresses (gathered segments ++ [s]) = addresses segments ++ s.addresses) := by
      rw [addresses_append, addresses_singleton]
      refine ⟨ih.1.append (.refl _), fun short => ?_⟩
      rw [ih.2 (by omega)]
    unfold join
    split
    next none_yet =>
      rw [List.getLast?_eq_none_iff.mp none_yet] at appended
      exact appended
    next previous last =>
      split
      next meet =>
        have split_last : gathered segments = (gathered segments).dropLast ++ [previous] :=
          (List.dropLast_append_getLast? previous last).symm
        rw [split_last, addresses_append, addresses_append, addresses_singleton,
          addresses_singleton, List.append_assoc] at appended
        rw [addresses_append, addresses_singleton]
        refine ⟨((List.Sublist.refl _).append (merge_sublist meet)).trans appended.1, fun short => ?_⟩
        have same := ih.2 (by omega)
        have last_fits : previous.len.toNat + s.len.toNat < 2 ^ 32 := by
          have lengths := congrArg List.length same
          rw [addresses_length, addresses_length, split_last, total_append,
            total_singleton] at lengths
          omega
        rw [merge_addresses meet last_fits]
        exact appended.2 short
      · exact appended

end SegmentList
