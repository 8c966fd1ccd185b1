import Mathlib.Data.BitVec

/-!
# Walking the set bits of a mask

A loop that takes the lowest set bit of a mask, clears it and goes on until
none is left. It visits the places of the set bits in ascending order, and a
mask read backwards in descending order.
-/
namespace BitWalk

variable {w : Nat}

/-- The place of the lowest set bit, or the width of an empty mask. -/
def lowest (mask : BitVec w) : Nat := ((List.range w).find? mask.getLsbD).getD w

/-- The mask without its lowest bit. -/
def next (mask : BitVec w) : BitVec w := mask &&& ~~~(1#w <<< lowest mask)

/-- The places of the set bits. -/
def setBits (mask : BitVec w) : List Nat := (List.range w).filter mask.getLsbD

variable (mask : BitVec w)

theorem mem_setBits (i : Nat) : i ∈ setBits mask ↔ mask.getLsbD i = true := by
  rw [setBits, List.mem_filter, List.mem_range]
  constructor
  · exact fun member => member.2
  · intro set
    exact ⟨BitVec.lt_of_getLsbD set, set⟩

theorem setBits_nodup : (setBits mask).Nodup :=
  List.filter_sublist.nodup List.nodup_range

/-- The number of set bits. -/
theorem setBits_length : (setBits mask).length = mask.cpop.toNat := by
  have counted : ∀ k, ((List.range k).filter mask.getLsbD).length = mask.cpopNatRec k 0 := by
    intro k
    induction k with
    | zero => rfl
    | succ k ih =>
      rw [List.range_succ, List.filter_append, List.length_append, ih, BitVec.cpopNatRec_succ,
        BitVec.cpopNatRec_add]
      cases bit : mask.getLsbD k with
      | false => rw [List.filter_cons_of_neg (by simp [bit])]; rfl
      | true => rw [List.filter_cons_of_pos bit]; rfl
  rw [setBits, counted, BitVec.toNat_cpop]

theorem setBits_zero : setBits (0 : BitVec w) = [] := by
  rw [setBits, List.filter_eq_nil_iff]
  intro i _
  rw [Bool.not_eq_true]
  exact BitVec.getLsbD_zero

theorem exists_bit {mask : BitVec w} (nonzero : mask ≠ 0) : ∃ i, mask.getLsbD i = true := by
  by_cases some_bit : ∃ i, mask.getLsbD i = true
  · exact some_bit
  · exfalso
    apply nonzero
    apply BitVec.eq_of_getLsbD_eq
    intro i inside
    have unset : ¬ mask.getLsbD i = true := fun set => some_bit ⟨i, set⟩
    rw [Bool.not_eq_true] at unset
    exact unset.trans BitVec.getLsbD_zero.symm

/-- Only the lowest bit is cleared. -/
theorem next_getLsbD {i : Nat} (inside : i < w) :
    (next mask).getLsbD i = (mask.getLsbD i && decide (i ≠ lowest mask)) := by
  rw [next, BitVec.getLsbD_and, BitVec.getLsbD_not, BitVec.getLsbD_shiftLeft, BitVec.getLsbD_one]
  congr 1
  by_cases here : i = lowest mask
  · subst here
    simp [inside, Nat.zero_lt_of_lt inside]
  · by_cases below : i < lowest mask
    · simp [inside, here, below]
    · have above : i - lowest mask ≠ 0 := by omega
      simp [inside, here, above]

/-- The lowest bit comes first, the rest of the walk follows. -/
theorem setBits_cons {mask : BitVec w} (nonzero : mask ≠ 0) :
    setBits mask = lowest mask :: setBits (next mask) := by
  obtain ⟨i, set⟩ := exists_bit nonzero
  have found : ((List.range w).find? mask.getLsbD).isSome :=
    List.find?_isSome.mpr ⟨i, List.mem_range.mpr (BitVec.lt_of_getLsbD set), set⟩
  obtain ⟨j, at_j⟩ := Option.isSome_iff_exists.mp found
  have first : lowest mask = j := by rw [lowest, at_j, Option.getD_some]
  obtain ⟨bit, before, after, range, unset⟩ := List.find?_eq_some_iff_append.mp at_j
  have distinct : (before ++ j :: after).Nodup := range ▸ List.nodup_range
  have inside : ∀ k ∈ before ++ j :: after, k < w := by
    intro k member
    exact List.mem_range.mp (range ▸ member)
  rw [List.nodup_append] at distinct
  have front : before.filter mask.getLsbD = [] := by
    rw [List.filter_eq_nil_iff]
    intro k member set
    exact absurd (unset k member) (by simp [set])
  have front_next : before.filter (next mask).getLsbD = [] := by
    rw [List.filter_eq_nil_iff]
    intro k member
    rw [next_getLsbD mask (inside k (List.mem_append_left _ member))]
    exact fun set => absurd (unset k member) (by simp_all)
  have here : (next mask).getLsbD j = false := by
    rw [next_getLsbD mask (inside j (by simp)), first]
    simp
  -- Behind the lowest bit both masks have the same ones.
  have behind : after.filter (next mask).getLsbD = after.filter mask.getLsbD := by
    apply List.filter_congr
    intro k member
    have other : k ≠ j := by
      rintro rfl
      exact (List.nodup_cons.mp distinct.2.1).1 member
    rw [next_getLsbD mask (inside k (by simp [member])), first]
    simp [other]
  rw [setBits, setBits, range, List.filter_append, List.filter_append, front, front_next,
    List.filter_cons_of_pos bit, List.filter_cons_of_neg (by simp [here]), behind, first]
  rfl

/-- Read backwards, the walk meets the places from the top down. -/
theorem setBits_reverse : (setBits mask.reverse).map (w - 1 - ·) = (setBits mask).reverse := by
  have mirrored : ∀ i ∈ List.range w, mask.reverse.getLsbD i = mask.getLsbD (w - 1 - i) := by
    intro i member
    have inside := List.mem_range.mp member
    rw [BitVec.getLsbD_reverse, BitVec.getMsbD_eq_getLsbD]
    simp [inside]
  calc (setBits mask.reverse).map (w - 1 - ·)
      = ((List.range w).filter (fun i => mask.getLsbD (w - 1 - i))).map (w - 1 - ·) := by
        rw [setBits, List.filter_congr mirrored]
    _ = ((List.range w).map (w - 1 - ·)).filter mask.getLsbD := by
        rw [List.filter_map]
        rfl
    _ = (setBits mask).reverse := by
        have backwards := List.reverse_range' (s := 0) (n := w)
        rw [Nat.zero_add, ← List.range_eq_range'] at backwards
        rw [← backwards, List.filter_reverse]
        rfl

/-- `while (mask) { body; mask = next; }` -/
def walk {σ : Type} (body : BitVec w → σ → σ) (mask : BitVec w) (s : σ) : σ :=
  if _empty : mask = 0 then s else walk body (next mask) (body mask s)
termination_by (setBits mask).length
decreasing_by
  rw [setBits_cons _empty]
  exact Nat.lt_succ_self _

/-- A loop that looks only at the lowest bit is a fold over the set bits. -/
theorem walk_eq_foldl {σ : Type} (f : Nat → σ → σ) (mask : BitVec w) (s : σ) :
    walk (fun mask s => f (lowest mask) s) mask s = (setBits mask).foldl (fun s j => f j s) s := by
  fun_induction walk (fun mask s => f (lowest mask) s) mask s with
  | case1 s => rw [setBits_zero, List.foldl_nil]
  | case2 mask s nonzero ih =>
    rw [ih, setBits_cons nonzero, List.foldl_cons]

end BitWalk
