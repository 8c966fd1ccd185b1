import Mathlib.Data.List.Perm.Basic

/-!
# Removing by the last entry

An unordered table of entries side by side: what is removed is overwritten by the last entry, and
the table gets one shorter.
-/
namespace SwapRemove

variable {α : Type*}

def swapRemove (l : List α) (i : Nat) : List α :=
  match l.getLast? with
  | none => l
  | some last => (l.set i last).dropLast

theorem swapRemove_concat (l : List α) (last : α) (i : Nat) :
    swapRemove (l ++ [last]) i = ((l ++ [last]).set i last).dropLast := by
  unfold swapRemove
  rw [List.getLast?_concat]

/-- The entry and the others are what was there. -/
theorem swapRemove_perm (l : List α) {i : Nat} (inside : i < l.length) :
    (l[i] :: swapRemove l i).Perm l := by
  obtain ⟨init, last, rfl⟩ := List.eq_nil_or_concat' l |>.resolve_left
    (List.ne_nil_of_length_pos (Nat.zero_lt_of_lt inside))
  rw [swapRemove_concat]
  rw [List.length_append, List.length_singleton] at inside
  by_cases before : i < init.length
  · have removed : ((init ++ [last]).set i last).dropLast = init.set i last := by
      rw [List.set_append_left _ _ before, List.dropLast_concat]
    have entry : (init ++ [last])[i] = init[i] := List.getElem_append_left before
    rw [removed, entry]
    calc
      (init[i] :: init.set i last).Perm (init[i] :: last :: init.eraseIdx i) :=
        (List.set_perm_cons_eraseIdx before last).cons _
      List.Perm _ (last :: init[i] :: init.eraseIdx i) := .swap ..
      List.Perm _ (last :: init) := (List.getElem_cons_eraseIdx_perm before).cons _
      List.Perm _ (init ++ [last]) := (List.perm_append_singleton ..).symm
  · have at_end : i = init.length := by omega
    subst at_end
    have removed : ((init ++ [last]).set init.length last).dropLast = init := by
      rw [List.set_append_right _ _ (Nat.le_refl _), Nat.sub_self]
      exact List.dropLast_concat
    have entry : (init ++ [last])[init.length] = last := by simp
    rw [removed, entry]
    exact (List.perm_append_singleton ..).symm

theorem length_swapRemove (l : List α) {i : Nat} (inside : i < l.length) :
    (swapRemove l i).length + 1 = l.length := (swapRemove_perm l inside).length_eq

/-- Entries that differ still differ, and one of them is gone. -/
theorem mem_swapRemove {l : List α} (nodup : l.Nodup) {i : Nat} (inside : i < l.length) {a : α} :
    a ∈ swapRemove l i ↔ a ∈ l ∧ a ≠ l[i] := by
  have perm := swapRemove_perm l inside
  have not_again : l[i] ∉ swapRemove l i := (List.nodup_cons.mp (perm.nodup_iff.mpr nodup)).1
  rw [← perm.mem_iff, List.mem_cons]
  constructor
  · intro member
    exact ⟨.inr member, fun same => not_again (same ▸ member)⟩
  · rintro ⟨same | member, other⟩
    · exact (other same).elim
    · exact member

theorem nodup_swapRemove {l : List α} (nodup : l.Nodup) {i : Nat} (inside : i < l.length) :
    (swapRemove l i).Nodup :=
  (List.nodup_cons.mp ((swapRemove_perm l inside).nodup_iff.mpr nodup)).2

/-- The last entry is where the removed one was, and the others are where they were. -/
theorem getElem?_swapRemove (l : List α) {i j : Nat} (inside : i < l.length)
    (before : j + 1 < l.length) :
    (swapRemove l i)[j]? = if j = i then l.getLast? else l[j]? := by
  obtain ⟨init, last, rfl⟩ := List.eq_nil_or_concat' l |>.resolve_left
    (List.ne_nil_of_length_pos (Nat.zero_lt_of_lt inside))
  rw [List.length_append, List.length_singleton] at inside before
  rw [swapRemove_concat, List.getElem?_dropLast, List.length_set, List.length_append,
    List.length_singleton, if_pos (by omega), List.getElem?_set]
  by_cases here : j = i
  · subst here
    rw [if_pos rfl, if_pos rfl, if_pos (by simpa using inside), List.getLast?_concat]
  · rw [if_neg (Ne.symm here), if_neg here]

end SwapRemove
