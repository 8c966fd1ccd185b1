import Mathlib.Data.List.Basic

/-!
# The `k`-th entry of a list that satisfies a test

An ordered multimap is a list of entries; a key and an index name the `k`-th
entry with that key. Finding, overwriting and deleting that entry are all
governed by one decomposition, `split_of_findNth`.
-/
namespace Occurrence

variable {α β : Type*}

def findNth (m : α → Bool) (l : List α) (k : Nat) : Option α := (l.filter m)[k]?

/-- Overwrite the `k`-th entry that satisfies `m`. -/
def setNth (m : α → Bool) (f : α → α) : List α → Nat → List α
  | [], _ => []
  | a :: l, k =>
    if m a then
      match k with
      | 0 => f a :: l
      | k + 1 => a :: setNth m f l k
    else a :: setNth m f l k

/-- Delete the `k`-th entry that satisfies `m`. -/
def eraseNth (m : α → Bool) : List α → Nat → List α
  | [], _ => []
  | a :: l, k =>
    if m a then
      match k with
      | 0 => l
      | k + 1 => a :: eraseNth m l k
    else a :: eraseNth m l k

theorem findNth_map (m : β → Bool) (f : α → β) (l : List α) (k : Nat) :
    findNth m (l.map f) k = (findNth (fun a => m (f a)) l k).map f := by
  simp only [findNth, List.filter_map, List.getElem?_map]
  rfl

/-- The `k`-th entry that satisfies `m` has exactly `k` such entries before it. -/
theorem split_of_findNth {m : α → Bool} {l : List α} {k : Nat} {a : α}
    (found : findNth m l k = some a) :
    ∃ front back, l = front ++ a :: back ∧ m a = true ∧ (front.filter m).length = k := by
  induction l generalizing k with
  | nil => simp [findNth] at found
  | cons b l ih =>
    by_cases hit : m b = true
    · cases k with
      | zero =>
        have same : b = a := by simpa [findNth, hit] using found
        subst same
        exact ⟨[], l, rfl, hit, rfl⟩
      | succ k =>
        obtain ⟨front, back, rfl, satisfied, count⟩ :=
          ih (k := k) (by simpa [findNth, hit] using found)
        exact ⟨b :: front, back, rfl, satisfied, by simp [hit, count]⟩
    · obtain ⟨front, back, rfl, satisfied, count⟩ :=
        ih (k := k) (by simpa [findNth, hit] using found)
      exact ⟨b :: front, back, rfl, satisfied, by simp [hit, count]⟩

theorem setNth_split {m : α → Bool} (f : α → α) (front back : List α) {a : α}
    (satisfied : m a = true) :
    setNth m f (front ++ a :: back) (front.filter m).length = front ++ f a :: back := by
  induction front with
  | nil => simp [setNth, satisfied]
  | cons b front ih =>
    by_cases hit : m b = true
    · simpa [setNth, hit] using ih
    · simpa [setNth, hit] using ih

theorem eraseNth_split {m : α → Bool} (front back : List α) {a : α} (satisfied : m a = true) :
    eraseNth m (front ++ a :: back) (front.filter m).length = front ++ back := by
  induction front with
  | nil => simp [eraseNth, satisfied]
  | cons b front ih =>
    by_cases hit : m b = true
    · simpa [eraseNth, hit] using ih
    · simpa [eraseNth, hit] using ih

/-- Deleting an entry that is not there changes nothing. -/
theorem eraseNth_of_findNth_none {m : α → Bool} {l : List α} {k : Nat}
    (absent : findNth m l k = none) : eraseNth m l k = l := by
  induction l generalizing k with
  | nil => rfl
  | cons b l ih =>
    by_cases hit : m b = true
    · cases k with
      | zero => simp [findNth, hit] at absent
      | succ k => simpa [eraseNth, hit] using ih (by simpa [findNth, hit] using absent)
    · simpa [eraseNth, hit] using ih (by simpa [findNth, hit] using absent)

end Occurrence
