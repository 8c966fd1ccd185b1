import Mathlib.Order.Lattice

/-!
# A value cached beside a time stamp

The cache takes the value of its source again when the source has a later stamp
than the one recorded. It is right as long as no source it meets is behind the
record, and one with the recorded stamp has the recorded value.
-/
namespace StampCache

variable {S V : Type} [LinearOrder S]

structure Entry (S V : Type) where
  stamp : S
  value : V

/-- What is cached; some sources have only a stamp. -/
structure Source (S V : Type) where
  stamp : S
  value : Option V

/-- Look at the source through the cache. -/
def Entry.look (e : Entry S V) (s : Source S V) : Entry S V :=
  if s.stamp ≤ e.stamp then e else ⟨s.stamp, s.value.getD e.value⟩

/-- The entry is older than the source, or it has its stamp and its value. -/
def Entry.Current (e : Entry S V) (s : Source S V) : Prop :=
  e.stamp < s.stamp ∨ e.stamp = s.stamp ∧ ∀ v, s.value = some v → e.value = v

variable {e : Entry S V} {s s' : Source S V}

theorem Entry.Current.le (current : e.Current s) : e.stamp ≤ s.stamp := by
  rcases current with older | ⟨same, _⟩
  · exact le_of_lt older
  · exact le_of_eq same

/-- A source that moves on leaves the entry behind. -/
theorem Entry.Current.advance (current : e.Current s) (later : s.stamp < s'.stamp) :
    e.Current s' :=
  .inl (lt_of_le_of_lt current.le later)

/-- What is read through a current entry is the value of the source. -/
theorem Entry.Current.look_value (current : e.Current s) {v : V} (value : s.value = some v) :
    (e.look s).value = v := by
  unfold Entry.look
  rcases current with older | ⟨same, right⟩
  · rw [if_neg (not_le_of_gt older), value]
    rfl
  · rw [if_pos (le_of_eq same.symm)]
    exact right v value

theorem Entry.Current.look (current : e.Current s) : (e.look s).Current s := by
  unfold Entry.look
  rcases current with older | ⟨same, right⟩
  · rw [if_neg (not_le_of_gt older)]
    exact .inr ⟨rfl, fun v value => by rw [value]; rfl⟩
  · rw [if_pos (le_of_eq same.symm)]
    exact .inr ⟨same, right⟩

end StampCache
