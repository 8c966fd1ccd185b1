import Mathlib.Logic.Function.Basic

/-!
# Descriptor tables and their holders

A table says what is open under each number. Holders keep numbers they were given, together with
what they opened. As long as no two holders keep one number, closing the number of one holder
leaves the others what they have. Numbers may go stale: a table that closes them does not tell
their holders.
-/
namespace DescriptorTable

variable {ι δ : Type*}

/-- What is open under each number. Nothing is open from `limit` on. -/
structure Table (δ : Type*) where
  entry : Nat → Option δ
  limit : Nat
  unused : ∀ n, limit ≤ n → entry n = none

instance : CoeFun (Table δ) fun _ => Nat → Option δ := ⟨Table.entry⟩

namespace Table

def empty : Table δ := ⟨fun _ => none, 0, fun _ _ => rfl⟩

def close (t : Table δ) (n : Nat) : Table δ where
  entry := Function.update t.entry n none
  limit := t.limit
  unused m above := by
    by_cases same : m = n
    · rw [same, Function.update_self]
    · rw [Function.update_of_ne same]
      exact t.unused m above

def install (t : Table δ) (n : Nat) (x : δ) : Table δ where
  entry := Function.update t.entry n (some x)
  limit := max t.limit (n + 1)
  unused m above := by
    rw [Function.update_of_ne (by omega)]
    exact t.unused m (by omega)

/-- Close what a holder has, if it has a number. -/
def closeAny (t : Table δ) : Option Nat → Table δ
  | some n => t.close n
  | none => t

@[simp] theorem close_self (t : Table δ) (n : Nat) : t.close n n = none := Function.update_self ..

theorem close_of_ne (t : Table δ) {n m : Nat} (ne : m ≠ n) : t.close n m = t m :=
  Function.update_of_ne ne ..

@[simp] theorem install_self (t : Table δ) (n : Nat) (x : δ) : t.install n x n = some x :=
  Function.update_self ..

theorem install_of_ne (t : Table δ) {n m : Nat} (x : δ) (ne : m ≠ n) : t.install n x m = t m :=
  Function.update_of_ne ne ..

end Table

/-- Whoever gives out the numbers may refuse, and gives no number that is in use. -/
structure Opener (δ : Type*) where
  grant : Table δ → δ → Option Nat
  unused : ∀ {t x n}, grant t x = some n → t n = none

namespace Opener

variable (g : Opener δ) {t t' : Table δ} {x : δ} {n : Nat}

/-- Open a thing: the number for it, and the table afterwards. -/
def apply (t : Table δ) (x : δ) : Option Nat × Table δ :=
  match g.grant t x with
  | some n => (some n, t.install n x)
  | none => (none, t)

theorem apply_cases (t : Table δ) (x : δ) :
    (g.grant t x = none ∧ g.apply t x = (none, t)) ∨
      ∃ n, g.grant t x = some n ∧ t n = none ∧ g.apply t x = (some n, t.install n x) := by
  unfold apply
  cases granted : g.grant t x with
  | none => exact .inl ⟨rfl, rfl⟩
  | some n => exact .inr ⟨n, rfl, g.unused granted, rfl⟩

end Opener

/-- The lowest number that is not in use. -/
def Table.lowest (t : Table δ) : Option Nat :=
  (List.range (t.limit + 1)).find? fun n => (t n).isNone

/-- Everything is opened, under the lowest number there is. -/
def Opener.lowest : Opener δ where
  grant t _ := t.lowest
  unused {t _ n} found := by
    have free : (t n).isNone = true := List.find?_some (p := fun n => (t n).isNone) found
    exact Option.isNone_iff_eq_none.mp free

theorem Opener.lowest_isSome (t : Table δ) (x : δ) : (Opener.lowest.grant t x).isSome = true := by
  have free : (t t.limit).isNone = true := by
    rw [t.unused t.limit (Nat.le_refl _), Option.isNone_none]
  exact List.find?_isSome.mpr ⟨t.limit, List.mem_range.mpr (Nat.lt_succ_self _), free⟩

/-- Which number a holder has, and for what. -/
abbrev Holds (ι δ : Type*) := ι → Option (Nat × δ)

/-- No two holders have one number. -/
def Apart (holds : Holds ι δ) : Prop :=
  ∀ p q n x y, holds p = some (n, x) → holds q = some (n, y) → p = q

/-- What the holders opened is open under their numbers. -/
def Installed (t : Table δ) (holds : Holds ι δ) : Prop :=
  ∀ p n x, holds p = some (n, x) → t n = some x

variable {holds : Holds ι δ} {t : Table δ} {p : ι} {n : Nat} {x : δ}

/-- Nobody has an unused number, unless it went stale. -/
theorem Installed.not_held (installed : Installed t holds) (unused : t n = none) {q : ι} {y : δ} :
    holds q ≠ some (n, y) := by
  intro held
  rw [installed q n y held] at unused
  cases unused

/-- Closing the number of one holder leaves the others what they have. -/
theorem Apart.close_other (apart : Apart holds) (mine : holds p = some (n, x)) {q : ι} {m : Nat}
    {y : δ} (other : q ≠ p) (theirs : holds q = some (m, y)) : t.close n m = t m := by
  refine Table.close_of_ne t ?_
  rintro rfl
  exact other (apart q p m y x theirs mine)

section
variable [DecidableEq ι]

theorem Apart.drop (apart : Apart holds) (p : ι) : Apart (Function.update holds p none) := by
  intro q r n x y first second
  have held {s : ι} {z : δ} (after : Function.update holds p none s = some (n, z)) :
      holds s = some (n, z) := by
    by_cases same : s = p
    · rw [same, Function.update_self] at after
      cases after
    · rwa [Function.update_of_ne same] at after
  exact apart q r n x y (held first) (held second)

/-- A number that is given out goes to nobody else who is up to date. -/
theorem Apart.take (apart : Apart holds) (installed : Installed t holds) (unused : t n = none) :
    Apart (Function.update holds p (some (n, x))) := by
  -- Everybody else has a number that is in use.
  have only {q : ι} {m : Nat} {y : δ}
      (after : Function.update holds p (some (n, x)) q = some (m, y)) :
      (q = p ∧ m = n) ∨ (q ≠ p ∧ m ≠ n ∧ holds q = some (m, y)) := by
    by_cases same : q = p
    · rw [same, Function.update_self] at after
      cases after
      exact .inl ⟨same, rfl⟩
    · rw [Function.update_of_ne same] at after
      refine .inr ⟨same, ?_, after⟩
      rintro rfl
      exact installed.not_held unused after
  intro q r m y z first second
  rcases only first with ⟨rfl, rfl⟩ | ⟨_, other, before⟩
  · rcases only second with ⟨rfl, _⟩ | ⟨_, other, _⟩
    · rfl
    · exact absurd rfl other
  · rcases only second with ⟨_, same⟩ | ⟨_, _, before'⟩
    · exact absurd same other
    · exact apart q r m y z before before'

theorem Installed.take (installed : Installed t holds) (unused : t n = none) :
    Installed (t.install n x) (Function.update holds p (some (n, x))) := by
  intro q m y after
  by_cases same : q = p
  · rw [same, Function.update_self] at after
    cases after
    exact Table.install_self ..
  · rw [Function.update_of_ne same] at after
    rw [Table.install_of_ne]
    · exact installed q m y after
    · rintro rfl
      exact installed.not_held unused after

/-- A holder that closes its number and forgets it. -/
theorem Installed.close (installed : Installed t holds) (apart : Apart holds)
    (mine : holds p = some (n, x)) : Installed (t.close n) (Function.update holds p none) := by
  intro q m y after
  by_cases same : q = p
  · rw [same, Function.update_self] at after
    cases after
  · rw [Function.update_of_ne same] at after
    rw [apart.close_other mine same after]
    exact installed q m y after

theorem Installed.drop (installed : Installed t holds) (p : ι) :
    Installed t (Function.update holds p none) := by
  intro q m y after
  by_cases same : q = p
  · rw [same, Function.update_self] at after
    cases after
  · rw [Function.update_of_ne same] at after
    exact installed q m y after

end

end DescriptorTable
