import Mathlib.Logic.Function.Basic

/-!
# Links in both directions

Two kinds of records point at each other: what one record of the first kind points at points back
at it, and the other way round. Links are tied between records without one and cut at either end.
-/
namespace MutualLinks

variable {α β : Type*} {f : α → Option β} {g : β → Option α} {a : α} {b : β}

/-- `f` and `g` are inverse to each other, where they are defined. -/
def Linked (f : α → Option β) (g : β → Option α) : Prop := ∀ a b, f a = some b ↔ g b = some a

theorem Linked.symm (linked : Linked f g) : Linked g f := fun b a => (linked a b).symm

theorem linked_none : Linked (fun _ : α => (none : Option β)) fun _ => none := by
  intro a b
  constructor <;> intro linked <;> cases linked

/-- What points at nothing is not pointed at. -/
theorem Linked.ne_some (linked : Linked f g) (free : f a = none) (b : β) : g b ≠ some a := by
  intro back
  rw [(linked a b).mpr back] at free
  cases free

/-- What points at a record is its only link. -/
theorem Linked.unique (linked : Linked f g) {a' : α} (first : f a = some b) (second : f a' = some b) :
    a = a' :=
  Option.some.inj (((linked a b).mp first).symm.trans ((linked a' b).mp second))

variable [DecidableEq α] [DecidableEq β]

/-- A link is tied between two records that have none. -/
theorem Linked.tie (linked : Linked f g) (free : f a = none) (free' : g b = none) :
    Linked (Function.update f a (some b)) (Function.update g b (some a)) := by
  intro x y
  rw [Function.update_apply, Function.update_apply]
  by_cases here : x = a <;> by_cases there : y = b
  · simp [here, there]
  · have not_back := linked.ne_some free y
    simp [here, there, Ne.symm there, not_back]
  · have not_forth := linked.symm.ne_some free' x
    simp [here, there, Ne.symm here, not_forth]
  · rw [if_neg here, if_neg there]
    exact linked x y

/-- Both ends of a link are cut. -/
theorem Linked.cut (linked : Linked f g) (tied : f a = some b) :
    Linked (Function.update f a none) (Function.update g b none) := by
  intro x y
  rw [Function.update_apply, Function.update_apply]
  by_cases here : x = a <;> by_cases there : y = b
  · simp [here, there]
  · have other : g y ≠ some a := fun back =>
      there (Option.some.inj (((linked a y).mpr back).symm.trans tied))
    simp [here, there, other]
  · have other : f x ≠ some b := fun forth => here (linked.unique forth tied)
    simp [here, there, other]
  · rw [if_neg here, if_neg there]
    exact linked x y

omit [DecidableEq β] in
/-- Cutting where there is no link changes nothing. -/
theorem Linked.cut_none (linked : Linked f g) (free : f a = none) :
    Linked (Function.update f a none) g := by
  rwa [← free, Function.update_eq_self]

end MutualLinks
