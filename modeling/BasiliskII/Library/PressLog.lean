import Mathlib.Data.List.Basic
import Mathlib.Data.List.Count
import Mathlib.Order.Basic

/-!
# Logs of presses and releases

A device with keys is told of presses and releases one after the other. A key
is down after a log if the last event of the log about it is a press. In a log
that alternates, every press of a key finds it up and every release finds it
down.

A loop that handles one event source after the other takes a turn for each.
Seen from one key, a turn presses it, releases it or leaves it as it is; the
key is down at the end if there was a press or it was down, and no release came
after the last press.
-/
namespace PressLog

inductive Event (κ : Type*) where
  | press (key : κ)
  | release (key : κ)
  deriving DecidableEq, Repr

variable {κ : Type*}

def Event.key : Event κ → κ
  | .press key => key
  | .release key => key

def Event.isPress : Event κ → Bool
  | .press _ => true
  | .release _ => false

@[simp] theorem key_press (key : κ) : (Event.press key).key = key := rfl

@[simp] theorem key_release (key : κ) : (Event.release key).key = key := rfl

@[simp] theorem isPress_press (key : κ) : (Event.press key).isPress = true := rfl

@[simp] theorem isPress_release (key : κ) : (Event.release key).isPress = false := rfl

variable [DecidableEq κ]

/-- Whether `key` is down after one more event. -/
def Event.after (e : Event κ) (key : κ) (down : Bool) : Bool :=
  if e.key = key then e.isPress else down

@[simp] theorem after_own {e : Event κ} {key : κ} (own : e.key = key) (down : Bool) :
    e.after key down = e.isPress := if_pos own

@[simp] theorem after_other {e : Event κ} {key : κ} (other : e.key ≠ key) (down : Bool) :
    e.after key down = down := if_neg other

/-- Whether `key` is down after the log, if it was as `down` says before. -/
def downAfter (key : κ) (down : Bool) : List (Event κ) → Bool
  | [] => down
  | e :: rest => downAfter key (e.after key down) rest

@[simp] theorem downAfter_nil (key : κ) (down : Bool) : downAfter key down [] = down := rfl

@[simp] theorem downAfter_cons (key : κ) (down : Bool) (e : Event κ) (rest : List (Event κ)) :
    downAfter key down (e :: rest) = downAfter key (e.after key down) rest := rfl

theorem downAfter_append (key : κ) (down : Bool) (xs ys : List (Event κ)) :
    downAfter key down (xs ++ ys) = downAfter key (downAfter key down xs) ys := by
  induction xs generalizing down with
  | nil => rfl
  | cons e xs ih => exact ih (e.after key down)

/-- Events about other keys. -/
theorem downAfter_other {key : κ} {log : List (Event κ)} (other : ∀ e ∈ log, e.key ≠ key)
    (down : Bool) : downAfter key down log = down := by
  induction log with
  | nil => rfl
  | cons e log ih =>
    rw [downAfter_cons, after_other (other e (List.mem_cons_self ..))]
    exact ih fun e' member => other e' (List.mem_cons_of_mem _ member)

/-- Events that all leave their own key alike. -/
theorem downAfter_map {key : κ} {event : κ → Event κ} {left : Bool}
    (after : ∀ k down, (event k).after key down = if k = key then left else down)
    (down : Bool) (keys : List κ) :
    downAfter key down (keys.map event) = if key ∈ keys then left else down := by
  induction keys generalizing down with
  | nil => rfl
  | cons k keys ih =>
    rw [List.map_cons, downAfter_cons, ih, after]
    by_cases own : k = key
    · simp [own]
    · simp [own, Ne.symm own]

theorem downAfter_presses (key : κ) (down : Bool) (keys : List κ) :
    downAfter key down (keys.map .press) = if key ∈ keys then true else down :=
  downAfter_map (fun _ _ => rfl) down keys

theorem downAfter_releases (key : κ) (down : Bool) (keys : List κ) :
    downAfter key down (keys.map .release) = if key ∈ keys then false else down :=
  downAfter_map (fun _ _ => rfl) down keys

/-- Every press of `key` finds it up, and every release finds it down. -/
def Alternates (key : κ) (down : Bool) : List (Event κ) → Prop
  | [] => True
  | e :: rest => (e.key = key → e.isPress = !down) ∧ Alternates key (e.after key down) rest

theorem alternates_append (key : κ) (down : Bool) (xs ys : List (Event κ)) :
    Alternates key down (xs ++ ys) ↔
      Alternates key down xs ∧ Alternates key (downAfter key down xs) ys := by
  induction xs generalizing down with
  | nil => simp [Alternates]
  | cons e xs ih => simp only [List.cons_append, Alternates, downAfter_cons, ih, and_assoc]

theorem alternates_other {key : κ} {log : List (Event κ)} (other : ∀ e ∈ log, e.key ≠ key)
    (down : Bool) : Alternates key down log := by
  induction log with
  | nil => trivial
  | cons e log ih =>
    have apart := other e (List.mem_cons_self ..)
    refine ⟨fun own => absurd own apart, ?_⟩
    rw [after_other apart]
    exact ih fun e' member => other e' (List.mem_cons_of_mem _ member)

section Count

variable (key key' : κ) (log : List (Event κ))

theorem press_count_press : (log ++ [Event.press key']).count (Event.press key) =
    log.count (.press key) + if key' = key then 1 else 0 := by
  rw [List.count_append, List.count_singleton]
  by_cases own : key' = key <;> simp [own]

theorem press_count_release : (log ++ [Event.press key']).count (Event.release key) =
    log.count (.release key) := by
  rw [List.count_append, List.count_singleton, if_neg (by simp), Nat.add_zero]

theorem release_count_release : (log ++ [Event.release key']).count (Event.release key) =
    log.count (.release key) + if key' = key then 1 else 0 := by
  rw [List.count_append, List.count_singleton]
  by_cases own : key' = key <;> simp [own]

theorem release_count_press : (log ++ [Event.release key']).count (Event.press key) =
    log.count (.press key) := by
  rw [List.count_append, List.count_singleton, if_neg (by simp), Nat.add_zero]

end Count

/-- No more releases of `key` than presses before them, anywhere in the log. -/
def Matched (key : κ) (log : List (Event κ)) : Prop :=
  ∀ part, part <+: log → part.count (.release key) ≤ part.count (.press key)

theorem matched_nil (key : κ) : Matched key [] := by
  intro part whole
  rw [List.prefix_nil.mp whole]
  exact Nat.le_refl 0

theorem Matched.concat {key : κ} {log : List (Event κ)} (matched : Matched key log) {e : Event κ}
    (enough : (log ++ [e]).count (.release key) ≤ (log ++ [e]).count (.press key)) :
    Matched key (log ++ [e]) := by
  intro part whole
  rcases List.prefix_concat_iff.mp whole with rfl | earlier
  · exact enough
  · exact matched part earlier

/-! ### Loops -/

section Turns

variable {ι : Type*} {turn turn' : ι → Option Bool} {l : List ι}

/-- Whether a key is down after the turns in the list. -/
def afterTurns (turn : ι → Option Bool) (down : Bool) : List ι → Bool
  | [] => down
  | i :: rest => afterTurns turn ((turn i).getD down) rest

@[simp] theorem afterTurns_nil (down : Bool) : afterTurns turn down [] = down := rfl

@[simp] theorem afterTurns_cons (down : Bool) (i : ι) :
    afterTurns turn down (i :: l) = afterTurns turn ((turn i).getD down) l := rfl

theorem afterTurns_congr (same : ∀ i ∈ l, turn i = turn' i) (down : Bool) :
    afterTurns turn down l = afterTurns turn' down l := by
  induction l generalizing down with
  | nil => rfl
  | cons i l ih =>
    rw [afterTurns_cons, afterTurns_cons, same i (List.mem_cons_self ..)]
    exact ih (fun j member => same j (List.mem_cons_of_mem _ member)) _

/-- A log made turn by turn. -/
theorem downAfter_flatMap {key : κ} {block : ι → List (Event κ)}
    (effect : ∀ i down, downAfter key down (block i) = (turn i).getD down) (down : Bool) :
    downAfter key down (l.flatMap block) = afterTurns turn down l := by
  induction l generalizing down with
  | nil => rfl
  | cons i l ih => rw [List.flatMap_cons, downAfter_append, effect, ih, afterTurns_cons]

variable [Preorder ι]

theorem afterTurns_iff (sorted : l.Pairwise (· < ·)) (down : Bool) :
    afterTurns turn down l = true ↔
      (down = true ∨ ∃ i ∈ l, turn i = some true) ∧
        ∀ i ∈ l, turn i = some false → ∃ j ∈ l, i < j ∧ turn j = some true := by
  induction l generalizing down with
  | nil => simp
  | cons i l ih =>
    obtain ⟨first, rest⟩ := List.pairwise_cons.mp sorted
    have after_first : (∃ j ∈ i :: l, i < j ∧ turn j = some true) ↔ ∃ j ∈ l, turn j = some true := by
      constructor
      · rintro ⟨j, listed, after, press⟩
        exact ⟨j, List.mem_of_ne_of_mem after.ne' listed, press⟩
      · rintro ⟨j, inside, press⟩
        exact ⟨j, List.mem_cons_of_mem _ inside, first j inside, press⟩
    -- the first turn comes after none of the others
    have after_later : ∀ k ∈ l, (∃ j ∈ i :: l, k < j ∧ turn j = some true) ↔
        ∃ j ∈ l, k < j ∧ turn j = some true := by
      intro k member
      constructor
      · rintro ⟨j, listed, after, press⟩
        have other : j ≠ i := fun same => lt_asymm (first k member) (same ▸ after)
        exact ⟨j, List.mem_of_ne_of_mem other listed, after, press⟩
      · rintro ⟨j, inside, after, press⟩
        exact ⟨j, List.mem_cons_of_mem _ inside, after, press⟩
    rw [afterTurns_cons, ih rest, List.forall_mem_cons, after_first,
      forall₂_congr fun k member => imp_congr_right fun _ => after_later k member]
    cases own : turn i with
    | none => simp [own]
    | some press =>
      cases press with
      | false =>
        simp only [Option.getD_some, Bool.false_eq_true, false_or, forall_const]
        constructor
        · rintro ⟨pressed, kept⟩
          obtain ⟨k, inside, press⟩ := pressed
          exact ⟨.inr ⟨k, List.mem_cons_of_mem _ inside, press⟩, ⟨k, inside, press⟩, kept⟩
        · exact And.right
      | true => simp [own]

end Turns

end PressLog
