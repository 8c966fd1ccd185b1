import Mathlib.Data.List.Perm.Basic

/-!
# Exchanges of neighbours

The pairs of a list that stand in the wrong order, and what the exchange of two
neighbours does to them: an exchange of two that are in the wrong order takes
one such pair away. A sort that looks at neighbours only and begins again after
each exchange ends for this reason, with a list none of whose pairs is out of
order.
-/
namespace ExchangeSort

variable {α : Type*}

/-- The elements at `i` and `i + 1` change places, if both are there. -/
def exchange : List α → Nat → List α
  | a :: l, i + 1 => a :: exchange l i
  | a :: b :: l, 0 => b :: a :: l
  | l, _ => l

variable (out : α → α → Bool)

/-- How many pairs, neighbours or not, are out of order. -/
def inversions : List α → Nat
  | [] => 0
  | a :: l => l.countP (out a ·) + inversions l

/-- No two neighbours up to `i` are out of order. -/
def OrderedTo (l : List α) (i : Nat) : Prop :=
  ∀ j a b, j < i → l[j]? = some a → l[j + 1]? = some b → out a b = false

variable {out}

theorem exchange_perm (l : List α) (i : Nat) : (exchange l i).Perm l := by
  induction l generalizing i with
  | nil => cases i <;> exact .refl _
  | cons a l ih =>
    cases i with
    | zero =>
      cases l with
      | nil => exact .refl _
      | cons b l => exact .swap a b l
    | succ i => exact (ih i).cons a

@[simp] theorem length_exchange (l : List α) (i : Nat) : (exchange l i).length = l.length :=
  (exchange_perm l i).length_eq

/-- The pair exchanged is the only one whose order changes. -/
theorem inversions_exchange (asymm : ∀ a b, out a b = true → out b a = false) {l : List α} {i : Nat}
    {a b : α} (first : l[i]? = some a) (second : l[i + 1]? = some b) (wrong : out a b = true) :
    inversions out (exchange l i) + 1 = inversions out l := by
  induction l generalizing i with
  | nil => simp at first
  | cons c l ih =>
    cases i with
    | zero =>
      cases l with
      | nil => simp at second
      | cons d l =>
        obtain rfl : c = a := by simpa using first
        obtain rfl : d = b := by simpa using second
        have right := asymm c d wrong
        simp only [exchange, inversions, List.countP_cons, wrong, right]
        simp
        omega
    | succ i =>
      have same : (exchange l i).countP (out c ·) = l.countP (out c ·) :=
        (exchange_perm l i).countP_eq _
      have fewer := ih (by simpa using first) (by simpa using second)
      simp only [exchange, inversions, same]
      omega

theorem orderedTo_zero (l : List α) : OrderedTo out l 0 :=
  fun _ _ _ below => absurd below (Nat.not_lt_zero _)

theorem OrderedTo.next {l : List α} {i : Nat} (ordered : OrderedTo out l i) {a b : α}
    (first : l[i]? = some a) (second : l[i + 1]? = some b) (right : out a b = false) :
    OrderedTo out l (i + 1) := by
  intro j c d below here behind
  rcases Nat.lt_succ_iff_lt_or_eq.mp below with earlier | rfl
  · exact ordered j c d earlier here behind
  · rw [first] at here
    rw [second] at behind
    cases here
    cases behind
    exact right

/-- Neighbours in order are enough where order carries over from pair to pair. -/
theorem OrderedTo.pairwise {l : List α} {i : Nat} (ordered : OrderedTo out l i)
    (carries : ∀ a b c, out a b = false → out b c = false → out a c = false)
    (whole : l.length ≤ i + 1) : l.Pairwise fun a b => out a b = false := by
  induction l generalizing i with
  | nil => exact .nil
  | cons a l ih =>
    cases l with
    | nil => exact List.pairwise_singleton _ _
    | cons b l =>
      have later : OrderedTo out (b :: l) (i - 1) := by
        intro j c d below here behind
        exact ordered (j + 1) c d (by omega) (by simpa using here) (by simpa using behind)
      have rest := ih later (by simp only [List.length_cons] at whole ⊢; omega)
      have next : out a b = false :=
        ordered 0 a b (by simp only [List.length_cons] at whole; omega) rfl rfl
      refine .cons ?_ rest
      intro c member
      rcases List.mem_cons.mp member with rfl | member
      · exact next
      · exact carries a b c next ((List.pairwise_cons.mp rest).1 c member)

end ExchangeSort
