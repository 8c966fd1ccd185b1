import Mathlib.Data.List.Nodup
import Mathlib.Data.Finset.Card
import Mathlib.Logic.Function.Basic

/-!
# Singly linked chains in a heap of cells

Cells are named by addresses that are never handed out twice. `Segment` is the
part of a chain between two links, `Chain` the part down to the null link. The
rule a pointer program needs is `Chain.splice`: rewriting one cell of a chain
replaces everything behind that cell and leaves everything before it.
-/
namespace LinkedHeap

variable {α : Type*}

structure Cell (α : Type*) where
  val : α
  next : Option Nat

/-- Addresses from `fresh` on have never been allocated. -/
structure Heap (α : Type*) where
  cell : Nat → Option (Cell α)
  fresh : Nat
  unallocated : ∀ p, fresh ≤ p → cell p = none

namespace Heap

def empty : Heap α := ⟨fun _ => none, 0, fun _ _ => rfl⟩

/-- Allocate a cell; its address is `h.fresh`. -/
def alloc (h : Heap α) (c : Cell α) : Heap α where
  cell := Function.update h.cell h.fresh (some c)
  fresh := h.fresh + 1
  unallocated p bound := by
    rw [Function.update_of_ne (by omega)]
    exact h.unallocated p (by omega)

/-- Assign to a cell. Assigning through a dangling link does nothing. -/
def modify (h : Heap α) (p : Nat) (f : Cell α → Cell α) : Heap α where
  cell := Function.update h.cell p ((h.cell p).map f)
  fresh := h.fresh
  unallocated q bound := by
    by_cases same : q = p
    · subst same
      rw [Function.update_self, h.unallocated q bound]
      rfl
    · rw [Function.update_of_ne same]
      exact h.unallocated q bound

def free (h : Heap α) (p : Nat) : Heap α where
  cell := Function.update h.cell p none
  fresh := h.fresh
  unallocated q bound := by
    by_cases same : q = p
    · subst same
      exact Function.update_self ..
    · rw [Function.update_of_ne same]
      exact h.unallocated q bound

@[simp] theorem alloc_cell_fresh (h : Heap α) (c : Cell α) :
    (h.alloc c).cell h.fresh = some c :=
  Function.update_self ..

theorem alloc_cell_of_ne (h : Heap α) (c : Cell α) {p : Nat} (ne : p ≠ h.fresh) :
    (h.alloc c).cell p = h.cell p :=
  Function.update_of_ne ne ..

@[simp] theorem modify_cell_self (h : Heap α) (p : Nat) (f : Cell α → Cell α) :
    (h.modify p f).cell p = (h.cell p).map f :=
  Function.update_self ..

theorem modify_cell_of_ne (h : Heap α) {p q : Nat} (f : Cell α → Cell α) (ne : q ≠ p) :
    (h.modify p f).cell q = h.cell q :=
  Function.update_of_ne ne ..

@[simp] theorem free_cell_self (h : Heap α) (p : Nat) : (h.free p).cell p = none :=
  Function.update_self ..

theorem free_cell_of_ne (h : Heap α) {p q : Nat} (ne : q ≠ p) :
    (h.free p).cell q = h.cell q :=
  Function.update_of_ne ne ..

/-- Assigning neither makes nor deletes a cell. -/
@[simp] theorem modify_isSome (h : Heap α) (p q : Nat) (f : Cell α → Cell α) :
    ((h.modify p f).cell q).isSome = (h.cell q).isSome := by
  by_cases same : q = p
  · rw [same, modify_cell_self, Option.isSome_map]
  · rw [modify_cell_of_ne h f same]

@[simp] theorem alloc_fresh (h : Heap α) (c : Cell α) : (h.alloc c).fresh = h.fresh + 1 := rfl

@[simp] theorem modify_fresh (h : Heap α) (p : Nat) (f : Cell α → Cell α) :
    (h.modify p f).fresh = h.fresh := rfl

@[simp] theorem free_fresh (h : Heap α) (p : Nat) : (h.free p).fresh = h.fresh := rfl

theorem lt_fresh (h : Heap α) {p : Nat} {c : Cell α} (found : h.cell p = some c) :
    p < h.fresh := by
  by_contra absent
  rw [h.unallocated p (by omega)] at found
  cases found

end Heap

/-- The null-terminated chain from link `p` holds exactly these cells, in order. -/
inductive Chain (h : Heap α) : Option Nat → List (Nat × α) → Prop
  | null : Chain h none []
  | cell {p : Nat} {a : α} {next : Option Nat} {cells : List (Nat × α)} :
      h.cell p = some ⟨a, next⟩ → Chain h next cells → Chain h (some p) ((p, a) :: cells)

namespace Chain

variable {h h' : Heap α} {p : Option Nat} {cells : List (Nat × α)}

theorem head_eq {q : Nat} {a : α} (chain : Chain h p ((q, a) :: cells)) : p = some q := by
  cases chain
  rfl

/-- A link starts at most one chain. -/
theorem unique {others : List (Nat × α)} (chain : Chain h p cells) (other : Chain h p others) :
    cells = others := by
  induction chain generalizing others with
  | null =>
    cases other
    rfl
  | cell found _ ih =>
    cases other with
    | cell again rest =>
      rw [found] at again
      cases again
      rw [ih rest]

/-- The chain behind any cell of a chain. -/
theorem suffix {front back : List (Nat × α)} {q : Nat} {a : α}
    (chain : Chain h p (front ++ (q, a) :: back)) : Chain h (some q) ((q, a) :: back) := by
  induction front generalizing p with
  | nil =>
    cases chain with
    | cell found rest => exact .cell found rest
  | cons _ _ ih =>
    cases chain with
    | cell _ rest => exact ih rest

theorem cell_eq {front back : List (Nat × α)} {q : Nat} {a : α}
    (chain : Chain h p (front ++ (q, a) :: back)) :
    ∃ next, h.cell q = some ⟨a, next⟩ ∧ Chain h next back := by
  cases chain.suffix with
  | cell found rest => exact ⟨_, found, rest⟩

/-- No cell occurs twice: two occurrences would start chains of different lengths. -/
theorem nodup (chain : Chain h p cells) : (cells.map Prod.fst).Nodup := by
  induction chain with
  | null => exact List.nodup_nil
  | @cell p a next cells found rest ih =>
    refine List.nodup_cons.mpr ⟨?_, ih⟩
    intro again
    obtain ⟨⟨q, b⟩, member, rfl⟩ := List.mem_map.mp again
    obtain ⟨front, back, rfl⟩ := List.append_of_mem member
    have lengths := congrArg List.length ((Chain.cell found rest).unique rest.suffix)
    simp only [List.length_cons, List.length_append] at lengths
    omega

theorem lt_fresh (chain : Chain h p cells) : ∀ q ∈ cells.map Prod.fst, q < h.fresh := by
  induction chain with
  | null => simp
  | cell found _ ih =>
    intro q member
    rcases List.mem_cons.mp member with rfl | later
    · exact h.lt_fresh found
    · exact ih q later

/-- A chain is no longer than the heap, so the heap size bounds every walk along it. -/
theorem length_le (chain : Chain h p cells) : cells.length ≤ h.fresh := by
  have subset : (cells.map Prod.fst).toFinset ⊆ Finset.range h.fresh := by
    intro q member
    exact Finset.mem_range.mpr (chain.lt_fresh q (List.mem_toFinset.mp member))
  have card := Finset.card_le_card subset
  rwa [List.toFinset_card_of_nodup chain.nodup, Finset.card_range, List.length_map] at card

/-- Cells outside the chain do not matter. -/
theorem frame (chain : Chain h p cells)
    (same : ∀ q ∈ cells.map Prod.fst, h'.cell q = h.cell q) : Chain h' p cells := by
  induction chain with
  | null => exact .null
  | cell found _ ih =>
    refine .cell ((same _ (by simp)).trans found) (ih fun q member => same q ?_)
    exact List.mem_cons_of_mem _ member

/-- Rewriting the cell at `q` to hold `b` and point to `next` keeps what stands before `q` and
replaces what stands behind it by the chain at `next`. -/
theorem splice {front back tail : List (Nat × α)} {q : Nat} {a b : α} (next : Option Nat)
    (chain : Chain h p (front ++ (q, a) :: back)) (rewritten : h'.cell q = some ⟨b, next⟩)
    (same : ∀ r ∈ front.map Prod.fst, h'.cell r = h.cell r) (rest : Chain h' next tail) :
    Chain h' p (front ++ (q, b) :: tail) := by
  induction front generalizing p with
  | nil =>
    cases chain with
    | cell _ _ => exact .cell rewritten rest
  | cons _ _ ih =>
    cases chain with
    | cell found onward =>
      refine .cell ((same _ (by simp)).trans found) (ih onward fun r member => same r ?_)
      exact List.mem_cons_of_mem _ member

/-- The cells before and behind a cell of a chain are other cells. -/
theorem apart {front back : List (Nat × α)} {q : Nat} {a : α}
    (chain : Chain h p (front ++ (q, a) :: back)) :
    q ∉ front.map Prod.fst ∧ q ∉ back.map Prod.fst := by
  have distinct := chain.nodup
  rw [List.map_append, List.map_cons, List.nodup_append] at distinct
  obtain ⟨_, behind, separate⟩ := distinct
  refine ⟨fun member => separate q member q (by simp) rfl, (List.nodup_cons.mp behind).1⟩

end Chain

end LinkedHeap
