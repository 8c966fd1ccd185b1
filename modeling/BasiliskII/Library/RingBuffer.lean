import Mathlib.Data.List.Basic
import Mathlib.Logic.Function.Iterate

/-!
# Ring buffers compared by equality of their pointers

A ring of `n` slots with a read and a write pointer. Equal pointers mean that
nothing is waiting, so that `n - 1` entries are the most the ring can hold:
advancing the write pointer of a full ring makes all of them disappear.
-/
namespace RingBuffer

variable {α : Type*} {n : Nat}

/-- `(p + 1) % n` -/
def next (p : Fin n) : Fin n := ⟨(p.val + 1) % n, Nat.mod_lt _ (Nat.zero_lt_of_lt p.isLt)⟩

theorem next_val (p : Fin n) : (next p).val = if p.val + 1 = n then 0 else p.val + 1 := by
  have inside := p.isLt
  unfold next
  split
  next last => simp only [last, Nat.mod_self]
  next middle => exact Nat.mod_eq_of_lt (by omega)

theorem next_iterate_val (p : Fin n) {k : Nat} (once : k ≤ n) :
    (next^[k] p).val = if p.val + k < n then p.val + k else p.val + k - n := by
  induction k with
  | zero => simp [p.isLt]
  | succ k ih =>
    have here := ih (by omega)
    have inside := p.isLt
    rw [Function.iterate_succ_apply', next_val, here]
    split <;> split <;> split <;> omega

structure Ring (α : Type*) (n : Nat) where
  slots : Fin n → α
  readPtr : Fin n
  writePtr : Fin n

namespace Ring

def writeSlot (ring : Ring α n) (a : α) : Ring α n :=
  { ring with slots := fun p => if p = ring.writePtr then a else ring.slots p }

def advanceWrite (ring : Ring α n) : Ring α n := { ring with writePtr := next ring.writePtr }

def advanceRead (ring : Ring α n) : Ring α n := { ring with readPtr := next ring.readPtr }

def Full (ring : Ring α n) : Prop := next ring.writePtr = ring.readPtr

instance (ring : Ring α n) : Decidable ring.Full := inferInstanceAs (Decidable (_ = _))

/-- How far the write pointer is ahead. -/
def waiting (ring : Ring α n) : Nat :=
  if ring.readPtr.val ≤ ring.writePtr.val then ring.writePtr.val - ring.readPtr.val
  else ring.writePtr.val + n - ring.readPtr.val

def slotsFrom (slots : Fin n → α) : Fin n → Nat → List α
  | _, 0 => []
  | p, k + 1 => slots p :: slotsFrom slots (next p) k

/-- The entries between the pointers, oldest first. -/
def contents (ring : Ring α n) : List α := slotsFrom ring.slots ring.readPtr ring.waiting

theorem waiting_lt (ring : Ring α n) : ring.waiting < n := by
  have inside := ring.readPtr.isLt
  have inside' := ring.writePtr.isLt
  unfold waiting
  split <;> omega

theorem next_iterate_waiting (ring : Ring α n) : next^[ring.waiting] ring.readPtr = ring.writePtr := by
  have bound := ring.waiting_lt
  have inside := ring.writePtr.isLt
  apply Fin.ext
  rw [next_iterate_val _ (by omega)]
  unfold waiting at bound ⊢
  split <;> split <;> omega

/-- The write pointer is not among the entries. -/
theorem next_iterate_ne_writePtr (ring : Ring α n) {k : Nat} (before : k < ring.waiting) :
    next^[k] ring.readPtr ≠ ring.writePtr := by
  have bound := ring.waiting_lt
  intro equal
  have value := congrArg Fin.val equal
  rw [next_iterate_val _ (by omega)] at value
  unfold waiting at before bound
  split at value <;> split at before <;> omega

theorem slotsFrom_congr {slots slots' : Fin n → α} (p : Fin n) (k : Nat)
    (same : ∀ j < k, slots' (next^[j] p) = slots (next^[j] p)) :
    slotsFrom slots' p k = slotsFrom slots p k := by
  induction k generalizing p with
  | zero => rfl
  | succ k ih =>
    have first : slots' p = slots p := same 0 (Nat.succ_pos k)
    have rest : slotsFrom slots' (next p) k = slotsFrom slots (next p) k := by
      apply ih
      intro j below
      rw [← Function.iterate_succ_apply]
      exact same (j + 1) (Nat.succ_lt_succ below)
    rw [slotsFrom, slotsFrom, first, rest]

theorem slotsFrom_succ (slots : Fin n → α) (p : Fin n) (k : Nat) :
    slotsFrom slots p (k + 1) = slotsFrom slots p k ++ [slots (next^[k] p)] := by
  induction k generalizing p with
  | zero => rfl
  | succ k ih =>
    rw [slotsFrom, ih (next p), slotsFrom, Function.iterate_succ_apply]
    rfl

theorem waiting_eq_zero_iff (ring : Ring α n) : ring.waiting = 0 ↔ ring.readPtr = ring.writePtr := by
  have inside := ring.readPtr.isLt
  rw [Fin.ext_iff]
  unfold waiting
  split <;> omega

variable {ring : Ring α n}

theorem contents_of_eq (equal : ring.readPtr = ring.writePtr) : ring.contents = [] := by
  rw [contents, ring.waiting_eq_zero_iff.mpr equal, slotsFrom]

/-- Filling the free slot changes no entry. -/
theorem contents_writeSlot (ring : Ring α n) (a : α) : (ring.writeSlot a).contents = ring.contents := by
  apply slotsFrom_congr
  intro j below
  exact if_neg (ring.next_iterate_ne_writePtr below)

theorem waiting_advanceWrite (room : ¬ ring.Full) :
    ring.advanceWrite.waiting = ring.waiting + 1 := by
  have inside := ring.readPtr.isLt
  have inside' := ring.writePtr.isLt
  have apart : ring.advanceWrite.writePtr.val ≠ ring.readPtr.val := by
    intro equal
    exact room (Fin.ext equal)
  have moved : ring.advanceWrite.writePtr.val = (next ring.writePtr).val := rfl
  have kept : ring.advanceWrite.readPtr.val = ring.readPtr.val := rfl
  rw [next_val] at moved
  unfold waiting
  split at moved <;> split <;> split <;> omega

theorem contents_advanceWrite (room : ¬ ring.Full) :
    ring.advanceWrite.contents = ring.contents ++ [ring.slots ring.writePtr] := by
  have appended := slotsFrom_succ ring.slots ring.readPtr ring.waiting
  rw [next_iterate_waiting] at appended
  rw [contents, waiting_advanceWrite room]
  exact appended

/-- Without room every entry is lost. -/
theorem contents_advanceWrite_full (full : ring.Full) : ring.advanceWrite.contents = [] :=
  contents_of_eq full.symm

theorem waiting_advanceRead (some_waiting : ring.readPtr ≠ ring.writePtr) :
    ring.waiting = ring.advanceRead.waiting + 1 := by
  have inside := ring.readPtr.isLt
  have inside' := ring.writePtr.isLt
  have apart : ring.readPtr.val ≠ ring.writePtr.val := fun equal => some_waiting (Fin.ext equal)
  have moved : ring.advanceRead.readPtr.val = (next ring.readPtr).val := rfl
  have kept : ring.advanceRead.writePtr.val = ring.writePtr.val := rfl
  rw [next_val] at moved
  unfold waiting
  split at moved <;> split <;> split <;> omega

theorem contents_advanceRead (some_waiting : ring.readPtr ≠ ring.writePtr) :
    ring.contents = ring.slots ring.readPtr :: ring.advanceRead.contents := by
  rw [contents, waiting_advanceRead some_waiting]
  rfl

end Ring

end RingBuffer
