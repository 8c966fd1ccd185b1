/-!
# Building a block of bytes

A builder appends bytes to the block and may ask how long the block has become.
`Appends n` says that it only appends, and at most `n` bytes; the bound of a
sequence of builders is the sum of their bounds.
-/
namespace ByteBuilder

abbrev Builder := StateM (List (BitVec 8))

variable {α β : Type}

/-- The block after the builder, from the block before. -/
def Builder.block (x : Builder α) (start : List (BitVec 8)) : List (BitVec 8) := (x.run start).2

def emit (bytes : List (BitVec 8)) : Builder Unit := modify (· ++ bytes)

def position : Builder Nat := do return (← get).length

/-- The two bytes of a word, most significant first. -/
def wordBytes (v : BitVec 16) : List (BitVec 8) := [v.extractLsb' 8 8, v.extractLsb' 0 8]

def longBytes (v : BitVec 32) : List (BitVec 8) :=
  [v.extractLsb' 24 8, v.extractLsb' 16 8, v.extractLsb' 8 8, v.extractLsb' 0 8]

/-- Four bytes in the order of `longBytes` as a number. -/
def joinLong (a b c d : BitVec 8) : BitVec 32 := a ++ b ++ c ++ d

theorem joinLong_longBytes (v : BitVec 32) :
    joinLong (v.extractLsb' 24 8) (v.extractLsb' 16 8) (v.extractLsb' 8 8) (v.extractLsb' 0 8) =
      v := by
  unfold joinLong
  apply BitVec.eq_of_getLsbD_eq
  intro i inside
  simp only [BitVec.getLsbD_append, BitVec.getLsbD_extractLsb']
  -- Which of the four bytes bit `i` lies in.
  by_cases first : i < 8
  · simp [first]
  by_cases second : i < 16
  · simp [first, show i - 8 < 8 by omega, show 8 + (i - 8) = i by omega]
  by_cases third : i < 24
  · simp [first, show ¬ i - 8 < 8 by omega, show i - 8 - 8 < 8 by omega,
      show 16 + (i - 8 - 8) = i by omega]
  · simp [first, show ¬ i - 8 < 8 by omega, show ¬ i - 8 - 8 < 8 by omega,
      show i - 8 - 8 - 8 < 8 by omega, show 24 + (i - 8 - 8 - 8) = i by omega]

/-- The builder appends some bytes, at most `n` of them. The bound of a single builder is found by
instance search; a sequence is taken apart with `Appends.next`. -/
class Appends (n : outParam Nat) (x : Builder α) : Prop where
  appends : ∀ start, ∃ bytes, x.block start = start ++ bytes ∧ bytes.length ≤ n

@[simp] theorem block_bind (x : Builder α) (f : α → Builder β) (start : List (BitVec 8)) :
    (x >>= f).block start = (f (x.run start).1).block (x.block start) :=
  rfl

instance Appends.pure (v : α) : Appends 0 (Pure.pure v : Builder α) where
  appends start := ⟨[], (List.append_nil start).symm, Nat.le_refl 0⟩

instance Appends.emit (bytes : List (BitVec 8)) : Appends bytes.length (emit bytes) where
  appends _ := ⟨bytes, rfl, Nat.le_refl _⟩

instance Appends.position : Appends 0 ByteBuilder.position where
  appends start := ⟨[], (List.append_nil start).symm, Nat.le_refl 0⟩

theorem Appends.mono {m n : Nat} {x : Builder α} (bound : Appends m x) (fewer : m ≤ n) :
    Appends n x where
  appends start := by
    obtain ⟨bytes, appended, few⟩ := bound.appends start
    exact ⟨bytes, appended, Nat.le_trans few fewer⟩

theorem Appends.bind {m n : Nat} {x : Builder α} {f : α → Builder β} (first : Appends m x)
    (rest : ∀ v, Appends n (f v)) : Appends (m + n) (x >>= f) where
  appends start := by
    obtain ⟨bytes, appended, few⟩ := first.appends start
    obtain ⟨more, appended', few'⟩ := (rest (x.run start).1).appends (x.block start)
    refine ⟨bytes ++ more, ?_, ?_⟩
    · rw [block_bind, appended', appended, List.append_assoc]
    · rw [List.length_append]
      exact Nat.add_le_add few few'

/-- A bound for a sequence, after what its first builder may append has been taken off. -/
theorem Appends.next {m n : Nat} {x : Builder α} {f : α → Builder β} [first : Appends m x]
    (room : m ≤ n) (rest : ∀ v, Appends (n - m) (f v)) : Appends n (x >>= f) := by
  have both := first.bind rest
  rwa [Nat.add_sub_cancel' room] at both

/-- A builder that is left out when a condition fails. -/
instance Appends.when {n : Nat} {x : Builder PUnit} (c : Prop) [Decidable c]
    [bound : Appends n x] : Appends n (if c then x else Pure.pure ⟨⟩) := by
  split
  · exact bound
  · exact (Appends.pure _).mono (Nat.zero_le n)

/-- One builder for each element of a list. -/
instance Appends.forM {n : Nat} {f : α → Builder PUnit} [each : ∀ v, Appends n (f v)] :
    (l : List α) → Appends (l.length * n) (l.forM f)
  | [] => by simpa using Appends.pure _
  | v :: l => by
    have both := (each v).bind fun _ => Appends.forM (f := f) l
    rw [List.length_cons, Nat.succ_mul, Nat.add_comm]
    simpa using both

/-- One builder for each element of a list, with what they give. -/
instance Appends.mapM {n : Nat} {f : α → Builder β} [each : ∀ v, Appends n (f v)] :
    (l : List α) → Appends (l.length * n) (l.mapM f)
  | [] => by simpa using Appends.pure _
  | v :: l => by
    have both := (each v).bind fun y => (Appends.mapM (f := f) l).bind fun ys => Appends.pure (y :: ys)
    rw [List.length_cons, Nat.succ_mul, Nat.add_comm, List.mapM_cons]
    exact both

end ByteBuilder
