import Mathlib.Data.BitVec

/-!
# Words of flags

A flag is one bit of a word. A test of a word against a mask asks for the bits
of the mask, one by one.
-/
namespace FlagWord

variable {w : Nat}

/-- Some flag of the mask is up in the word. -/
def Meets (word mask : BitVec w) : Prop := word &&& mask ≠ 0#w

instance (word mask : BitVec w) : Decidable (Meets word mask) :=
  inferInstanceAs (Decidable (_ ≠ _))

theorem meets_or {word m n : BitVec w} :
    Meets word (m ||| n) ↔ Meets word m ∨ Meets word n := by
  have split : word &&& (m ||| n) = word &&& m ||| word &&& n := by
    ext i
    simp [Bool.and_or_distrib_left]
  unfold Meets
  rw [split, ne_eq, BitVec.or_eq_zero_iff, not_and_or]

theorem meets_twoPow {word : BitVec w} {i : Nat} (inside : i < w) :
    Meets word (BitVec.twoPow w i) ↔ word.getLsbD i = true := by
  unfold Meets
  rw [BitVec.and_twoPow]
  cases word.getLsbD i with
  | false => simp
  | true =>
    -- the bit lies inside the word
    have nonzero : BitVec.twoPow w i ≠ 0#w := by
      intro zero
      have bit := congrArg (·.getLsbD i) zero
      simp [inside] at bit
    simpa using nonzero

/-! ### Tables of flags -/

variable {v : Nat}

/-- Every flag of the word puts up the flag beside it in the table. -/
def translate (table : List (BitVec w × BitVec v)) (word : BitVec w) : BitVec v :=
  match table with
  | [] => 0#v
  | (flag, flag') :: table => (if Meets word flag then flag' else 0#v) ||| translate table word

/-- Flags that share no bit, and none of which is empty. -/
structure Apart (flags : List (BitVec w)) : Prop where
  disjoint : flags.Pairwise fun a b => a &&& b = 0#w
  nonempty : ∀ flag ∈ flags, flag ≠ 0#w

theorem Apart.tail {flag : BitVec w} {flags : List (BitVec w)} (apart : Apart (flag :: flags)) :
    Apart flags :=
  ⟨apart.disjoint.tail, fun other member => apart.nonempty other (List.mem_cons_of_mem _ member)⟩

/-- What shares no bit with the flags of a table shares none with what they are put up in. -/
theorem translate_and_eq_zero {table : List (BitVec w × BitVec v)} {mask : BitVec v}
    (outside : ∀ entry ∈ table, mask &&& entry.2 = 0#v) (word : BitVec w) :
    translate table word &&& mask = 0#v := by
  induction table with
  | nil => exact BitVec.zero_and
  | cons entry table ih =>
    have rest := ih fun other member => outside other (List.mem_cons_of_mem _ member)
    have first := outside entry List.mem_cons_self
    rw [translate, BitVec.and_or_distrib_right, rest, BitVec.or_zero]
    split
    · exact (BitVec.and_comm ..).trans first
    · exact BitVec.zero_and

theorem meets_translate {table : List (BitVec w × BitVec v)} (apart : Apart (table.map Prod.snd))
    (word : BitVec w) {entry : BitVec w × BitVec v} (member : entry ∈ table) :
    Meets (translate table word) entry.2 ↔ Meets word entry.1 := by
  induction table with
  | nil => exact absurd member List.not_mem_nil
  | cons first table ih =>
    have others : ∀ other ∈ table, first.2 &&& other.2 = 0#v := fun other inside =>
      (List.pairwise_cons.mp apart.disjoint).1 other.2 (List.mem_map_of_mem inside)
    rw [Meets, translate, BitVec.and_or_distrib_right]
    obtain rfl | inside := List.mem_cons.mp member
    · -- The rest of the table leaves this flag alone.
      rw [translate_and_eq_zero others word, BitVec.or_zero]
      have some_bit := apart.nonempty entry.2 List.mem_cons_self
      split
      next up => simpa [up] using some_bit
      next down => simp [down]
    · have alone : (if Meets word first.1 then first.2 else 0#v) &&& entry.2 = 0#v := by
        split
        · exact others entry inside
        · exact BitVec.zero_and
      rw [alone, BitVec.zero_or]
      exact ih apart.tail inside

theorem flag_eq_and {word flag : BitVec w} (single : ∃ i < w, flag = BitVec.twoPow w i) :
    (if Meets word flag then flag else 0#w) = word &&& flag := by
  obtain ⟨i, inside, rfl⟩ := single
  rw [BitVec.and_twoPow]
  by_cases up : word.getLsbD i = true
  · rw [if_pos ((meets_twoPow inside).mpr up), if_pos up]
  · rw [if_neg (mt (meets_twoPow inside).mp up), if_neg up]

/-- All flags of a list. -/
def allOf (flags : List (BitVec w)) : BitVec w := flags.foldr (· ||| ·) 0#w

/-- Through a table and back, the word has kept its flags that the table knows. -/
theorem translate_back {table : List (BitVec w × BitVec v)} (apart : Apart (table.map Prod.snd))
    (single : ∀ entry ∈ table, ∃ i < w, entry.1 = BitVec.twoPow w i) (word : BitVec w) :
    translate (table.map Prod.swap) (translate table word) = word &&& allOf (table.map Prod.fst) := by
  have known : ∀ part ⊆ table, translate (part.map Prod.swap) (translate table word) =
      word &&& allOf (part.map Prod.fst) := by
    intro part inside
    induction part with
    | nil => exact BitVec.and_zero.symm
    | cons entry part ih =>
      have member := inside List.mem_cons_self
      have rest := ih fun other later => inside (List.mem_cons_of_mem _ later)
      have first : (if Meets (translate table word) entry.2 then entry.1 else 0#w) = word &&& entry.1 := by
        simp only [meets_translate apart word member]
        exact flag_eq_and (single entry member)
      calc translate ((entry :: part).map Prod.swap) (translate table word)
          = (if Meets (translate table word) entry.2 then entry.1 else 0#w) |||
              translate (part.map Prod.swap) (translate table word) := rfl
        _ = word &&& entry.1 ||| word &&& allOf (part.map Prod.fst) := by rw [first, rest]
        _ = word &&& allOf ((entry :: part).map Prod.fst) := BitVec.and_or_distrib_left.symm
  exact known table (List.Subset.refl table)

end FlagWord
