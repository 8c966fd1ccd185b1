import BasiliskII.Library.PatternSearch
import Mathlib.Algebra.Group.Nat.Defs
import Mathlib.Data.Nat.Find

/-!
# Searching a resource

`find_rsrc_data` of rsrc_patches.cpp. Its bound is the size of the resource less
the length of the search string, taken as an unsigned number and compared
strictly: a string at the very end is not found, and a resource that is shorter
than the string is left.
-/
namespace BasiliskII.Rsrc

open PatternSearch

/-- Bytes that are counted by a `uint32`. -/
structure ByteString where
  bytes : List (BitVec 8)
  short : bytes.length < 2 ^ 32

def ByteString.length (s : ByteString) : Nat := s.bytes.length

def ByteString.size (s : ByteString) : BitVec 32 := BitVec.ofNat 32 s.length

theorem ByteString.size_toNat (s : ByteString) : s.size.toNat = s.length := by
  have short : s.length < 2 ^ 32 := s.short
  rw [ByteString.size, BitVec.toNat_ofNat, Nat.mod_eq_of_lt short]

/-- The string occurs in the resource, `i` bytes behind its start. -/
abbrev ByteString.OccursIn (search rsrc : ByteString) (i : Nat) : Prop :=
  OccursAt rsrc.bytes search.bytes i

/-- Search for byte string, return offset (or 0). The search is in the `max` bytes from `start` on;
`none` is a search that looks at a byte which is not one of the resource. -/
def findRsrcData (rsrc : ByteString) (start : Int) (max : BitVec 32) (search : ByteString)
    (ofs : BitVec 32) : Option (BitVec 32) :=
  let bound := max - search.size
  let found := scan (fun i => compare rsrc.bytes search.bytes (start + i))
    (bound.toNat - ofs.toNat) ofs.toNat
  found.map fun place => BitVec.ofNat 32 (place.getD 0)

variable {rsrc search : ByteString} {max ofs : BitVec 32}

theorem bound_toNat (fits : search.length ≤ max.toNat) :
    (max - search.size).toNat = max.toNat - search.length := by
  have size := search.size_toNat
  bv_omega

/-- The bound of a search for a string that is too long has wrapped around. -/
theorem bound_wrapped (long : max.toNat < search.length) :
    (max - search.size).toNat = 2 ^ 32 + max.toNat - search.length := by
  have size := search.size_toNat
  have short : search.length < 2 ^ 32 := search.short
  bv_omega

/-- A search inside the resource ends at the first occurrence, the one at the very end apart. -/
theorem findRsrcData_spec {start : Nat} (inside : start + max.toNat ≤ rsrc.length)
    (fits : search.length ≤ max.toNat) (ofs : BitVec 32) :
    (∃ k, findRsrcData rsrc start max search ofs = some (BitVec.ofNat 32 k) ∧
        k + search.length < max.toNat ∧
        IsLeast {j | ofs.toNat ≤ j ∧ search.OccursIn rsrc (start + j)} k) ∨
      (findRsrcData rsrc start max search ofs = some 0 ∧
        ∀ j, ofs.toNat ≤ j → search.OccursIn rsrc (start + j) → max.toNat ≤ j + search.length) := by
  have bound := bound_toNat fits
  simp only [ByteString.length] at inside fits bound ⊢
  have tests : ∀ j, ofs.toNat ≤ j → j < ofs.toNat + ((max - search.size).toNat - ofs.toNat) →
      compare rsrc.bytes search.bytes ((start : Int) + j) =
        some (decide (search.OccursIn rsrc (start + j))) := by
    intro j low high
    rw [← Int.natCast_add]
    exact compare_inside (by omega)
  rcases scan_spec tests with ⟨k, found, below, least⟩ | ⟨missed, nowhere⟩
  · have low : ofs.toNat ≤ k := least.1.1
    refine .inl ⟨k, ?_, by omega, least⟩
    simp only [findRsrcData, found, Option.map_some, Option.getD_some]
  · refine .inr ⟨?_, fun j low occurs => ?_⟩
    · simp only [findRsrcData, missed, Option.map_some, Option.getD_none]
      rfl
    · by_contra before
      exact nowhere j low (by omega) occurs

theorem findRsrcData_fails {start : Int} (started : ofs.toNat < (max - search.size).toNat)
    (outside : start + ofs.toNat < 0 ∨
      (rsrc.length : Int) < start + ofs.toNat + search.length) :
    findRsrcData rsrc start max search ofs = none := by
  have fails : compare rsrc.bytes search.bytes (start + ofs.toNat) = none :=
    compare_outside outside
  have failed : scan (fun i => compare rsrc.bytes search.bytes (start + i))
      ((max - search.size).toNat - ofs.toNat) ofs.toNat = none :=
    scan_fails (by omega) fails
  rw [findRsrcData, failed, Option.map_none]

/-! ### The whole resource -/

/-- Where a search from `ofs` on has something to find; 0 stands for nothing. -/
def places (rsrc search : ByteString) (ofs : BitVec 32) : Set Nat :=
  {k | ofs.toNat ≤ k ∧ 0 < k ∧ search.OccursIn rsrc k}

/-- The search stays in the resource and returns the first place, and 0 exactly if there is none. -/
def SearchExact (rsrc search : ByteString) (ofs : BitVec 32) : Prop :=
  ∃ r, findRsrcData rsrc 0 rsrc.size search ofs = some r ∧
    (∀ k, IsLeast (places rsrc search ofs) k → r.toNat = k) ∧
    (r = 0 ↔ places rsrc search ofs = ∅)

/-- No comparison is made, or all of them can be; and the first place does not touch the end of the
resource and is not behind an occurrence at 0 where the search begins. -/
structure Searchable (rsrc search : ByteString) (ofs : BitVec 32) : Prop where
  inside : search.length ≤ rsrc.length ∨ 2 ^ 32 + rsrc.length ≤ ofs.toNat + search.length
  first : ∀ k, IsLeast (places rsrc search ofs) k →
    k + search.length < rsrc.length ∧ ¬ (ofs = 0 ∧ search.OccursIn rsrc 0)

theorem occursIn_fits {i : Nat} (occurs : search.OccursIn rsrc i) :
    i + search.length ≤ rsrc.length := occurs.1

theorem exists_least {s : Set Nat} (some_place : s ≠ ∅) : ∃ k, IsLeast s k := by
  classical
  obtain ⟨k, member⟩ := Set.nonempty_iff_ne_empty.mpr some_place
  exact ⟨Nat.find ⟨k, member⟩, Nat.find_spec ⟨k, member⟩, fun j other => Nat.find_min' _ other⟩

theorem no_least_iff {s : Set Nat} : (∀ k, ¬ IsLeast s k) ↔ s = ∅ := by
  constructor
  · intro none
    by_contra some_place
    obtain ⟨k, least⟩ := exists_least some_place
    exact none k least
  · rintro rfl k least
    exact least.1

theorem searchExact_zero (found : findRsrcData rsrc 0 rsrc.size search ofs = some 0) :
    SearchExact rsrc search ofs ↔ ∀ k, ¬ IsLeast (places rsrc search ofs) k := by
  rw [no_least_iff]
  constructor
  · rintro ⟨r, returned, -, zero⟩
    rw [found] at returned
    cases returned
    exact zero.mp rfl
  · intro empty
    refine ⟨0, found, fun k least => ?_, by simp [empty]⟩
    rw [empty] at least
    exact absurd least.1 (Set.notMem_empty k)

/-- A search that returns 0 where the string would fit is exact if nothing else is to be found. -/
theorem search_zero_iff (fits : search.length ≤ rsrc.length)
    (found : findRsrcData rsrc 0 rsrc.size search ofs = some 0)
    (hidden : ∀ k, IsLeast (places rsrc search ofs) k →
      rsrc.length ≤ k + search.length ∨ (ofs = 0 ∧ search.OccursIn rsrc 0)) :
    SearchExact rsrc search ofs ↔ Searchable rsrc search ofs := by
  rw [searchExact_zero found]
  constructor
  · intro none
    exact ⟨.inl fits, fun k first => absurd first (none k)⟩
  · intro searchable k first
    obtain ⟨before, alone⟩ := searchable.first k first
    rcases hidden k first with last | zero
    · omega
    · exact alone zero

/-- A place that is found is the first one, and does not touch the end. -/
theorem search_found {k : Nat} (fits : search.length ≤ rsrc.length) (positive : 0 < k)
    (found : findRsrcData rsrc 0 rsrc.size search ofs = some (BitVec.ofNat 32 k))
    (before : k + search.length < rsrc.length)
    (least : IsLeast {j | ofs.toNat ≤ j ∧ search.OccursIn rsrc j} k) :
    SearchExact rsrc search ofs ∧ Searchable rsrc search ofs := by
  have short : rsrc.length < 2 ^ 32 := rsrc.short
  have first : IsLeast (places rsrc search ofs) k :=
    ⟨⟨least.1.1, positive, least.1.2⟩, fun j member => least.2 ⟨member.1, member.2.2⟩⟩
  have value : (BitVec.ofNat 32 k).toNat = k := by
    rw [BitVec.toNat_ofNat, Nat.mod_eq_of_lt (by omega)]
  refine ⟨⟨BitVec.ofNat 32 k, found, fun j other => ?_, ?_⟩, .inl fits, fun j other => ?_⟩
  · rw [value, first.unique other]
  · constructor
    · intro zero
      rw [zero] at value
      exact absurd value.symm (Nat.pos_iff_ne_zero.mp positive)
    · intro empty
      rw [empty] at first
      exact absurd first.1 (Set.notMem_empty k)
  · cases first.unique other
    refine ⟨before, fun ⟨start, at_zero⟩ => ?_⟩
    have lower := least.2 ⟨by simp [start], at_zero⟩
    omega

/-- A string that is longer than the resource occurs nowhere in it, and the bound of the search
wraps. -/
theorem search_long_iff (long : rsrc.length < search.length) :
    SearchExact rsrc search ofs ↔ Searchable rsrc search ofs := by
  have size := rsrc.size_toNat
  have bound : (rsrc.size - search.size).toNat = 2 ^ 32 + rsrc.size.toNat - search.length :=
    bound_wrapped (by omega)
  have short : search.length < 2 ^ 32 := search.short
  have nowhere : ∀ k, ¬ IsLeast (places rsrc search ofs) k := by
    intro k least
    have fits := occursIn_fits least.1.2.2
    omega
  by_cases past : 2 ^ 32 + rsrc.length ≤ ofs.toNat + search.length
  · have missed : findRsrcData rsrc 0 rsrc.size search ofs = some 0 := by
      have none_left : (rsrc.size - search.size).toNat - ofs.toNat = 0 := by omega
      simp only [findRsrcData, none_left, scan, Option.map_some, Option.getD_none]
      rfl
    have searchable : Searchable rsrc search ofs :=
      ⟨.inr past, fun k least => absurd least (nowhere k)⟩
    exact iff_of_true ((searchExact_zero missed).mpr nowhere) searchable
  · have fails : findRsrcData rsrc 0 rsrc.size search ofs = none :=
      findRsrcData_fails (by omega) (.inr (by omega))
    constructor
    · rintro ⟨r, found, -⟩
      rw [fails] at found
      cases found
    · intro searchable
      rcases searchable.inside with fits | past'
      · exact absurd fits (Nat.not_le.mpr long)
      · exact absurd past' past

/-- `find_rsrc_data` is exact for these resources and strings, and no others. -/
theorem search_exact_iff (rsrc search : ByteString) (ofs : BitVec 32) :
    SearchExact rsrc search ofs ↔ Searchable rsrc search ofs := by
  have size := rsrc.size_toNat
  have short : rsrc.length < 2 ^ 32 := rsrc.short
  by_cases fits : search.length ≤ rsrc.length
  · have searched := @findRsrcData_spec rsrc search rsrc.size 0 (by omega) (by omega) ofs
    simp only [Int.ofNat_zero, Nat.zero_add, size] at searched
    rcases searched with ⟨k, found, before, least⟩ | ⟨missed, behind⟩
    · rcases Nat.eq_zero_or_pos k with rfl | positive
      · -- The occurrence at 0 hides every other one.
        have start : ofs = 0 := BitVec.eq_of_toNat_eq (Nat.le_zero.mp least.1.1)
        exact search_zero_iff fits found fun _ _ => .inr ⟨start, least.1.2⟩
      · obtain ⟨exact_search, searchable⟩ := search_found fits positive found before least
        exact iff_of_true exact_search searchable
    · exact search_zero_iff fits missed fun k first => .inl (behind k first.1.1 first.1.2.2)
  · exact search_long_iff (Nat.not_le.mp fits)

/-- The string is the last byte of the resource. -/
theorem last_byte_not_found :
    ¬ ∀ rsrc search : ByteString, 0 < search.length → ∀ ofs, SearchExact rsrc search ofs := by
  intro all
  let rsrc : ByteString := ⟨[0x4e, 0x75], by decide⟩
  let search : ByteString := ⟨[0x75], by decide⟩
  obtain ⟨r, found, least, -⟩ := all rsrc search (by decide) 0
  have missed : findRsrcData rsrc 0 rsrc.size search 0 = some 0 := by decide
  rw [missed] at found
  cases found
  have first : IsLeast (places rsrc search 0) 1 :=
    ⟨⟨by decide, by decide, by decide⟩, fun j member => member.2.1⟩
  exact absurd (least 1 first) (by decide)

end BasiliskII.Rsrc
