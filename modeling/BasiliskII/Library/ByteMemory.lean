import Mathlib.Algebra.Group.Nat.Defs

/-!
# Big-endian byte memory

Memory as a function from addresses of any width to bytes, with the word and
long accesses of a big-endian machine. Addresses wrap around. A write leaves a
read alone when their byte ranges are `Apart`, and a read gives back what the
last write at its address stored.
-/
namespace ByteMemory

variable {w : Nat}

abbrev Memory (w : Nat) := BitVec w → BitVec 8

def put (m : Memory w) (a : BitVec w) (b : BitVec 8) : Memory w :=
  fun x => if x = a then b else m x

def getWord (m : Memory w) (a : BitVec w) : BitVec 16 := m a ++ m (a + 1)

def putWord (m : Memory w) (a : BitVec w) (v : BitVec 16) : Memory w :=
  put (put m a (v.extractLsb' 8 8)) (a + 1) (v.extractLsb' 0 8)

def getLong (m : Memory w) (a : BitVec w) : BitVec 32 := getWord m a ++ getWord m (a + 2)

def putLong (m : Memory w) (a : BitVec w) (v : BitVec 32) : Memory w :=
  putWord (putWord m a (v.extractLsb' 16 16)) (a + 2) (v.extractLsb' 0 16)

/-- The `n` bytes from `a` on and the `k` bytes from `b` on have no byte in common. -/
def Apart (a : BitVec w) (n : Nat) (b : BitVec w) (k : Nat) : Prop :=
  n ≤ (b - a).toNat ∧ (b - a).toNat + k ≤ 2 ^ w

instance (a : BitVec w) (n : Nat) (b : BitVec w) (k : Nat) : Decidable (Apart a n b k) :=
  inferInstanceAs (Decidable (_ ∧ _))

/-- The memories agree on the `k` bytes from `b` on. -/
def SameBytes (m m' : Memory w) (b : BitVec w) (k : Nat) : Prop :=
  ∀ i < k, m' (b + BitVec.ofNat w i) = m (b + BitVec.ofNat w i)

variable {b : BitVec w} {k : Nat}

theorem SameBytes.trans {m m' m'' : Memory w} (first : SameBytes m m' b k)
    (second : SameBytes m' m'' b k) : SameBytes m m'' b k :=
  fun i inside => (second i inside).trans (first i inside)

variable {n : Nat}

theorem SameBytes.mono {m m' : Memory w} (same : SameBytes m m' b k) (fewer : n ≤ k) :
    SameBytes m m' b n :=
  fun i inside => same i (Nat.lt_of_lt_of_le inside fewer)

theorem ofNat_add_ofNat (i j : Nat) :
    BitVec.ofNat w i + BitVec.ofNat w j = BitVec.ofNat w (i + j) :=
  (BitVec.ofNat_add i j).symm

theorem SameBytes.shift {m m' : Memory w} (i : Nat) (same : SameBytes m m' b k) (inside : i + n ≤ k) :
    SameBytes m m' (b + BitVec.ofNat w i) n := by
  intro j below
  rw [BitVec.add_assoc, ofNat_add_ofNat]
  exact same (i + j) (by omega)

variable {a : BitVec w}

/-- A byte range that begins past the written bytes does not meet them. -/
theorem Apart.ne (apart : Apart a n b k) {i j : Nat} (inside : i < k) (written : j < n) :
    b + BitVec.ofNat w i ≠ a + BitVec.ofNat w j := by
  obtain ⟨past, fits⟩ := apart
  intro equal
  have offset : b - a + BitVec.ofNat w i = BitVec.ofNat w j := by
    calc b - a + BitVec.ofNat w i = b + BitVec.ofNat w i - a := by grind
      _ = a + BitVec.ofNat w j - a := by rw [equal]
      _ = BitVec.ofNat w j := by grind
  have value := congrArg BitVec.toNat offset
  rw [BitVec.toNat_add, BitVec.toNat_ofNat, BitVec.toNat_ofNat, Nat.add_mod_mod,
    Nat.mod_eq_of_lt (by omega), Nat.mod_eq_of_lt (by omega)] at value
  omega

theorem put_sameBytes (m : Memory w) (v : BitVec 8) (apart : Apart a 1 b k) :
    SameBytes m (put m a v) b k := by
  intro i inside
  have different := apart.ne inside (show 0 < 1 by decide)
  rw [BitVec.add_zero] at different
  exact if_neg different

theorem putWord_sameBytes (m : Memory w) (v : BitVec 16) (apart : Apart a 2 b k) :
    SameBytes m (putWord m a v) b k := by
  intro i inside
  have first : b + BitVec.ofNat w i ≠ a := by
    have different := apart.ne inside (show 0 < 2 by decide)
    rwa [BitVec.add_zero] at different
  have second : b + BitVec.ofNat w i ≠ a + 1 := apart.ne inside (show 1 < 2 by decide)
  simp only [putWord, put, if_neg first, if_neg second]

theorem Apart.left (apart : Apart a n b k) {c : Nat} (fewer : c ≤ n) : Apart a c b k :=
  ⟨Nat.le_trans fewer apart.1, apart.2⟩

/-- The later part of the written bytes is apart as well. -/
theorem Apart.drop (apart : Apart a n b k) {i : Nat} (part : i ≤ n) :
    Apart (a + BitVec.ofNat w i) (n - i) b k := by
  obtain ⟨past, fits⟩ := apart
  have below : (b - a).toNat < 2 ^ w := (b - a).isLt
  have offset : b - (a + BitVec.ofNat w i) = b - a - BitVec.ofNat w i := by grind
  have value : (b - (a + BitVec.ofNat w i)).toNat = (b - a).toNat - i := by
    rw [offset, BitVec.toNat_sub, BitVec.toNat_ofNat, Nat.mod_eq_of_lt (by omega : i < 2 ^ w)]
    rw [show 2 ^ w - i + (b - a).toNat = (b - a).toNat - i + 2 ^ w by omega,
      Nat.add_mod_right, Nat.mod_eq_of_lt (by omega)]
  rw [Apart, value]
  omega

theorem putLong_sameBytes (m : Memory w) (v : BitVec 32) (apart : Apart a 4 b k) :
    SameBytes m (putLong m a v) b k := by
  have later : Apart (a + 2) 2 b k := apart.drop (i := 2) (by decide)
  exact (putWord_sameBytes m _ (apart.left (by decide))).trans (putWord_sameBytes _ _ later)

theorem getWord_congr {m m' : Memory w} (same : SameBytes m m' b 2) :
    getWord m' b = getWord m b := by
  have first := same 0 (by decide)
  have second := same 1 (by decide)
  rw [BitVec.add_zero] at first
  unfold getWord
  rw [first]
  exact congrArg (m b ++ ·) second

theorem getLong_congr {m m' : Memory w} (same : SameBytes m m' b 4) :
    getLong m' b = getLong m b := by
  unfold getLong
  rw [getWord_congr (same.mono (by decide))]
  exact congrArg (getWord m b ++ ·) (getWord_congr (same.shift 2 (by decide)))

-- Reading back.

theorem extract_append (v : BitVec 16) : v.extractLsb' 8 8 ++ v.extractLsb' 0 8 = v := by
  apply BitVec.eq_of_getLsbD_eq
  intro i inside
  rw [BitVec.getLsbD_append]
  by_cases low : i < 8
  · simp [low]
  · simp [low, show i - 8 < 8 by omega, show 8 + (i - 8) = i by omega]

theorem extract_append_long (v : BitVec 32) : v.extractLsb' 16 16 ++ v.extractLsb' 0 16 = v := by
  apply BitVec.eq_of_getLsbD_eq
  intro i inside
  rw [BitVec.getLsbD_append]
  by_cases low : i < 16
  · simp [low]
  · simp [low, show i - 16 < 16 by omega, show 16 + (i - 16) = i by omega]

theorem getWord_putWord (wide : 2 ≤ w) (m : Memory w) (a : BitVec w) (v : BitVec 16) :
    getWord (putWord m a v) a = v := by
  have size : 2 ^ 2 ≤ 2 ^ w := Nat.pow_le_pow_right (by decide) wide
  have different : a ≠ a + 1 := by
    intro equal
    have value := congrArg BitVec.toNat (BitVec.add_right_eq_self.mp equal.symm)
    have one : (1 : BitVec w).toNat = 1 % 2 ^ w := BitVec.toNat_ofNat 1 w
    rw [one, Nat.mod_eq_of_lt (by omega)] at value
    simp at value
  simp only [getWord, putWord, put, if_neg different, if_true]
  exact extract_append v

/-- Bytes behind the written ones are apart from them. -/
theorem apart_behind (a : BitVec w) (fits : n + k ≤ 2 ^ w) (some_read : 0 < k) :
    Apart a n (a + BitVec.ofNat w n) k := by
  have offset : a + BitVec.ofNat w n - a = BitVec.ofNat w n := by grind
  have value : (a + BitVec.ofNat w n - a).toNat = n := by
    rw [offset, BitVec.toNat_ofNat, Nat.mod_eq_of_lt (by omega)]
  rw [Apart, value]
  omega

/-- Bytes below the written ones are apart from them. -/
theorem apart_below (a : BitVec w) (fits : n + k ≤ 2 ^ w) (some_read : 0 < k) :
    Apart (a + BitVec.ofNat w k) n a k := by
  have offset : a - (a + BitVec.ofNat w k) = 0 - BitVec.ofNat w k := by grind
  have value : (a - (a + BitVec.ofNat w k)).toNat = (2 ^ w - k % 2 ^ w) % 2 ^ w := by
    rw [offset, BitVec.toNat_sub, BitVec.toNat_ofNat]
    simp
  by_cases whole : k = 2 ^ w
  · subst whole
    rw [Apart, value, Nat.mod_self, Nat.sub_zero, Nat.mod_self]
    omega
  · rw [Nat.mod_eq_of_lt (by omega : k < 2 ^ w), Nat.mod_eq_of_lt (by omega)] at value
    rw [Apart, value]
    omega

theorem getLong_putLong (wide : 2 ≤ w) (m : Memory w) (a : BitVec w) (v : BitVec 32) :
    getLong (putLong m a v) a = v := by
  have size : 2 ^ 2 ≤ 2 ^ w := Nat.pow_le_pow_right (by decide) wide
  have behind : Apart (a + 2) 2 a 2 := apart_below a (n := 2) (k := 2) size (by decide)
  unfold getLong putLong
  rw [getWord_congr (putWord_sameBytes _ _ behind), getWord_putWord wide, getWord_putWord wide]
  exact extract_append_long v

end ByteMemory

/-!
## Little-endian accesses of a byte memory

The word and long accesses of a little-endian host to the memory of
`ByteMemory`. A write gives back what it stored at its address and leaves bytes
apart from it alone, as the big-endian ones do.
-/
namespace ByteMemory

variable {w : Nat}

/-- The two bytes of a word the other way round. -/
def swapBytes (v : BitVec 16) : BitVec 16 := v.extractLsb' 0 8 ++ v.extractLsb' 8 8

def getWordLE (m : Memory w) (a : BitVec w) : BitVec 16 := m (a + 1) ++ m a

def putWordLE (m : Memory w) (a : BitVec w) (v : BitVec 16) : Memory w := putWord m a (swapBytes v)

def getLongLE (m : Memory w) (a : BitVec w) : BitVec 32 := getWordLE m (a + 2) ++ getWordLE m a

def putLongLE (m : Memory w) (a : BitVec w) (v : BitVec 32) : Memory w :=
  putWordLE (putWordLE m a (v.extractLsb' 0 16)) (a + 2) (v.extractLsb' 16 16)

/-- A big-endian read gets the bytes in the other order. -/
theorem getWordLE_eq (m : Memory w) (a : BitVec w) : getWordLE m a = swapBytes (getWord m a) := by
  rw [getWordLE, getWord, swapBytes, BitVec.extractLsb'_append_eq_right,
    BitVec.extractLsb'_append_eq_left]

theorem swapBytes_swapBytes (v : BitVec 16) : swapBytes (swapBytes v) = v := by
  simp only [swapBytes, BitVec.extractLsb'_append_eq_right, BitVec.extractLsb'_append_eq_left]
  exact extract_append v

theorem getWordLE_putWordLE (wide : 2 ≤ w) (m : Memory w) (a : BitVec w) (v : BitVec 16) :
    getWordLE (putWordLE m a v) a = v := by
  rw [getWordLE_eq, putWordLE, getWord_putWord wide, swapBytes_swapBytes]

theorem putWordLE_sameBytes (m : Memory w) {a b : BitVec w} {k : Nat} (v : BitVec 16)
    (apart : Apart a 2 b k) : SameBytes m (putWordLE m a v) b k :=
  putWord_sameBytes m _ apart

theorem putLongLE_sameBytes (m : Memory w) {a b : BitVec w} {k : Nat} (v : BitVec 32)
    (apart : Apart a 4 b k) : SameBytes m (putLongLE m a v) b k := by
  have later : Apart (a + 2) 2 b k := apart.drop (i := 2) (by decide)
  exact (putWordLE_sameBytes m _ (apart.left (by decide))).trans (putWordLE_sameBytes _ _ later)

theorem getWordLE_congr {m m' : Memory w} {b : BitVec w} (same : SameBytes m m' b 2) :
    getWordLE m' b = getWordLE m b := by
  rw [getWordLE_eq, getWordLE_eq, getWord_congr same]

theorem getLongLE_congr {m m' : Memory w} {b : BitVec w} (same : SameBytes m m' b 4) :
    getLongLE m' b = getLongLE m b := by
  have later : getWordLE m' (b + 2) = getWordLE m (b + 2) :=
    getWordLE_congr (same.shift 2 (by decide))
  rw [getLongLE, getLongLE, later, getWordLE_congr (same.mono (by decide))]

theorem getLongLE_putLongLE (wide : 2 ≤ w) (m : Memory w) (a : BitVec w) (v : BitVec 32) :
    getLongLE (putLongLE m a v) a = v := by
  have size : 2 ^ 2 ≤ 2 ^ w := Nat.pow_le_pow_right (by decide) wide
  have behind : Apart (a + 2) 2 a 2 := apart_below a (n := 2) (k := 2) size (by decide)
  rw [getLongLE, putLongLE, getWordLE_congr (putWordLE_sameBytes _ _ behind),
    getWordLE_putWordLE wide, getWordLE_putWordLE wide]
  exact extract_append_long v

end ByteMemory

/-!
## Blocks of longs in a byte memory

Longs one after the other from an address on. A block reads back long by long,
leaves the bytes around it alone, and does not depend on the order in which its
longs are written.
-/
namespace ByteMemory

variable {w : Nat}

/-- The longs of a list, in ascending order from `a` on. -/
def putLongs (m : Memory w) (a : BitVec w) : List (BitVec 32) → Memory w
  | [] => m
  | v :: vs => putLongs (putLong m a v) (a + 4) vs

/-- The place of long `i` of a block. -/
def longAt (a : BitVec w) (i : Nat) : BitVec w := a + BitVec.ofNat w (4 * i)

theorem longAt_zero (a : BitVec w) : longAt a 0 = a := BitVec.add_zero a

theorem longAt_succ (a : BitVec w) (i : Nat) : longAt a (i + 1) = longAt (a + 4) i := by
  have sum : BitVec.ofNat w 4 + BitVec.ofNat w (4 * i) = BitVec.ofNat w (4 * (i + 1)) := by
    rw [ofNat_add_ofNat, Nat.mul_succ, Nat.add_comm]
  rw [longAt, longAt, ← sum, ← BitVec.add_assoc]
  rfl

theorem putLongs_sameBytes (m : Memory w) {a b : BitVec w} {k : Nat} (vs : List (BitVec 32))
    (apart : Apart a (4 * vs.length) b k) : SameBytes m (putLongs m a vs) b k := by
  induction vs generalizing m a with
  | nil => exact fun _ _ => rfl
  | cons v vs ih =>
    rw [List.length_cons, Nat.mul_succ] at apart
    have first := putLong_sameBytes m v (apart.left (Nat.le_add_left 4 _))
    have rest : Apart (a + 4) (4 * vs.length) b k := by
      have dropped := apart.drop (Nat.le_add_left 4 _)
      rwa [Nat.add_sub_cancel] at dropped
    exact first.trans (ih _ rest)

/-- A byte at least the length of the block past its beginning is left alone. -/
theorem putLongs_outside (m : Memory w) (a : BitVec w) (vs : List (BitVec 32)) {x : BitVec w}
    (outside : 4 * vs.length ≤ (x - a).toNat) : putLongs m a vs x = m x := by
  have same := putLongs_sameBytes m vs (⟨outside, (x - a).isLt⟩ : Apart a _ x 1) 0 Nat.zero_lt_one
  rwa [BitVec.add_zero] at same

theorem getLong_putLongs (wide : 2 ≤ w) (m : Memory w) (a : BitVec w) (vs : List (BitVec 32))
    (fits : 4 * vs.length ≤ 2 ^ w) {i : Nat} (inside : i < vs.length) :
    getLong (putLongs m a vs) (longAt a i) = vs[i] := by
  induction vs generalizing m a i with
  | nil => exact absurd inside (Nat.not_lt_zero i)
  | cons v vs ih =>
    rw [List.length_cons, Nat.mul_succ] at fits
    cases i with
    | zero =>
      have behind : Apart (a + 4) (4 * vs.length) a 4 := apart_below a fits (by decide)
      rw [longAt_zero, putLongs, getLong_congr (putLongs_sameBytes _ vs behind),
        getLong_putLong wide]
      rfl
    | succ i =>
      rw [longAt_succ, putLongs]
      exact ih _ _ (by omega) (Nat.lt_of_succ_lt_succ inside)

-- The order of the writes.

theorem put_comm (m : Memory w) {a b : BitVec w} (different : b ≠ a) (v u : BitVec 8) :
    put (put m a v) b u = put (put m b u) a v := by
  funext x
  by_cases first : x = a
  · subst first
    simp [put, different.symm]
  · simp [put, first]

theorem putWord_comm (m : Memory w) {a b : BitVec w} (apart : Apart a 2 b 2) (v u : BitVec 16) :
    putWord (putWord m a v) b u = putWord (putWord m b u) a v := by
  have hi_hi : b ≠ a := by
    have different := apart.ne (i := 0) (j := 0) (by decide) (by decide)
    rwa [BitVec.add_zero, BitVec.add_zero] at different
  have hi_lo : b ≠ a + 1 := by
    have different := apart.ne (i := 0) (j := 1) (by decide) (by decide)
    rwa [BitVec.add_zero] at different
  have lo_hi : b + 1 ≠ a := by
    have different := apart.ne (i := 1) (j := 0) (by decide) (by decide)
    rwa [BitVec.add_zero] at different
  have lo_lo : b + 1 ≠ a + 1 := apart.ne (i := 1) (j := 1) (by decide) (by decide)
  simp only [putWord]
  rw [put_comm _ hi_lo, put_comm _ lo_lo, put_comm m hi_hi, put_comm _ lo_hi]

/-- A part of the bytes read is apart from the writes as well. -/
theorem Apart.right {a b : BitVec w} {n k : Nat} (apart : Apart a n b k) {i c : Nat}
    (part : i + c ≤ k) (some_read : 0 < c) : Apart a n (b + BitVec.ofNat w i) c := by
  obtain ⟨past, fits⟩ := apart
  have offset : b + BitVec.ofNat w i - a = b - a + BitVec.ofNat w i := by grind
  have value : (b + BitVec.ofNat w i - a).toNat = (b - a).toNat + i := by
    rw [offset, BitVec.toNat_add, BitVec.toNat_ofNat, Nat.add_mod_mod, Nat.mod_eq_of_lt (by omega)]
  rw [Apart, value]
  omega

theorem putLong_comm (m : Memory w) {a b : BitVec w} (apart : Apart a 4 b 4) (v u : BitVec 32) :
    putLong (putLong m a v) b u = putLong (putLong m b u) a v := by
  have later : Apart (a + 2) 2 b 4 := apart.drop (i := 2) (by decide)
  have hi_hi : Apart a 2 b 2 := by
    have part := (apart.left (by decide : 2 ≤ 4)).right (i := 0) (c := 2) (by decide) (by decide)
    rwa [BitVec.add_zero] at part
  have lo_hi : Apart (a + 2) 2 b 2 := by
    have part := later.right (i := 0) (c := 2) (by decide) (by decide)
    rwa [BitVec.add_zero] at part
  have hi_lo : Apart a 2 (b + 2) 2 :=
    (apart.left (by decide : 2 ≤ 4)).right (i := 2) (c := 2) (by decide) (by decide)
  have lo_lo : Apart (a + 2) 2 (b + 2) 2 :=
    later.right (i := 2) (c := 2) (by decide) (by decide)
  simp only [putLong]
  rw [putWord_comm _ lo_hi, putWord_comm _ lo_lo, putWord_comm m hi_hi, putWord_comm _ hi_lo]

/-- The long behind a block may be written first. -/
theorem putLongs_putLong (m : Memory w) (a : BitVec w) (vs : List (BitVec 32)) (v : BitVec 32)
    (fits : 4 * (vs.length + 1) ≤ 2 ^ w) :
    putLongs (putLong m (longAt a vs.length) v) a vs =
      putLong (putLongs m a vs) (longAt a vs.length) v := by
  induction vs generalizing m a with
  | nil => rfl
  | cons u vs ih =>
    rw [List.length_cons] at fits ⊢
    have behind : Apart a 4 (longAt a (vs.length + 1)) 4 := by
      have past := (apart_behind a (n := 4 * (vs.length + 1)) (k := 4) (by omega) (by decide)).left
        (c := 4) (by omega)
      exact past
    rw [putLongs, putLongs, ← putLong_comm m behind, longAt_succ]
    exact ih _ _ (by omega)

theorem putLongs_concat (m : Memory w) (a : BitVec w) (vs : List (BitVec 32)) (v : BitVec 32) :
    putLongs m a (vs ++ [v]) = putLong (putLongs m a vs) (longAt a vs.length) v := by
  induction vs generalizing m a with
  | nil =>
    rw [List.nil_append, putLongs, List.length_nil, longAt_zero]
    rfl
  | cons u vs ih => rw [List.cons_append, putLongs, ih, List.length_cons, longAt_succ, putLongs]

/-- Longs stored one below the other, the first one below `a`. -/
def pushLongs (m : Memory w) (a : BitVec w) : List (BitVec 32) → Memory w
  | [] => m
  | v :: vs => pushLongs (putLong m (a - 4) v) (a - 4) vs

/-- They are the block below `a`, in the other order. -/
theorem pushLongs_eq (m : Memory w) (a : BitVec w) (vs : List (BitVec 32))
    (fits : 4 * vs.length ≤ 2 ^ w) :
    pushLongs m a vs = putLongs m (a - BitVec.ofNat w (4 * vs.length)) vs.reverse := by
  induction vs generalizing m a with
  | nil => rfl
  | cons v vs ih =>
    rw [List.length_cons] at fits ⊢
    have sum : BitVec.ofNat w 4 + BitVec.ofNat w (4 * vs.length) =
        BitVec.ofNat w (4 * (vs.length + 1)) := by
      rw [ofNat_add_ofNat, Nat.mul_succ, Nat.add_comm]
    have below : a - 4 - BitVec.ofNat w (4 * vs.length) =
        a - BitVec.ofNat w (4 * (vs.length + 1)) := by
      have four : (4 : BitVec w) = BitVec.ofNat w 4 := rfl
      rw [← sum, four]
      grind
    have top : longAt (a - BitVec.ofNat w (4 * (vs.length + 1))) vs.length = a - 4 := by
      rw [← below, longAt, BitVec.sub_add_cancel]
    have written := putLongs_putLong m (a - BitVec.ofNat w (4 * (vs.length + 1))) vs.reverse v
      (by rwa [List.length_reverse])
    rw [List.length_reverse, top] at written
    rw [pushLongs, ih _ _ (by omega), below, written, List.reverse_cons, putLongs_concat,
      List.length_reverse, top]

end ByteMemory
