import BasiliskII.Library.WordSums
import BasiliskII.Library.WriteLog
import Mathlib.Logic.Function.Basic

/-!
# Checksums of packets

The three routines of iphelp.cpp that put a checksum into a packet. What they store brings the words
they add up to 0xffff, carries added in again. These are all the words that are covered, but for
the last byte of an ICMP message of odd length and TCP headers with options.
-/
namespace BasiliskII.Router

/-- A packet in memory, and the ranges of it that have been read. -/
structure Block extends WriteLog.Area where
  read : List (Nat × Nat)

namespace Block

/-- `ntohs` of the word at `a`. -/
def word (bytes : Nat → BitVec 8) (a : Nat) : BitVec 16 := bytes a ++ bytes (a + 1)

def load (start n : Nat) (b : Block) : Block := { b with read := b.read ++ [(start, n)] }

def store (start : Nat) (data : List (BitVec 8)) (b : Block) : Block :=
  { b with toArea := b.toArea.store start data }

/-- The word at `a` gets `htons(w)`. -/
def storeWord (a : Nat) (w : BitVec 16) (b : Block) : Block :=
  b.store a [w.extractLsb' 8 8, w.extractLsb' 0 8]

end Block

open Block

/-- `sum32 += ntohs(p[i])` for `n` words. -/
def sumWords (bytes : Nat → BitVec 8) (p : Nat) : Nat → BitVec 32 → BitVec 32
  | 0, sum32 => sum32
  | n + 1, sum32 => sumWords bytes (p + 2) n (sum32 + (word bytes p).setWidth 32)

/-- `HIWORD(sum32) + LOWORD(sum32)` does not overflow. -/
theorem halves {sum32 : BitVec 32} (some_carry : ¬sum32 >>> 16 = 0) :
    0x10000 ≤ sum32.toNat ∧ (sum32 >>> 16 + (sum32 &&& 0xffff)).toNat =
      sum32.toNat / 0x10000 + sum32.toNat % 0x10000 := by
  have high : (sum32 >>> 16).toNat = sum32.toNat / 65536 := by
    rw [BitVec.toNat_ushiftRight, Nat.shiftRight_eq_div_pow]
  have low : (sum32 &&& 0xffff).toNat = sum32.toNat % 65536 :=
    (BitVec.toNat_and ..).trans (Nat.and_two_pow_sub_one_eq_mod sum32.toNat 16)
  have positive : (sum32 >>> 16).toNat ≠ 0 := fun zero => some_carry (BitVec.eq_of_toNat_eq zero)
  have small := sum32.isLt
  rw [high] at positive
  rw [BitVec.toNat_add, high, low, Nat.mod_eq_of_lt (by omega)]
  exact ⟨by omega, rfl⟩

/-- `while( HIWORD(sum32) ) sum32 = HIWORD(sum32) + LOWORD(sum32)` -/
def foldCarries (sum32 : BitVec 32) : BitVec 32 :=
  if _ : sum32 >>> 16 = 0 then sum32 else foldCarries (sum32 >>> 16 + (sum32 &&& 0xffff))
termination_by sum32.toNat
decreasing_by
  obtain ⟨big, added⟩ := halves ‹_›
  omega

def inverted (sum32 : BitVec 32) : BitVec 16 := (~~~(foldCarries sum32)).setWidth 16

def makeIcmpChecksum (len : Int) (icmp : Block) : Block :=
  let icmp := icmp.storeWord 36 0
  -- Sizes have no sign, and `sz` has 16 bits.
  let sz : BitVec 16 := ((BitVec.ofInt 32 len - 34) / 2).setWidth 16
  (icmp.load 34 (2 * sz.toNat)).storeWord 36 (inverted (sumWords icmp.bytes 34 sz.toNat 0))

/-- The words of the pseudo header; addresses by their halves. -/
def pseudoWords (bytes : Nat → BitVec 8) (msg_len : BitVec 16) : List (BitVec 16) :=
  [word bytes 28, word bytes 26, word bytes 32, word bytes 30, (bytes 23).setWidth 16, msg_len]

def makeTcpChecksum (len : Int) (tcp : Block) : Block :=
  let tcp := tcp.storeWord 50 0
  let tcp_len := len - 34
  let sz : BitVec 16 := BitVec.ofInt 16 (tcp_len.tdiv 2)
  let sum32 := sumWords tcp.bytes 34 sz.toNat 0
  let last := (34 + tcp_len - 1).toNat
  let sum32 := if len % 2 = 0 then sum32 else sum32 + (tcp.bytes last).setWidth 32 <<< 8
  let msg_len : BitVec 16 := (tcp.bytes 46 >>> 2).setWidth 16 + BitVec.ofInt 16 (len - 54)
  let sum32 := (pseudoWords tcp.bytes msg_len).foldl (fun sum w => sum + w.setWidth 32) sum32
  let tcp := (tcp.load 34 (2 * sz.toNat)).load last (if len % 2 = 0 then 0 else 1)
  (((tcp.load 26 8).load 23 1).load 46 1).storeWord 50 (inverted sum32)

/-- The lower four bits of the byte behind the MAC header. -/
def ipHeaderLen (bytes : Nat → BitVec 8) : BitVec 4 := (bytes 14).extractLsb' 0 4

def makeIp4Checksum (ip : Block) : Block :=
  let ip := ip.storeWord 24 0
  let sz := (ipHeaderLen ip.bytes).toNat * 2
  ((ip.load 14 1).load 14 (2 * sz)).storeWord 24 (inverted (sumWords ip.bytes 14 sz 0))

/-! ### What is covered -/

/-- Words of bytes, the last byte with a zero behind it. -/
def words : List (BitVec 8) → List Nat
  | [] => []
  | [x] => [x.toNat * 256]
  | x :: y :: rest => (x.toNat * 256 + y.toNat) :: words rest

def total (bytes : Nat → BitVec 8) (start n : Nat) : Nat := (words (WriteLog.slice bytes start n)).sum

def tcpTotal (len : Nat) (bytes : Nat → BitVec 8) : Nat :=
  total bytes 34 (len - 34) + ((pseudoWords bytes (BitVec.ofNat 16 (len - 34))).map (·.toNat)).sum

/-- The words are 0xffff with their carries, and are not when one covered byte is another. -/
structure Checked (sum : (Nat → BitVec 8) → Nat) (covered : Nat → Prop) (bytes : Nat → BitVec 8) :
    Prop where
  verifies : OnesComplement.fold 0x10000 (sum bytes) = 0xffff
  detects : ∀ i, covered i → ∀ v, v ≠ bytes i →
    OnesComplement.fold 0x10000 (sum (Function.update bytes i v)) ≠ 0xffff

def IpChecked (b : Block) : Prop :=
  Checked (total · 14 (4 * (ipHeaderLen b.bytes).toNat))
    (fun i => 14 ≤ i ∧ i < 14 + 4 * (ipHeaderLen b.bytes).toNat) b.bytes

def IcmpChecked (len : Nat) (b : Block) : Prop :=
  Checked (total · 34 (len - 34)) (fun i => 34 ≤ i ∧ i < len) b.bytes

/-- Addresses and protocol are in the pseudo header. -/
def TcpChecked (len : Nat) (b : Block) : Prop :=
  Checked (tcpTotal len) (fun i => i = 23 ∨ 26 ≤ i ∧ i < len) b.bytes

variable (bytes : Nat → BitVec 8)

theorem slice_succ (start n : Nat) :
    WriteLog.slice bytes start (n + 1) = bytes start :: WriteLog.slice bytes (start + 1) n := by
  unfold WriteLog.slice
  rw [List.range_succ_eq_map, List.map_cons, List.map_map]
  refine congrArg _ (List.map_congr_left fun k _ => congrArg bytes ?_)
  exact (Nat.add_right_comm start 1 k).symm

theorem total_add_two (start n : Nat) : total bytes start (n + 2) =
    (bytes start).toNat * 256 + (bytes (start + 1)).toNat + total bytes (start + 2) n := by
  rw [total, slice_succ, slice_succ, words, List.sum_cons]
  rfl

theorem total_zero (start : Nat) : total bytes start 0 = 0 := rfl

theorem total_one (start : Nat) : total bytes start 1 = (bytes start).toNat * 256 := by
  rw [total, slice_succ]
  exact Nat.add_zero _

theorem total_congr {bytes bytes' : Nat → BitVec 8} {start n : Nat}
    (same : ∀ i, start ≤ i → i < start + n → bytes i = bytes' i) :
    total bytes start n = total bytes' start n :=
  congrArg (fun l => (words l).sum) (WriteLog.slice_congr fun i inside =>
    same (start + i) (Nat.le_add_right ..) (Nat.add_lt_add_left inside start))

theorem total_update_outside {start n i : Nat} (outside : i < start ∨ start + n ≤ i) (v : BitVec 8) :
    total (Function.update bytes i v) start n = total bytes start n :=
  total_congr fun j first last => Function.update_of_ne (by omega) ..

/-- The weight of the byte `k` bytes from where the words begin. -/
def weight (k : Nat) : Nat := if k % 2 = 0 then 256 else 1

theorem weight_add_two (k : Nat) : weight (k + 2) = weight k := by
  unfold weight
  rw [Nat.add_mod_right]

theorem total_update (start n k : Nat) (inside : k < n) (v : BitVec 8) :
    total (Function.update bytes (start + k) v) start n + (bytes (start + k)).toNat * weight k =
      total bytes start n + v.toNat * weight k := by
  induction k using Nat.twoStepInduction generalizing start n with
  | zero =>
    match n with
    | 1 =>
      rw [total_one, total_one, Nat.add_zero, Function.update_self]
      exact Nat.add_comm ..
    | n + 2 =>
      have next : Function.update bytes start v (start + 1) = bytes (start + 1) :=
        Function.update_of_ne (by omega) ..
      rw [total_add_two, total_add_two, Nat.add_zero, Function.update_self, next,
        total_update_outside bytes (.inl (by omega)), show weight 0 = 256 from rfl]
      omega
  | one =>
    obtain ⟨n, rfl⟩ : ∃ m, n = m + 2 := ⟨n - 2, by omega⟩
    have before : Function.update bytes (start + 1) v start = bytes start :=
      Function.update_of_ne (by omega) ..
    rw [total_add_two, total_add_two, Function.update_self, before,
      total_update_outside bytes (.inl (by omega)), show weight 1 = 1 from rfl]
    omega
  | more k ih _ =>
    obtain ⟨n, rfl⟩ : ∃ m, n = m + 2 := ⟨n - 2, by omega⟩
    have first : Function.update bytes (start + (k + 2)) v start = bytes start :=
      Function.update_of_ne (by omega) ..
    have second : Function.update bytes (start + (k + 2)) v (start + 1) = bytes (start + 1) :=
      Function.update_of_ne (by omega) ..
    have rest := ih (start + 2) n (by omega)
    rw [show start + 2 + k = start + (k + 2) by omega] at rest
    rw [total_add_two, total_add_two, first, second, weight_add_two]
    omega

/-! ### What the routines add up -/

theorem word_toNat (a : Nat) :
    (word bytes a).toNat = (bytes a).toNat * 256 + (bytes (a + 1)).toNat := by
  unfold word
  rw [BitVec.toNat_append, ← Nat.shiftLeft_add_eq_or_of_lt (bytes (a + 1)).isLt, Nat.shiftLeft_eq]

theorem sumWords_eq (p n : Nat) (sum32 : BitVec 32) :
    sumWords bytes p n sum32 = sum32 + BitVec.ofNat 32 (total bytes p (2 * n)) := by
  induction n generalizing p sum32 with
  | zero => exact (BitVec.add_zero sum32).symm
  | succ n ih =>
    rw [sumWords, ih, show 2 * (n + 1) = 2 * n + 2 by omega, total_add_two, ← BitVec.ofNat_toNat,
      word_toNat, BitVec.add_assoc, ← BitVec.ofNat_add]

theorem total_le (start n : Nat) : total bytes start n ≤ (n + 1) / 2 * 0xffff := by
  have first := (bytes start).isLt
  have second := (bytes (start + 1)).isLt
  induction n using Nat.twoStepInduction generalizing start with
  | zero => exact Nat.le_refl 0
  | one =>
    rw [total_one]
    omega
  | more n ih _ =>
    have rest := ih (start + 2) (bytes _).isLt (bytes _).isLt
    rw [total_add_two]
    omega

theorem sumWords_toNat (p : Nat) {n : Nat} (few : n ≤ 0xffff) :
    (sumWords bytes p n 0).toNat = total bytes p (2 * n) := by
  have bound := total_le bytes p (2 * n)
  have started : sumWords bytes p n 0 = BitVec.ofNat 32 (total bytes p (2 * n)) :=
    (sumWords_eq bytes p n 0).trans (BitVec.zero_add _)
  rw [started, BitVec.toNat_ofNat, Nat.mod_eq_of_lt (by omega)]

theorem foldCarries_toNat (sum32 : BitVec 32) :
    (foldCarries sum32).toNat = OnesComplement.fold 0x10000 sum32.toNat := by
  fun_induction foldCarries sum32 with
  | case1 sum32 no_carry =>
    have high := congrArg BitVec.toNat no_carry
    rw [BitVec.toNat_ushiftRight, Nat.shiftRight_eq_div_pow] at high
    have small : sum32.toNat < 0x10000 := by
      have zero : sum32.toNat / 65536 = 0 := high
      omega
    exact (OnesComplement.fold_of_lt small).symm
  | case2 sum32 some_carry ih =>
    obtain ⟨big, added⟩ := halves some_carry
    rw [ih, OnesComplement.fold_of_le (by decide) big, OnesComplement.carry, added]

theorem inverted_toNat (sum32 : BitVec 32) :
    (inverted sum32).toNat = OnesComplement.complement 0x10000 sum32.toNat := by
  have small := (OnesComplement.fold_spec (by decide : 2 ≤ 0x10000) sum32.toNat).1
  unfold inverted OnesComplement.complement
  rw [BitVec.toNat_setWidth, BitVec.toNat_not, foldCarries_toNat]
  omega

/-! ### Bytes that count -/

/-- The byte at `i` counts with weight `w`. -/
def Counts (sum : (Nat → BitVec 8) → Nat) (i w : Nat) : Prop :=
  ∀ bytes v, sum (Function.update bytes i v) + (bytes i).toNat * w = sum bytes + v.toNat * w

theorem total_counts {start n i : Nat} (first : start ≤ i) (last : i < start + n) :
    Counts (total · start n) i (weight (i - start)) := by
  intro bytes v
  have here := total_update bytes start n (i - start) (by omega) v
  rwa [Nat.add_sub_of_le first] at here

theorem Counts.add {sum other : (Nat → BitVec 8) → Nat} {i w : Nat} (counts : Counts sum i w)
    (apart : ∀ bytes v, other (Function.update bytes i v) = other bytes) :
    Counts (fun bytes => sum bytes + other bytes) i w := by
  intro bytes v
  have here := counts bytes v
  dsimp only
  rw [apart]
  omega

/-- A byte can change the sum by less than 0xffff. -/
theorem checked_iff {sum : (Nat → BitVec 8) → Nat} {covered : Nat → Prop} {bytes : Nat → BitVec 8}
    (counts : ∀ i, covered i → ∃ k, Counts sum i (weight k)) :
    Checked sum covered bytes ↔ OnesComplement.fold 0x10000 (sum bytes) = 0xffff := by
  refine ⟨fun checked => checked.verifies, fun full => ⟨full, fun i inside v other => ?_⟩⟩
  obtain ⟨k, counts⟩ := counts i inside
  have here := counts bytes v
  have old := (bytes i).isLt
  have new := v.isLt
  have differs : (bytes i).toNat ≠ v.toNat := fun same => other (BitVec.eq_of_toNat_eq same.symm)
  have either : weight k = 256 ∨ weight k = 1 := by
    unfold weight
    split
    · exact .inl rfl
    · exact .inr rfl
  refine OnesComplement.fold_changed (by decide) full ?_ ?_
  all_goals
    rcases either with even | odd
    · rw [even] at here
      omega
    · rw [odd] at here
      omega

theorem storeWord_bytes (a : Nat) (w : BitVec 16) (b : Block) : (b.storeWord a w).bytes =
    Function.update (Function.update b.bytes a (w.extractLsb' 8 8)) (a + 1)
      (w.extractLsb' 0 8) := by
  funext i
  have stored : (b.storeWord a w).bytes i =
      if a ≤ i ∧ i < a + 2 then [w.extractLsb' 8 8, w.extractLsb' 0 8].getD (i - a) 0
      else b.bytes i := rfl
  rw [stored]
  by_cases second : i = a + 1
  · subst second
    rw [if_pos (by omega), Function.update_self, Nat.add_sub_cancel_left]
    rfl
  · rw [Function.update_of_ne second]
    by_cases first : i = a
    · subst first
      rw [if_pos (by omega), Function.update_self, Nat.sub_self]
      rfl
    · rw [Function.update_of_ne first, if_neg (by omega)]

theorem sum_storeWord {sum : (Nat → BitVec 8) → Nat} {a : Nat} (high : Counts sum a 256)
    (low : Counts sum (a + 1) 1) (b : Block) (w : BitVec 16) :
    sum ((b.storeWord a 0).storeWord a w).bytes = sum (b.storeWord a 0).bytes + w.toNat := by
  have zeros : ((b.storeWord a 0).bytes a).toNat = 0 ∧ ((b.storeWord a 0).bytes (a + 1)).toNat = 0 := by
    rw [storeWord_bytes, Function.update_self, Function.update_of_ne (by omega), Function.update_self]
    exact ⟨rfl, rfl⟩
  have first := high (b.storeWord a 0).bytes (w.extractLsb' 8 8)
  have second := low (Function.update (b.storeWord a 0).bytes a (w.extractLsb' 8 8))
    (w.extractLsb' 0 8)
  have value : w.toNat = (w.extractLsb' 8 8).toNat * 256 + (w.extractLsb' 0 8).toNat := by
    have small := w.isLt
    rw [BitVec.extractLsb'_toNat, BitVec.extractLsb'_toNat, Nat.shiftRight_eq_div_pow,
      Nat.shiftRight_eq_div_pow]
    omega
  rw [zeros.1] at first
  rw [Function.update_of_ne (by omega), zeros.2] at second
  rw [storeWord_bytes a w, value]
  omega

theorem total_last (start n : Nat) : total bytes start (2 * n + 1) =
    total bytes start (2 * n) + (bytes (start + 2 * n)).toNat * 256 := by
  induction n generalizing start with
  | zero =>
    rw [Nat.mul_zero, Nat.zero_add, total_one]
    exact (Nat.zero_add _).symm
  | succ n ih =>
    rw [show 2 * (n + 1) + 1 = 2 * n + 1 + 2 by omega, show 2 * (n + 1) = 2 * n + 2 by omega,
      total_add_two, total_add_two, ih, show start + 2 + 2 * n = start + (2 * n + 2) by omega]
    omega

/-! ### The three routines -/

theorem total_storeWord_outside {start n a : Nat} (outside : a + 1 < start ∨ start + n ≤ a) (b : Block)
    (w : BitVec 16) : total (b.storeWord a w).bytes start n = total b.bytes start n := by
  rw [storeWord_bytes, total_update_outside _ (by omega), total_update_outside _ (by omega)]

theorem storeWord_elsewhere {a i : Nat} (other : i < a ∨ a + 1 < i) (b : Block) (w : BitVec 16) :
    (b.storeWord a w).bytes i = b.bytes i := by
  rw [storeWord_bytes, Function.update_of_ne (by omega), Function.update_of_ne (by omega)]

theorem makeIp4Checksum_bytes (b : Block) : ∃ checksum : BitVec 16,
    (makeIp4Checksum b).bytes = ((b.storeWord 24 0).storeWord 24 checksum).bytes ∧
      checksum.toNat = OnesComplement.complement 0x10000
        (total (b.storeWord 24 0).bytes 14 (4 * (ipHeaderLen b.bytes).toNat)) := by
  have header : ipHeaderLen (b.storeWord 24 0).bytes = ipHeaderLen b.bytes := by
    unfold ipHeaderLen
    rw [storeWord_elsewhere (by decide)]
  have small := (ipHeaderLen b.bytes).isLt
  refine ⟨_, rfl, ?_⟩
  rw [inverted_toNat, header, sumWords_toNat _ _ (by omega),
    show 2 * ((ipHeaderLen b.bytes).toNat * 2) = 4 * (ipHeaderLen b.bytes).toNat by omega]

/-- A header of three words or more contains its checksum. -/
theorem ip_checked_iff (b : Block) : IpChecked (makeIp4Checksum b) ↔
    3 ≤ (ipHeaderLen b.bytes).toNat ∨
      OnesComplement.fold 0x10000 (total b.bytes 14 (4 * (ipHeaderLen b.bytes).toNat)) = 0xffff := by
  obtain ⟨checksum, result, value⟩ := makeIp4Checksum_bytes b
  have header : ipHeaderLen (makeIp4Checksum b).bytes = ipHeaderLen b.bytes := by
    unfold ipHeaderLen
    rw [result, storeWord_elsewhere (by decide), storeWord_elsewhere (by decide)]
  unfold IpChecked
  rw [checked_iff fun i inside => ⟨_, total_counts inside.1 inside.2⟩, header, result]
  by_cases long : 3 ≤ (ipHeaderLen b.bytes).toNat
  · have high : Counts (total · 14 (4 * (ipHeaderLen b.bytes).toNat)) 24 256 :=
      total_counts (by decide) (by omega)
    have low : Counts (total · 14 (4 * (ipHeaderLen b.bytes).toNat)) (24 + 1) 1 :=
      total_counts (by decide) (by omega)
    rw [iff_true_intro (Or.inl long), iff_true, sum_storeWord high low, value]
    exact (OnesComplement.fold_left_out_iff (by decide)).mpr (dvd_zero _)
  · rw [total_storeWord_outside (by omega), total_storeWord_outside (by omega), or_iff_right long]

variable {len : Nat}

theorem icmp_words (long : 34 ≤ len) (short : len ≤ 0xffff + 14) :
    (((BitVec.ofInt 32 len - 34) / 2).setWidth 16 : BitVec 16).toNat = (len - 34) / 2 := by
  have value : (BitVec.ofInt 32 (len : Int) - 34).toNat = len - 34 := by
    rw [BitVec.ofInt_natCast]
    have no_borrow : (34 : BitVec 32) ≤ BitVec.ofNat 32 len := by
      rw [BitVec.le_def, BitVec.toNat_ofNat]
      show 34 ≤ _
      omega
    rw [BitVec.toNat_sub_of_le no_borrow, BitVec.toNat_ofNat, Nat.mod_eq_of_lt (by omega)]
    rfl
  rw [BitVec.toNat_setWidth, BitVec.toNat_udiv, value]
  show (len - 34) / 2 % 65536 = _
  omega

/-- The last byte of an odd message is not added. -/
theorem icmp_checked_iff (long : 38 ≤ len) (short : len ≤ 0xffff + 14) (b : Block) :
    IcmpChecked len (makeIcmpChecksum len b) ↔ len % 2 = 0 ∨ b.bytes (len - 1) = 0 := by
  have sz := icmp_words (by omega : 34 ≤ len) short
  obtain ⟨checksum, result, value⟩ : ∃ checksum : BitVec 16,
      (makeIcmpChecksum len b).bytes = ((b.storeWord 36 0).storeWord 36 checksum).bytes ∧
        checksum.toNat = OnesComplement.complement 0x10000
          (total (b.storeWord 36 0).bytes 34 (2 * ((len - 34) / 2))) := by
    refine ⟨_, rfl, ?_⟩
    rw [inverted_toNat, sz, sumWords_toNat _ _ (by omega)]
  have high : Counts (total · 34 (len - 34)) 36 256 := total_counts (by decide) (by omega)
  have low : Counts (total · 34 (len - 34)) (36 + 1) 1 := total_counts (by decide) (by omega)
  unfold IcmpChecked
  rw [checked_iff fun i inside => ⟨_, total_counts inside.1 (by omega)⟩, result,
    sum_storeWord high low, value]
  by_cases even : len % 2 = 0
  · rw [iff_true_intro (Or.inl even), iff_true, show len - 34 = 2 * ((len - 34) / 2) by omega]
    rw [show 2 * (2 * ((len - 34) / 2) / 2) = 2 * ((len - 34) / 2) by omega]
    exact (OnesComplement.fold_left_out_iff (by decide)).mpr (dvd_zero _)
  · have last : (b.storeWord 36 0).bytes (34 + 2 * ((len - 34) / 2)) = b.bytes (len - 1) := by
      rw [storeWord_elsewhere (by omega), show 34 + 2 * ((len - 34) / 2) = len - 1 by omega]
    rw [or_iff_right even]
    have whole := total_last (b.storeWord 36 0).bytes 34 ((len - 34) / 2)
    rw [show 2 * ((len - 34) / 2) + 1 = len - 34 by omega, last] at whole
    rw [whole, show (0xffff : Nat) = 0x10000 - 1 from rfl,
      OnesComplement.fold_left_out_iff (by decide)]
    have small := (b.bytes (len - 1)).isLt
    constructor
    · intro divides
      obtain ⟨k, times⟩ := divides
      have zero : (b.bytes (len - 1)).toNat = 0 := by omega
      exact BitVec.eq_of_toNat_eq zero
    · intro zero
      have value : (b.bytes (len - 1)).toNat = 0 := congrArg BitVec.toNat zero
      rw [value, Nat.zero_mul]
      exact dvd_zero _

theorem pseudo_sum (msg_len : BitVec 16) :
    ((pseudoWords bytes msg_len).map (·.toNat)).sum =
      total bytes 26 8 + (bytes 23).toNat + msg_len.toNat := by
  have addresses : total bytes 26 8 = (word bytes 26).toNat + (word bytes 28).toNat +
      (word bytes 30).toNat + (word bytes 32).toNat := by
    rw [total_add_two, total_add_two, total_add_two, total_add_two]
    simp only [word_toNat, Nat.reduceAdd, total_zero]
    omega
  have proto : ((bytes 23).setWidth 16 : BitVec 16).toNat = (bytes 23).toNat := by
    have small := (bytes 23).isLt
    rw [BitVec.toNat_setWidth, Nat.mod_eq_of_lt (by omega)]
  rw [addresses, ← proto]
  simp only [pseudoWords, List.map_cons, List.map_nil, List.sum_cons, List.sum_nil]
  omega

/-- The words of the pseudo header, added to those of the segment. -/
theorem foldl_words (ws : List (BitVec 16)) (sum32 : BitVec 32) :
    ws.foldl (fun sum w => sum + w.setWidth 32) sum32 =
      sum32 + BitVec.ofNat 32 (ws.map (·.toNat)).sum := by
  induction ws generalizing sum32 with
  | nil => exact (BitVec.add_zero sum32).symm
  | cons w ws ih =>
    rw [List.foldl_cons, ih, List.map_cons, List.sum_cons, ← BitVec.ofNat_toNat, BitVec.add_assoc,
      ← BitVec.ofNat_add]

/-- The sum of a segment whose length is taken as `msg_len`. -/
def tcpSum (len : Nat) (msg_len : Nat) (bytes : Nat → BitVec 8) : Nat :=
  total bytes 34 (len - 34) + (total bytes 26 8 + (bytes 23).toNat + msg_len)

theorem tcpTotal_eq (long : 54 ≤ len) (short : len ≤ 0xffff + 14) (bytes : Nat → BitVec 8) :
    tcpTotal len bytes = tcpSum len (len - 34) bytes := by
  have length : (BitVec.ofNat 16 (len - 34)).toNat = len - 34 := by
    rw [BitVec.toNat_ofNat, Nat.mod_eq_of_lt (by omega)]
  rw [tcpTotal, pseudo_sum, length, tcpSum]

/-- What the routine takes for the length of the segment. -/
def msgLen (len : Nat) (bytes : Nat → BitVec 8) : Nat := (bytes 46 >>> 2).toNat + (len - 54)

theorem msgLen_toNat (long : 54 ≤ len) (bytes : Nat → BitVec 8) :
    ((bytes 46 >>> 2).setWidth 16 + BitVec.ofInt 16 ((len : Int) - 54) : BitVec 16).toNat =
      msgLen len bytes % 0x10000 := by
  have data : (len : Int) - 54 = (len - 54 : Nat) := by omega
  rw [data, BitVec.ofInt_natCast, BitVec.toNat_add, BitVec.toNat_setWidth, BitVec.toNat_ofNat, msgLen]
  exact (Nat.add_mod ..).symm

theorem tcp_words (long : 54 ≤ len) (short : len ≤ 0xffff + 14) (bytes : Nat → BitVec 8) :
    (if (len : Int) % 2 = 0 then
        sumWords bytes 34 (BitVec.ofInt 16 (((len : Int) - 34).tdiv 2)).toNat 0
      else sumWords bytes 34 (BitVec.ofInt 16 (((len : Int) - 34).tdiv 2)).toNat 0 +
        (bytes (34 + ((len : Int) - 34) - 1).toNat).setWidth 32 <<< 8 : BitVec 32).toNat =
      total bytes 34 (len - 34) := by
  have half : ((len : Int) - 34).tdiv 2 = ((len - 34) / 2 : Nat) := by
    rw [show (len : Int) - 34 = (len - 34 : Nat) by omega]
    exact (Int.ofNat_tdiv (len - 34) 2).symm
  have sz : (BitVec.ofInt 16 (((len : Int) - 34).tdiv 2)).toNat = (len - 34) / 2 := by
    rw [half, BitVec.ofInt_natCast, BitVec.toNat_ofNat, Nat.mod_eq_of_lt (by omega)]
  have sum := sumWords_toNat bytes 34 (by omega : (len - 34) / 2 ≤ 0xffff)
  rw [sz]
  split
  next even =>
    rw [sum, show 2 * ((len - 34) / 2) = len - 34 by omega]
  next odd =>
    have last := (bytes (len - 1)).isLt
    have whole := total_last bytes 34 ((len - 34) / 2)
    have bound := total_le bytes 34 (2 * ((len - 34) / 2))
    rw [show 2 * ((len - 34) / 2) + 1 = len - 34 by omega,
      show 34 + 2 * ((len - 34) / 2) = len - 1 by omega] at whole
    rw [show (34 + ((len : Int) - 34) - 1).toNat = len - 1 by omega, BitVec.toNat_add, sum, whole,
      BitVec.toNat_shiftLeft, BitVec.toNat_setWidth, Nat.shiftLeft_eq]
    omega

theorem makeTcpChecksum_bytes (long : 54 ≤ len) (short : len ≤ 0xffff + 14) (b : Block) :
    ∃ checksum : BitVec 16,
      (makeTcpChecksum len b).bytes = ((b.storeWord 50 0).storeWord 50 checksum).bytes ∧
        checksum.toNat = OnesComplement.complement 0x10000
          (tcpSum len (msgLen len b.bytes % 0x10000) (b.storeWord 50 0).bytes) := by
  refine ⟨_, rfl, ?_⟩
  have segment := tcp_words long short (b.storeWord 50 0).bytes
  have header : msgLen len (b.storeWord 50 0).bytes = msgLen len b.bytes := by
    rw [msgLen, storeWord_elsewhere (by decide), msgLen]
  -- Nothing is carried out of 32 bits.
  have words := total_le (b.storeWord 50 0).bytes 34 (len - 34)
  have addresses := total_le (b.storeWord 50 0).bytes 26 8
  have proto := ((b.storeWord 50 0).bytes 23).isLt
  rw [inverted_toNat, foldl_words, pseudo_sum, msgLen_toNat long, header, BitVec.toNat_add, segment,
    BitVec.toNat_ofNat, tcpSum]
  congr 1
  omega

theorem tcpSum_counts (m : Nat) {i : Nat} (covered : i = 23 ∨ 26 ≤ i ∧ i < len) :
    ∃ k, Counts (tcpSum len m) i (weight k) := by
  unfold tcpSum
  by_cases segment : 34 ≤ i
  · refine ⟨_, (total_counts segment (by omega)).add fun bytes v => ?_⟩
    rw [total_update_outside _ (by omega), Function.update_of_ne (by omega)]
  · have apart (bytes v) : total (Function.update bytes i v) 34 (len - 34) =
        total bytes 34 (len - 34) := total_update_outside _ (by omega) v
    by_cases address : 26 ≤ i
    · have counts : Counts (total · 26 8) i (weight (i - 26)) := total_counts address (by omega)
      refine ⟨i - 26, fun bytes v => ?_⟩
      have here := counts bytes v
      dsimp only at here ⊢
      rw [apart, Function.update_of_ne (by omega : (23 : Nat) ≠ i)]
      omega
    · obtain rfl : i = 23 := by omega
      refine ⟨1, fun bytes v => ?_⟩
      dsimp only
      rw [apart, total_update_outside _ (by omega), Function.update_self, show weight 1 = 1 from rfl]
      omega

/-- The length in the pseudo header is right for a TCP header without options. -/
theorem tcp_checked_iff (long : 54 ≤ len) (short : len ≤ 0xffff + 14) (b : Block) :
    TcpChecked len (makeTcpChecksum len b) ↔ b.bytes 46 >>> 2 = 20 := by
  obtain ⟨checksum, result, value⟩ := makeTcpChecksum_bytes long short b
  have apart (a : Nat) (in_segment : 34 ≤ a) (bytes v) :
      total (Function.update bytes a v) 26 8 + (Function.update bytes a v 23).toNat + (len - 34) =
        total bytes 26 8 + (bytes 23).toNat + (len - 34) := by
    rw [total_update_outside _ (by omega), Function.update_of_ne (by omega)]
  have high : Counts (tcpSum len (len - 34)) 50 256 :=
    (total_counts (by decide) (by omega)).add (apart 50 (by decide))
  have low : Counts (tcpSum len (len - 34)) (50 + 1) 1 :=
    (total_counts (by decide) (by omega)).add (apart 51 (by decide))
  have sum : tcpTotal len = tcpSum len (len - 34) := funext (tcpTotal_eq long short)
  have some_length : tcpSum len (len - 34) (b.storeWord 50 0).bytes ≠ 0 := by
    unfold tcpSum
    omega
  unfold TcpChecked
  rw [sum, checked_iff fun i covered => tcpSum_counts _ covered, result, sum_storeWord high low, value,
    show (0xffff : Nat) = 0x10000 - 1 from rfl, OnesComplement.fold_complement_iff (by decide)]
  rw [and_iff_left (by omega), tcpSum, tcpSum]
  have cancelled : total (b.storeWord 50 0).bytes 34 (len - 34) +
        (total (b.storeWord 50 0).bytes 26 8 + ((b.storeWord 50 0).bytes 23).toNat + (len - 34)) ≡
      total (b.storeWord 50 0).bytes 34 (len - 34) + (total (b.storeWord 50 0).bytes 26 8 +
        ((b.storeWord 50 0).bytes 23).toNat + msgLen len b.bytes % 0x10000) [MOD 0x10000 - 1] ↔
      len - 34 ≡ msgLen len b.bytes % 0x10000 [MOD 0x10000 - 1] :=
    ⟨fun same => (same.add_left_cancel' _).add_left_cancel' _,
      fun same => (same.add_left _).add_left _⟩
  rw [cancelled]
  have header : b.bytes 46 >>> 2 = 20 ↔ (b.bytes 46 >>> 2).toNat = 20 :=
    ⟨fun same => congrArg BitVec.toNat same, fun same => BitVec.eq_of_toNat_eq same⟩
  have short_header : (b.bytes 46 >>> 2).toNat < 64 := by
    have small := (b.bytes 46).isLt
    rw [BitVec.toNat_ushiftRight, Nat.shiftRight_eq_div_pow]
    omega
  rw [header, msgLen, Nat.ModEq]
  omega

/-- Lengths of packets a total length of 16 bits can stand for. -/
def Sized (least len : Nat) : Prop := least ≤ len ∧ len ≤ 0xffff + 14

/-- IP headers are right if they contain the checksum, or need none; ICMP messages if no last byte
is left out; and TCP segments if their header has no options. -/
theorem checksums_verify_iff (b : Block) :
    (IpChecked (makeIp4Checksum b) ↔ 3 ≤ (ipHeaderLen b.bytes).toNat ∨
      OnesComplement.fold 0x10000 (total b.bytes 14 (4 * (ipHeaderLen b.bytes).toNat)) = 0xffff) ∧
    (∀ len, Sized 38 len →
      (IcmpChecked len (makeIcmpChecksum len b) ↔ len % 2 = 0 ∨ b.bytes (len - 1) = 0)) ∧
    ∀ len, Sized 54 len → (TcpChecked len (makeTcpChecksum len b) ↔ b.bytes 46 >>> 2 = 20) :=
  ⟨ip_checked_iff b, fun _ sized => icmp_checked_iff sized.1 sized.2 b,
    fun _ sized => tcp_checked_iff sized.1 sized.2 b⟩

/-- An echo request whose data, if it has any, is one byte of 1. -/
def oddEcho : Block where
  bytes i := if i = 34 then 8 else if i = 38 then 1 else 0
  written := []
  read := []

theorem echo_without_data_checked : IcmpChecked 38 (makeIcmpChecksum (38 : Nat) oddEcho) :=
  ((checksums_verify_iff oddEcho).2.1 38 ⟨by decide, by decide⟩).mpr (.inl (by decide))

theorem odd_echo_unchecked :
    ¬∀ b len, Sized 38 len → IcmpChecked len (makeIcmpChecksum len b) := by
  intro claim
  have sized : Sized 38 39 := ⟨by decide, by decide⟩
  have right := ((checksums_verify_iff oddEcho).2.1 39 sized).mp (claim oddEcho 39 sized)
  rcases right with even | zero
  · exact absurd even (by decide)
  · exact absurd zero (by decide)

end BasiliskII.Router
