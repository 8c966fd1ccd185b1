import BasiliskII.Library.SignedWidth
import Mathlib.Algebra.Group.Nat.Defs

/-!
# Host times and Mac times

The arithmetic of timer_psp.cpp on `tm_time_t`, which is a `uint64` of
microseconds, and the two conversions from and to Mac times.
-/
namespace BasiliskII.Timer

abbrev TmTime := BitVec 64

def timerAddTime (a b : TmTime) : TmTime := a + b

def timerSubTime (a b : TmTime) : TmTime := a - b

/-- The difference is returned as an `int`. -/
def timerCmpTime (a b : TmTime) : Int := ((a - b).setWidth 32).toInt

/-- Positive Mac times are milliseconds, the others negative microseconds. -/
def timerMac2hostTime (mactime : BitVec 32) : TmTime :=
  if 0 < mactime.toInt then (mactime * 1000).signExtend 64 else (-mactime).signExtend 64

/-- The first test of the source, `hosttime < 0`, is never true of an unsigned value. -/
def timerHost2macTime (hosttime : TmTime) : BitVec 32 :=
  if 0x7fffffff < hosttime.toNat then (hosttime / 1000).setWidth 32 else (-hosttime).setWidth 32

/-- A time at most 2^31 microseconds back compares as earlier. -/
theorem timerCmpTime_neg {wakeup now : TmTime} (past : wakeup.toNat < now.toNat)
    (recent : now.toNat ≤ wakeup.toNat + 2 ^ 31) : timerCmpTime wakeup now < 0 := by
  have low : ((wakeup - now).setWidth 32).toNat =
      2 ^ 32 - (now.toNat - wakeup.toNat) := by
    have := now.isLt
    rw [BitVec.toNat_setWidth, BitVec.toNat_sub]
    omega
  rw [timerCmpTime, BitVec.toInt_eq_toNat_cond, low]
  split <;> omega

/-!
## Conversions of Mac times

A Mac time is turned into microseconds in the 32 bits of an `int`, and only the
result is widened to `tm_time_t`. The conversion is right exactly for the Mac
times whose microseconds are values of an `int`.
-/

open SignedWidth

/-- The microseconds a Mac time stands for. -/
def macMicroseconds (mactime : BitVec 32) : Int :=
  if 0 < mactime.toInt then 1000 * mactime.toInt else -mactime.toInt

/-- A duration, rounded down to a millisecond where its microseconds do not fit in a Mac time. -/
def macPrecision (hosttime : Nat) : Nat :=
  if hosttime ≤ 0x7fffffff then hosttime else hosttime / 1000 * 1000

variable (mactime : BitVec 32)

theorem timerMac2hostTime_eq :
    timerMac2hostTime mactime = (BitVec.ofInt 32 (macMicroseconds mactime)).signExtend 64 := by
  simp only [timerMac2hostTime, macMicroseconds]
  split
  · rw [BitVec.ofInt_mul, BitVec.ofInt_toInt, BitVec.mul_comm]
    rfl
  · rw [BitVec.ofInt_neg, BitVec.ofInt_toInt]

/-- Both branches compute an `int`. -/
theorem timerMac2hostTime_fits : Fits 32 (timerMac2hostTime mactime).toInt := by
  rw [timerMac2hostTime_eq, BitVec.toInt_signExtend_of_le (by decide)]
  exact toInt_fits _

theorem macMicroseconds_nonneg : 0 ≤ macMicroseconds mactime := by
  rw [macMicroseconds]
  split <;> omega

theorem macMicroseconds_fits_iff :
    Fits 32 (macMicroseconds mactime) ↔ -2 ^ 31 < mactime.toInt ∧ mactime.toInt ≤ 2147483 := by
  have value := toInt_fits mactime
  simp only [Fits, macMicroseconds] at value ⊢
  split <;> omega

theorem timerMac2hostTime_exact_iff :
    ((timerMac2hostTime mactime).toNat : Int) = macMicroseconds mactime ↔
      -2 ^ 31 < mactime.toInt ∧ mactime.toInt ≤ 2147483 := by
  have value := toInt_fits mactime
  have nonneg := macMicroseconds_nonneg mactime
  -- 2^31 milliseconds are far below 2^63 microseconds, so signed and unsigned values agree.
  have high : 2 * macMicroseconds mactime < 2 ^ 64 := by
    simp only [Fits, macMicroseconds] at value ⊢
    split <;> omega
  rw [toNat_eq_iff nonneg high, timerMac2hostTime_eq,
    toInt_signExtend_ofInt_iff (by decide) (by decide), macMicroseconds_fits_iff]

variable {hosttime : TmTime}

theorem timerHost2macTime_short (short : hosttime.toNat ≤ 0x7fffffff) :
    (timerHost2macTime hosttime).toInt = -hosttime.toNat := by
  have negated : (-hosttime).setWidth 32 = BitVec.ofInt 32 (-hosttime.toNat) := by
    apply BitVec.eq_of_toNat_eq
    rw [BitVec.toNat_setWidth, BitVec.toNat_neg, BitVec.toNat_ofInt]
    omega
  rw [timerHost2macTime, if_neg (by omega), negated, toInt_ofInt_iff (by decide)]
  constructor <;> omega

/-- Long ones become milliseconds, as far as 32 bits hold them. -/
theorem timerHost2macTime_long (long : 0x7fffffff < hosttime.toNat) :
    (timerHost2macTime hosttime).toNat = hosttime.toNat / 1000 % 2 ^ 32 := by
  rw [timerHost2macTime, if_pos long, BitVec.toNat_setWidth, BitVec.toNat_udiv]
  rfl

theorem timerHost2macTime_milliseconds (long : 0x7fffffff < hosttime.toNat)
    (fits : hosttime.toNat / 1000 < 2 ^ 31) :
    (timerHost2macTime hosttime).toInt = (hosttime.toNat / 1000 : Nat) := by
  rw [BitVec.toInt_eq_toNat_cond, timerHost2macTime_long long, Nat.mod_eq_of_lt (by omega)]
  exact if_pos (by omega)

/-- The Mac time stands for the duration it was made from, where 32 bits hold it. -/
theorem macMicroseconds_timerHost2macTime (fits : hosttime.toNat / 1000 < 2 ^ 31) :
    macMicroseconds (timerHost2macTime hosttime) = macPrecision hosttime.toNat := by
  by_cases short : hosttime.toNat ≤ 0x7fffffff
  · rw [macMicroseconds, timerHost2macTime_short short, macPrecision, if_pos short]
    split <;> omega
  · have value := timerHost2macTime_milliseconds (by omega) fits
    rw [macMicroseconds, value, macPrecision, if_neg short]
    split <;> omega

/-- There and back. -/
theorem roundTrip_iff (fits : hosttime.toNat / 1000 < 2 ^ 31) :
    (timerMac2hostTime (timerHost2macTime hosttime)).toNat = macPrecision hosttime.toNat ↔
      hosttime.toNat < 2147484000 := by
  have exact_iff := timerMac2hostTime_exact_iff (timerHost2macTime hosttime)
  rw [macMicroseconds_timerHost2macTime fits] at exact_iff
  rw [← Nat.cast_inj (R := Int), exact_iff]
  -- A short duration is negative in a Mac time and passes; the bound is one on the others.
  by_cases short : hosttime.toNat ≤ 0x7fffffff
  · rw [timerHost2macTime_short short]
    omega
  · rw [timerHost2macTime_milliseconds (by omega) fits]
    omega

/-- A Mac time is converted exactly when its microseconds are an `int`, and a duration of at most
2^31 milliseconds comes back exactly when it is below 2147484 milliseconds. -/
theorem conversions_exact_iff (mactime : BitVec 32) (hosttime : TmTime)
    (bounded : hosttime.toNat ≤ 2 ^ 31 * 1000) :
    (((timerMac2hostTime mactime).toNat : Int) = macMicroseconds mactime ↔
      -2 ^ 31 < mactime.toInt ∧ mactime.toInt ≤ 2147483) ∧
    ((timerMac2hostTime (timerHost2macTime hosttime)).toNat = macPrecision hosttime.toNat ↔
      hosttime.toNat < 2147484000) := by
  refine ⟨timerMac2hostTime_exact_iff mactime, ?_⟩
  by_cases fits : hosttime.toNat / 1000 < 2 ^ 31
  · exact roundTrip_iff fits
  · -- The one duration left is 2^31 milliseconds, whose Mac time is the most negative one.
    have last : hosttime = 2147483648000#64 := by
      apply BitVec.eq_of_toNat_eq
      rw [show (2147483648000#64).toNat = 2147483648000 from rfl]
      omega
    subst last
    decide

theorem conversions_of_a_second :
    (((timerMac2hostTime 1000).toNat : Int) = macMicroseconds 1000 ↔
      -2 ^ 31 < (1000 : BitVec 32).toInt ∧ (1000 : BitVec 32).toInt ≤ 2147483) ∧
    ((timerMac2hostTime (timerHost2macTime 1000000)).toNat =
        macPrecision (1000000 : TmTime).toNat ↔ (1000000 : TmTime).toNat < 2147484000) :=
  conversions_exact_iff 1000 1000000 (by decide)

/-- 2147484 milliseconds become a time 2147483296 microseconds before zero. -/
theorem not_conversions_exact :
    ¬ ((∀ mactime : BitVec 32,
        ((timerMac2hostTime mactime).toNat : Int) = macMicroseconds mactime) ∧
      ∀ hosttime : TmTime, hosttime.toNat ≤ 2 ^ 31 * 1000 →
        (timerMac2hostTime (timerHost2macTime hosttime)).toNat = macPrecision hosttime.toNat) := by
  rintro ⟨converted, _⟩
  exact absurd (converted 2147484) (by decide)

end BasiliskII.Timer
