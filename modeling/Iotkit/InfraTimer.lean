/-
# Countdown timers (`infra_timer.c`)

A timer keeps the low 32 bits of the uptime at which it ends.  Times here are elapsed times since
it was set, at an uptime `start` that can be any number: the clock wraps as often as it likes.
-/
import Iotkit.InfraDefs

namespace Iotkit

/-- What a clock of 32 bits shows. -/
def clockMs (uptime : ℕ) : UInt32 := UInt32.ofNat uptime

/-- `iotx_time_left`, which reads the clock once to see whether the timer has expired and once
more for what is left. -/
def iotxTimeLeft (time now now' : UInt32) : UInt32 :=
  if utilsTimeIsExpired time now then 0 else time - now'

@[simp] theorem toNat_clockMs (uptime : ℕ) : (clockMs uptime).toNat = uptime % 2 ^ 32 :=
  UInt32.toNat_ofNat'

variable (start : ℕ)

/-- A countdown is a reading that is still to come. -/
theorem countdown_eq (d : ℕ) : utilsTimeCountdownMs (clockMs start) d = clockMs (start + d) := by
  apply UInt32.toNat_inj.mp
  rw [utilsTimeCountdownMs, UInt32.toNat_add, UInt32.toNat_ofNat', toNat_clockMs, toNat_clockMs]
  omega

/-- A difference of readings, modulo the width of the clock. -/
theorem toNat_clockMs_sub {a b : ℕ} (h : a ≤ b) :
    (clockMs b - clockMs a).toNat = (b - a) % 2 ^ 32 := by
  rw [UInt32.toNat_sub, toNat_clockMs, toNat_clockMs]
  omega

/-- A reading in the future is far behind. -/
theorem toNat_clockMs_sub_of_lt {a b : ℕ} (h : a < b) (hnear : b - a ≤ 2 ^ 32) :
    (clockMs a - clockMs b).toNat = 2 ^ 32 - (b - a) := by
  rw [UInt32.toNat_sub, toNat_clockMs, toNat_clockMs]
  omega

/-- A countdown that is over is expired for half of the clock. -/
theorem utilsTimeIsExpired_of_le {d e : ℕ} (h : d ≤ e) :
    utilsTimeIsExpired (clockMs (start + d)) (clockMs (start + e)) = true ↔
      (e - d) % 2 ^ 32 < 2 ^ 31 - 1 := by
  rw [utilsTimeIsExpired, toNat_clockMs_sub (by omega), Nat.add_sub_add_left, decide_eq_true_eq]
  omega

/-- A countdown that is not over is not expired. -/
theorem utilsTimeIsExpired_of_lt {d e : ℕ} (hd : d < 2 ^ 31) (h : e < d) :
    utilsTimeIsExpired (clockMs (start + d)) (clockMs (start + e)) = false := by
  rw [utilsTimeIsExpired, toNat_clockMs_sub_of_lt (by omega) (by omega), decide_eq_false_iff_not]
  omega

/-- Near its start a countdown is expired when it is over. -/
theorem utilsTimeIsExpired_iff {d e : ℕ} (hd : d < 2 ^ 31) (he : e < 2 ^ 31 - 1) :
    utilsTimeIsExpired (clockMs (start + d)) (clockMs (start + e)) = true ↔ d ≤ e := by
  by_cases h : d ≤ e
  · rw [utilsTimeIsExpired_of_le start h]
    omega
  · rw [utilsTimeIsExpired_of_lt start hd (not_le.mp h)]
    exact iff_of_false Bool.false_ne_true h

/-- When the two readings of the clock agree on the timer: before its end the second is not behind
it, and after its end the first has seen it, or the second is the end itself. -/
def ReadingsAgree (d e e' : ℕ) : Prop :=
  if e < d then (e' - e) % 2 ^ 32 ≤ d - e
  else (e - d) % 2 ^ 32 < 2 ^ 31 - 1 ∨ (e' - d) % 2 ^ 32 = 0

instance (d e e' : ℕ) : Decidable (ReadingsAgree d e e') := inferInstanceAs (Decidable (ite _ _ _))

/-- When the time left is no more than what is left. -/
theorem iotxTimeLeft_le_iff {d e e' : ℕ} (hd : d < 2 ^ 31) (h : e ≤ e') :
    (iotxTimeLeft (clockMs (start + d)) (clockMs (start + e)) (clockMs (start + e'))).toNat
        ≤ d - e ↔ ReadingsAgree d e e' := by
  unfold iotxTimeLeft ReadingsAgree
  by_cases hlt : e < d
  · rw [utilsTimeIsExpired_of_lt start hd hlt, if_neg Bool.false_ne_true, if_pos hlt]
    have hleft : (clockMs (start + d) - clockMs (start + e')).toNat =
        (d - e + 2 ^ 32 - (e' - e) % 2 ^ 32) % 2 ^ 32 := by
      rw [UInt32.toNat_sub, toNat_clockMs, toNat_clockMs]
      omega
    rw [hleft]
    omega
  rw [if_neg hlt]
  by_cases hexpired : utilsTimeIsExpired (clockMs (start + d)) (clockMs (start + e)) = true
  · rw [if_pos hexpired]
    have hpassed := (utilsTimeIsExpired_of_le start (not_lt.mp hlt)).mp hexpired
    exact iff_of_true (Nat.zero_le _) (.inl hpassed)
  -- an end that is long past is taken for one to come
  rw [if_neg hexpired]
  rw [utilsTimeIsExpired_of_le start (by omega)] at hexpired
  have hleft : (clockMs (start + d) - clockMs (start + e')).toNat =
      (2 ^ 32 - (e' - d) % 2 ^ 32) % 2 ^ 32 := by
    rw [UInt32.toNat_sub, toNat_clockMs, toNat_clockMs]
    omega
  rw [hleft]
  omega

/-- **Countdown timers.**  A timer for `d` ms has expired exactly when `d` ms have passed, and what
`iotx_time_left` returns is at most the rest at its first reading of the clock, if and only if its
readings agree. -/
theorem countdown_iff (start d e e₁ e₂ : ℕ) (hd : d < 2 ^ 31) (he : e < 2 ^ 31 - 1)
    (h : e₁ ≤ e₂) :
    let time := utilsTimeCountdownMs (clockMs start) d
    ((utilsTimeIsExpired time (clockMs (start + e)) = true ↔ d ≤ e) ∧
        (iotxTimeLeft time (clockMs (start + e₁)) (clockMs (start + e₂))).toNat ≤ max 0 (d - e₁)) ↔
      ReadingsAgree d e₁ e₂ := by
  intro time
  have htime : time = clockMs (start + d) := countdown_eq start d
  rw [htime, Nat.zero_max, iotxTimeLeft_le_iff start hd h]
  exact and_iff_right (utilsTimeIsExpired_iff start hd he)

/-- A timer of 10 ms that is read in its ninth and once more in its tenth. -/
theorem countdown_ten :
    let time := utilsTimeCountdownMs (clockMs 4294967290) 10
    (utilsTimeIsExpired time (clockMs (4294967290 + 12)) = true ↔ 10 ≤ 12) ∧
      (iotxTimeLeft time (clockMs (4294967290 + 9)) (clockMs (4294967290 + 10))).toNat
        ≤ max 0 (10 - 9) :=
  (countdown_iff 4294967290 10 12 9 10 (by decide) (by decide) (by decide)).mpr (by decide)

/-- The end of the timer falls between the two readings. -/
theorem countdown_passed_inside :
    ¬ ∀ start d e e₁ e₂ : ℕ, d < 2 ^ 31 → e < 2 ^ 31 - 1 → e₁ ≤ e₂ →
      let time := utilsTimeCountdownMs (clockMs start) d
      (utilsTimeIsExpired time (clockMs (start + e)) = true ↔ d ≤ e) ∧
        (iotxTimeLeft time (clockMs (start + e₁)) (clockMs (start + e₂))).toNat
          ≤ max 0 (d - e₁) := by
  intro h
  have hleft := (h 0 10 0 9 11 (by decide) (by decide) (by decide)).2
  exact absurd hleft (by decide)

end Iotkit
