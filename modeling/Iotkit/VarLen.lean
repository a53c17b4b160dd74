/-
# Base-128 variable-length numbers

A number is written as a nonempty list of bytes, least significant group of seven
bits first; the top bit of a byte is set exactly when another byte follows.
`encode` is the shortest such list, `value` reads a list back, and `WellFormed`
says where the continuation bits stand.
-/
import Mathlib

namespace VarLen

/-- The number a list of bytes stands for, continuation bits ignored. -/
def value : List UInt8 → ℕ
  | [] => 0
  | b :: bs => b.toNat % 128 + 128 * value bs

/-- The continuation bit is set on every byte but the last. -/
def WellFormed : List UInt8 → Prop
  | [] => False
  | [b] => b.toNat < 128
  | b :: c :: bs => 128 ≤ b.toNat ∧ WellFormed (c :: bs)

instance decidableWellFormed : ∀ bs, Decidable (WellFormed bs)
  | [] => isFalse id
  | [b] => inferInstanceAs (Decidable (b.toNat < 128))
  | b :: c :: bs =>
    have := decidableWellFormed (c :: bs)
    inferInstanceAs (Decidable (128 ≤ b.toNat ∧ WellFormed (c :: bs)))

/-- Writing at most `fuel` groups of seven bits. -/
def encodeAux : ℕ → ℕ → List UInt8
  | 0, _ => []
  | fuel + 1, n =>
    if n / 128 = 0 then [UInt8.ofNat (n % 128)]
    else UInt8.ofNat (n % 128 + 128) :: encodeAux fuel (n / 128)

/-- The shortest encoding of `n`. -/
def encode (n : ℕ) : List UInt8 := encodeAux (n + 1) n

/-- With enough fuel the loop is the encoding. -/
theorem encodeAux_eq_encode : ∀ fuel n, n < fuel → encodeAux fuel n = encode n := by
  intro fuel
  induction fuel using Nat.strong_induction_on with
  | _ fuel ih =>
    intro n hn
    cases fuel with
    | zero => omega
    | succ fuel =>
      rw [encode, encodeAux, encodeAux]
      by_cases h : n / 128 = 0
      · rw [if_pos h, if_pos h]
      · rw [if_neg h, if_neg h]
        rcases Nat.lt_or_ge n fuel with hlt | hge
        · rw [ih fuel (by omega) _ (by omega), ih n (by omega) _ (by omega)]
        · have : n = fuel := by omega
          rw [this]

/-- The encoding, digit by digit. -/
theorem encode_eq (n : ℕ) :
    encode n = if n / 128 = 0 then [UInt8.ofNat (n % 128)]
      else UInt8.ofNat (n % 128 + 128) :: encode (n / 128) := by
  rw [encode, encodeAux]
  by_cases h : n / 128 = 0
  · rw [if_pos h, if_pos h]
  · rw [if_neg h, if_neg h, encodeAux_eq_encode n (n / 128) (by omega)]

/-- An encoding has a byte. -/
theorem encode_ne_nil (n : ℕ) : encode n ≠ [] := by
  rw [encode_eq]
  split <;> simp

/-- Small numbers have short encodings. -/
theorem length_encode_le (k : ℕ) : ∀ n, n < 128 ^ (k + 1) → (encode n).length ≤ k + 1 := by
  induction k with
  | zero =>
    intro n hn
    rw [encode_eq, if_pos (by omega)]
    simp
  | succ k ih =>
    intro n hn
    rw [encode_eq]
    split
    · simp
    · have hdiv : n / 128 < 128 ^ (k + 1) := by
        rw [Nat.div_lt_iff_lt_mul (by decide)]
        calc n < 128 ^ (k + 1 + 1) := hn
          _ = 128 ^ (k + 1) * 128 := by rw [pow_succ]
      have := ih _ hdiv
      simp only [List.length_cons]
      omega

/-- An encoding has the value of its number. -/
theorem value_encode (n : ℕ) : value (encode n) = n := by
  induction n using Nat.strong_induction_on with
  | _ n ih =>
    rw [encode_eq]
    split
    · simp only [value, UInt8.toNat_ofNat']
      omega
    · rw [value, ih (n / 128) (by omega), UInt8.toNat_ofNat']
      omega

/-- Every encoding is well formed. -/
theorem wellFormed_encode (n : ℕ) : WellFormed (encode n) := by
  induction n using Nat.strong_induction_on with
  | _ n ih =>
    rw [encode_eq]
    split
    · simp only [WellFormed, UInt8.toNat_ofNat']
      omega
    · have hrest := ih (n / 128) (by omega)
      cases hcs : encode (n / 128) with
      | nil => exact absurd hcs (encode_ne_nil _)
      | cons c cs =>
        rw [hcs] at hrest
        refine ⟨?_, hrest⟩
        rw [UInt8.toNat_ofNat']
        omega

/-- The value is bounded by the length. -/
theorem value_lt (bs : List UInt8) : value bs < 128 ^ bs.length := by
  induction bs with
  | nil => simp [value]
  | cons b bs ih =>
    rw [value, List.length_cons, pow_succ]
    have := Nat.mod_lt b.toNat (show 0 < 128 by decide)
    omega

/-- What follows the number at the front. -/
def skip : List UInt8 → List UInt8
  | [] => []
  | b :: bs => if b.toNat < 128 then bs else skip bs

/-- A well-formed encoding is skipped. -/
theorem skip_append {bs : List UInt8} (h : WellFormed bs) (rest : List UInt8) :
    skip (bs ++ rest) = rest := by
  induction bs with
  | nil => exact h.elim
  | cons b bs ih =>
    cases bs with
    | nil => exact if_pos h
    | cons c bs =>
      rw [List.cons_append, skip, if_neg (Nat.not_lt.mpr h.1)]
      exact ih h.2

end VarLen
