/-
# Numbers in a nibble with extension bytes

A number below 13 is written in four bits; the nibble 13 announces one further byte
that counts from 13, and the nibble 14 two further bytes, most significant first, that
count from 269.  The nibble 15 does not occur in what is written; a reader that does
not refuse it takes it for the number 15.
-/
import Mathlib

namespace NibbleExt

/-- The nibble a number is announced by. -/
def nibble (n : ℕ) : ℕ := if n < 13 then n else if n < 269 then 13 else 14

/-- The extension bytes of a number. -/
def ext (n : ℕ) : List UInt8 :=
  if n < 13 then []
  else if n < 269 then [UInt8.ofNat (n - 13)]
  else [UInt8.ofNat ((n - 269) / 256), UInt8.ofNat ((n - 269) % 256)]

/-- The first number that is too large. -/
def bound : ℕ := 2 ^ 16 + 269

/-- 15 is not used. -/
theorem nibble_le (n : ℕ) : nibble n ≤ 14 := by
  unfold nibble
  split_ifs <;> omega

/-- A number has no, one or two bytes of extension. -/
theorem cases_of_lt {n : ℕ} (h : n < bound) :
    (n < 13 ∧ nibble n = n ∧ ext n = []) ∨
      (∃ b : UInt8, nibble n = 13 ∧ ext n = [b] ∧ n = 13 + b.toNat) ∨
      ∃ b c : UInt8, nibble n = 14 ∧ ext n = [b, c] ∧ n = 269 + 256 * b.toNat + c.toNat := by
  unfold nibble ext
  have hbound : n < 2 ^ 16 + 269 := h
  split_ifs with h13 h269
  · exact .inl ⟨h13, rfl, rfl⟩
  · refine .inr (.inl ⟨_, rfl, rfl, ?_⟩)
    rw [UInt8.toNat_ofNat']
    omega
  · refine .inr (.inr ⟨_, _, rfl, rfl, ?_⟩)
    rw [UInt8.toNat_ofNat', UInt8.toNat_ofNat']
    omega

/-! ## Reading -/

/-- How many bytes a nibble announces. -/
def extLength (nib : ℕ) : ℕ := if nib = 13 then 1 else if nib = 14 then 2 else 0

/-- The number read from a nibble and the bytes behind it. -/
def number (nib : ℕ) (bytes : List UInt8) : ℕ :=
  if nib = 13 then 13 + (bytes.getD 0 0).toNat
  else if nib = 14 then 269 + 256 * (bytes.getD 0 0).toNat + (bytes.getD 1 0).toNat
  else nib

variable {bytes : List UInt8}

/-- The three forms of a nibble with as many bytes as it announces. -/
theorem cases_of_length {nib : ℕ} (h : bytes.length = extLength nib) :
    (nib ≠ 13 ∧ nib ≠ 14 ∧ bytes = [] ∧ number nib bytes = nib) ∨
      (∃ b : UInt8, nib = 13 ∧ bytes = [b] ∧ number nib bytes = 13 + b.toNat) ∨
      ∃ b c : UInt8, nib = 14 ∧ bytes = [b, c] ∧
        number nib bytes = 269 + 256 * b.toNat + c.toNat := by
  unfold extLength at h
  unfold number
  split_ifs at h ⊢ with h13 h14
  · obtain ⟨b, rfl⟩ := List.length_eq_one_iff.mp h
    exact .inr (.inl ⟨b, h13, rfl, rfl⟩)
  · obtain ⟨b, c, rfl⟩ := List.length_eq_two.mp h
    exact .inr (.inr ⟨b, c, h14, rfl, rfl⟩)
  · exact .inl ⟨h13, h14, List.length_eq_zero_iff.mp h, rfl⟩

/-- The nibble gives the length of the extension. -/
theorem length_ext {n : ℕ} (h : n < bound) : (ext n).length = extLength (nibble n) := by
  rcases cases_of_lt h with ⟨hlt, hnib, hext⟩ | ⟨b, hnib, hext, -⟩ | ⟨b, c, hnib, hext, -⟩
  · rw [hnib, hext, extLength, if_neg (by omega), if_neg (by omega)]
    rfl
  · rw [hnib, hext]
    rfl
  · rw [hnib, hext]
    rfl

/-- The number is read back. -/
theorem number_ext {n : ℕ} (h : n < bound) : number (nibble n) (ext n) = n := by
  rcases cases_of_lt h with ⟨hlt, hnib, hext⟩ | ⟨b, hnib, hext, hn⟩ | ⟨b, c, hnib, hext, hn⟩
  · rw [hnib, hext, number, if_neg (by omega), if_neg (by omega)]
  · rw [hnib, hext, hn]
    rfl
  · rw [hnib, hext, hn]
    rfl

/-- Two bytes of extension bound the number. -/
theorem number_lt {nib : ℕ} (h : bytes.length = extLength nib) (hnib : nib ≤ 15) :
    number nib bytes < bound := by
  unfold bound
  rcases cases_of_length h with ⟨-, -, -, hn⟩ | ⟨b, -, -, hn⟩ | ⟨b, c, -, -, hn⟩
  · omega
  · have := b.toNat_lt
    omega
  · have := b.toNat_lt
    have := c.toNat_lt
    omega

/-- Except for the nibble 15, everything that can be read is written in the same way. -/
theorem ext_number {nib : ℕ} (h : bytes.length = extLength nib) (hnib : nib ≤ 14) :
    nibble (number nib bytes) = nib ∧ ext (number nib bytes) = bytes := by
  unfold nibble ext
  rcases cases_of_length h with ⟨h13, h14, rfl, hn⟩ | ⟨b, rfl, rfl, hn⟩ | ⟨b, c, rfl, rfl, hn⟩
  · rw [hn, if_pos (by omega), if_pos (by omega)]
    exact ⟨rfl, rfl⟩
  · have := b.toNat_lt
    rw [hn, if_neg (by omega), if_pos (by omega), if_neg (by omega), if_pos (by omega)]
    simp
  have := b.toNat_lt
  have := c.toNat_lt
  have hhigh : (269 + 256 * b.toNat + c.toNat - 269) / 256 = b.toNat := by omega
  have hlow : (269 + 256 * b.toNat + c.toNat - 269) % 256 = c.toNat := by omega
  rw [hn, if_neg (by omega), if_neg (by omega), if_neg (by omega), if_neg (by omega), hhigh, hlow]
  simp

end NibbleExt
