/-
# Cipher block chaining

The CBC mode of a block cipher over any type of blocks with an operation `xor` that undoes
itself: the next block is masked with the last one that was encrypted.  Encrypting in pieces
is encrypting the whole, as long as each piece goes on from the chaining value of the one
before it.

The second part is about the padding of PKCS #7, which tells its own length.
-/
import Mathlib

namespace Cbc

variable {B : Type*} (xor : B → B → B)

/-- Encryption, from the chaining value `iv` on. -/
def encrypt (enc : B → B) : B → List B → List B
  | _, [] => []
  | iv, b :: bs => enc (xor b iv) :: encrypt enc (enc (xor b iv)) bs

/-- Decryption, from the chaining value `iv` on. -/
def decrypt (dec : B → B) : B → List B → List B
  | _, [] => []
  | iv, c :: cs => xor (dec c) iv :: decrypt dec c cs

/-- The chaining value after the blocks `cs` of a ciphertext. -/
def chain : B → List B → B
  | iv, [] => iv
  | _, c :: cs => chain c cs

@[simp] theorem length_encrypt (enc : B → B) (bs : List B) :
    ∀ iv, (encrypt xor enc iv bs).length = bs.length := by
  induction bs with
  | nil => exact fun _ => rfl
  | cons b bs ih => exact fun iv => congrArg (· + 1) (ih _)

@[simp] theorem length_decrypt (dec : B → B) (cs : List B) :
    ∀ iv, (decrypt xor dec iv cs).length = cs.length := by
  induction cs with
  | nil => exact fun _ => rfl
  | cons c cs ih => exact fun iv => congrArg (· + 1) (ih _)

/-- Blocks behind blocks are chained to the last one. -/
theorem encrypt_append (enc : B → B) (as bs : List B) :
    ∀ iv, encrypt xor enc iv (as ++ bs)
      = encrypt xor enc iv as ++ encrypt xor enc (chain iv (encrypt xor enc iv as)) bs := by
  induction as with
  | nil => exact fun _ => rfl
  | cons a as ih => exact fun iv => congrArg (_ :: ·) (ih _)

/-- Blocks behind blocks are chained to the last one. -/
theorem decrypt_append (dec : B → B) (cs ds : List B) :
    ∀ iv, decrypt xor dec iv (cs ++ ds)
      = decrypt xor dec iv cs ++ decrypt xor dec (chain iv cs) ds := by
  induction cs with
  | nil => exact fun _ => rfl
  | cons c cs ih => exact fun iv => congrArg (_ :: ·) (ih _)

/-- **Round trip.**  Decryption undoes encryption when the block functions do. -/
theorem decrypt_encrypt {enc dec : B → B} (hxor : ∀ a b, xor (xor a b) b = a)
    (hdec : ∀ b, dec (enc b) = b) (bs : List B) :
    ∀ iv, decrypt xor dec iv (encrypt xor enc iv bs) = bs := by
  induction bs with
  | nil => exact fun _ => rfl
  | cons b bs ih =>
    intro iv
    show xor (dec (enc (xor b iv))) iv :: decrypt xor dec _ (encrypt xor enc _ bs) = b :: bs
    rw [hdec, hxor, ih]

end Cbc

namespace Pkcs7

variable {w : ℕ}

/-- The block ends in a padding of `k` cells. -/
structure PadsWith (b : Fin w → UInt8) (k : ℕ) : Prop where
  pos : 0 < k
  le : k ≤ w
  cells : ∀ j : Fin w, w - k ≤ j.val → b j = UInt8.ofNat k

instance (b : Fin w → UInt8) (k : ℕ) : Decidable (PadsWith b k) :=
  decidable_of_iff (0 < k ∧ k ≤ w ∧ ∀ j : Fin w, w - k ≤ j.val → b j = UInt8.ofNat k)
    ⟨fun h => ⟨h.1, h.2.1, h.2.2⟩, fun h => ⟨h.pos, h.le, h.cells⟩⟩

/-- The block that holds the first `n` cells of `text` and is filled up. -/
def lastBlock (text : ℕ → UInt8) (n : ℕ) : Fin w → UInt8 :=
  fun j => if j.val < n then text j.val else UInt8.ofNat (w - n)

/-- The last block is padded. -/
theorem padsWith_lastBlock (text : ℕ → UInt8) {n : ℕ} (hn : n < w) :
    PadsWith (lastBlock text n : Fin w → UInt8) (w - n) := by
  refine ⟨by omega, by omega, fun j hj => ?_⟩
  exact if_neg (by omega)

/-- The last byte gives the length of the padding. -/
theorem PadsWith.last {b : Fin w → UInt8} {k : ℕ} (h : PadsWith b k) (hw : 0 < w) (hlt : w < 256) :
    (b ⟨w - 1, by omega⟩).toNat = k := by
  have hpos := h.pos
  have hle := h.le
  rw [h.cells ⟨w - 1, by omega⟩ (show w - k ≤ w - 1 by omega), UInt8.toNat_ofNat']
  exact Nat.mod_eq_of_lt (by omega)

end Pkcs7
