/-
# AES-128 in CBC mode

`HAL_Aes128_Init`, `HAL_Aes128_Cbc_Encrypt` and `HAL_Aes128_Cbc_Decrypt`
(`HAL_Crypt_Linux.c`), over the two block functions of a cipher.

Buffers are memories in which offsets count from the pointer that is passed on, so that a
cell before or behind a buffer has an offset too. `src` points to one: a `NULL`, which both
functions refuse with `-1`, is the payload of a message without payload marker only.
-/
import Iotkit.Cbc
import Iotkit.BlockMemory

open BlockMemory

namespace Iotkit.Hal

/-- `AES_BLOCK_SIZE` bytes; a key is as long. -/
abbrev AesBlock := Fin 16 → UInt8

/-- `mbedtls_aes_crypt_ecb`: the block functions, for each key. -/
structure BlockCipher where
  encryptBlock : AesBlock → AesBlock → AesBlock
  decryptBlock : AesBlock → AesBlock → AesBlock

/-- Decryption undoes encryption, block by block. -/
def BlockCipher.Inverts (cipher : BlockCipher) : Prop :=
  ∀ key b, cipher.decryptBlock key (cipher.encryptBlock key b) = b

/-- The cipher with `b` and `c` for each other, and every other block for itself. -/
def pairCipher (b c : AesBlock) : BlockCipher where
  encryptBlock := fun _ => Equiv.swap b c
  decryptBlock := fun _ => Equiv.swap b c

theorem pairCipher_inverts (b c : AesBlock) : (pairCipher b c).Inverts := by
  intro key b'
  show Equiv.swap b c (Equiv.swap b c b') = b'
  rw [← Equiv.Perm.mul_apply, Equiv.swap_mul_self, Equiv.Perm.one_apply]

def xorBlock (a b : AesBlock) : AesBlock := fun j => a j ^^^ b j

theorem xorBlock_cancel (a b : AesBlock) : xorBlock (xorBlock a b) b = a := by
  funext j
  show a j ^^^ b j ^^^ b j = a j
  rw [UInt8.xor_assoc, UInt8.xor_self, UInt8.xor_zero]

/-- `platform_aes_t`. -/
structure PlatformAes where
  key : AesBlock
  iv : AesBlock

/-- `HAL_Aes128_Init`, `NULL` if there is no memory for the context. -/
def halAes128Init (calloc : Bool) (key iv : AesBlock) : Option PlatformAes :=
  if calloc then some ⟨key, iv⟩ else none

variable (cipher : BlockCipher)

/-- The loop of `HAL_Aes128_Cbc_Encrypt` over `blockNum` blocks: the chaining value it leaves
in the context, and the memory at `dst`. -/
def cbcEncryptLoop (key : AesBlock) (src : ℤ → UInt8) :
    ℕ → ℤ → ℤ → AesBlock → (ℤ → UInt8) → AesBlock × (ℤ → UInt8)
  | 0, _, _, iv, dst => (iv, dst)
  | blockNum + 1, p, q, iv, dst =>
    let output := cipher.encryptBlock key (xorBlock (blockAt src p) iv)
    cbcEncryptLoop key src blockNum (p + 16) (q + 16) output (setBlock dst q output)

/-- `HAL_Aes128_Cbc_Encrypt` of `blockNum` blocks, one or more, from `src + p` to `dst + q`. -/
def halAes128CbcEncrypt (aes : Option PlatformAes) (src : ℤ → UInt8) (p : ℤ) (blockNum : ℕ)
    (dst : ℤ → UInt8) (q : ℤ) : ℤ × Option PlatformAes × (ℤ → UInt8) :=
  match aes with
  | none => (-1, none, dst)
  | some aes =>
    let (iv, dst) := cbcEncryptLoop cipher aes.key src blockNum p q aes.iv dst
    (0, some { aes with iv := iv }, dst)

/-- The loop of `HAL_Aes128_Cbc_Decrypt`. -/
def cbcDecryptLoop (key : AesBlock) (src : ℤ → UInt8) :
    ℕ → ℤ → ℤ → AesBlock → (ℤ → UInt8) → AesBlock × (ℤ → UInt8)
  | 0, _, _, iv, dst => (iv, dst)
  | blockNum + 1, p, q, iv, dst =>
    let temp := blockAt src p
    let output := xorBlock (cipher.decryptBlock key temp) iv
    cbcDecryptLoop key src blockNum (p + 16) (q + 16) temp (setBlock dst q output)

/-- `HAL_Aes128_Cbc_Decrypt` of `blockNum` blocks, one or more, from `src + p` to `dst + q`. -/
def halAes128CbcDecrypt (aes : Option PlatformAes) (src : ℤ → UInt8) (p : ℤ) (blockNum : ℕ)
    (dst : ℤ → UInt8) (q : ℤ) : ℤ × Option PlatformAes × (ℤ → UInt8) :=
  match aes with
  | none => (-1, none, dst)
  | some aes =>
    let (iv, dst) := cbcDecryptLoop cipher aes.key src blockNum p q aes.iv dst
    (0, some { aes with iv := iv }, dst)

theorem cbcEncryptLoop_eq (key : AesBlock) (src : ℤ → UInt8) (n : ℕ) :
    ∀ (p q : ℤ) (iv : AesBlock) (dst : ℤ → UInt8),
      let cs := Cbc.encrypt xorBlock (cipher.encryptBlock key) iv (blocksAt src p n)
      cbcEncryptLoop cipher key src n p q iv dst = (Cbc.chain iv cs, setBlocks dst q cs) := by
  induction n with
  | zero => exact fun _ _ _ _ => rfl
  | succ n ih => exact fun p q iv dst => ih _ _ _ _

theorem cbcDecryptLoop_eq (key : AesBlock) (src : ℤ → UInt8) (n : ℕ) :
    ∀ (p q : ℤ) (iv : AesBlock) (dst : ℤ → UInt8),
      let cs : List AesBlock := blocksAt src p n
      cbcDecryptLoop cipher key src n p q iv dst = (Cbc.chain iv cs,
          setBlocks dst q (Cbc.decrypt xorBlock (cipher.decryptBlock key) iv cs)) := by
  induction n with
  | zero => exact fun _ _ _ _ => rfl
  | succ n ih => exact fun p q iv dst => ih _ _ _ _

theorem halAes128CbcEncrypt_some (key iv : AesBlock) (src : ℤ → UInt8) (p : ℤ) (n : ℕ)
    (dst : ℤ → UInt8) (q : ℤ) :
    let cs := Cbc.encrypt xorBlock (cipher.encryptBlock key) iv (blocksAt src p n)
    halAes128CbcEncrypt cipher (some ⟨key, iv⟩) src p n dst q
      = (0, some ⟨key, Cbc.chain iv cs⟩, setBlocks dst q cs) := by
  simp only [halAes128CbcEncrypt, cbcEncryptLoop_eq]

theorem halAes128CbcDecrypt_some (key iv : AesBlock) (src : ℤ → UInt8) (p : ℤ) (n : ℕ)
    (dst : ℤ → UInt8) (q : ℤ) :
    halAes128CbcDecrypt cipher (some ⟨key, iv⟩) src p n dst q
      = (0, some ⟨key, Cbc.chain iv (blocksAt src p n)⟩, setBlocks dst q
        (Cbc.decrypt xorBlock (cipher.decryptBlock key) iv (blocksAt src p n))) := by
  simp only [halAes128CbcDecrypt, cbcDecryptLoop_eq]

/-! ## Characters -/

/-- The value of a `char`, on a platform where it is signed or not. -/
def charValue (signed : Bool) (c : UInt8) : ℤ :=
  if signed ∧ 128 ≤ c.toNat then (c.toNat : ℤ) - 256 else c.toNat

theorem charValue_of_lt (signed : Bool) {c : UInt8} (h : c.toNat < 128) :
    charValue signed c = c.toNat := if_neg (by omega)

/-! ## Padded texts -/

/-- The block into which the rest of a text is copied, with the padding behind it. -/
def padBlock (src : ℤ → UInt8) (len : ℕ) : AesBlock :=
  Pkcs7.lastBlock (fun j => src ((len / 16 * 16 : ℕ) + j)) (len % 16)

variable (src : ℤ → UInt8)

theorem blockAt_buf (len : ℕ) :
    blockAt (fun i => if i < (len - len / 16 * 16 : ℕ) then src ((len / 16 * 16 : ℕ) + i)
      else UInt8.ofNat (len / 16 * 16 + 16 - len)) 0 = padBlock src len := by
  funext j
  have hmod : len - len / 16 * 16 = len % 16 := by omega
  have hpad : len / 16 * 16 + 16 - len = 16 - len % 16 := by omega
  simp only [blockAt, padBlock, Pkcs7.lastBlock, hmod, hpad, zero_add, Nat.cast_lt]

theorem blocksAt_buf (len : ℕ) :
    (blocksAt (fun i => if i < (len - len / 16 * 16 : ℕ) then src ((len / 16 * 16 : ℕ) + i)
      else UInt8.ofNat (len / 16 * 16 + 16 - len)) 0 1 : List AesBlock) = [padBlock src len] :=
  congrArg (fun b => [b]) (blockAt_buf src len)

/-- The blocks of a text of `len` bytes, and the block with its padding. -/
def paddedBlocks (src : ℤ → UInt8) (len : ℕ) : List AesBlock :=
  blocksAt src 0 (len / 16) ++ [padBlock src len]

@[simp] theorem length_paddedBlocks (len : ℕ) : (paddedBlocks src len).length = len / 16 + 1 := by
  simp [paddedBlocks]

theorem setBlocks_paddedBlocks (mem src : ℤ → UInt8) (len : ℕ) :
    setBlocks mem 0 (paddedBlocks src len)
      = setBlock (setBlocks mem 0 (blocksAt src 0 (len / 16) : List AesBlock))
        ((len / 16 * 16 : ℕ) : ℤ) (padBlock src len) := by
  rw [paddedBlocks, setBlocks_append, length_blocksAt]
  show setBlock _ (0 + ((16 : ℕ) : ℤ) * (len / 16 : ℕ)) _ = _
  congr 1
  push_cast
  ring

variable {len : ℕ}

theorem setBlocks_paddedBlocks_text (mem src : ℤ → UInt8) {i : ℕ} (hi : i < len) :
    setBlocks mem 0 (paddedBlocks src len) i = src i := by
  rw [setBlocks_paddedBlocks]
  by_cases hlt : i < len / 16 * 16
  · rw [setBlock_of_outside _ _ (Or.inl (by omega))]
    have hcell := setBlocks_blocksAt (w := 16) mem src 0 0 (len / 16) (i := i) (by omega)
    rwa [zero_add] at hcell
  obtain ⟨j, hj⟩ : ∃ j, i = len / 16 * 16 + j := ⟨i - len / 16 * 16, by omega⟩
  have hcell := setBlock_cell (setBlocks mem 0 (blocksAt src 0 (len / 16) : List AesBlock))
    ((len / 16 * 16 : ℕ) : ℤ) (padBlock src len) ⟨j, by omega⟩
  have hrest : padBlock src len ⟨j, by omega⟩ = src ((len / 16 * 16 : ℕ) + (j : ℤ)) :=
    if_pos (show j < len % 16 by omega)
  rw [hj, Nat.cast_add, ← hrest]
  exact hcell

theorem setBlocks_paddedBlocks_last (mem src : ℤ → UInt8) (len : ℕ) :
    (setBlocks mem 0 (paddedBlocks src len) (((len / 16 + 1) * 16 : ℕ) - 1)).toNat
      = 16 - len % 16 := by
  have hmod := Nat.mod_lt len (by decide : 0 < 16)
  have hlast := (Pkcs7.padsWith_lastBlock (fun j => src ((len / 16 * 16 : ℕ) + j)) hmod).last
    (by decide) (by decide)
  have hcell := setBlock_cell (setBlocks mem 0 (blocksAt src 0 (len / 16) : List AesBlock))
    ((len / 16 * 16 : ℕ) : ℤ) (padBlock src len) ⟨15, by decide⟩
  have hi : (((len / 16 + 1) * 16 : ℕ) : ℤ) - 1 = (len / 16 * 16 : ℕ) + ((15 : ℕ) : ℤ) := by omega
  rw [setBlocks_paddedBlocks, hi, ← hlast]
  exact congrArg UInt8.toNat hcell

/-- The last block of a text ends in a padding. -/
def EndsPadded (text : List AesBlock) : Prop :=
  ∃ b k, text.getLast? = some b ∧ Pkcs7.PadsWith b k

/-- The length `r` is justified by the blocks `text` of a ciphertext of `len` bytes: they are
all of it, and the last one ends in a padding that takes up the rest. -/
def Justified (text : List AesBlock) (len : ℕ) (r : ℤ) : Prop :=
  0 < len ∧ 16 ∣ len ∧ ∃ b k, text.getLast? = some b ∧ Pkcs7.PadsWith b k ∧ r = len - k

variable {text : List AesBlock}

theorem Justified.bounds {r : ℤ} (h : Justified text len r) : 0 ≤ r ∧ r < len := by
  obtain ⟨hpos, hdvd, b, k, -, hpads, rfl⟩ := h
  have hle := hpads.le
  have hk := hpads.pos
  omega

/-- The cell that is taken for the length of the padding: that in front of offset `len` in a
buffer that begins with the blocks of `text`. -/
def padCell (text : List AesBlock) (out : ℤ → UInt8) (len : ℕ) : UInt8 :=
  setBlocks out 0 text (len - 1)

theorem padCell_eq {b : AesBlock} (out : ℤ → UInt8) (hlast : text.getLast? = some b)
    (hlen : len = 16 * text.length) : padCell text out len = b ⟨15, by decide⟩ := by
  obtain ⟨init, rfl⟩ := List.getLast?_eq_some_iff.mp hlast
  have hi : (len : ℤ) - 1 = 0 + ((16 : ℕ) : ℤ) * init.length + ((15 : ℕ) : ℤ) := by
    rw [List.length_append, List.length_singleton] at hlen
    omega
  rw [padCell, setBlocks_append, hi]
  exact setBlock_cell _ _ b ⟨15, by decide⟩

/-- What is left when the cell is taken for the length of the padding is justified exactly
if the text of whole blocks ends in one. -/
theorem justified_iff (htext : 0 < len → 16 ∣ len → len = 16 * text.length) (signed : Bool)
    (out : ℤ → UInt8) :
    Justified text len (len - charValue signed (padCell text out len)) ↔
      0 < len ∧ 16 ∣ len ∧ EndsPadded text := by
  constructor
  · rintro ⟨hpos, hdvd, b, k, hlast, hpads, -⟩
    exact ⟨hpos, hdvd, b, k, hlast, hpads⟩
  · rintro ⟨hpos, hdvd, b, k, hlast, hpads⟩
    have hcell : (b ⟨15, by decide⟩).toNat = k := hpads.last (by decide) (by decide)
    have hle := hpads.le
    refine ⟨hpos, hdvd, b, k, hlast, hpads, ?_⟩
    rw [padCell_eq out hlast (htext hpos hdvd), charValue_of_lt signed (by omega), hcell]

/-- What is left is nothing or justified exactly if the text ends in a padding or the cell has the
value of the length.  The cell may be read behind another text, as long as that is the
same where it counts. -/
theorem zero_or_justified_iff {text' : List AesBlock}
    (htext : 0 < len → 16 ∣ len → text' = text ∧ len = 16 * text.length) (signed : Bool)
    (out : ℤ → UInt8) : let r : ℤ := len - charValue signed (padCell text' out len)
    r = 0 ∨ Justified text len r ↔
      (0 < len ∧ 16 ∣ len ∧ EndsPadded text) ∨ charValue signed (padCell text' out len) = len := by
  have hiff : Justified text len (len - charValue signed (padCell text' out len)) ↔
      0 < len ∧ 16 ∣ len ∧ EndsPadded text := by
    by_cases hlen : 0 < len ∧ 16 ∣ len
    · rw [(htext hlen.1 hlen.2).1]
      exact justified_iff (fun hpos hdvd => (htext hpos hdvd).2) signed out
    · exact iff_of_false (fun h => hlen ⟨h.1, h.2.1⟩) fun h => hlen ⟨h.1, h.2.1⟩
  simp only [hiff]
  constructor
  · rintro (hzero | hends)
    · exact Or.inr (by omega)
    · exact .inl hends
  · rintro (hends | hcell)
    · exact .inr hends
    · exact Or.inl (by omega)

/-- Of a text that was padded, the padding comes off again. -/
theorem padCell_paddedBlocks (signed : Bool) (out src : ℤ → UInt8) (len : ℕ) :
    (((len / 16 + 1) * 16 : ℕ) : ℤ)
        - charValue signed (padCell (paddedBlocks src len) out ((len / 16 + 1) * 16)) = len := by
  have hcell : (padCell (paddedBlocks src len) out ((len / 16 + 1) * 16)).toNat
      = 16 - len % 16 := setBlocks_paddedBlocks_last out src len
  rw [charValue_of_lt signed (by omega), hcell]
  omega

/-! ### A key and a text -/

/-- The key `0123456789abcdef`. -/
def digitsKey : AesBlock :=
  ![0x30, 0x31, 0x32, 0x33, 0x34, 0x35, 0x36, 0x37, 0x38, 0x39, 0x61, 0x62, 0x63, 0x64, 0x65, 0x66]

/-- The text `ab`. -/
def abText : ℤ → UInt8 := fun i => if i = 0 then 0x61 else 0x62

end Iotkit.Hal
