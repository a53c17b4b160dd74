/-
# The payload of the cloud client

`iotx_aes_cbc_encrypt` and `iotx_aes_cbc_decrypt` (`iotx_coap_api.c`).  What was encrypted is
decrypted again; but the length of the padding is taken from whatever byte comes last, and
the length of a ciphertext may be anything.
-/
import Iotkit.HalAes

open BlockMemory Iotkit.Hal

namespace Iotkit.Coap

open Function

/-- The `iv` `543yhjy97ae7fyfg`. -/
def cloudAesIv : AesBlock :=
  ![0x35, 0x34, 0x33, 0x79, 0x68, 0x6a, 0x79, 0x39, 0x37, 0x61, 0x65, 0x37, 0x66, 0x79, 0x66, 0x67]

variable (cipher : BlockCipher)

/-- `iotx_aes_cbc_encrypt`: return value, and the memory at `out`.  The length is that of a
message, and `len & 0xfffffff0` is `len / 16 * 16`. -/
def iotxAesCbcEncrypt (calloc : Bool) (src : ℤ → UInt8) (len : ℕ) (key : AesBlock)
    (out : ℤ → UInt8) : ℤ × (ℤ → UInt8) :=
  let len1 := len / 16 * 16
  let len2 := len1 + 16
  let pad := len2 - len
  let aes := halAes128Init calloc key cloudAesIv
  let (ret, aes, out) :=
    if len1 ≠ 0 then halAes128CbcEncrypt cipher aes src 0 (len1 / 16) out 0 else (0, aes, out)
  let (ret, out) :=
    if ret = 0 ∧ pad ≠ 0 then
      let buf : ℤ → UInt8 := fun i => if i < (len - len1 : ℕ) then src (len1 + i) else UInt8.ofNat pad
      let (ret, _, out) := halAes128CbcEncrypt cipher aes buf 0 1 out len1
      (ret, out)
    else (ret, out)
  (if ret = 0 then len2 else 0, out)

/-- `iotx_aes_cbc_decrypt`, on a platform whose `char` is signed or not. -/
def iotxAesCbcDecrypt (signed : Bool) (calloc : Bool) (src : ℤ → UInt8) (len : ℕ) (key : AesBlock)
    (out : ℤ → UInt8) : ℤ × (ℤ → UInt8) :=
  let n := len / 16
  let aes := halAes128Init calloc key cloudAesIv
  if aes.isNone then (0, out)
  else
    let (ret, aes, out) :=
      if 1 < n then halAes128CbcDecrypt cipher aes src 0 (n - 1) out 0 else (0, aes, out)
    if ret = 0 then
      let offset : ℤ := if 0 < n then ((n - 1) * 16 : ℕ) else 0
      let out := update out offset 0
      let (ret, _, out) := halAes128CbcDecrypt cipher aes src offset 1 out offset
      if ret = 0 then
        let pad := charValue signed (out (len - 1))
        (len - pad, update out (len - pad) 0)
      else (0, out)
    else (0, out)

/-- The text of the first `n` blocks at `src`. -/
def cloudText (key : AesBlock) (src : ℤ → UInt8) (n : ℕ) : List AesBlock :=
  Cbc.decrypt xorBlock (cipher.decryptBlock key) cloudAesIv (blocksAt src 0 n)

theorem iotxAesCbcEncrypt_eq (src : ℤ → UInt8) (len : ℕ) (key : AesBlock) (out : ℤ → UInt8) :
    iotxAesCbcEncrypt cipher true src len key out
      = ((((len / 16 + 1) * 16 : ℕ) : ℤ), setBlocks out 0
        (Cbc.encrypt xorBlock (cipher.encryptBlock key) cloudAesIv (paddedBlocks src len))) := by
  have hpad : len / 16 * 16 + 16 - len ≠ 0 := by omega
  have hdiv : len / 16 * 16 / 16 = len / 16 := Nat.mul_div_cancel _ (by decide)
  -- without whole blocks, the first call would not do anything either
  have hbulk : (if len / 16 * 16 ≠ 0 then
      halAes128CbcEncrypt cipher (some ⟨key, cloudAesIv⟩) src 0 (len / 16) out 0
    else (0, some ⟨key, cloudAesIv⟩, out))
      = (0, some ⟨key, Cbc.chain cloudAesIv (Cbc.encrypt xorBlock (cipher.encryptBlock key)
          cloudAesIv (blocksAt src 0 (len / 16)))⟩,
        setBlocks out 0 (Cbc.encrypt xorBlock (cipher.encryptBlock key) cloudAesIv
          (blocksAt src 0 (len / 16)))) := by
    split_ifs with hzero
    · exact halAes128CbcEncrypt_some cipher key cloudAesIv src 0 (len / 16) out 0
    · have hn : len / 16 = 0 := by omega
      rw [hn]
      rfl
  simp only [iotxAesCbcEncrypt, halAes128Init, if_true, hdiv]
  rw [hbulk]
  simp only [hpad, ne_eq, not_false_eq_true, and_self, if_true, halAes128CbcEncrypt_some]
  rw [paddedBlocks, Cbc.encrypt_append, setBlocks_append, Cbc.length_encrypt, length_blocksAt]
  have hlen : ((len / 16 * 16 : ℕ) : ℤ) = 0 + ((16 : ℕ) : ℤ) * (len / 16 : ℕ) := by omega
  rw [blocksAt_buf, ← hlen, Nat.add_mul, Nat.one_mul]

/-- The blocks are decrypted in place, at least one, and the rest of the routine takes off the
padding. -/
theorem iotxAesCbcDecrypt_eq (signed : Bool) (src : ℤ → UInt8) (len : ℕ) (key : AesBlock)
    (out : ℤ → UInt8) :
    let text := cloudText cipher key src (max (len / 16) 1)
    let r : ℤ := len - charValue signed (padCell text out len)
    iotxAesCbcDecrypt cipher signed true src len key out
      = (r, update (setBlocks out 0 text) r 0) := by
  have hmax : max (len / 16) 1 = (len / 16 - 1) + 1 := by omega
  have hoffset : (if 0 < len / 16 then (((len / 16 - 1) * 16 : ℕ) : ℤ) else 0)
      = 0 + ((16 : ℕ) : ℤ) * (len / 16 - 1 : ℕ) := by
    split_ifs <;> omega
  -- with one block or none, the first call would not do anything either
  have hbulk : (if 1 < len / 16 then
      halAes128CbcDecrypt cipher (some ⟨key, cloudAesIv⟩) src 0 (len / 16 - 1) out 0
    else (0, some ⟨key, cloudAesIv⟩, out))
      = (0, some ⟨key, Cbc.chain cloudAesIv (blocksAt src 0 (len / 16 - 1))⟩,
        setBlocks out 0 (cloudText cipher key src (len / 16 - 1))) := by
    split_ifs with hn
    · exact halAes128CbcDecrypt_some cipher key cloudAesIv src 0 (len / 16 - 1) out 0
    · have hn' : len / 16 - 1 = 0 := by omega
      rw [hn']
      rfl
  have htext : ∀ a : UInt8, setBlocks (update
        (setBlocks out 0 (cloudText cipher key src (len / 16 - 1)))
        (0 + ((16 : ℕ) : ℤ) * (len / 16 - 1 : ℕ)) a) (0 + ((16 : ℕ) : ℤ) * (len / 16 - 1 : ℕ))
        (Cbc.decrypt xorBlock (cipher.decryptBlock key)
          (Cbc.chain cloudAesIv (blocksAt src 0 (len / 16 - 1)))
          (blocksAt src (0 + ((16 : ℕ) : ℤ) * (len / 16 - 1 : ℕ)) 1))
      = setBlocks out 0 (cloudText cipher key src (max (len / 16) 1)) := by
    intro a
    rw [hmax, cloudText, cloudText, blocksAt_add, Cbc.decrypt_append, setBlocks_append,
      Cbc.length_decrypt, length_blocksAt]
    exact setBlock_update _ _ ⟨le_rfl, by omega⟩ a
  simp only [iotxAesCbcDecrypt, halAes128Init, if_true, Option.isNone_some, Bool.false_eq_true,
    if_false]
  rw [hbulk]
  simp only [if_true, hoffset, halAes128CbcDecrypt_some, htext]
  rfl

variable {cipher}

/-- What was encrypted is decrypted to what it was. -/
theorem cloudText_encrypted (hinv : cipher.Inverts) (src : ℤ → UInt8) (len : ℕ) (key : AesBlock)
    (out : ℤ → UInt8) :
    cloudText cipher key (iotxAesCbcEncrypt cipher true src len key out).2 (len / 16 + 1)
      = paddedBlocks src len := by
  have hlen : len / 16 + 1 = (Cbc.encrypt xorBlock (cipher.encryptBlock key) cloudAesIv
      (paddedBlocks src len)).length := by
    rw [Cbc.length_encrypt, length_paddedBlocks]
  rw [iotxAesCbcEncrypt_eq, cloudText, hlen, blocksAt_setBlocks]
  exact Cbc.decrypt_encrypt xorBlock xorBlock_cancel (hinv key) _ _

/-- The cell that is taken for the length of the padding, as the ciphertext and the buffer have
it. -/
def cloudPadCell (cipher : BlockCipher) (key : AesBlock) (src : ℤ → UInt8) (len : ℕ)
    (out : ℤ → UInt8) : UInt8 :=
  padCell (cloudText cipher key src (max (len / 16) 1)) out len

/-- **The payload of the cloud client.**  Decryption gives back every text that was encrypted; and
what it gives for a payload is nothing or justified by a padding, exactly if there is no memory for
the context, or the payload is of whole blocks and its text ends in a padding or its length is the
value of the byte taken for one. -/
theorem coap_aes_padding_iff (hinv : cipher.Inverts) (signed : Bool) (key : AesBlock) :
    (∀ (src : ℤ → UInt8) (len : ℕ) (out out' : ℤ → UInt8),
      let encrypted := iotxAesCbcEncrypt cipher true src len key out
      let decrypted :=
        iotxAesCbcDecrypt cipher signed true encrypted.2 encrypted.1.toNat key out'
      decrypted.1 = len ∧ ∀ i : ℕ, i < len → decrypted.2 i = src i) ∧
    ∀ (calloc : Bool) (src : ℤ → UInt8) (len : ℕ) (out : ℤ → UInt8),
      let r := (iotxAesCbcDecrypt cipher signed calloc src len key out).1
      r = 0 ∨ (0 ≤ r ∧ r ≤ len ∧ Justified (cloudText cipher key src (len / 16)) len r) ↔
        calloc = false ∨
        (0 < len ∧ 16 ∣ len ∧ EndsPadded (cloudText cipher key src (len / 16))) ∨
        charValue signed (cloudPadCell cipher key src len out) = len := by
  refine ⟨fun src len out out' => ?_, fun calloc src len out => ?_⟩
  · have hret : (iotxAesCbcEncrypt cipher true src len key out).1.toNat = (len / 16 + 1) * 16 := by
      rw [iotxAesCbcEncrypt_eq]
      exact Int.toNat_natCast _
    have hdiv : (len / 16 + 1) * 16 / 16 = len / 16 + 1 := Nat.mul_div_cancel _ (by decide)
    have hmax : max (len / 16 + 1) 1 = len / 16 + 1 := by omega
    simp only [hret, iotxAesCbcDecrypt_eq, hdiv, hmax, cloudText_encrypted hinv,
      padCell_paddedBlocks, true_and]
    intro i hi
    rw [update_of_ne (by omega), setBlocks_paddedBlocks_text out' src hi]
  · cases calloc with
    | false => exact iff_of_true (.inl rfl) (.inl rfl)
    | true =>
      have htext : 0 < len → 16 ∣ len →
          cloudText cipher key src (max (len / 16) 1) = cloudText cipher key src (len / 16) ∧
            len = 16 * (cloudText cipher key src (len / 16)).length := by
        intro hpos hdvd
        rw [cloudText, cloudText, Cbc.length_decrypt, length_blocksAt,
          show max (len / 16) 1 = len / 16 by omega]
        exact ⟨rfl, by omega⟩
      have hiff := zero_or_justified_iff htext signed out
      simp only [iotxAesCbcDecrypt_eq, Bool.true_eq_false, false_or]
      refine Iff.trans (or_congr_right ?_) hiff
      constructor
      · exact fun h => h.2.2
      · intro hjust
        have hbounds := hjust.bounds
        exact ⟨hbounds.1, hbounds.2.le, hjust⟩

/-! ### A text, and a padding that is none -/

/-- AES under the key on the block of `ab`, padded and masked with the `iv`. -/
def abCipher : BlockCipher :=
  pairCipher
    ![0x54, 0x56, 0x3d, 0x77, 0x66, 0x64, 0x77, 0x37, 0x39, 0x6f, 0x6b, 0x39, 0x68, 0x77, 0x68, 0x69]
    ![0x24, 0x9c, 0xcd, 0xec, 0x31, 0x61, 0xb0, 0x1d, 0xf1, 0x80, 0x62, 0xf4, 0xdb, 0x3c, 0x96, 0x05]

theorem coap_aes_padding_ab :
    let encrypted := iotxAesCbcEncrypt abCipher true abText 2 digitsKey fun _ => 0
    let decrypted :=
      iotxAesCbcDecrypt abCipher true true encrypted.2 encrypted.1.toNat digitsKey fun _ => 0
    decrypted.1 = 2 ∧ ∀ i : ℕ, i < 2 → decrypted.2 i = abText i :=
  (coap_aes_padding_iff (pairCipher_inverts _ _) true digitsKey).1 abText 2 (fun _ => 0) fun _ => 0

/-- AES under the key on a block whose text ends in `0xf0`. -/
def negativeCipher : BlockCipher :=
  pairCipher
    ![0x35, 0x34, 0x33, 0x79, 0x68, 0x6a, 0x79, 0x39, 0x37, 0x61, 0x65, 0x37, 0x66, 0x79, 0x66, 0x97]
    ![0x97, 0xd9, 0xa7, 0x2a, 0x73, 0xea, 0x47, 0xe1, 0x32, 0x67, 0xef, 0xa8, 0xc6, 0x5f, 0xf1, 0x22]

/-- The block as it is received. -/
def negativePayload : ℤ → UInt8 := fun i =>
  ([0x97, 0xd9, 0xa7, 0x2a, 0x73, 0xea, 0x47, 0xe1, 0x32, 0x67, 0xef, 0xa8, 0xc6, 0x5f, 0xf1,
    0x22] : List UInt8).getD i.toNat 0

/-- Sixteen bytes are decrypted to a text of thirty-two. -/
theorem coap_aes_padding_negative :
    negativeCipher.Inverts ∧
      (iotxAesCbcDecrypt negativeCipher true true negativePayload 16 digitsKey fun _ => 0).1 = 32 ∧
      ¬ ∀ len : ℕ, let r := (iotxAesCbcDecrypt negativeCipher true true negativePayload len digitsKey
          fun _ => 0).1
        r = 0 ∨ (0 ≤ r ∧ r ≤ len ∧
          Justified (cloudText negativeCipher digitsKey negativePayload (len / 16)) len r) := by
  have hr : (iotxAesCbcDecrypt negativeCipher true true negativePayload 16 digitsKey
      fun _ => 0).1 = 32 := by decide +kernel
  refine ⟨pairCipher_inverts _ _, hr, fun hall => ?_⟩
  have h16 := hall 16
  simp only [hr] at h16
  omega

end Iotkit.Coap
