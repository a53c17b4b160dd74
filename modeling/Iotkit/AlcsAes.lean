/-
# The payload of ALCS messages

`alcs_encrypt` and `alcs_decrypt` (`alcs_api.c`) with all they read and write, and the
buffers that `recv_msg_handler` (`alcs_server.c`) and `secure_sendmsg_handler`
(`alcs_api.c`) give `alcs_decrypt` to write to.  The whole blocks and the last one are two runs of
CBC, each from the `iv` on.
-/
import Iotkit.HalAes
import Iotkit.AccessLog

open BlockMemory AccessLog Iotkit.Hal

namespace Iotkit.Alcs

open List Function Logged

/-- The `iv` `a1b1c1d1e1f1g1h1`. -/
def alcsAesIv : AesBlock :=
  ![0x61, 0x31, 0x62, 0x31, 0x63, 0x31, 0x64, 0x31, 0x65, 0x31, 0x66, 0x31, 0x67, 0x31, 0x68, 0x31]

/-- An access to `n` bytes from an offset on, to read the source or to write or read the
output buffer. -/
inductive Touch
  | src (i : ℤ) (n : ℕ)
  | out (i : ℤ) (n : ℕ)

/-- The bytes are in a source of `srcLen` bytes, or in an output buffer of `outLen`. -/
def Touch.Inside (srcLen outLen : ℕ) : Touch → Prop
  | .src i n => 0 ≤ i ∧ i + n ≤ srcLen
  | .out i n => 0 ≤ i ∧ i + n ≤ outLen

variable (cipher : BlockCipher)

/-- `alcs_encrypt`; `calloc` tells for its two contexts whether there is memory.  The length is
that of a message, and `len & 0xfffffff0` is `len / 16 * 16`. -/
def alcsEncrypt (calloc : Bool × Bool) (src : ℤ → UInt8) (len : ℕ) (key : AesBlock)
    (out : ℤ → UInt8) : Logged Touch (ℤ × (ℤ → UInt8)) := do
  let len1 := len / 16 * 16
  let len2 := len1 + 16
  let pad := len2 - len
  let (ret, out) ←
    if len1 ≠ 0 then
      let aes := halAes128Init calloc.1 key alcsAesIv
      let (ret, _, out) := halAes128CbcEncrypt cipher aes src 0 (len1 / 16) out 0
      (⟨(ret, out), if aes.isSome then [.src 0 len1, .out 0 len1] else []⟩ : Logged Touch _)
    else pure (0, out)
  let (ret, out) ←
    if ret = 0 ∧ pad ≠ 0 then
      let buf : ℤ → UInt8 := fun i => if i < (len - len1 : ℕ) then src (len1 + i) else UInt8.ofNat pad
      let aes := halAes128Init calloc.2 key alcsAesIv
      let (ret, _, out) := halAes128CbcEncrypt cipher aes buf 0 1 out len1
      (⟨(ret, out), .src len1 (len - len1) :: if aes.isSome then [.out len1 16] else []⟩
        : Logged Touch _)
    else pure (ret, out)
  pure (if ret = 0 then len2 else 0, out)

/-- `alcs_decrypt`, on a platform whose `char` is signed or not. -/
def alcsDecrypt (signed : Bool) (calloc : Bool × Bool) (src : ℤ → UInt8) (len : ℕ)
    (key : AesBlock) (out : ℤ → UInt8) : Logged Touch (ℤ × (ℤ → UInt8)) := do
  let n := len / 16
  let aes := halAes128Init calloc.1 key alcsAesIv
  if 1 < n ∧ aes.isNone then pure (0, out)
  else
    let (ret, out) ←
      if 1 < n then
        let (ret, _, out) := halAes128CbcDecrypt cipher aes src 0 (n - 1) out 0
        (⟨(ret, out), [.src 0 (16 * (n - 1)), .out 0 (16 * (n - 1))]⟩ : Logged Touch _)
      else pure (0, out)
    if ret ≠ 0 then pure (0, out)
    else
      let offset : ℤ := if 0 < n then ((n - 1) * 16 : ℕ) else 0
      let out ← Logged.access (.out offset 1) (update out offset 0)
      let aes := halAes128Init calloc.2 key alcsAesIv
      if aes.isNone then pure (0, out)
      else
        let (ret, _, out) := halAes128CbcDecrypt cipher aes src offset 1 out offset
        let (ret, out) ← (⟨(ret, out), [.src offset 16, .out offset 16]⟩ : Logged Touch _)
        if ret ≠ 0 then pure (0, out)
        else
          let pad ← Logged.access (.out (len - 1) 1) (charValue signed (out (len - 1)))
          let out ← Logged.access (.out (len - pad) 1) (update out (len - pad) 0)
          pure (len - pad, out)

def alcsBlocks (key : AesBlock) (src : ℤ → UInt8) (len : ℕ) : List AesBlock :=
  Cbc.encrypt xorBlock (cipher.encryptBlock key) alcsAesIv (blocksAt src 0 (len / 16))
    ++ Cbc.encrypt xorBlock (cipher.encryptBlock key) alcsAesIv [padBlock src len]

/-- Everything an `alcs_encrypt` does whose contexts can be made. -/
theorem alcsEncrypt_eq (src : ℤ → UInt8) (len : ℕ) (key : AesBlock) (out : ℤ → UInt8) :
    alcsEncrypt cipher (true, true) src len key out
      = ⟨((((len / 16 + 1) * 16 : ℕ) : ℤ), setBlocks out 0 (alcsBlocks cipher key src len)),
        (if len / 16 * 16 ≠ 0 then [Touch.src 0 (len / 16 * 16), .out 0 (len / 16 * 16)] else [])
          ++ [Touch.src (len / 16 * 16 : ℕ) (len - len / 16 * 16),
            .out (len / 16 * 16 : ℕ) 16]⟩ := by
  have hpad : len / 16 * 16 + 16 - len ≠ 0 := by omega
  have hdiv : len / 16 * 16 / 16 = len / 16 := Nat.mul_div_cancel _ (by decide)
  have hlen : ((len / 16 * 16 : ℕ) : ℤ) = 0 + ((16 : ℕ) : ℤ) * (len / 16 : ℕ) := by omega
  have hlast : ∀ out : ℤ → UInt8, setBlocks (setBlocks out 0 (Cbc.encrypt xorBlock
        (cipher.encryptBlock key) alcsAesIv (blocksAt src 0 (len / 16)))) (len / 16 * 16 : ℕ)
        (Cbc.encrypt xorBlock (cipher.encryptBlock key) alcsAesIv [padBlock src len])
      = setBlocks out 0 (alcsBlocks cipher key src len) := by
    intro out
    rw [alcsBlocks, setBlocks_append, Cbc.length_encrypt, length_blocksAt, hlen]
  by_cases hzero : len / 16 * 16 ≠ 0
  · simp only [alcsEncrypt, halAes128Init, if_true, hdiv, if_pos hzero, halAes128CbcEncrypt_some,
      Option.isSome_some, hpad, ne_eq, not_false_eq_true, and_self, mk_bind,
      pure_eq_mk, blocksAt_buf, hlast]
    rw [Nat.add_mul, Nat.one_mul]
    rfl
  have hempty : (blocksAt src 0 (len / 16) : List AesBlock) = [] := by
    have hn : len / 16 = 0 := by omega
    rw [hn]
    rfl
  have hnone := hlast out
  rw [hempty] at hnone
  change setBlocks out _ _ = _ at hnone
  simp only [alcsEncrypt, halAes128Init, if_true, if_neg hzero, halAes128CbcEncrypt_some,
    Option.isSome_some, hpad, ne_eq, not_false_eq_true, and_self, mk_bind,
    pure_eq_mk, blocksAt_buf, hnone]
  rw [Nat.add_mul, Nat.one_mul]
  rfl

/-- The text of the first `n` blocks at `src`, in which the last one has a run of its own. -/
def alcsText (key : AesBlock) (src : ℤ → UInt8) (n : ℕ) : List AesBlock :=
  Cbc.decrypt xorBlock (cipher.decryptBlock key) alcsAesIv (blocksAt src 0 (n - 1))
    ++ Cbc.decrypt xorBlock (cipher.decryptBlock key) alcsAesIv
      [blockAt src (0 + ((16 : ℕ) : ℤ) * (n - 1 : ℕ))]

/-- What an `alcs_decrypt` accesses before it comes to the last block. -/
def bulkTouches (n : ℕ) : List Touch :=
  if 1 < n then [.src 0 (16 * (n - 1)), .out 0 (16 * (n - 1))] else []

def lastOffset (n : ℕ) : ℤ := if 0 < n then ((n - 1) * 16 : ℕ) else 0

/-- The contexts that an `alcs_decrypt` of `n` blocks makes can be made. -/
def ContextsMade (calloc : Bool × Bool) (n : ℕ) : Prop :=
  (1 < n → calloc.1 = true) ∧ calloc.2 = true

theorem alcsDecrypt_failed (signed : Bool) {calloc : Bool × Bool} (src : ℤ → UInt8) {len : ℕ}
    (key : AesBlock) (out : ℤ → UInt8)
    (h : ¬ ContextsMade calloc (len / 16)) :
    (alcsDecrypt cipher signed calloc src len key out).val.1 = 0 ∧
      ∀ t ∈ (alcsDecrypt cipher signed calloc src len key out).log,
        t ∈ bulkTouches (len / 16) ∨ t = .out (lastOffset (len / 16)) 1 := by
  obtain ⟨first, second⟩ := calloc
  by_cases hn : 1 < len / 16
  · cases first with
    | false => simp [alcsDecrypt, halAes128Init, hn, pure_eq_mk]
    | true =>
      have hsecond : second = false := by simpa [ContextsMade] using h
      simp [alcsDecrypt, halAes128Init, halAes128CbcDecrypt_some, hn, hsecond, bulkTouches,
        lastOffset, mk_bind, pure_eq_mk, access_eq_mk]
  · have hsecond : second = false := by simpa [ContextsMade, hn] using h
    simp [alcsDecrypt, halAes128Init, hn, hsecond, bulkTouches,
      lastOffset, mk_bind, pure_eq_mk, access_eq_mk]

/-- An `alcs_decrypt` that can make them decrypts all blocks in place, at least one, and takes
off the padding. -/
theorem alcsDecrypt_eq (signed : Bool) {calloc : Bool × Bool} (src : ℤ → UInt8) {len : ℕ}
    (key : AesBlock) (out : ℤ → UInt8)
    (h : ContextsMade calloc (len / 16)) :
    let text := alcsText cipher key src (max (len / 16) 1)
    let r : ℤ := len - charValue signed (padCell text out len)
    alcsDecrypt cipher signed calloc src len key out
      = ⟨(r, update (setBlocks out 0 text) r 0),
        bulkTouches (len / 16) ++ [Touch.out (lastOffset (len / 16)) 1,
          .src (lastOffset (len / 16)) 16, .out (lastOffset (len / 16)) 16, .out (len - 1) 1,
          .out r 1]⟩ := by
  obtain ⟨first, second⟩ := calloc
  obtain ⟨hfirst, hsecond⟩ := h
  change second = true at hsecond
  have hoffset : lastOffset (len / 16) = 0 + ((16 : ℕ) : ℤ) * (len / 16 - 1 : ℕ) := by
    unfold lastOffset
    split_ifs <;> omega
  have hite : (if 0 < len / 16 then (((len / 16 - 1) * 16 : ℕ) : ℤ) else 0)
      = lastOffset (len / 16) := rfl
  have hmax : max (len / 16) 1 - 1 = len / 16 - 1 := by omega
  have htext : ∀ a : UInt8, setBlocks (update
        (setBlocks out 0 (Cbc.decrypt xorBlock (cipher.decryptBlock key) alcsAesIv
          (blocksAt src 0 (len / 16 - 1))))
        (lastOffset (len / 16)) a) (lastOffset (len / 16))
        (Cbc.decrypt xorBlock (cipher.decryptBlock key) alcsAesIv
          (blocksAt src (lastOffset (len / 16)) 1))
      = setBlocks out 0 (alcsText cipher key src (max (len / 16) 1)) := by
    intro a
    rw [hoffset, alcsText, hmax, setBlocks_append, Cbc.length_decrypt, length_blocksAt]
    exact setBlock_update _ _ ⟨le_rfl, by omega⟩ a
  by_cases hn : 1 < len / 16
  · have hfirst : first = true := hfirst hn
    simp only [alcsDecrypt, halAes128Init, hfirst, hsecond, if_true, Option.isNone_some,
      Bool.false_eq_true, and_false, if_false, if_pos hn, halAes128CbcDecrypt_some,
      ne_eq, not_true_eq_false, mk_bind, pure_eq_mk, access_eq_mk,
      bulkTouches, hite, htext]
    rfl
  have hn' : len / 16 - 1 = 0 := by omega
  have hnone : ∀ a : UInt8, setBlocks (update out (lastOffset (len / 16)) a)
      (lastOffset (len / 16)) (Cbc.decrypt xorBlock (cipher.decryptBlock key) alcsAesIv
        (blocksAt src (lastOffset (len / 16)) 1))
      = setBlocks out 0 (alcsText cipher key src (max (len / 16) 1)) := by
    intro a
    have h := htext a
    rw [hn'] at h
    exact h
  have hskip : ∀ aes : Option PlatformAes, ¬ (1 < len / 16 ∧ aes.isNone = true) :=
    fun _ h => hn h.1
  simp only [alcsDecrypt, halAes128Init, hsecond, if_neg (hskip _), if_true, Option.isNone_some,
    Bool.false_eq_true, if_false, if_neg hn, halAes128CbcDecrypt_some,
    ne_eq, not_true_eq_false, mk_bind, pure_eq_mk, access_eq_mk,
    bulkTouches, hite, hnone]
  rfl

variable {cipher}

/-- What was encrypted is decrypted to what it was, each run by one of its own. -/
theorem alcsText_encrypted (hinv : cipher.Inverts) (src : ℤ → UInt8) (len : ℕ) (key : AesBlock)
    (out : ℤ → UInt8) :
    alcsText cipher key (setBlocks out 0 (alcsBlocks cipher key src len)) (len / 16 + 1)
      = paddedBlocks src len := by
  have hread := blocksAt_setBlocks (alcsBlocks cipher key src len) out 0
  have hlen : (alcsBlocks cipher key src len).length = len / 16 + 1 := by
    rw [alcsBlocks, length_append, Cbc.length_encrypt, Cbc.length_encrypt, length_blocksAt]
    rfl
  rw [hlen, blocksAt_add] at hread
  obtain ⟨hbulk, hlast⟩ := append_inj hread (by
    rw [Cbc.length_encrypt, length_blocksAt, length_blocksAt])
  rw [alcsText, show len / 16 + 1 - 1 = len / 16 from rfl, hbulk, paddedBlocks]
  change _ ++ Cbc.decrypt _ _ _ (blocksAt _ _ 1) = _
  rw [hlast, Cbc.decrypt_encrypt xorBlock xorBlock_cancel (hinv key),
    Cbc.decrypt_encrypt xorBlock xorBlock_cancel (hinv key)]

/-! ## The buffers of the handlers -/

/-- The two handlers that decrypt a payload, the server's and the client's. -/
inductive Handler
  | recvMsg
  | secureSendmsg

/-- The size of the buffer `buf`, an array or as much as the payload has. -/
def Handler.bufferSize : Handler → ℕ → ℕ
  | .recvMsg, payloadlen => if payloadlen < 256 then 256 else payloadlen
  | .secureSendmsg, payloadlen => if payloadlen < 128 then 128 else payloadlen

theorem Handler.le_bufferSize (handler : Handler) (payloadlen : ℕ) :
    payloadlen ≤ handler.bufferSize payloadlen ∧ 128 ≤ handler.bufferSize payloadlen := by
  cases handler <;> simp only [bufferSize] <;> split_ifs <;> omega

theorem bulkTouches_inside {len size : ℕ} (hsize : len ≤ size) {t : Touch}
    (ht : t ∈ bulkTouches (len / 16)) : t.Inside len size := by
  unfold bulkTouches at ht
  split_ifs at ht with hn
  · rcases mem_pair.mp ht with rfl | rfl
    · show (0 : ℤ) ≤ 0 ∧ (0 : ℤ) + (16 * (len / 16 - 1) : ℕ) ≤ len
      omega
    · show (0 : ℤ) ≤ 0 ∧ (0 : ℤ) + (16 * (len / 16 - 1) : ℕ) ≤ size
      omega
  · exact absurd ht not_mem_nil

theorem lastOffset_inside {len size : ℕ} (hsize : len ≤ size) (hpos : 0 < size) :
    (Touch.out (lastOffset (len / 16)) 1).Inside len size := by
  show 0 ≤ lastOffset (len / 16) ∧ lastOffset (len / 16) + ((1 : ℕ) : ℤ) ≤ size
  unfold lastOffset
  split_ifs <;> omega

/-- The byte at `i` is one that is written. -/
def Touch.Covers (i : ℤ) : Touch → Prop
  | .src _ _ => False
  | .out p n => p ≤ i ∧ i < p + n

theorem isLeast_padded (len : ℕ) :
    IsLeast {m : ℤ | (len : ℤ) < m ∧ 16 ∣ m} (((len / 16 + 1) * 16 : ℕ) : ℤ) := by
  refine ⟨⟨by omega, by omega⟩, fun m hm => ?_⟩
  obtain ⟨hlt, hdvd⟩ := hm
  omega

/-- An `alcs_encrypt` writes the least multiple of the block size that is greater, all
of it and nothing else, and reads the text alone. -/
theorem alcsEncrypt_touches (src : ℤ → UInt8) (len : ℕ) (key : AesBlock) (out : ℤ → UInt8) :
    let encrypted := alcsEncrypt cipher (true, true) src len key out
    IsLeast {m : ℤ | (len : ℤ) < m ∧ 16 ∣ m} encrypted.val.1 ∧
      encrypted.Within (Touch.Inside len encrypted.val.1.toNat) ∧
      ∀ i, (∃ t ∈ encrypted.log, t.Covers i) ↔ 0 ≤ i ∧ i < encrypted.val.1 := by
  rw [alcsEncrypt_eq]
  refine ⟨isLeast_padded len, fun t ht => ?_, fun i => ⟨?_, fun hi => ?_⟩⟩
  · rcases mem_append.mp ht with hbulk | hlast
    · split_ifs at hbulk with hzero
      · rcases mem_pair.mp hbulk with rfl | rfl <;> simp only [Touch.Inside] <;> omega
      · exact absurd hbulk not_mem_nil
    · rcases mem_pair.mp hlast with rfl | rfl <;> simp only [Touch.Inside] <;> omega
  · rintro ⟨t, ht, hcovers⟩
    rcases mem_append.mp ht with hbulk | hlast
    · split_ifs at hbulk with hzero
      · rcases mem_pair.mp hbulk with rfl | rfl
        · exact hcovers.elim
        · obtain ⟨hle, hlt⟩ := hcovers
          show 0 ≤ i ∧ i < ((len / 16 + 1) * 16 : ℕ)
          omega
      · exact absurd hbulk not_mem_nil
    · rcases mem_pair.mp hlast with rfl | rfl
      · exact hcovers.elim
      · obtain ⟨hle, hlt⟩ := hcovers
        show 0 ≤ i ∧ i < ((len / 16 + 1) * 16 : ℕ)
        omega
  · change 0 ≤ i ∧ i < ((len / 16 + 1) * 16 : ℕ) at hi
    by_cases hlt : i < (len / 16 * 16 : ℕ)
    · refine ⟨.out 0 (len / 16 * 16), mem_append_left _ ?_, hi.1, by omega⟩
      rw [if_pos (by omega)]
      exact mem_pair.mpr (.inr rfl)
    · exact ⟨.out (len / 16 * 16 : ℕ) 16, mem_append_right _ (mem_pair.mpr (.inr rfl)),
        by omega, by omega⟩

variable (cipher) in
/-- An `alcs_decrypt` that has its contexts stays in a buffer as long as the payload exactly if
there is a whole block, and the byte taken for the length of the padding leads to one
of the buffer. -/
theorem alcsDecrypt_within (signed : Bool) {calloc : Bool × Bool} (src : ℤ → UInt8)
    {len size : ℕ} (key : AesBlock) (out : ℤ → UInt8) (hsize : len ≤ size) (hpos : 0 < size)
    (h : ContextsMade calloc (len / 16)) :
    let decrypted := alcsDecrypt cipher signed calloc src len key out
    decrypted.Within (Touch.Inside len size) ↔
      16 ≤ len ∧ 0 ≤ decrypted.val.1 ∧ decrypted.val.1 < size := by
  rw [alcsDecrypt_eq cipher signed src key out h]
  simp only []
  generalize (len : ℤ) - charValue signed
    (padCell (alcsText cipher key src (max (len / 16) 1)) out len) = r
  constructor
  · intro hall
    have hsrc : (Touch.src (lastOffset (len / 16)) 16).Inside len size := hall _ (by simp)
    have hr : (Touch.out r 1).Inside len size := hall _ (by simp)
    obtain ⟨-, hle⟩ := hsrc
    obtain ⟨hnonneg, hlt⟩ := hr
    unfold lastOffset at hle
    refine ⟨?_, hnonneg, by omega⟩
    split_ifs at hle <;> omega
  · rintro ⟨hlen, hnonneg, hlt⟩ t ht
    have hoffset : lastOffset (len / 16) = (((len / 16 - 1) * 16 : ℕ) : ℤ) := if_pos (by omega)
    rcases mem_append.mp ht with hbulk | hrest
    · exact bulkTouches_inside hsize hbulk
    simp only [mem_cons, not_mem_nil, or_false] at hrest
    rcases hrest with rfl | rfl | rfl | rfl | rfl
    · exact lastOffset_inside hsize hpos
    all_goals
      simp only [Touch.Inside, hoffset]
      omega

/-- The byte that is taken for the length of the padding, as the ciphertext and the buffer have
it. -/
def alcsPadCell (cipher : BlockCipher) (key : AesBlock) (src : ℤ → UInt8) (len : ℕ)
    (out : ℤ → UInt8) : UInt8 :=
  padCell (alcsText cipher key src (max (len / 16) 1)) out len

theorem length_alcsText (key : AesBlock) (src : ℤ → UInt8) {n : ℕ} (hn : 0 < n) :
    (alcsText cipher key src n).length = n := by
  rw [alcsText, length_append, Cbc.length_decrypt, Cbc.length_decrypt, length_blocksAt]
  show n - 1 + 1 = n
  omega

/-- What a whole block leaves is zero or justified exactly if the text ends in a padding or the
length is that of one. -/
theorem alcs_justified_iff (signed : Bool) (key : AesBlock) (src : ℤ → UInt8) {len : ℕ}
    (hlen : 16 ≤ len) (out : ℤ → UInt8) :
    let r : ℤ := len - charValue signed (alcsPadCell cipher key src len out)
    r = 0 ∨ Justified (alcsText cipher key src (len / 16)) len r ↔
      16 ∣ len ∧ EndsPadded (alcsText cipher key src (len / 16)) ∨
        charValue signed (alcsPadCell cipher key src len out) = len := by
  have htext : 0 < len → 16 ∣ len →
      alcsText cipher key src (max (len / 16) 1) = alcsText cipher key src (len / 16) ∧
        len = 16 * (alcsText cipher key src (len / 16)).length := by
    intro hpos hdvd
    rw [length_alcsText key src (by omega), show max (len / 16) 1 = len / 16 by omega]
    exact ⟨rfl, by omega⟩
  have hiff := zero_or_justified_iff htext signed out
  rwa [and_iff_right (show 0 < len by omega)] at hiff

/-- **The payload of ALCS messages.**  A text is encrypted to the next greater multiple of the block
size and decrypted to what it was.  What a handler gets for a payload is nothing or justified by a
padding, and no other byte is touched, exactly if no context can be made, or the payload is of whole
blocks and at least one, and its text ends in a padding or its length is the value of the byte taken
for one. -/
theorem alcs_aes_padding_iff (hinv : cipher.Inverts) (signed : Bool) (key : AesBlock) :
    (∀ (src : ℤ → UInt8) (len : ℕ) (out out' : ℤ → UInt8),
      let encrypted := alcsEncrypt cipher (true, true) src len key out
      let decrypted := alcsDecrypt cipher signed (true, true) encrypted.val.2 encrypted.val.1.toNat
        key out'
      (IsLeast {m : ℤ | (len : ℤ) < m ∧ 16 ∣ m} encrypted.val.1 ∧
        encrypted.Within (Touch.Inside len encrypted.val.1.toNat) ∧
        ∀ i, (∃ t ∈ encrypted.log, t.Covers i) ↔ 0 ≤ i ∧ i < encrypted.val.1) ∧
      decrypted.val.1 = len ∧ ∀ i : ℕ, i < len → decrypted.val.2 i = src i) ∧
    ∀ (calloc : Bool × Bool) (src : ℤ → UInt8) (len : ℕ) (out : ℤ → UInt8) (handler : Handler),
      let decrypted := alcsDecrypt cipher signed calloc src len key out
      (decrypted.val.1 = 0 ∨ (0 ≤ decrypted.val.1 ∧ decrypted.val.1 ≤ len - 1 ∧
          Justified (alcsText cipher key src (len / 16)) len decrypted.val.1)) ∧
        decrypted.Within (Touch.Inside len (handler.bufferSize len)) ↔
      ¬ ContextsMade calloc (len / 16) ∨
        16 ≤ len ∧ (16 ∣ len ∧ EndsPadded (alcsText cipher key src (len / 16)) ∨
          charValue signed (alcsPadCell cipher key src len out) = len) := by
  refine ⟨fun src len out out' => ⟨alcsEncrypt_touches src len key out, ?_⟩,
    fun calloc src len out handler => ?_⟩
  · have hdiv : (len / 16 + 1) * 16 / 16 = len / 16 + 1 := Nat.mul_div_cancel _ (by decide)
    have hmade : ∀ n, ContextsMade (true, true) n := fun n => ⟨fun _ => rfl, rfl⟩
    have hmax : max (len / 16 + 1) 1 = len / 16 + 1 := by omega
    rw [alcsEncrypt_eq, Int.toNat_natCast, alcsDecrypt_eq cipher signed _ key out' (hmade _)]
    simp only [hdiv, hmax, alcsText_encrypted hinv, padCell_paddedBlocks, true_and]
    intro i hi
    rw [update_of_ne (by omega), setBlocks_paddedBlocks_text out' src hi]
  · obtain ⟨hsize, hpos⟩ := handler.le_bufferSize len
    by_cases hmade : ContextsMade calloc (len / 16)
    · have hwithin := alcsDecrypt_within cipher signed src key out hsize (by omega) hmade
      have hvalue : (alcsDecrypt cipher signed calloc src len key out).val.1
          = len - charValue signed (alcsPadCell cipher key src len out) := by
        rw [alcsDecrypt_eq cipher signed src key out hmade]
        rfl
      simp only [hwithin, hvalue, not_true_eq_false, hmade, false_or]
      constructor
      · rintro ⟨hret, hlen, -, -⟩
        exact ⟨hlen, (alcs_justified_iff signed key src hlen out).mp (hret.imp_right (·.2.2))⟩
      · rintro ⟨hlen, hcond⟩
        rcases (alcs_justified_iff signed key src hlen out).mpr hcond with hzero | hjust
        · exact ⟨Or.inl hzero, hlen, by omega, by omega⟩
        · have hbounds := hjust.bounds
          exact ⟨Or.inr ⟨hbounds.1, by omega, hjust⟩, hlen, hbounds.1, by omega⟩
    · obtain ⟨hzero, htouches⟩ := alcsDecrypt_failed cipher signed src key out hmade
      refine iff_of_true ⟨.inl hzero, fun t ht => ?_⟩ (.inl hmade)
      rcases htouches t ht with hbulk | rfl
      · exact bulkTouches_inside hsize hbulk
      · exact lastOffset_inside hsize (by omega)

/-! ### A text, and a padding that is none -/

/-- AES under the key on the block of `ab`, padded and masked with the `iv`. -/
def abCipher : BlockCipher :=
  pairCipher
    ![0x00, 0x53, 0x6c, 0x3f, 0x6d, 0x3f, 0x6a, 0x3f, 0x6b, 0x3f, 0x68, 0x3f, 0x69, 0x3f, 0x66, 0x3f]
    ![0x3d, 0x74, 0x57, 0x14, 0xd4, 0xd1, 0x55, 0x16, 0xc8, 0xb4, 0xea, 0xaf, 0xf8, 0x64, 0x0a, 0x0a]

theorem alcs_aes_padding_ab :
    let encrypted := alcsEncrypt abCipher (true, true) abText 2 digitsKey fun _ => 0
    let decrypted := alcsDecrypt abCipher true (true, true) encrypted.val.2 encrypted.val.1.toNat
      digitsKey fun _ => 0
    decrypted.val.1 = 2 ∧ ∀ i : ℕ, i < 2 → decrypted.val.2 i = abText i :=
  ((alcs_aes_padding_iff (pairCipher_inverts _ _) true digitsKey).1 abText 2 (fun _ => 0)
    fun _ => 0).2

/-- AES under the key on a block whose text ends in `0xf0`. -/
def negativeCipher : BlockCipher :=
  pairCipher
    ![0x61, 0x31, 0x62, 0x31, 0x63, 0x31, 0x64, 0x31, 0x65, 0x31, 0x66, 0x31, 0x67, 0x31, 0x68, 0xc1]
    ![0x89, 0xb6, 0xdd, 0x53, 0x31, 0x52, 0x96, 0xd5, 0xae, 0x00, 0xbc, 0xb7, 0x7e, 0xe0, 0x36, 0x5a]

/-- The block as it is received. -/
def negativePayload : ℤ → UInt8 := fun i =>
  ([0x89, 0xb6, 0xdd, 0x53, 0x31, 0x52, 0x96, 0xd5, 0xae, 0x00, 0xbc, 0xb7, 0x7e, 0xe0, 0x36,
    0x5a] : List UInt8).getD i.toNat 0

/-- Sixteen bytes are decrypted to a text of thirty-two, and of three bytes sixteen are read. -/
theorem alcs_aes_padding_negative :
    negativeCipher.Inverts ∧
      (alcsDecrypt negativeCipher true (true, true) negativePayload 16 digitsKey
        fun _ => 0).val.1 = 32 ∧
      ¬ (alcsDecrypt negativeCipher true (true, true) negativePayload 3 digitsKey
        fun _ => 0).Within (Touch.Inside 3 (Handler.recvMsg.bufferSize 3)) ∧
      ¬ ∀ len : ℕ,
        let decrypted :=
          alcsDecrypt negativeCipher true (true, true) negativePayload len digitsKey fun _ => 0
        (decrypted.val.1 = 0 ∨ (0 ≤ decrypted.val.1 ∧ decrypted.val.1 ≤ len - 1 ∧
            Justified (alcsText negativeCipher digitsKey negativePayload (len / 16)) len
              decrypted.val.1)) ∧
          decrypted.Within (Touch.Inside len (Handler.recvMsg.bufferSize len)) := by
  have hr : (alcsDecrypt negativeCipher true (true, true) negativePayload 16 digitsKey
      fun _ => 0).val.1 = 32 := by decide +kernel
  refine ⟨pairCipher_inverts _ _, hr, fun hall => ?_, fun hall => ?_⟩
  · have hin : (Touch.src 0 16).Inside 3 (Handler.recvMsg.bufferSize 3) :=
      hall _ (mem_cons_of_mem _ mem_cons_self)
    exact absurd hin.2 (by decide)
  · have h16 := (hall 16).1
    simp only [hr] at h16
    omega

end Iotkit.Alcs
