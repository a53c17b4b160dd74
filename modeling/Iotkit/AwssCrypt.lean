/-
# Passwords from the air (`zconfig_protocol.c`, `awss_crypt.c`, `zconfig_utils.c`)

`decode_chinese` puts the bytes of a password together, `aes_decrypt_string` decrypts them, and
`is_utf8` looks whether the text can be a password.  How many bytes are copied, decoded or decrypted
is recorded, to be compared with the sizes that the configuration has for them.
-/
import Iotkit.ZconfigRecv

namespace Iotkit.Awss

open AccessLog LibC Logged

/-! ## Copies -/

abbrev zcMaxPasswdLen : ℕ := 64 + 1

/-- A number of bytes of a name or of a password that are copied, decoded or decrypted. -/
inductive CopyUse where
  | ssid (n : ℕ)
  | passwd (n : ℕ)
  deriving DecidableEq

/-- No more bytes than the configuration has for them. -/
def CopyUse.Fits : CopyUse → Prop
  | .ssid n => n ≤ zcMaxSsidLen
  | .passwd n => n ≤ zcMaxPasswdLen

abbrev Passwd := Vector UInt8 zcMaxPasswdLen

/-- A cleared array, filled from its start. -/
def fillPasswd (bytes : Bytes) : Passwd := Vector.ofFn fun i => bytes.getD i 0

/-! ## `decode_chinese` -/

/-- `decode_chinese`: the bytes that it writes, if it writes any. -/
def decodeChinese (memory : Bool) (input : Bytes) (bits : ℕ) : Option Bytes :=
  if bits = 0 ∨ bits > 7 ∨ input = [] ∨ memory = false then none
  else
    let bit (k : ℕ) : ℕ := ((input.getD (k / bits) 0).toNat >>> (k % bits)) &&& 1
    some ((List.range (input.length * bits / 8)).map fun i =>
      UInt8.ofNat ((List.range 8).foldl (fun out j => out ||| (bit (i * 8 + j) <<< j)) 0))

/-- A letter of 8 bits that was sent in two groups of 7 bits. -/
example : decodeChinese true [0x61, 0x01] 7 = some [0xE1] := by decide

theorem length_decodeChinese {memory : Bool} {input out : Bytes} {bits : ℕ}
    (h : decodeChinese memory input bits = some out) : out.length = input.length * bits / 8 := by
  rw [decodeChinese] at h
  split at h
  · cases h
  · rw [← Option.some.inj h, List.length_map, List.length_range]

/-- A call of `decode_chinese` for a password: the bytes that are decoded. -/
def decodePasswd (memory : Bool) (passwd : Bytes) (bits : ℕ) :
    Logged CopyUse Bytes :=
  match decodeChinese memory passwd bits with
  | some cipher => Logged.access (.passwd cipher.length) cipher
  | none => pure []

theorem within_decodePasswd {memory : Bool} {passwd : Bytes} {bits : ℕ}
    (h : passwd.length * bits / 8 ≤ zcMaxPasswdLen) :
    (decodePasswd memory passwd bits).Within CopyUse.Fits ∧
      (decodePasswd memory passwd bits).val.length ≤ zcMaxPasswdLen := by
  rw [decodePasswd]
  split
  · next cipher hdecode =>
    rw [← length_decodeChinese hdecode] at h
    exact ⟨(within_access ..).mpr h, h⟩
  · exact ⟨within_pure _, Nat.zero_le _⟩

/-! ## `aes_decrypt_string` -/

/-- What decrypting gets from outside: the memory for a copy of the text, the memory for the
cipher, and `infra_aes_crypt_ecb` under the key that is made of the product secret. -/
structure CryptEnv where
  decodedMemory : Bool
  aesMemory : Bool
  ecb : Bytes → Bytes

/-- The loop of `infra_aes_crypt_cfb128` that decrypts, from position `n` of a block. -/
def infraAesCryptCfb128 (ecb : Bytes → Bytes) :
    Bytes → ℕ → Bytes → Bytes
  | _, _, [] => []
  | iv, n, c :: input =>
    let iv := if n = 0 then ecb iv else iv
    (c ^^^ iv.getD n 0) :: infraAesCryptCfb128 ecb (iv.set n c) ((n + 1) &&& 0x0F) input

/-- `aes_decrypt_string` in cipher feedback mode, without a random number, at the security level of
the product: the bytes that it writes over a cleared array. -/
def aesDecryptString (env : CryptEnv) (cipher : Bytes) : Logged CopyUse Bytes :=
  if env.decodedMemory = false ∨ env.aesMemory = false then pure []
  else
    Logged.access (.passwd cipher.length)
      (infraAesCryptCfb128 env.ecb (List.replicate 16 0) 0 cipher)

theorem within_aesDecryptString (env : CryptEnv) {cipher : Bytes}
    (h : cipher.length ≤ zcMaxPasswdLen) : (aesDecryptString env cipher).Within CopyUse.Fits := by
  rw [aesDecryptString, within_ite]
  refine ⟨fun _ => within_pure _, fun _ => ?_⟩
  rw [within_access]
  exact h

/-! ## `is_utf8` -/

/-- The loop of `is_utf8` from position `i` on. -/
def isUtf8Loop (ansiStr : Memory) (length : ℕ) : ℕ → ℕ → Bool
  | 0, _ => true
  | fuel + 1, i =>
    if length ≤ i then true
    else if 0x80 &&& ansiStr i = 0 then isUtf8Loop ansiStr length fuel (i + 1)
    else if 0xE0 &&& ansiStr i = 0xC0 then
      if ansiStr (i + 1) = 0 then false
      else if 0xC0 &&& ansiStr (i + 1) = 0x80 then isUtf8Loop ansiStr length fuel (i + 2)
      else false
    else if 0xF0 &&& ansiStr i = 0xE0 then
      if ansiStr (i + 1) = 0 then false
      else if ansiStr (i + 2) = 0 then false
      else if 0xC0 &&& ansiStr (i + 1) = 0x80 ∧ 0xC0 &&& ansiStr (i + 2) = 0x80 then
        isUtf8Loop ansiStr length fuel (i + 3)
      else false
    else false

/-- `is_utf8`: a round goes on by at least one character, so that `length` rounds are enough. -/
def isUtf8 (ansiStr : Memory) (length : ℕ) : Bool := isUtf8Loop ansiStr length length 0

/-- The array of a password and the memory behind it. -/
def passwdMem (passwd : Passwd) (behind : Memory) : ℕ → UInt8 := memOf passwd.toList behind

/-! ## What a message must not do -/

/-- A run copies no more than fits, and one whose message declares more than that is rejected and
leaves the stored name and the stored password as they were. -/
def Sound {α : Type} (run : Logged CopyUse (α × Bytes × Passwd)) (rejected : α)
    (stored : Bytes × Passwd) (exceeds : Prop) : Prop :=
  run.Within CopyUse.Fits ∧ (exceeds → run.val.1 = rejected ∧ run.val.2 = stored)

theorem sound_of_unchanged {α : Type} {rejected : α} {stored : Bytes × Passwd}
    {exceeds : Prop} : Sound (pure (rejected, stored)) rejected stored exceeds :=
  ⟨within_pure _, fun _ => ⟨rfl, rfl⟩⟩

end Iotkit.Awss
