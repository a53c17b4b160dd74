/-
# Credentials in the key-value store (`alcs_localsetup.c`, `alcs_mqtt.c`)

The prefix and the secret of a device are kept in one value behind their lengths, under the digest
of product key and device name.  Of the two copies of the code, the one of the local setup adds
`.l` to the text of the key and compares the lengths that it finds with the sizes of the arrays.
The store answers with what was set last, cut off at the size of the buffer.
-/
import Iotkit.DmManager

namespace Iotkit.AlcsCredentials

open Dm Option Function
open List hiding Vector

/-! ## The model -/

abbrev Kv := Bytes → Option Bytes

/-- A character of `alcs_utils_md5_hexstr`. -/
def hexChar (n : UInt8) : UInt8 :=
  if n ≤ 9 then n + 0x30 else n + 0x61 - 10

def alcsUtilsMd5Hexstr (input : Vector UInt8 16) : Bytes :=
  input.toList.flatMap fun b : UInt8 => [hexChar ((b >>> 4) &&& 0x0F), hexChar (b &&& 0x0F)]

/-- A length in a `char`, which may be signed. -/
def toChar (charSigned : Bool) (n : ℕ) : ℤ :=
  if charSigned ∧ 128 ≤ n % 256 then (n % 256 : ℕ) - 256 else (n % 256 : ℕ)

inductive Copy
  | localsetup
  | mqtt
  deriving DecidableEq

/-- What stands behind product key and device name in the text of the key. -/
def Copy.suffix : Copy → Bytes
  | localsetup => [0x2E, 0x6C]
  | mqtt => []

variable (md5 : Bytes → Vector UInt8 16)

/-- `__fill_key` and its twin: the key of a device, if product key and device name are not too
long. -/
def fillKey (copy : Copy) (pk dn : CString) :
    Option Bytes :=
  if pk.strlen ≥ iotxProductKeyLen + 1 ∨ dn.strlen ≥ iotxDeviceNameLen + 1 then none
  else some (alcsUtilsMd5Hexstr (md5 (pk.bytes ++ dn.bytes ++ copy.suffix)))

def savedValue (keyPrefix secret : CString) : Bytes :=
  UInt8.ofNat keyPrefix.strlen :: UInt8.ofNat secret.strlen ::
    (keyPrefix.bytes ++ secret.bytes ++ [0])

/-- `__alcs_localsetup_ac_as_save` and `__alcs_mqtt_prefix_secret_save`: the store behind them, if
they report success. -/
def save (copy : Copy) (memory kvSet : Bool) (kv : Kv) (pk dn keyPrefix secret : CString) :
    Option Kv := do
  let key ← fillKey md5 copy pk dn
  if memory && kvSet then some (update kv key (some (savedValue keyPrefix secret)))
  else none

/-- How loading ends: with an error, with what was copied to the two arrays, or with a copy outside
of the value or of an array. -/
inductive Loaded where
  | error
  | credentials (keyPrefix secret : Bytes)
  | outside
  deriving DecidableEq

def valueSize : ℕ := 128

/-- The array `value`, cleared before the store fills it. -/
def loadedValue (stored : Bytes) : Bytes :=
  (stored.take valueSize).takeD valueSize 0

/-- A `memcpy` out of the value to an array. -/
def copyOut (value : Bytes) (src len size : ℤ) : Option Bytes :=
  if 0 ≤ src ∧ 0 ≤ len ∧ src + len ≤ value.length ∧ len ≤ size then
    some ((value.drop src.toNat).take len.toNat)
  else none

/-- The two copies of a value with the lengths that stand in it. -/
def copyCredentials (charSigned : Bool) (value : Bytes)
    (prefixSize secretSize : ℤ) : Loaded :=
  let prefixLen := toChar charSigned (value.getD 0 0).toNat
  let secretLen := toChar charSigned (value.getD 1 0).toNat
  match copyOut value 2 prefixLen prefixSize,
    copyOut value (2 + prefixLen) secretLen secretSize with
  | some keyPrefix, some secret => Loaded.credentials keyPrefix secret
  | _, _ => Loaded.outside

/-- `alcs_localsetup_ac_as_load`: the sizes of the arrays are given. -/
def alcsLocalsetupAcAsLoad (charSigned : Bool) (kv : Kv) (pk dn : CString)
    (prefixSize secretSize : ℤ) : Loaded :=
  match (fillKey md5 Copy.localsetup pk dn).bind kv with
  | none => Loaded.error
  | some stored =>
    let value := loadedValue stored
    if prefixSize ≤ toChar charSigned (value.getD 0 0).toNat ∨
        secretSize ≤ toChar charSigned (value.getD 1 0).toNat then Loaded.error
    else copyCredentials charSigned value prefixSize secretSize

/-- `alcs_mqtt_prefix_secret_load`: the sizes of the arrays are those of the callers, and the
function does not know them. -/
def alcsMqttPrefixSecretLoad (charSigned memory : Bool) (kv : Kv) (pk dn : CString)
    (prefixSize secretSize : ℤ) : Loaded :=
  if !memory then Loaded.error
  else
    match (fillKey md5 Copy.mqtt pk dn).bind kv with
    | none => Loaded.error
    | some stored => copyCredentials charSigned (loadedValue stored) prefixSize secretSize

def load (copy : Copy) (charSigned memory : Bool) (kv : Kv) (pk dn : CString)
    (prefixSize secretSize : ℤ) : Loaded :=
  match copy with
  | Copy.localsetup => alcsLocalsetupAcAsLoad md5 charSigned kv pk dn prefixSize secretSize
  | Copy.mqtt => alcsMqttPrefixSecretLoad md5 charSigned memory kv pk dn prefixSize secretSize

/-! ## The keys -/

def keyText (copy : Copy) (pk dn : CString) : Bytes :=
  pk.bytes ++ dn.bytes ++ copy.suffix

/-- Product key and device name are not too long. -/
def LegalDevice (pk dn : CString) : Prop :=
  pk.strlen ≤ iotxProductKeyLen ∧ dn.strlen ≤ iotxDeviceNameLen

instance (pk dn : CString) : Decidable (LegalDevice pk dn) :=
  inferInstanceAs (Decidable (_ ∧ _))

theorem hexChar_injOn : ∀ m < (16 : UInt8), ∀ n < (16 : UInt8), hexChar m = hexChar n → m = n := by
  have h : ∀ m < 16, ∀ n < 16, hexChar (UInt8.ofNat m) = hexChar (UInt8.ofNat n) → m = n := by
    decide
  intro m hm n hn heq
  have hm' : m.toNat < 16 := hm
  have hn' : n.toNat < 16 := hn
  apply UInt8.toNat_inj.mp
  apply h m.toNat hm' n.toNat hn'
  rwa [UInt8.ofNat_toNat, UInt8.ofNat_toNat]

theorem toNat_lowBits (c : UInt8) : (c &&& 0x0F).toNat = c.toNat % 16 := by
  rw [UInt8.toNat_and]
  exact Nat.and_two_pow_sub_one_eq_mod c.toNat 4

theorem toNat_highBits (c : UInt8) : ((c >>> 4) &&& 0x0F).toNat = c.toNat / 16 := by
  have hlt := c.toNat_lt
  rw [toNat_lowBits, UInt8.toNat_shiftRight]
  show c.toNat >>> 4 % 16 = c.toNat / 16
  rw [Nat.shiftRight_eq_div_pow]
  omega

theorem hexChars_injective (a b : UInt8)
    (hhigh : hexChar ((a >>> 4) &&& 0x0F) = hexChar ((b >>> 4) &&& 0x0F))
    (hlow : hexChar (a &&& 0x0F) = hexChar (b &&& 0x0F)) : a = b := by
  have hlt : ∀ c : UInt8, c &&& 0x0F < 16 := by
    intro c
    show (c &&& 0x0F).toNat < 16
    rw [toNat_lowBits]
    omega
  have h1 := congrArg UInt8.toNat (hexChar_injOn _ (hlt (a >>> 4)) _ (hlt (b >>> 4)) hhigh)
  have h2 := congrArg UInt8.toNat (hexChar_injOn _ (hlt a) _ (hlt b) hlow)
  rw [toNat_highBits, toNat_highBits] at h1
  rw [toNat_lowBits, toNat_lowBits] at h2
  apply UInt8.toNat_inj.mp
  omega

theorem hexstr_injective : ∀ as bs : Bytes,
    (as.flatMap fun b : UInt8 => [hexChar ((b >>> 4) &&& 0x0F), hexChar (b &&& 0x0F)])
      = (bs.flatMap fun b : UInt8 => [hexChar ((b >>> 4) &&& 0x0F), hexChar (b &&& 0x0F)]) →
    as = bs := by
  intro as
  induction as with
  | nil =>
    intro bs h
    cases bs with
    | nil => rfl
    | cons b bs => simp at h
  | cons a as ih =>
    intro bs h
    cases bs with
    | nil => simp at h
    | cons b bs =>
      simp only [flatMap_cons, cons_append, nil_append, List.cons.injEq] at h
      rw [hexChars_injective a b h.1 h.2.1, ih bs h.2.2]

theorem alcsUtilsMd5Hexstr_injective : Function.Injective alcsUtilsMd5Hexstr := by
  intro a b h
  exact Vector.toList_inj.mp (hexstr_injective _ _ h)

section Keys

variable {md5 : Bytes → Vector UInt8 16} {copy copy' : Copy} {pk dn pk' dn' : CString}

theorem fillKey_eq (hlegal : LegalDevice pk dn) :
    fillKey md5 copy pk dn = some (alcsUtilsMd5Hexstr (md5 (keyText copy pk dn))) := by
  obtain ⟨h1, h2⟩ := hlegal
  rw [fillKey, if_neg (by omega)]
  rfl

theorem fillKey_eq_none (hlegal : ¬ LegalDevice pk dn) : fillKey md5 copy pk dn = none := by
  rw [fillKey, if_pos]
  simp only [LegalDevice, not_and_or, not_le] at hlegal
  omega

theorem save_eq_some {memory kvSet : Bool} {kv kv' : Kv} {keyPrefix secret : CString}
    (h : save md5 copy memory kvSet kv pk dn keyPrefix secret = some kv') :
    LegalDevice pk dn ∧
      kv' = update kv (alcsUtilsMd5Hexstr (md5 (keyText copy pk dn)))
        (some (savedValue keyPrefix secret)) := by
  by_cases hlegal : LegalDevice pk dn
  · refine ⟨hlegal, ?_⟩
    rw [save, fillKey_eq hlegal] at h
    simp only [bind_eq_bind, bind_some] at h
    split at h
    · exact (Option.some.inj h).symm
    · cases h
  · rw [save, fillKey_eq_none hlegal] at h
    cases h

theorem save_eq (hlegal : LegalDevice pk dn) (kv : Kv) (keyPrefix secret : CString) :
    save md5 copy true true kv pk dn keyPrefix secret
      = some (update kv (alcsUtilsMd5Hexstr (md5 (keyText copy pk dn)))
        (some (savedValue keyPrefix secret))) := by
  rw [save, fillKey_eq hlegal]
  rfl

end Keys

/-! ## The value read back -/

theorem toChar_of_lt {charSigned : Bool} {n : ℕ} (h : n < 128) : toChar charSigned n = n := by
  rw [toChar, if_neg (by omega), Nat.mod_eq_of_lt (by omega)]

theorem toChar_toNat_ofNat (charSigned : Bool) (n : ℕ) :
    toChar charSigned (UInt8.ofNat n).toNat = toChar charSigned n := by
  rw [UInt8.toNat_ofNat', toChar, toChar, Nat.mod_mod]

theorem takeD_append {α : Type} (as bs : List α) (d : α) : ∀ n, as.length ≤ n →
    (as ++ bs).takeD n d = as ++ bs.takeD (n - as.length) d := by
  induction as with
  | nil => intro n _; rfl
  | cons a as ih =>
    intro n h
    rw [length_cons] at h
    obtain ⟨m, rfl⟩ : ∃ m, n = m + 1 := ⟨n - 1, by omega⟩
    rw [cons_append, takeD_succ, List.head?_cons, getD_some, tail_cons,
      ih m (by omega), cons_append, length_cons, Nat.add_sub_add_right]

theorem loadedValue_append (as bs : Bytes) (h : as.length ≤ valueSize) :
    ∃ rest, loadedValue (as ++ bs) = as ++ rest := by
  refine ⟨(bs.take (valueSize - as.length)).takeD (valueSize - as.length) 0, ?_⟩
  rw [loadedValue, take_append, take_of_length_le h, takeD_append _ _ _ _ h]

@[simp] theorem length_loadedValue (stored : Bytes) :
    (loadedValue stored).length = valueSize := by
  rw [loadedValue, takeD_length]

theorem savedValue_lengths (keyPrefix secret : CString) :
    (loadedValue (savedValue keyPrefix secret)).getD 0 0 = UInt8.ofNat keyPrefix.strlen ∧
      (loadedValue (savedValue keyPrefix secret)).getD 1 0 = UInt8.ofNat secret.strlen := by
  obtain ⟨rest, hrest⟩ := loadedValue_append
    [UInt8.ofNat keyPrefix.strlen, UInt8.ofNat secret.strlen]
    (keyPrefix.bytes ++ secret.bytes ++ [0]) (by simp [valueSize])
  rw [show savedValue keyPrefix secret = [UInt8.ofNat keyPrefix.strlen, UInt8.ofNat secret.strlen]
    ++ (keyPrefix.bytes ++ secret.bytes ++ [0]) from rfl, hrest]
  exact ⟨rfl, rfl⟩

variable {value : Bytes} {size : ℤ}

theorem copyOut_eq_some {bs : Bytes} {src len : ℤ} (h : copyOut value src len size = some bs) :
    bs.length = len ∧ src + len ≤ value.length ∧ len ≤ size := by
  rw [copyOut] at h
  split at h
  · next hin =>
    obtain ⟨h1, h2, h3, h4⟩ := hin
    refine ⟨?_, h3, h4⟩
    rw [← Option.some.inj h, length_take, length_drop]
    omega
  · cases h

theorem copyOut_zero {src : ℕ} (h : src ≤ value.length) (hsize : 0 ≤ size) :
    copyOut value src 0 size = some [] := by
  rw [copyOut, if_pos ⟨by omega, le_rfl, by omega, hsize⟩]
  rfl

theorem copyOut_eq_none {src len : ℤ} (h : size < len) : copyOut value src len size = none := by
  rw [copyOut, if_neg]
  omega

theorem copyOut_append (as bs cs : Bytes) (h : bs.length ≤ size) :
    copyOut (as ++ bs ++ cs) as.length bs.length size = some bs := by
  rw [copyOut, if_pos ⟨by omega, by omega, by simp, h⟩, Int.toNat_natCast, Int.toNat_natCast,
    append_assoc, drop_left, take_left]

section Copies

variable {charSigned : Bool} {keyPrefix secret : CString} {prefixSize secretSize : ℤ}

/-- The lengths are those of the two texts, each in a character. -/
theorem copyCredentials_savedValue_eq :
    copyCredentials charSigned (loadedValue (savedValue keyPrefix secret)) prefixSize secretSize
      = match copyOut (loadedValue (savedValue keyPrefix secret)) 2
            (toChar charSigned keyPrefix.strlen) prefixSize,
          copyOut (loadedValue (savedValue keyPrefix secret))
            (2 + toChar charSigned keyPrefix.strlen) (toChar charSigned secret.strlen)
            secretSize with
        | some prefixBytes, some secretBytes => Loaded.credentials prefixBytes secretBytes
        | _, _ => Loaded.outside := by
  obtain ⟨h1, h2⟩ := savedValue_lengths keyPrefix secret
  rw [copyCredentials, h1, h2, toChar_toNat_ofNat, toChar_toNat_ofNat]

theorem copyCredentials_ne_error (value : Bytes) :
    copyCredentials charSigned value prefixSize secretSize ≠ Loaded.error := by
  rw [copyCredentials]
  split
  · exact Loaded.noConfusion
  · exact Loaded.noConfusion

/-- The two texts come back exactly when the value and the arrays hold them. -/
theorem copyCredentials_savedValue :
    copyCredentials charSigned (loadedValue (savedValue keyPrefix secret)) prefixSize secretSize
        = Loaded.credentials keyPrefix.bytes secret.bytes
      ↔ keyPrefix.strlen + secret.strlen + 2 ≤ valueSize ∧ keyPrefix.strlen ≤ prefixSize ∧
        secret.strlen ≤ secretSize := by
  constructor
  · intro h
    rw [copyCredentials] at h
    split at h
    · next h1 h2 =>
      obtain ⟨rfl, rfl⟩ := Loaded.credentials.inj h
      obtain ⟨hlen1, -, hsize1⟩ := copyOut_eq_some h1
      obtain ⟨hlen2, hin, hsize2⟩ := copyOut_eq_some h2
      rw [length_loadedValue] at hin
      rw [CString.strlen, CString.strlen]
      omega
    · cases h
  · rintro ⟨hvalue, hprefix, hsecret⟩
    have hlt : keyPrefix.strlen < 128 ∧ secret.strlen < 128 := by
      rw [valueSize] at hvalue
      omega
    rw [copyCredentials_savedValue_eq, toChar_of_lt hlt.1, toChar_of_lt hlt.2]
    obtain ⟨rest, hrest⟩ := loadedValue_append
      ([UInt8.ofNat keyPrefix.strlen, UInt8.ofNat secret.strlen] ++ keyPrefix.bytes
        ++ secret.bytes) [0] (by simp [valueSize, CString.strlen] at *; omega)
    have hvalue : loadedValue (savedValue keyPrefix secret)
        = [UInt8.ofNat keyPrefix.strlen, UInt8.ofNat secret.strlen] ++ keyPrefix.bytes
          ++ secret.bytes ++ rest := by
      rw [← hrest, savedValue]
      simp
    have hcopy1 := copyOut_append [UInt8.ofNat keyPrefix.strlen, UInt8.ofNat secret.strlen]
      keyPrefix.bytes (secret.bytes ++ rest) hprefix
    have hcopy2 := copyOut_append
      ([UInt8.ofNat keyPrefix.strlen, UInt8.ofNat secret.strlen] ++ keyPrefix.bytes)
      secret.bytes rest hsecret
    rw [← append_assoc, ← hvalue] at hcopy1
    rw [← hvalue] at hcopy2
    rw [show copyOut (loadedValue (savedValue keyPrefix secret)) 2 keyPrefix.strlen prefixSize
        = some keyPrefix.bytes from hcopy1,
      show copyOut (loadedValue (savedValue keyPrefix secret)) (2 + keyPrefix.strlen)
          secret.strlen secretSize = some secret.bytes from ?_]
    rw [← hcopy2, length_append]
    simp [CString.strlen]

end Copies

/-! ## Loading what was saved -/

section Load

variable {md5 : Bytes → Vector UInt8 16} {copy copy' : Copy} {charSigned memory : Bool}
  {kv kv' : Kv} {pk dn pk' dn' keyPrefix secret : CString} {prefixSize secretSize : ℤ}

/-- When a loaded prefix and secret are those that were saved, or an error is reported.  The local
setup compares the lengths, as they stand in a character, with the sizes of the arrays. -/
def CredentialsFit (copy : Copy) (charSigned memory : Bool) (keyPrefix secret : CString)
    (prefixSize secretSize : ℤ) : Prop :=
  match copy with
  | Copy.localsetup =>
    prefixSize ≤ toChar charSigned keyPrefix.strlen ∨
      secretSize ≤ toChar charSigned secret.strlen ∨
      keyPrefix.strlen + secret.strlen + 2 ≤ valueSize
  | Copy.mqtt =>
    memory = false ∨ (keyPrefix.strlen + secret.strlen + 2 ≤ valueSize ∧
      keyPrefix.strlen ≤ prefixSize ∧ secret.strlen ≤ secretSize)

theorem load_congr (h : (fillKey md5 copy pk dn).bind kv = (fillKey md5 copy pk dn).bind kv') :
    load md5 copy charSigned memory kv pk dn prefixSize secretSize
      = load md5 copy charSigned memory kv' pk dn prefixSize secretSize := by
  cases copy with
  | localsetup =>
    show alcsLocalsetupAcAsLoad _ _ _ _ _ _ _ = alcsLocalsetupAcAsLoad _ _ _ _ _ _ _
    rw [alcsLocalsetupAcAsLoad, alcsLocalsetupAcAsLoad, h]
  | mqtt =>
    show alcsMqttPrefixSecretLoad _ _ _ _ _ _ _ _ = alcsMqttPrefixSecretLoad _ _ _ _ _ _ _ _
    rw [alcsMqttPrefixSecretLoad, alcsMqttPrefixSecretLoad, h]

theorem load_localsetup_eq
    (h : (fillKey md5 Copy.localsetup pk dn).bind kv = some (savedValue keyPrefix secret)) :
    load md5 Copy.localsetup charSigned memory kv pk dn prefixSize secretSize
      = if prefixSize ≤ toChar charSigned keyPrefix.strlen ∨
          secretSize ≤ toChar charSigned secret.strlen then Loaded.error
        else copyCredentials charSigned (loadedValue (savedValue keyPrefix secret)) prefixSize
          secretSize := by
  obtain ⟨h1, h2⟩ := savedValue_lengths keyPrefix secret
  show alcsLocalsetupAcAsLoad _ _ _ _ _ _ _ = _
  rw [alcsLocalsetupAcAsLoad, h]
  dsimp only
  rw [h1, h2, toChar_toNat_ofNat, toChar_toNat_ofNat]

theorem load_mqtt_eq
    (h : (fillKey md5 Copy.mqtt pk dn).bind kv = some (savedValue keyPrefix secret)) :
    load md5 Copy.mqtt charSigned true kv pk dn prefixSize secretSize
      = copyCredentials charSigned (loadedValue (savedValue keyPrefix secret)) prefixSize
        secretSize := by
  show alcsMqttPrefixSecretLoad _ _ _ _ _ _ _ _ = _
  rw [alcsMqttPrefixSecretLoad, h]
  rfl

theorem load_localsetup_iff
    (h : (fillKey md5 Copy.localsetup pk dn).bind kv = some (savedValue keyPrefix secret)) :
    (load md5 Copy.localsetup charSigned memory kv pk dn prefixSize secretSize = Loaded.error ∨
        load md5 Copy.localsetup charSigned memory kv pk dn prefixSize secretSize
          = Loaded.credentials keyPrefix.bytes secret.bytes)
      ↔ CredentialsFit Copy.localsetup charSigned memory keyPrefix secret prefixSize
        secretSize := by
  rw [load_localsetup_eq h, CredentialsFit]
  split
  · next hsize =>
    apply iff_of_true (.inl rfl)
    rcases hsize with hsize | hsize
    · exact .inl hsize
    · exact .inr (.inl hsize)
  · next hsize =>
    push Not at hsize
    rw [or_iff_right (copyCredentials_ne_error _), copyCredentials_savedValue,
      or_iff_right (not_le.mpr hsize.1), or_iff_right (not_le.mpr hsize.2)]
    constructor
    · exact And.left
    · -- The lengths are below 128, so that the comparisons were made with themselves.
      intro hvalue
      have hlt : keyPrefix.strlen < 128 ∧ secret.strlen < 128 := by
        rw [valueSize] at hvalue
        omega
      rw [toChar_of_lt hlt.1, toChar_of_lt hlt.2] at hsize
      exact ⟨hvalue, hsize.1.le, hsize.2.le⟩

theorem load_mqtt_iff
    (h : (fillKey md5 Copy.mqtt pk dn).bind kv = some (savedValue keyPrefix secret)) :
    (load md5 Copy.mqtt charSigned memory kv pk dn prefixSize secretSize = Loaded.error ∨
        load md5 Copy.mqtt charSigned memory kv pk dn prefixSize secretSize
          = Loaded.credentials keyPrefix.bytes secret.bytes)
      ↔ CredentialsFit Copy.mqtt charSigned memory keyPrefix secret prefixSize secretSize := by
  rw [CredentialsFit]
  cases memory with
  | false => exact iff_of_true (.inl rfl) (.inl rfl)
  | true =>
    rw [load_mqtt_eq h, or_iff_right (copyCredentials_ne_error _), copyCredentials_savedValue]
    simp

theorem fillKey_bind_save {kvSet : Bool}
    (h : save md5 copy memory kvSet kv pk dn keyPrefix secret = some kv') :
    (fillKey md5 copy pk dn).bind kv' = some (savedValue keyPrefix secret) := by
  obtain ⟨hlegal, rfl⟩ := save_eq_some h
  rw [fillKey_eq hlegal, bind_some, update_self]

/-- No save for the one device changes what is loaded for the other one. -/
def Independent (md5 : Bytes → Vector UInt8 16) (copy copy' : Copy)
    (pk dn pk' dn' : CString) : Prop :=
  ∀ (charSigned memory memory' kvSet : Bool) (kv kv' : Kv) (keyPrefix secret : CString)
    (prefixSize secretSize : ℤ),
    save md5 copy memory kvSet kv pk dn keyPrefix secret = some kv' →
    load md5 copy' charSigned memory' kv' pk' dn' prefixSize secretSize
      = load md5 copy' charSigned memory' kv pk' dn' prefixSize secretSize

/-- Devices are independent exactly when the texts of their keys differ. -/
theorem independent_iff
    (hmd5 : md5 (keyText copy pk dn) = md5 (keyText copy' pk' dn') →
      keyText copy pk dn = keyText copy' pk' dn') :
    Independent md5 copy copy' pk dn pk' dn'
      ↔ (LegalDevice pk dn → LegalDevice pk' dn' → keyText copy pk dn ≠ keyText copy' pk' dn') := by
  constructor
  · -- An empty store answers for the other device after the save.
    intro hind hlegal hlegal' htext
    have hload := hind true true true true _ _ emptyString emptyString 1 1
      (save_eq hlegal (fun _ => none) emptyString emptyString)
    have hkey : (fillKey md5 copy' pk' dn').bind (update (fun _ => none)
        (alcsUtilsMd5Hexstr (md5 (keyText copy pk dn)))
        (some (savedValue emptyString emptyString)))
        = some (savedValue emptyString emptyString) := by
      rw [fillKey_eq hlegal', bind_some, htext, update_self]
    have hnone : load md5 copy' true true (fun _ => none) pk' dn' 1 1 = Loaded.error := by
      cases copy' with
      | localsetup => rw [load, alcsLocalsetupAcAsLoad, fillKey_eq hlegal', bind_some]
      | mqtt =>
        rw [load, alcsMqttPrefixSecretLoad, fillKey_eq hlegal', bind_some]
        rfl
    have hempty : copyCredentials true (loadedValue (savedValue emptyString emptyString)) 1 1
        = Loaded.credentials [] [] :=
      copyCredentials_savedValue.mpr ⟨by decide, by decide, by decide⟩
    rw [hnone] at hload
    cases copy' with
    | localsetup =>
      rw [load_localsetup_eq hkey, if_neg (by decide), hempty] at hload
      cases hload
    | mqtt =>
      rw [load_mqtt_eq hkey, hempty] at hload
      cases hload
  · intro htext charSigned memory memory' kvSet kv kv' keyPrefix secret prefixSize secretSize hsave
    obtain ⟨hlegal, rfl⟩ := save_eq_some hsave
    apply load_congr
    by_cases hlegal' : LegalDevice pk' dn'
    · rw [fillKey_eq hlegal', bind_some, bind_some, update_of_ne]
      intro hkey
      exact htext hlegal hlegal' (hmd5 (alcsUtilsMd5Hexstr_injective hkey.symm))
    · rw [fillKey_eq_none hlegal']
      rfl

/-- Loading gives back what was saved or an error exactly when the value and the arrays hold the
two texts, unless the local setup sees that an array is too short; a save for another device
changes nothing exactly when the texts of the keys differ. -/
theorem load_save_iff
    (hmd5 : md5 (keyText copy pk dn) = md5 (keyText copy' pk' dn') →
      keyText copy pk dn = keyText copy' pk' dn') :
    (∀ (charSigned memory memory' kvSet : Bool) (kv kv' : Kv) (keyPrefix secret : CString)
        (prefixSize secretSize : ℤ),
      save md5 copy memory kvSet kv pk dn keyPrefix secret = some kv' →
      ((load md5 copy charSigned memory' kv' pk dn prefixSize secretSize = Loaded.error ∨
          load md5 copy charSigned memory' kv' pk dn prefixSize secretSize
            = Loaded.credentials keyPrefix.bytes secret.bytes)
        ↔ CredentialsFit copy charSigned memory' keyPrefix secret prefixSize secretSize)) ∧
      (Independent md5 copy copy' pk dn pk' dn' ↔
        (LegalDevice pk dn → LegalDevice pk' dn' →
          keyText copy pk dn ≠ keyText copy' pk' dn')) := by
  refine ⟨?_, independent_iff hmd5⟩
  intro charSigned memory memory' kvSet kv kv' keyPrefix secret prefixSize secretSize hsave
  have hkey := fillKey_bind_save hsave
  cases copy with
  | localsetup => exact load_localsetup_iff hkey
  | mqtt => exact load_mqtt_iff hkey

end Load

/-! ## Two devices and long texts -/

theorem nul_notMem_letters (n : ℕ) : (0 : UInt8) ∉ List.replicate n 0x61 := by
  intro h
  exact absurd (eq_of_mem_replicate h) (by decide)

/-- The string of `n` letters `a`. -/
def letters (n : ℕ) : CString := ⟨List.replicate n 0x61, nul_notMem_letters n⟩

@[simp] theorem strlen_letters (n : ℕ) : (letters n).strlen = n := length_replicate

/-- The digests of the texts `aa.l` and `aaa`. -/
def digest (text : Bytes) : Vector UInt8 16 :=
  if text = keyText Copy.localsetup (letters 1) (letters 1) then
    #v[0x60, 0x3F, 0x22, 0x36, 0xC2, 0x51, 0x53, 0x4A, 0x78, 0x80, 0xDA, 0x01, 0x6A, 0x17, 0x90,
      0x58]
  else
    #v[0x47, 0xBC, 0xE5, 0xC7, 0x4F, 0x58, 0x9F, 0x48, 0x67, 0xDB, 0xD5, 0x7E, 0x9C, 0xA9, 0xF8,
      0x08]

/-- A prefix and a secret of three letters come back in the local setup, and saving them does not
change what the copy for the cloud finds for another device. -/
theorem load_save_letters :
    (∃ kv', save digest Copy.localsetup true true (fun _ => none) (letters 1) (letters 1)
        (letters 3) (letters 3) = some kv' ∧
      (load digest Copy.localsetup true true kv' (letters 1) (letters 1) 10 64 = Loaded.error ∨
        load digest Copy.localsetup true true kv' (letters 1) (letters 1) 10 64
          = Loaded.credentials (letters 3).bytes (letters 3).bytes)) ∧
      Independent digest Copy.localsetup Copy.mqtt (letters 1) (letters 1) (letters 1)
        (letters 2) := by
  have hdigest : digest (keyText Copy.localsetup (letters 1) (letters 1))
        = digest (keyText Copy.mqtt (letters 1) (letters 2)) →
      keyText Copy.localsetup (letters 1) (letters 1)
        = keyText Copy.mqtt (letters 1) (letters 2) := fun h => absurd h (by decide)
  have h := load_save_iff hdigest
  refine ⟨⟨_, rfl, ?_⟩, h.2.mpr fun _ _ => by decide⟩
  apply (h.1 true true true true _ _ (letters 3) (letters 3) 10 64 rfl).mpr
  exact .inr (.inr (by decide))

/-- A prefix of 256 letters that the local setup saved is loaded as the empty one; a secret of 41
letters is copied to an array of 40 characters by the other copy; and the devices `aa` of the
product `a` and `a` of the product `aa` have one key. -/
theorem load_save_fails :
    (∀ md5, ∃ kv', save md5 Copy.localsetup true true (fun _ => none) (letters 1) (letters 1)
        (letters 256) emptyString = some kv' ∧
      ∀ charSigned, load md5 Copy.localsetup charSigned true kv' (letters 1) (letters 1) 10 64
        = Loaded.credentials [] []) ∧
      (∀ md5, ∃ kv', save md5 Copy.mqtt true true (fun _ => none) (letters 1) (letters 1)
          emptyString (letters 41) = some kv' ∧
        ∀ charSigned, load md5 Copy.mqtt charSigned true kv' (letters 1) (letters 1) 40 40
          = Loaded.outside) ∧
      ∀ md5, ¬ Independent md5 Copy.mqtt Copy.mqtt (letters 1) (letters 2) (letters 2)
        (letters 1) := by
  have hlegal : LegalDevice (letters 1) (letters 1) := by decide
  refine ⟨fun md5 => ⟨_, save_eq hlegal _ _ _, ?_⟩, fun md5 => ⟨_, save_eq hlegal _ _ _, ?_⟩,
    fun md5 h => ?_⟩
  · intro charSigned
    have hlen : toChar charSigned (letters 256).strlen = 0 := by
      rw [strlen_letters]
      cases charSigned <;> rfl
    have hzero : toChar charSigned emptyString.strlen = 0 := by cases charSigned <;> rfl
    rw [load_localsetup_eq (fillKey_bind_save (save_eq hlegal _ _ _)), hlen, hzero,
      if_neg (by decide), copyCredentials_savedValue_eq, hlen, hzero]
    have hcopy : ∀ size : ℤ, 0 ≤ size → copyOut (loadedValue (savedValue (letters 256)
        emptyString)) 2 0 size = some [] := by
      intro size hsize
      show copyOut _ (2 : ℕ) 0 size = _
      exact copyOut_zero (by simp [valueSize]) hsize
    rw [hcopy 10 (by decide), show (2 : ℤ) + 0 = 2 from rfl, hcopy 64 (by decide)]
  · intro charSigned
    have hlen : toChar charSigned (letters 41).strlen = 41 := by
      rw [strlen_letters]
      cases charSigned <;> rfl
    rw [load_mqtt_eq (fillKey_bind_save (save_eq hlegal _ _ _)), copyCredentials_savedValue_eq,
      hlen, copyOut_eq_none (show (40 : ℤ) < 41 by decide)]
    split
    · next h => cases h
    · rfl
  · have hdigest : md5 (keyText Copy.mqtt (letters 1) (letters 2))
          = md5 (keyText Copy.mqtt (letters 2) (letters 1)) →
        keyText Copy.mqtt (letters 1) (letters 2) = keyText Copy.mqtt (letters 2) (letters 1) :=
      fun _ => rfl
    exact (independent_iff hdigest).mp h (by decide) (by decide) rfl

end Iotkit.AlcsCredentials
