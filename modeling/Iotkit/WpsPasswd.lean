/-
# The name and the password in a device name (`awss_wps.c`)

A phone that looks for an access point puts the name and the password of the network into the
device name of a WPS attribute: the length of the name with the kind of the encoding, the name, the
password, and a checksum.  `get_ssid_passwd_from_w` takes them apart.  The number of bytes of the
password is what is left of the attribute, and nothing compares it with the array that the password
is copied to.
-/
import Iotkit.Smartconfig
import Iotkit.WpsAttr
import Iotkit.ZconfigPasswd

namespace Iotkit.AwssWps

open AccessLog LibC Awss Logged

/-! ## The function -/

def ssidDictDecodeTable : Bytes :=
  [ 0x00, 0x0e, 0x6c, 0x3a, 0x6d, 0x44, 0x2a, 0x6f, 0x4d, 0x05, 0x6b, 0x28, 0x08, 0x25, 0x5f, 0x2d,
    0x64, 0x76, 0x78, 0x37, 0x58, 0x60, 0x53, 0x31, 0x36, 0x79, 0x43, 0x1a, 0x11, 0x72, 0x03, 0x59,
    0x50, 0x02, 0x71, 0x7c, 0x34, 0x3e, 0x23, 0x24, 0x26, 0x5b, 0x73, 0x0f, 0x5e, 0x12, 0x54, 0x0b,
    0x61, 0x35, 0x3c, 0x57, 0x48, 0x55, 0x63, 0x4a, 0x13, 0x75, 0x45, 0x70, 0x47, 0x0c, 0x2f, 0x21,
    0x17, 0x2e, 0x62, 0x49, 0x4b, 0x5c, 0x19, 0x51, 0x69, 0x3b, 0x7e, 0x0d, 0x3d, 0x67, 0x2c, 0x22,
    0x14, 0x42, 0x5a, 0x7f, 0x32, 0x01, 0x07, 0x7b, 0x15, 0x4f, 0x16, 0x29, 0x30, 0x27, 0x20, 0x18,
    0x65, 0x06, 0x1c, 0x3f, 0x68, 0x2b, 0x4c, 0x0a, 0x1e, 0x46, 0x5d, 0x1f, 0x10, 0x6e, 0x56, 0x7a,
    0x1b, 0x09, 0x52, 0x38, 0x66, 0x7d, 0x41, 0x40, 0x04, 0x6a, 0x39, 0x77, 0x33, 0x1d, 0x74, 0x4e,
    0xaf, 0xa6, 0x8c, 0xbd, 0x89, 0xa2, 0xa9, 0x9e, 0xa1, 0x91, 0xb9, 0xad, 0xbf, 0xb7, 0x95, 0xa8,
    0xa5, 0x82, 0xaa, 0xa3, 0x94, 0x92, 0xb8, 0x87, 0x88, 0xb1, 0x93, 0xbc, 0x80, 0xb5, 0xba, 0x99,
    0xab, 0xbe, 0x90, 0x8e, 0x83, 0x9f, 0x9a, 0x86, 0x85, 0x98, 0xa4, 0xa0, 0xac, 0x9c, 0x96, 0x81,
    0xb0, 0x8d, 0xbb, 0xb2, 0x9d, 0xae, 0x84, 0x9b, 0xb4, 0x8b, 0x97, 0xa7, 0xb3, 0x8a, 0x8f, 0xb6,
    0xc5, 0xc0, 0xc8, 0xd7, 0xde, 0xc4, 0xd1, 0xd2, 0xd9, 0xcb, 0xcd, 0xd5, 0xcc, 0xc7, 0xdb, 0xdf,
    0xdc, 0xdd, 0xcf, 0xc6, 0xda, 0xc2, 0xc3, 0xc9, 0xc1, 0xca, 0xd6, 0xd8, 0xce, 0xd3, 0xd0, 0xd4,
    0xe9, 0xe5, 0xe8, 0xe2, 0xe6, 0xeb, 0xe3, 0xec, 0xed, 0xe7, 0xe1, 0xe4, 0xea, 0xef, 0xee, 0xe0,
    0xf6, 0xf0, 0xf4, 0xf5, 0xf2, 0xf3, 0xf7, 0xf1, 0xfb, 0xf9, 0xfa, 0xf8, 0xfc, 0xfd, 0xfe, 0xff]

/-- `awss_dict_crypt` with the table for names. -/
def awssDictCrypt (data : Bytes) : Bytes :=
  data.map fun c => ssidDictDecodeTable.getD c.toNat 0

/-- `passwd_check_utf8`: a character from 0x80 on stands, together with the next one, for zero.  At
the end it is dropped. -/
def passwdCheckUtf8 : Bytes → Bytes
  | [] => []
  | c :: passwd =>
    if c < 0x80 then c :: passwdCheckUtf8 passwd
    else
      match passwd with
      | [] => []
      | _ :: passwd => 0 :: passwdCheckUtf8 passwd

/-- `enum _GOT_RESULT_`. -/
inductive GotResult where
  | nothing
  | chnLock
  | ssidPasswd
  deriving DecidableEq

/-- The parts of `struct zconfig_data` that the function reads or stores, and its static
variable. -/
structure P2pData where
  ssid : Bytes
  passwd : Passwd
  bssid : Mac
  androidPreSsid : Bytes
  androidSsid : Bytes
  androidBssid : Mac
  androidSrc : Mac
  startTime : ℕ

/-- What the outside gives to the function: the memory it gets, the list of access points, the
clock, the interval of `HAL_Awss_Get_Channelscan_Interval_Ms`, and the bytes behind the array of
the password and behind the literal that it is compared with. -/
structure P2pEnv where
  cipherMemory : Bool
  decodeMemory : Bool
  crypt : CryptEnv
  aplist : ApList
  now : ℕ
  interval : ℕ
  behind : Memory
  literals : Memory

abbrev wLen : ℕ := 32
abbrev extraLen : ℕ := 3
abbrev p2pEncodeTypeOffset : ℕ := 5
abbrev p2pSsidLenMask : ℕ := 2 ^ p2pEncodeTypeOffset - 1
abbrev p2pEncodeTypeEncrypt : ℕ := 1

/-- `zconfig_get_apinfo_by_ssid_suffix`: the first entry from 1 on whose name ends in the given
one. -/
def zconfigGetApinfoBySsidSuffix (aplist : ApList) (ssidSuffix : Bytes) : Option ApInfo :=
  if ssidSuffix = [] then none
  else
    ((List.finRange maxAplistNum).find? fun i =>
      decide (1 ≤ i.val ∧ i.val < aplist.zconfigAplistNum) &&
        ssidSuffix.isSuffixOf (aplist.zconfigAplist i).name).map aplist.zconfigAplist

/-- What is known of the phone is forgotten. -/
def P2pData.clearAndroid (d : P2pData) : P2pData :=
  { d with androidSrc := zeroMac, androidPreSsid := [], androidSsid := [], androidBssid := zeroMac }

/-- What a `memset` of the data leaves. -/
def P2pData.cleared (d : P2pData) : P2pData :=
  ⟨[], fillPasswd [], zeroMac, [], [], zeroMac, zeroMac, d.startTime⟩

/-- `strncpy` of a name to one of the arrays for names. -/
def copySsid (ssid : Bytes) : Logged CopyUse Bytes :=
  Logged.access (.ssid (zcMaxSsidLen - 1)) (ssid.take (zcMaxSsidLen - 1))

/-- `strncpy` to the password that is stored: its last byte stays. -/
def copyPasswd (d : P2pData) (passwd : Passwd) : Logged CopyUse P2pData :=
  Logged.access (.passwd (zcMaxPasswdLen - 1)) { d with passwd := Vector.ofFn fun i =>
      if i.val < zcMaxPasswdLen - 1 then (untilNul passwd.toList).getD i 0 else d.passwd[i] }

/-- The address of the access point in the frame is one. -/
def ValidBssid (bssid : Mac) : Prop := bssid ≠ zeroMac ∧ bssid ≠ brMac

instance (bssid : Mac) : Decidable (ValidBssid bssid) := inferInstanceAs (Decidable (_ ∧ _))

variable (env : P2pEnv)

/-- The name for the access point of the phone: from the list, or the given one when the phone has
been heard for long enough. -/
def amendAndroidSsid (d : P2pData) (bestSsid : Bytes) :
    Logged CopyUse P2pData :=
  match zconfigGetApinfo env.aplist d.androidBssid with
  | some ap => do
      let ssid ← copySsid (if ap.name = [] then bestSsid else ap.name)
      pure { d with androidSsid := ssid }
  | none =>
    if elapsed env.now d.startTime > env.interval * (13 + 3) * 2 then do
      let ssid ← copySsid bestSsid
      pure { d with startTime := 0, androidSsid := ssid }
    else pure d

/-- The name is cut off, and no access point ends in it: whether there is a name to be used
instead. -/
def storeAndroidSsid (d : P2pData) (bestSsid : Bytes) (bssid : Mac) :
    Logged CopyUse (Bool × P2pData) := do
  let d ← amendAndroidSsid env
    (if ValidBssid bssid then { d with androidBssid := bssid } else d) bestSsid
  if d.androidSsid = [] then pure (false, d)
  else do
    let ssid ← copySsid d.androidSsid
    pure (true, { d with ssid := ssid, bssid := d.androidBssid })

def bestSsid (d : P2pData) (ssid : Bytes) : Bytes :=
  if d.androidPreSsid ≠ [] ∧ d.androidPreSsid.length < ssid.length then ssid
  else if d.androidPreSsid ≠ [] then d.androidPreSsid
  else ssid

/-- The name is stored, unless it is cut off and there is no name for it. -/
def storeP2pSsid (d : P2pData) (ssid : Bytes) (totalLen : ℕ) (bssid : Mac) :
    Logged CopyUse (Bool × P2pData) :=
  if ssid.any (0x80 ≤ ·) ∨ totalLen ≥ wLen - extraLen then
    match zconfigGetApinfoBySsidSuffix env.aplist (bestSsid d ssid) with
    | some ap => do
        let ssid ← copySsid ap.name
        pure (true, { d with ssid := ssid, bssid := ap.mac })
    | none => storeAndroidSsid env d (bestSsid d ssid) bssid
  else do
    let ssid ← copySsid ssid
    pure (true, { d with ssid := ssid, bssid := if ValidBssid bssid then bssid else d.bssid })

/-- The literal `zl&ws` that a phone sends to prepare the name. -/
def magicPWD (literals : Memory) : ℕ → UInt8 :=
  memOf [0x7A, 0x6C, 0x26, 0x77, 0x73, 0] literals

/-- `get_ssid_passwd_from_w` once the password is decrypted. -/
def storeDecrypted (d : P2pData) (ssid : Bytes) (passwd : Passwd) (passwdLen totalLen : ℕ)
    (bssid : Mac) : Logged CopyUse (GotResult × P2pData) :=
  if passwdLen ≠ 0 ∧ memSlice (passwdMem passwd env.behind) 0 passwdLen
      = memSlice (magicPWD env.literals) 0 passwdLen then do
    let ssid ← copySsid ssid
    pure (GotResult.chnLock, { d with androidPreSsid := ssid })
  else do
    let stored ← storeP2pSsid env d ssid totalLen bssid
    if stored.1 = false then pure (GotResult.nothing, stored.2)
    else do
      let d ← copyPasswd stored.2 passwd
      pure (GotResult.ssidPasswd, { d with startTime := 0 })

/-- `get_ssid_passwd_from_w` once the password is copied. -/
def decryptP2p (d : P2pData) (ssid passwd : Bytes) (encrypt totalLen : ℕ) (bssid : Mac) :
    Logged CopyUse (GotResult × P2pData) :=
  if encrypt ≠ p2pEncodeTypeEncrypt then pure (GotResult.nothing, d.cleared)
  else if env.cipherMemory = false then pure (GotResult.nothing, d)
  else do
    let cipher ← decodePasswd env.decodeMemory passwd 7
    let plain ← aesDecryptString env.crypt cipher
    if isUtf8 (passwdMem (fillPasswd plain) env.behind) cipher.length = false then
      pure (GotResult.nothing, d.clearAndroid)
    else
      storeDecrypted env d (untilNul (awssDictCrypt ssid)) (fillPasswd plain) cipher.length totalLen
        bssid

/-- `get_ssid_passwd_from_w` behind the checksum. -/
def copyP2p (d : P2pData) (ssid passwd : Bytes) (encrypt totalLen : ℕ) (src bssid : Mac) :
    Logged CopyUse (GotResult × P2pData) := do
  -- The bit of an address that is administered locally is taken out.
  let d := { d with
    startTime := if d.startTime = 0 then env.now else d.startTime
    androidSrc := Function.update src 0 (src 0 &&& 0xFD) }
  let ssid ← Logged.access (.ssid ssid.length) ssid
  let passwd ← if passwd = [] then pure passwd else Logged.access (.passwd passwd.length) passwd
  decryptP2p env d ssid passwd encrypt totalLen bssid

variable (input : Memory)

def p2pSsidLen : ℕ := (input 4).toNat &&& p2pSsidLenMask

def p2pEncrypt : ℕ := (input 4).toNat >>> p2pEncodeTypeOffset

/-- The password in an attribute of `len` bytes, with the zeros that stand for themselves again. -/
def p2pPasswd (len : UInt8) : Bytes :=
  passwdCheckUtf8 (memSlice input (5 + p2pSsidLen input)
    (len.toNat - 4 - p2pSsidLen input - extraLen))

/-- The lengths of an attribute are those that are gone on with. -/
def P2pLengths (len : UInt8) : Prop :=
  4 + extraLen < len.toNat ∧ p2pEncrypt input ≤ p2pEncodeTypeEncrypt ∧
    p2pSsidLen input ≤ wLen - extraLen ∧ p2pSsidLen input + extraLen ≤ len.toNat - 4

instance (input : Memory) (len : UInt8) : Decidable (P2pLengths input len) :=
  inferInstanceAs (Decidable (_ ∧ _ ∧ _ ∧ _))

/-- The checksum of an attribute is right. -/
def P2pChecksum (len : UInt8) : Prop :=
  osGetUnalignedBe16 (memSlice input (len.toNat - 2) 2)
    = zconfigChecksumV3 ((memSlice input 4 (1 + p2pSsidLen input) ++ p2pPasswd input len).map
      UInt8.toNat)

instance (input : Memory) (len : UInt8) : Decidable (P2pChecksum input len) :=
  inferInstanceAs (Decidable (_ = _))

/-- `get_ssid_passwd_from_w` for an attribute of `len` bytes at `input`. -/
def getSsidPasswdFromW (d : P2pData) (input : Memory) (len : UInt8) (src bssid : Mac) :
    Logged CopyUse (GotResult × P2pData) :=
  if ¬ P2pLengths input len then pure (GotResult.nothing, d)
  else if ¬ P2pChecksum input len then pure (GotResult.nothing, d.clearAndroid)
  else
    copyP2p env d (memSlice input 5 (p2pSsidLen input)) (p2pPasswd input len) (p2pEncrypt input)
      (len.toNat - 4) src bssid

/-! ## What is copied -/

section Within

variable {env : P2pEnv} {d : P2pData}

variable (ssid : Bytes)

theorem within_copySsid : (copySsid ssid).Within CopyUse.Fits := by
  rw [copySsid, within_access]
  exact Nat.sub_le _ _

theorem within_copyPasswd (passwd : Passwd) : (copyPasswd d passwd).Within CopyUse.Fits := by
  rw [copyPasswd, within_access]
  exact Nat.sub_le _ _

theorem within_amendAndroidSsid (best : Bytes) :
    (amendAndroidSsid env d best).Within CopyUse.Fits := by
  rw [amendAndroidSsid]
  split
  · simp only [within_bind, within_pure, within_copySsid, and_self]
  · simp only [within_ite, within_bind, within_pure, within_copySsid,
      implies_true, and_self]

theorem within_storeAndroidSsid (best : Bytes) (bssid : Mac) :
    (storeAndroidSsid env d best bssid).Within CopyUse.Fits := by
  simp only [storeAndroidSsid, within_ite, within_bind, within_pure,
    within_copySsid, within_amendAndroidSsid, implies_true, and_self]

theorem within_storeP2pSsid (totalLen : ℕ) (bssid : Mac) :
    (storeP2pSsid env d ssid totalLen bssid).Within CopyUse.Fits := by
  rw [storeP2pSsid, within_ite]
  refine ⟨fun _ => ?_, fun _ => ?_⟩
  · split
    · simp only [within_bind, within_pure, within_copySsid, and_self]
    · exact within_storeAndroidSsid _ _
  · simp only [within_bind, within_pure, within_copySsid, and_self]

theorem within_storeDecrypted (passwd : Passwd) (passwdLen totalLen : ℕ) (bssid : Mac) :
    (storeDecrypted env d ssid passwd passwdLen totalLen bssid).Within CopyUse.Fits := by
  simp only [storeDecrypted, within_ite, within_bind, within_pure,
    within_copySsid, within_copyPasswd, within_storeP2pSsid, implies_true, and_self]

theorem within_decryptP2p {passwd : Bytes} (h : passwd.length ≤ zcMaxPasswdLen)
    (ssid : Bytes) (encrypt totalLen : ℕ) (bssid : Mac) :
    (decryptP2p env d ssid passwd encrypt totalLen bssid).Within CopyUse.Fits := by
  have hlen : passwd.length * 7 / 8 ≤ zcMaxPasswdLen := by omega
  obtain ⟨hdecode, hcipher⟩ := @within_decodePasswd env.decodeMemory passwd 7 hlen
  simp only [decryptP2p, within_ite, within_bind, within_pure, hdecode,
    within_aesDecryptString _ hcipher, within_storeDecrypted, implies_true, and_self]

/-- No more is copied than fits exactly when the name and the password do. -/
theorem within_copyP2p (passwd : Bytes) (encrypt totalLen : ℕ) (src bssid : Mac) :
    (copyP2p env d ssid passwd encrypt totalLen src bssid).Within CopyUse.Fits ↔
      ssid.length ≤ zcMaxSsidLen ∧ passwd.length ≤ zcMaxPasswdLen := by
  rw [copyP2p, within_bind, within_access]
  refine and_congr Iff.rfl ?_
  dsimp only
  by_cases hnil : passwd = []
  · have hlen : passwd.length ≤ zcMaxPasswdLen := by
      rw [hnil]
      exact Nat.zero_le _
    rw [if_pos hnil, within_bind]
    exact iff_of_true ⟨within_pure _, within_decryptP2p hlen _ _ _ _⟩ hlen
  · rw [if_neg hnil, within_bind, within_access]
    exact and_iff_left_of_imp fun hlen => within_decryptP2p hlen _ _ _ _

end Within

/-! ## Every attribute -/

/-- A run with the name and the password that it leaves. -/
def storedBy (run : Logged CopyUse (GotResult × P2pData)) :
    Logged CopyUse (GotResult × Bytes × Passwd) :=
  ⟨(run.val.1, run.val.2.ssid, run.val.2.passwd), run.log⟩

/-- An attribute is gone on with. -/
def P2pAccepted (len : UInt8) : Prop :=
  P2pLengths input len ∧ P2pChecksum input len

instance (input : Memory) (len : UInt8) : Decidable (P2pAccepted input len) :=
  inferInstanceAs (Decidable (_ ∧ _))

/-- **The attribute of a phone.**  No more is copied than fits, and what declares more is rejected
without a change, exactly when no attribute is accepted whose password is too long. -/
theorem getSsidPasswdFromW_sound_iff (d : P2pData) (input : Memory) (len : UInt8)
    (src bssid : Mac) :
    Sound (storedBy (getSsidPasswdFromW env d input len src bssid)) GotResult.nothing
        (d.ssid, d.passwd) (¬ (p2pPasswd input len).length ≤ zcMaxPasswdLen)
      ↔ (P2pAccepted input len → (p2pPasswd input len).length ≤ zcMaxPasswdLen) := by
  by_cases hlengths : P2pLengths input len
  · by_cases hchecksum : P2pChecksum input len
    · have hssid : (memSlice input 5 (p2pSsidLen input)).length ≤ zcMaxSsidLen := by
        rw [length_memSlice]
        exact hlengths.2.2.1.trans (by decide)
      rw [getSsidPasswdFromW, if_neg (not_not.mpr hlengths), if_neg (not_not.mpr hchecksum)]
      constructor
      · intro h _
        exact ((within_copyP2p ..).mp h.1).2
      · intro h
        have hpasswd := h ⟨hlengths, hchecksum⟩
        exact ⟨(within_copyP2p ..).mpr ⟨hssid, hpasswd⟩, fun hno => absurd hpasswd hno⟩
    · rw [getSsidPasswdFromW, if_neg (not_not.mpr hlengths), if_pos hchecksum]
      exact iff_of_true sound_of_unchanged fun hacc => absurd hacc.2 hchecksum
  · rw [getSsidPasswdFromW, if_pos hlengths]
    exact iff_of_true sound_of_unchanged fun hacc => absurd hacc.1 hlengths

/-- **Credentials from the air.**  In both ways of configuration they fit exactly when nothing is
accepted whose declared lengths are too long. -/
theorem provisioned_credentials_iff (z : ZconfigData) (tods : Bool) (zcEnv : PasswdEnv)
    (env : P2pEnv) (d : P2pData) (input : Memory) (len : UInt8) (src bssid : Mac) :
    ((∀ passwd, Sound (Awss.storedBy (zconfigStoreSsidPasswd z tods zcEnv passwd)) false
        (z.ssid, passwd) (¬ MessageFits (completedMem z tods zcEnv.encodeMemory)))
      ↔ (MessageAccepted z tods zcEnv → MessageFits (completedMem z tods zcEnv.encodeMemory))) ∧
    (Sound (storedBy (getSsidPasswdFromW env d input len src bssid)) GotResult.nothing
        (d.ssid, d.passwd) (¬ (p2pPasswd input len).length ≤ zcMaxPasswdLen)
      ↔ (P2pAccepted input len → (p2pPasswd input len).length ≤ zcMaxPasswdLen)) :=
  ⟨zconfigStoreSsidPasswd_sound_iff, getSsidPasswdFromW_sound_iff ..⟩

/-- The packages of a message without a name, whose password has 88 groups. -/
def longMessage (i : ℕ) : ℕ :=
  ([93, 4, 88] ++ List.replicate 88 0 ++ [2, 57]).getD (i - 1) 0 + 0x100
    + 0x80 * ((i - 1) % groupNumber)

/-- All packages of the message have come. -/
def longData : ZconfigData :=
  { zeroZconfigData with
    data := fun _ => { zeroZcSide with maxPos := 93 }
    pkg := fun _ i => ⟨longMessage i, 100⟩ }

/-- An attribute without a name, with a password of 70 letters `a`. -/
def longAttr : Bytes :=
  [0x10, 0x11, 0, 73, 0x20] ++ List.replicate 70 0x61 ++ [0x2A, 0x26]

def sampleCrypt : CryptEnv := ⟨true, true, fun _ => List.replicate 16 0⟩

def samplePasswdEnv : PasswdEnv :=
  ⟨true, true, true, true, sampleCrypt, awssInitAplist zeroMac, fun _ => 0⟩

def sampleP2pEnv : P2pEnv :=
  ⟨true, true, sampleCrypt, awssInitAplist zeroMac, 0, 200, fun _ => 0, fun _ => 0⟩

def emptyP2pData : P2pData := ⟨[], fillPasswd [], zeroMac, [], [], zeroMac, zeroMac, 0⟩

theorem messageAccepted_long : MessageAccepted longData true samplePasswdEnv := by decide +kernel

theorem not_messageFits_long :
    ¬ MessageFits (completedMem longData true samplePasswdEnv.encodeMemory) := by decide +kernel

theorem p2pAccepted_long : P2pAccepted (ofString longAttr) 77 := by decide +kernel

theorem length_longAttr : (p2pPasswd (ofString longAttr) 77).length = 70 := by decide +kernel

/-- The message decodes to 66 bytes and the attribute copies 70. -/
theorem provisioned_credentials_long :
    ¬ (∀ passwd, Sound (Awss.storedBy (zconfigStoreSsidPasswd longData true samplePasswdEnv passwd))
        false (longData.ssid, passwd)
        (¬ MessageFits (completedMem longData true samplePasswdEnv.encodeMemory))) ∧
      ¬ Sound (storedBy (getSsidPasswdFromW sampleP2pEnv emptyP2pData (ofString longAttr) 77
        zeroMac zeroMac)) GotResult.nothing (emptyP2pData.ssid, emptyP2pData.passwd)
        (¬ (p2pPasswd (ofString longAttr) 77).length ≤ zcMaxPasswdLen) := by
  constructor
  · rw [zconfigStoreSsidPasswd_sound_iff]
    exact Classical.not_imp.mpr ⟨messageAccepted_long, not_messageFits_long⟩
  · rw [getSsidPasswdFromW_sound_iff]
    refine Classical.not_imp.mpr ⟨p2pAccepted_long, ?_⟩
    rw [length_longAttr]
    decide

end Iotkit.AwssWps
