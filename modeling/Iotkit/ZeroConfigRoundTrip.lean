/-
# Round trips of the frames of zero config

The registrar finds in the frame of an enrollee what the enrollee put in it, and the enrollee finds
in the answer the network of the registrar, as long as the password has no character of four bytes
and the type of encryption is one that the enrollee decrypts.
-/
import Iotkit.ZeroConfig

namespace Iotkit.ZeroConfig

open List

/-! ## Fields with a length -/

section Field

variable {s rest : Bytes}

theorem toNat_ofNat_length (h : s.length < 256) : (UInt8.ofNat s.length).toNat = s.length := by
  rw [UInt8.toNat_ofNat']
  omega

end Field

/-! ## Finding an element -/

theorem cfg80211FindIe_skip {eid e n : UInt8} {body rest : Bytes} {len : ℤ} (hne : e ≠ eid)
    (hbody : n.toNat = body.length) (hlen : 2 < len) :
    cfg80211FindIe eid (e :: n :: (body ++ rest)) len =
      cfg80211FindIe eid rest (len - (body.length + 2)) := by
  rw [cfg80211FindIe, if_pos ⟨hlen, hne⟩]
  have hdrop : (e :: n :: (body ++ rest)).drop (n.toNat + 2) = rest := by
    rw [hbody]
    exact drop_left
  show cfg80211FindIe eid ((e :: n :: (body ++ rest)).drop (n.toNat + 2)) (len - (n.toNat + 2)) = _
  rw [hdrop, hbody]

theorem cfg80211FindIe_here {eid : UInt8} {ies : Bytes} {len : ℤ} (heid : ies.getD 0 0 = eid)
    (hlen : 2 + (ies.getD 1 0).toNat ≤ len) : cfg80211FindIe eid ies len = some (ies, len) := by
  rw [cfg80211FindIe, if_neg fun h => h.2 heid, if_neg (by omega), if_neg (by omega)]

theorem cfg80211FindVendorIe_eq {oui : ℕ} {ouiType : UInt8} {ies ie : Bytes} {len left : ℤ}
    (hlen : 0 < len) (hfind : cfg80211FindIe wlanEidVendorSpecific ies len = some (ie, left))
    (hsize : 6 ≤ (ie.getD 1 0).toNat) (houi : vendorOui ie = oui) (htype : ie.getD 5 0 = ouiType) :
    cfg80211FindVendorIe oui ouiType ies len = some (ie, left) := by
  rw [cfg80211FindVendorIe, findVendorIeLoop, if_neg (by omega), hfind]
  exact if_pos ⟨hsize, houi, htype⟩

/-! ## A probe request with an element -/

variable {mac : Bytes}

section

variable (ie : Bytes) (hmac : mac.length = ethAlen)
include ie hmac

theorem length_probeReqWith : (probeReqWith ie mac).length = probeReqFrame.length + ie.length := by
  simp [probeReqWith, osWifiGetMac, probeReqFrame, saPos, ethAlen, fcsSize, hmac]
  omega

/-- What stands behind the header of a probe request: a hidden name, the rates and more rates,
the element and the check sequence. -/
theorem drop_probeReqWith :
    (probeReqWith ie mac).drop mgmtHdrLen =
      0 :: 0 :: ([] ++ 1 :: 8 :: ([0x82, 0x84, 0x8B, 0x96, 0x8C, 0x92, 0x98, 0xA4] ++
        0x32 :: 4 :: ([0xB0, 0x48, 0x60, 0x6C] ++ (ie ++ [0x3F, 0x84, 0x10, 0x9E])))) := by
  match mac, hmac with
  | [_, _, _, _, _, _], _ => rfl

theorem drop_probeReqWith_response :
    (probeReqWith ie mac).drop 36 =
      0x32 :: 4 :: ([0xB0, 0x48, 0x60, 0x6C] ++ (ie ++ [0x3F, 0x84, 0x10, 0x9E])) := by
  have hdrop : ((probeReqWith ie mac).drop mgmtHdrLen).drop 12 = (probeReqWith ie mac).drop 36 :=
    drop_drop
  rw [← hdrop, drop_probeReqWith ie hmac]
  rfl

end

def vendorIe (n ouiType : UInt8) (body : Bytes) : Bytes :=
  wlanEidVendorSpecific :: n :: 0xD8 :: 0x96 :: 0xE0 :: ouiType :: body

section Vendor

variable {n ouiType : UInt8} {body mac : Bytes}

theorem vendorOui_vendorIe (rest : Bytes) :
    vendorOui (vendorIe n ouiType body ++ rest) = wlanOuiAlibaba := by
  simp [vendorOui, vendorIe, wlanOuiAlibaba]

theorem findIe_vendorIe (hn : n.toNat = body.length + 4) :
    cfg80211FindIe wlanEidVendorSpecific
      (0x32 :: 4 :: ([0xB0, 0x48, 0x60, 0x6C] ++ (vendorIe n ouiType body ++
        [0x3F, 0x84, 0x10, 0x9E]))) (body.length + 16) =
      some (vendorIe n ouiType body ++ [0x3F, 0x84, 0x10, 0x9E], (body.length : ℤ) + 10) := by
  have hlen : (body.length : ℤ) + 16 - (([0xB0, 0x48, 0x60, 0x6C] : Bytes).length + 2) =
      body.length + 10 := by
    simp only [length_cons, length_nil]
    omega
  rw [cfg80211FindIe_skip (by decide) rfl (by omega), hlen]
  apply cfg80211FindIe_here
  · rfl
  · show (2 : ℤ) + n.toNat ≤ _
    omega

theorem findVendorIe_request (hmac : mac.length = ethAlen) (hn : n.toNat = body.length + 4)
    (hsize : 2 ≤ body.length) :
    cfg80211FindVendorIe wlanOuiAlibaba ouiType
      ((probeReqWith (vendorIe n ouiType body) mac).drop mgmtHdrLen)
      ((probeReqWith (vendorIe n ouiType body) mac).length - mgmtHdrLen) =
      some (vendorIe n ouiType body ++ [0x3F, 0x84, 0x10, 0x9E], (body.length : ℤ) + 10) := by
  have hlength : ((probeReqWith (vendorIe n ouiType body) mac).length : ℤ) - mgmtHdrLen =
      body.length + 28 := by
    rw [length_probeReqWith _ hmac]
    simp only [vendorIe, probeReqFrame, mgmtHdrLen, length_cons, length_nil]
    omega
  rw [hlength, drop_probeReqWith _ hmac]
  have hlen : (body.length : ℤ) + 28 - (([] : Bytes).length + 2) -
      (([0x82, 0x84, 0x8B, 0x96, 0x8C, 0x92, 0x98, 0xA4] : Bytes).length + 2) =
        body.length + 16 := by
    simp only [length_cons, length_nil]
    omega
  refine cfg80211FindVendorIe_eq (by omega) ?_ ?_ (vendorOui_vendorIe _) rfl
  · rw [cfg80211FindIe_skip (by decide) rfl (by omega),
      cfg80211FindIe_skip (by decide) rfl (by simp only [length_nil]; omega), hlen]
    exact findIe_vendorIe hn
  · show 6 ≤ n.toNat
    omega

theorem findVendorIe_response (hmac : mac.length = ethAlen) (hn : n.toNat = body.length + 4)
    (hsize : 2 ≤ body.length) :
    cfg80211FindVendorIe wlanOuiAlibaba ouiType
      ((probeReqWith (vendorIe n ouiType body) mac).drop 36)
      ((probeReqWith (vendorIe n ouiType body) mac).length - 36) =
      some (vendorIe n ouiType body ++ [0x3F, 0x84, 0x10, 0x9E], (body.length : ℤ) + 10) := by
  have hlength : ((probeReqWith (vendorIe n ouiType body) mac).length : ℤ) - 36 =
      body.length + 16 := by
    rw [length_probeReqWith _ hmac]
    simp only [vendorIe, probeReqFrame, length_cons, length_nil]
    omega
  rw [hlength, drop_probeReqWith_response _ hmac]
  refine cfg80211FindVendorIe_eq (by omega) (findIe_vendorIe hn) ?_ (vendorOui_vendorIe _) rfl
  show 6 ≤ n.toNat
  omega

end Vendor

/-! ## The frame of an enrollee -/

/-- The assumptions on the hash and the cipher: the length of a signature, and that decryption
inverts encryption. -/
structure Crypto.Lawful (crypto : Crypto) : Prop where
  length_hmacSha1 : ∀ text key, (crypto.hmacSha1 text key).length = enrolleeSignSize
  length_cfbEncrypt : ∀ key iv data, (crypto.cfbEncrypt key iv data).length = data.length
  decrypt_encrypt : ∀ key iv data, crypto.cfbDecrypt key iv (crypto.cfbEncrypt key iv data) = data

/-- A device whose parts are not too long.  The name may have 64 characters, as the element and the
registrar allow, though `HAL_GetDeviceName` writes it into an array of 33 bytes. -/
structure Enrollee.Fits (dev : Enrollee) : Prop where
  productKey : dev.productKey.length ≤ maxPkLen
  deviceName : dev.deviceName.length ≤ maxDevNameLen
  aesRandom : dev.aesRandom.length = randomMaxLen
  encryptType : 3 ≤ dev.encryptType ∧ dev.encryptType ≤ 5
  mac : dev.mac.length = ethAlen

/-- The entry that a registrar makes of a device. -/
def Enrollee.info (crypto : Crypto) (dev : Enrollee) (rssi : ℤ) : EnrolleeInfo :=
  { EnrolleeInfo.zero with
    devTypeVer := deviceTypeVersion
    devName := dev.deviceName
    frameType := enrolleeFrameType
    pk := dev.productKey
    random := dev.aesRandom
    security := dev.encryptType
    signMethod := 0
    sign := dev.sign crypto
    rssi := rssi }

variable {crypto : Crypto} {dev : Enrollee}

theorem length_sign (hcrypto : crypto.Lawful) : (dev.sign crypto).length = enrolleeSignSize :=
  hcrypto.length_hmacSha1 _ _

theorem length_enrolleeIe (hcrypto : crypto.Lawful) (hdev : dev.Fits) :
    (dev.ie crypto).length = dev.ieLen := by
  simp [Enrollee.ie, Enrollee.ieLen, enrolleeIeFixLen, length_sign hcrypto, hdev.aesRandom]
  omega

theorem ieLen_le (hdev : dev.Fits) : dev.ieLen ≤ 134 := by
  have hpk := hdev.productKey
  have hname := hdev.deviceName
  simp only [maxPkLen, maxDevNameLen] at hpk hname
  simp only [Enrollee.ieLen, enrolleeIeFixLen, randomMaxLen, enrolleeSignSize]
  omega

variable (rest : Bytes)

theorem processEnrolleeIe_ie (hcrypto : crypto.Lawful) (hdev : dev.Fits) (rest : Bytes)
    (rssi : ℤ) : processEnrolleeIe (dev.ie crypto ++ rest) rssi = some (dev.info crypto rssi) := by
  obtain ⟨hpk, hname, hrandom, ⟨hlow, hhigh⟩, -⟩ := hdev
  have hpk' : dev.productKey.length < 256 := hpk.trans_lt (by decide)
  have hname' : dev.deviceName.length < 256 := hname.trans_lt (by decide)
  have hsign : (dev.sign crypto).length = 20 := length_sign hcrypto
  have hdrop : (dev.ie crypto ++ rest).drop 6 =
      deviceTypeVersion :: UInt8.ofNat dev.deviceName.length :: (dev.deviceName ++
        enrolleeFrameType :: UInt8.ofNat dev.productKey.length :: (dev.productKey ++
          UInt8.ofNat dev.aesRandom.length :: (dev.aesRandom ++
            dev.encryptType :: 0 :: 20 :: (dev.sign crypto ++ rest)))) := by
    rw [hrandom]
    simp [Enrollee.ie, enrolleeSignSize]
  have hkind : ¬ (5 < dev.encryptType ∨ dev.encryptType < 3) := by
    rintro (hgt | hlt)
    · exact UInt8.not_le.mpr hgt hhigh
    · exact UInt8.not_le.mpr hlt hlow
  have hrandom' : dev.aesRandom.length < 256 := hrandom ▸ (by decide)
  have hsignLen : UInt8.toNat 20 = (dev.sign crypto).length := hsign.symm
  have hsignSize : enrolleeSignSize = (dev.sign crypto).length := hsign.symm
  have hmethod : ¬ (1 : UInt8) < 0 := by decide
  unfold processEnrolleeIe
  rw [hdrop, ← hrandom, hsignSize]
  simp only [getD_cons_zero, getD_cons_succ, drop_succ_cons, drop_zero,
    drop_left, takeD_left, toNat_ofNat_length hname', toNat_ofNat_length hpk',
    toNat_ofNat_length hrandom', hsignLen, ne_eq, not_true, if_false, not_lt.mpr hname,
    not_lt.mpr hpk, hkind, hmethod]
  rfl

theorem enrolleeIe_eq_vendorIe (hcrypto : crypto.Lawful) (hdev : dev.Fits) :
    ∃ body, dev.ie crypto = vendorIe (UInt8.ofNat (dev.ieLen - 2)) wlanOuiTypeEnrollee body ∧
      body.length + 6 = dev.ieLen :=
  ⟨_, rfl, length_enrolleeIe hcrypto hdev⟩

theorem toNat_ieLen (hdev : dev.Fits) : (UInt8.ofNat (dev.ieLen - 2)).toNat = dev.ieLen - 2 := by
  have := ieLen_le hdev
  rw [UInt8.toNat_ofNat']
  omega

theorem length_awssInitEnrolleeInfo (hcrypto : crypto.Lawful) (hdev : dev.Fits) :
    (awssInitEnrolleeInfo crypto dev).length = dev.frameLen := by
  rw [awssInitEnrolleeInfo, length_probeReqWith _ hdev.mac, length_enrolleeIe hcrypto hdev]
  rfl

theorem awssWifiMgntFrameIe_enrollee (hcrypto : crypto.Lawful) (hdev : dev.Fits) :
    awssWifiMgntFrameIe (awssInitEnrolleeInfo crypto dev) (awssInitEnrolleeInfo crypto dev).length
      false = some (dev.ie crypto ++ [0x3F, 0x84, 0x10, 0x9E]) := by
  obtain ⟨body, hie, hlength⟩ := enrolleeIe_eq_vendorIe hcrypto hdev
  have hn := toNat_ieLen hdev
  have hle : enrolleeIeFixLen ≤ dev.ieLen := Nat.le_add_left _ _
  have hfix : enrolleeIeFixLen = 50 := rfl
  have htype : (awssInitEnrolleeInfo crypto dev).getD 0 0 = mgmtProbeReq := rfl
  rw [awssWifiMgntFrameIe, htype]
  simp only [Bool.false_eq_true, if_false, if_true]
  rw [if_neg (by decide), awssInitEnrolleeInfo, hie,
    findVendorIe_request hdev.mac (by omega) (by omega)]
  rfl

/-! ## The table -/

variable {table : EnrolleeTable}

theorem firstEntry_some {test : EnrolleeInfo → Bool} {i : Fin maxEnrolleeNum}
    (h : firstEntry table test = some i) : test (table i) = true :=
  List.find?_some (p := fun i => test (table i)) h

theorem firstEntry_none {test : EnrolleeInfo → Bool} (h : firstEntry table test = none)
    (i : Fin maxEnrolleeNum) : test (table i) = false := by
  have := List.find?_eq_none.mp h i (mem_finRange i)
  simpa using this

/-- A device can be entered: there is a free entry, and the device has no entry or one that was
not reported yet. -/
structure Room (table : EnrolleeTable) (pk devName : Bytes) : Prop where
  free : ∃ i, (table i).state = .free
  queued : ∀ i, (table i).state ≠ .free → (table i).isDevice pk devName = true →
    (table i).state = .inQueue

theorem enrolleePut_stores {enr : EnrolleeInfo} (now : UInt32)
    (hroom : Room table enr.pk enr.devName) :
    ∃ i, ((enrolleePut table true now enr).2.1 i).state = .inQueue ∧
      ((enrolleePut table true now enr).2.1 i).copyHdr enr =
        (enrolleePut table true now enr).2.1 i := by
  rw [enrolleePut, if_neg (by decide)]
  cases hfind : firstEntry table fun e => e.state ≠ .free && e.isDevice enr.pk enr.devName with
  | some i =>
    have htest := firstEntry_some hfind
    rw [Bool.and_eq_true, decide_eq_true_eq] at htest
    have hqueued := hroom.queued i htest.1 htest.2
    refine ⟨i, ?_⟩
    dsimp only
    rw [if_neg (not_not.mpr hqueued)]
    simp [EnrolleeInfo.copyHdr, hqueued]
  | none =>
    cases hfree : firstEntry table fun e => decide (e.state = .free) with
    | none =>
      obtain ⟨i, hi⟩ := hroom.free
      exact absurd hi (by simpa using firstEntry_none hfree i)
    | some i =>
      refine ⟨i, ?_⟩
      simp [EnrolleeInfo.copyHdr]

/-! ## Passwords -/

def utf8Bytes (s : List Char) : Bytes := s.flatMap String.utf8EncodeChar

/-- The text has no character of four bytes. -/
def ShortChars (s : List Char) : Prop := ∀ c ∈ s, c.toNat < 0x10000

instance (s : List Char) : Decidable (ShortChars s) := inferInstanceAs (Decidable (∀ c ∈ s, _))

theorem ascii_byte : ∀ x : Fin 0x80, UInt8.ofNat x &&& 0x80 = 0 := by decide

theorem continuation_byte : ∀ x : Fin 0x40,
    UInt8.ofNat (x + 0x80) ≠ 0 ∧ UInt8.ofNat (x + 0x80) &&& 0xC0 = 0x80 := by decide

theorem lead_byte_two : ∀ x : Fin 0x20,
    UInt8.ofNat (x + 0xC0) &&& 0x80 ≠ 0 ∧ UInt8.ofNat (x + 0xC0) &&& 0xE0 = 0xC0 := by decide

theorem lead_byte_three : ∀ x : Fin 0x10,
    UInt8.ofNat (x + 0xE0) &&& 0x80 ≠ 0 ∧ UInt8.ofNat (x + 0xE0) &&& 0xE0 ≠ 0xC0 ∧
      UInt8.ofNat (x + 0xE0) &&& 0xF0 = 0xE0 := by decide

theorem lead_byte_four : ∀ x : Fin 0x08,
    UInt8.ofNat (x + 0xF0) &&& 0x80 ≠ 0 ∧ UInt8.ofNat (x + 0xF0) &&& 0xE0 ≠ 0xC0 ∧
      UInt8.ofNat (x + 0xF0) &&& 0xF0 ≠ 0xE0 := by decide

theorem isUtf8_ascii {a : UInt8} (ha : a &&& 0x80 = 0) : isUtf8 (a :: rest) = isUtf8 rest := by
  rw [isUtf8.eq_def]
  exact if_pos ha

theorem isUtf8_two {a b : UInt8} (ha : a &&& 0x80 ≠ 0 ∧ a &&& 0xE0 = 0xC0)
    (hb : b ≠ 0 ∧ b &&& 0xC0 = 0x80) : isUtf8 (a :: b :: rest) = isUtf8 rest := by
  rw [isUtf8.eq_def]
  dsimp only
  rw [if_neg ha.1, if_pos ha.2, decide_eq_true hb.1, decide_eq_true hb.2]
  rfl

theorem isUtf8_three {a b c : UInt8} (ha : a &&& 0x80 ≠ 0 ∧ a &&& 0xE0 ≠ 0xC0 ∧ a &&& 0xF0 = 0xE0)
    (hb : b ≠ 0 ∧ b &&& 0xC0 = 0x80) (hc : c ≠ 0 ∧ c &&& 0xC0 = 0x80) :
    isUtf8 (a :: b :: c :: rest) = isUtf8 rest := by
  rw [isUtf8.eq_def]
  dsimp only
  rw [if_neg ha.1, if_neg ha.2.1, if_pos ha.2.2, decide_eq_true hb.1, decide_eq_true hb.2,
    decide_eq_true hc.1, decide_eq_true hc.2]
  rfl

theorem isUtf8_four {a : UInt8} (ha : a &&& 0x80 ≠ 0 ∧ a &&& 0xE0 ≠ 0xC0 ∧ a &&& 0xF0 ≠ 0xE0) :
    isUtf8 (a :: rest) = false := by
  rw [isUtf8.eq_def]
  dsimp only
  rw [if_neg ha.1, if_neg ha.2.1, if_neg ha.2.2]

theorem isUtf8_encodeChar (c : Char) (rest : Bytes) :
    isUtf8 (String.utf8EncodeChar c ++ rest) = (decide (c.toNat < 0x10000) && isUtf8 rest) := by
  have hc : c.toNat = c.val.toNat := rfl
  have hbyte : ∀ n, n % 0x40 < 0x40 := fun n => Nat.mod_lt n (by decide)
  unfold String.utf8EncodeChar
  dsimp only
  split_ifs with hone htwo hthree
  · rw [decide_eq_true (show c.toNat < 0x10000 by omega), Bool.true_and]
    exact isUtf8_ascii rest (ascii_byte ⟨c.val.toNat, Nat.lt_succ_of_le hone⟩)
  · rw [decide_eq_true (show c.toNat < 0x10000 by omega), Bool.true_and]
    exact isUtf8_two rest (lead_byte_two ⟨_, Nat.mod_lt _ (by decide)⟩)
      (continuation_byte ⟨_, hbyte _⟩)
  · rw [decide_eq_true (show c.toNat < 0x10000 by omega), Bool.true_and]
    exact isUtf8_three rest (lead_byte_three ⟨_, Nat.mod_lt _ (by decide)⟩)
      (continuation_byte ⟨_, hbyte _⟩) (continuation_byte ⟨_, hbyte _⟩)
  · have hlong : ¬ c.toNat < 0x10000 := by omega
    rw [decide_eq_false hlong, Bool.false_and]
    have hlead := lead_byte_four ⟨c.val.toNat / 262144 % 0x08, Nat.mod_lt _ (by decide)⟩
    exact isUtf8_four _ hlead

theorem isUtf8_utf8Bytes (s : List Char) : isUtf8 (utf8Bytes s) = decide (ShortChars s) := by
  induction s with
  | nil => simp [utf8Bytes, isUtf8, ShortChars]
  | cons c s ih =>
    rw [utf8Bytes, flatMap_cons, isUtf8_encodeChar]
    show (decide (c.toNat < 0x10000) && isUtf8 (utf8Bytes s)) = _
    rw [ih, ← Bool.decide_and]
    apply decide_eq_decide.mpr
    unfold ShortChars
    rw [forall_mem_cons]

theorem isUtf8_replicate_zero (n : ℕ) : isUtf8 (List.replicate n 0) = true := by
  induction n with
  | zero => rfl
  | succ n ih => rw [replicate_succ, isUtf8_ascii _ rfl, ih]

/-! ## The frame of the registrar -/

/-- A network whose name and password are not too long. -/
structure ApInfo.Admitted (ap : ApInfo) : Prop where
  ssid : ap.ssid.bytes.length ≤ osMaxSsidLen - 1
  passwd : ap.passwd.bytes.length ≤ osMaxPasswdLen - 1
  bssid : ap.bssid.length = ethAlen

variable {ap : ApInfo}

theorem ssidCut_eq (hap : ap.Admitted) : ap.ssidCut = ap.ssid.bytes :=
  take_of_length_le hap.ssid

theorem passwdCut_eq (hap : ap.Admitted) : ap.passwdCut = ap.passwd.bytes :=
  take_of_length_le hap.passwd

theorem cString_take {s : CString} {n : ℕ} (h : s.bytes.length ≤ n) :
    (cString s.bytes).take n = s.bytes := by
  have hwhole : cString s.bytes = s.bytes := by
    apply takeWhile_eq_self_iff.mpr
    intro b hb
    rw [decide_eq_true_eq]
    rintro rfl
    exact s.nul_notMem hb
  rw [hwhole, take_of_length_le h]

variable {enr : EnrolleeInfo}

theorem length_registrarIe (hcrypto : crypto.Lawful) (hap : ap.Admitted)
    (hsign : enr.sign = dev.sign crypto) :
    (registrarIe crypto ap enr).length = registrarIeLen ap.ssidCut.length ap.passwdCut.length := by
  have hlength : enr.sign.length = 20 := hsign ▸ length_sign hcrypto
  have hbssid : ap.bssid.length = 6 := hap.bssid
  simp [registrarIe, registrarIeLen, hlength, hcrypto.length_cfbEncrypt, hbssid, ethAlen,
    enrolleeSignSize, registrarIeFixLen]
  omega

theorem registrarIeLen_le (hap : ap.Admitted) :
    registrarIeLen ap.ssidCut.length ap.passwdCut.length ≤ 133 := by
  have hssid := hap.ssid
  have hpasswd := hap.passwd
  simp only [osMaxSsidLen, osMaxPasswdLen] at hssid hpasswd
  rw [ssidCut_eq hap, passwdCut_eq hap]
  simp only [registrarIeLen, enrolleeSignSize, registrarIeFixLen]
  omega

theorem length_registrarRawFrameInit (hmac : mac.length = ethAlen) (hcrypto : crypto.Lawful)
    (hap : ap.Admitted) (hsign : enr.sign = dev.sign crypto) :
    (registrarRawFrameInit crypto ap mac enr).length = registrarFrameLen ap := by
  rw [registrarRawFrameInit, length_probeReqWith _ hmac, length_registrarIe hcrypto hap hsign]
  rfl

/-- The enrollee finds the element in the frame of the registrar. -/
theorem awssIeee80211ZconfigProcess_registrar (hmac : mac.length = ethAlen)
    (hcrypto : crypto.Lawful) (hap : ap.Admitted) (hsign : enr.sign = dev.sign crypto) :
    awssIeee80211ZconfigProcess false true (registrarRawFrameInit crypto ap mac enr)
        (registrarRawFrameInit crypto ap mac enr).length =
      some (registrarIe crypto ap enr ++ [0x3F, 0x84, 0x10, 0x9E],
        ((registrarIeLen ap.ssidCut.length ap.passwdCut.length + 4 : ℕ) : ℤ)) := by
  obtain ⟨body, hie, hlength⟩ : ∃ body, registrarIe crypto ap enr =
      vendorIe (UInt8.ofNat (registrarIeLen ap.ssidCut.length ap.passwdCut.length - 2))
        wlanOuiTypeRegistrar body ∧
      body.length + 6 = registrarIeLen ap.ssidCut.length ap.passwdCut.length :=
    ⟨_, rfl, length_registrarIe hcrypto hap hsign⟩
  have hle := registrarIeLen_le hap
  have hfix : 37 ≤ registrarIeLen ap.ssidCut.length ap.passwdCut.length := by
    simp only [registrarIeLen, enrolleeSignSize, registrarIeFixLen]
    omega
  have hn : (UInt8.ofNat (registrarIeLen ap.ssidCut.length ap.passwdCut.length - 2)).toNat =
      body.length + 4 := by
    rw [UInt8.toNat_ofNat']
    omega
  have htype : (registrarRawFrameInit crypto ap mac enr).getD 0 0 = 0x40 := rfl
  have hlen : ¬ ((registrarRawFrameInit crypto ap mac enr).length : ℤ) < 36 := by
    rw [length_registrarRawFrameInit hmac hcrypto hap hsign]
    simp only [registrarFrameLen, probeReqFrame, length_cons, length_nil]
    omega
  rw [awssIeee80211ZconfigProcess, htype, if_neg (by decide), if_neg (by decide), if_neg hlen,
    registrarRawFrameInit, hie, findVendorIe_response hmac hn (by omega)]
  simp only [Option.map_some]
  congr 2
  omega

theorem decryptSsidPasswd_registrarIe (hcrypto : crypto.Lawful) (hap : ap.Admitted)
    (hsign : enr.sign = dev.sign crypto) (rest : Bytes) :
    decryptSsidPasswd crypto dev (registrarIe crypto ap enr ++ rest) =
      let passwd := aesDecryptString crypto dev
        (crypto.cfbEncrypt (enr.key.take aesKeyLen) enr.random ap.passwd.bytes)
      if isUtf8 passwd = false then none
      else some ⟨ap.ssid.bytes, (cString passwd).take (osMaxPasswdLen - 1), ap.bssid⟩ := by
  have hsignLen : (dev.sign crypto).length = 20 := length_sign hcrypto
  have hssid := hap.ssid
  have hpasswd := hap.passwd
  set cipher := crypto.cfbEncrypt (enr.key.take aesKeyLen) enr.random ap.passwd.bytes with hcipher
  have hcipherLen : cipher.length = ap.passwd.bytes.length := hcrypto.length_cfbEncrypt _ _ _
  have hssid' : ap.ssid.bytes.length < 256 := hssid.trans_lt (by decide)
  have hcipher' : cipher.length < 256 := hcipherLen ▸ hpasswd.trans_lt (by decide)
  have hsign' : (dev.sign crypto).length < 256 := hsignLen ▸ (by decide)
  have hdrop : (registrarIe crypto ap enr ++ rest).drop 6 =
      deviceTypeVersion :: UInt8.ofNat (dev.sign crypto).length :: (dev.sign crypto ++
        registrarFrameType :: UInt8.ofNat ap.ssid.bytes.length :: (ap.ssid.bytes ++
          UInt8.ofNat cipher.length :: (cipher ++ (ap.bssid ++ rest)))) := by
    rw [registrarIe, ssidCut_eq hap, passwdCut_eq hap, hsign, ← hcipher, hcipherLen,
      take_of_length_le hap.bssid.le]
    simp
  have hssidLt : ¬ osMaxSsidLen ≤ ap.ssid.bytes.length := by
    simp only [osMaxSsidLen] at hssid ⊢
    omega
  have hpasswdLt : ¬ osMaxPasswdLen ≤ cipher.length := by
    simp only [osMaxPasswdLen] at hpasswd ⊢
    omega
  unfold decryptSsidPasswd
  rw [hdrop, ← hap.bssid]
  simp only [getD_cons_zero, drop_succ_cons, drop_zero, drop_left,
    takeD_left, toNat_ofNat_length hsign', toNat_ofNat_length hssid',
    toNat_ofNat_length hcipher', ne_eq, not_true, if_false, hssidLt, hpasswdLt,
    cString_take hssid]

/-! ## Both frames -/

/-- The key that a registrar got for a device is that of the device, when the device has one. -/
def SharedKey (crypto : Crypto) (dev : Enrollee) (key : Bytes) : Prop :=
  ∀ k, dev.aesKey crypto = some k → key.take aesKeyLen = k

/-- The frame of the enrollee has the length that was reserved for it, and its element has the
length it says; the registrar stores the device, and fills with its answer the length reserved for
that; and the enrollee takes the network from the answer. -/
structure RoundTrips (crypto : Crypto) (dev : Enrollee) (table : EnrolleeTable) (now : UInt32)
    (rssi : ℤ) (ap : ApInfo) (mac : Bytes) : Prop where
  written : (awssInitEnrolleeInfo crypto dev).length = dev.frameLen
  element : ((dev.ie crypto).getD 1 0).toNat + 2 = (dev.ie crypto).length
  stored : ∃ i, ∃ e : EnrolleeInfo,
    (awssWifiMgntFrameCallback table true now (awssInitEnrolleeInfo crypto dev)
      (awssInitEnrolleeInfo crypto dev).length rssi false).1 i = e ∧
    e.state = .inQueue ∧ e.devName = dev.deviceName ∧ e.pk = dev.productKey ∧
    e.random = dev.aesRandom ∧ e.security = dev.encryptType ∧ e.sign = dev.sign crypto ∧
    ∀ key, SharedKey crypto dev key → ∃ frame ie left,
      registrarRawFrameInit crypto ap mac { e with key := key } = frame ∧
      frame.length = registrarFrameLen ap ∧
      awssIeee80211ZconfigProcess false true frame frame.length = some (ie, left) ∧
      awssRecvCallbackZconfig crypto dev ie left = some ⟨ap.ssid.bytes, ap.passwd.bytes, ap.bssid⟩

theorem sharedKey_exists (crypto : Crypto) (dev : Enrollee) : ∃ key, SharedKey crypto dev key := by
  have htake : ∀ key random, (calPasswd crypto key random).take aesKeyLen =
      calPasswd crypto key random := by
    intro key random
    rw [calPasswd, take_take, Nat.min_self]
  unfold SharedKey Enrollee.aesKey
  split_ifs
  · refine ⟨calPasswd crypto dev.productSecret dev.aesRandom, fun k hk => ?_⟩
    rw [← Option.some.inj hk, htake]
  · refine ⟨calPasswd crypto dev.deviceSecret dev.aesRandom, fun k hk => ?_⟩
    rw [← Option.some.inj hk, htake]
  · exact ⟨[], fun k hk => nomatch hk⟩

theorem aesKey_isSome_iff (crypto : Crypto) (hdev : dev.Fits) :
    (dev.aesKey crypto).isSome ↔ dev.encryptType ≠ 5 := by
  obtain ⟨hlow, hhigh⟩ := hdev.encryptType
  have hlow' := UInt8.le_iff_toNat_le.mp hlow
  have hhigh' := UInt8.le_iff_toNat_le.mp hhigh
  have hcase : dev.encryptType = 3 ∨ dev.encryptType = 4 ∨ dev.encryptType = 5 := by
    have hthree : UInt8.toNat 3 = 3 := rfl
    have hfour : UInt8.toNat 4 = 4 := rfl
    have hfive : UInt8.toNat 5 = 5 := rfl
    rcases show dev.encryptType.toNat = 3 ∨ dev.encryptType.toNat = 4 ∨
      dev.encryptType.toNat = 5 by omega with h | h | h
    · exact .inl (UInt8.toNat_inj.mp h)
    · exact .inr (.inl (UInt8.toNat_inj.mp h))
    · exact .inr (.inr (UInt8.toNat_inj.mp h))
  unfold Enrollee.aesKey
  rcases hcase with h | h | h <;> simp [h]

/-- What the enrollee takes from the answer of the registrar. -/
theorem awssRecvCallbackZconfig_registrarIe (hcrypto : crypto.Lawful) (hap : ap.Admitted)
    (hsign : enr.sign = dev.sign crypto) (hrandom : enr.random = dev.aesRandom)
    (hkey : SharedKey crypto dev enr.key) (rest : Bytes) :
    awssRecvCallbackZconfig crypto dev (registrarIe crypto ap enr ++ rest)
        ((registrarIeLen ap.ssidCut.length ap.passwdCut.length + 4 : ℕ) : ℤ) =
      match dev.aesKey crypto with
      | none => some ⟨ap.ssid.bytes, [], ap.bssid⟩
      | some _ =>
        if isUtf8 ap.passwd.bytes then some ⟨ap.ssid.bytes, ap.passwd.bytes, ap.bssid⟩
        else none := by
  have hlen : ¬ ((registrarIeLen ap.ssidCut.length ap.passwdCut.length + 4 : ℕ) : ℤ) <
      ((registrarIe crypto ap enr ++ rest).getD 1 0).toNat := by
    have hle := registrarIeLen_le hap
    show ¬ ((registrarIeLen ap.ssidCut.length ap.passwdCut.length + 4 : ℕ) : ℤ) <
      (UInt8.ofNat (registrarIeLen ap.ssidCut.length ap.passwdCut.length - 2)).toNat
    rw [UInt8.toNat_ofNat']
    omega
  rw [awssRecvCallbackZconfig, if_neg hlen, decryptSsidPasswd_registrarIe hcrypto hap hsign]
  cases haes : dev.aesKey crypto with
  | none =>
    -- nothing is decrypted, and what stays in the memory is an empty string
    have hempty : ∀ n, cString (List.replicate n 0) = [] := by
      intro n
      cases n <;> rfl
    simp only [aesDecryptString, haes, isUtf8_replicate_zero, hempty, take_nil,
      Bool.true_eq_false, if_false]
  | some k =>
    simp only [aesDecryptString, haes]
    rw [hkey k haes, hrandom, hcrypto.decrypt_encrypt, cString_take hap.passwd]
    cases isUtf8 ap.passwd.bytes <;> rfl

/-- The enrollee takes the network from the answer of the registrar. -/
theorem answer_iff (enr : EnrolleeInfo) (hcrypto : crypto.Lawful) (hdev : dev.Fits)
    (hap : ap.Admitted) (hmac : mac.length = ethAlen) (hsign : enr.sign = dev.sign crypto)
    (hrandom : enr.random = dev.aesRandom) (hkey : SharedKey crypto dev enr.key) :
    (∃ frame ie left, registrarRawFrameInit crypto ap mac enr = frame ∧
      frame.length = registrarFrameLen ap ∧
      awssIeee80211ZconfigProcess false true frame frame.length = some (ie, left) ∧
      awssRecvCallbackZconfig crypto dev ie left =
        some ⟨ap.ssid.bytes, ap.passwd.bytes, ap.bssid⟩) ↔
      (dev.encryptType ≠ 5 ∨ ap.passwd.bytes = []) ∧ isUtf8 ap.passwd.bytes = true := by
  have hprocess := awssIeee80211ZconfigProcess_registrar hmac hcrypto hap hsign
  have hrecv := awssRecvCallbackZconfig_registrarIe hcrypto hap hsign hrandom hkey
    [0x3F, 0x84, 0x10, 0x9E]
  -- the frame that is built is the frame that is processed
  have hresult : (∃ frame ie left, registrarRawFrameInit crypto ap mac enr = frame ∧
      frame.length = registrarFrameLen ap ∧
      awssIeee80211ZconfigProcess false true frame frame.length = some (ie, left) ∧
      awssRecvCallbackZconfig crypto dev ie left =
        some ⟨ap.ssid.bytes, ap.passwd.bytes, ap.bssid⟩) ↔
      awssRecvCallbackZconfig crypto dev (registrarIe crypto ap enr ++ [0x3F, 0x84, 0x10, 0x9E])
        ((registrarIeLen ap.ssidCut.length ap.passwdCut.length + 4 : ℕ) : ℤ) =
        some ⟨ap.ssid.bytes, ap.passwd.bytes, ap.bssid⟩ := by
    constructor
    · rintro ⟨_, ie, left, rfl, -, hfound, hread⟩
      rw [hprocess] at hfound
      cases hfound
      exact hread
    · intro hread
      exact ⟨_, _, _, rfl, length_registrarRawFrameInit hmac hcrypto hap hsign, hprocess, hread⟩
  rw [hresult, hrecv]
  -- only encryption of type 5 has no key
  cases haes : dev.aesKey crypto with
  | none =>
    have htype : dev.encryptType = 5 := by
      by_contra hne
      have := (aesKey_isSome_iff crypto hdev).mpr hne
      rw [haes] at this
      contradiction
    constructor
    · intro hread
      have hempty : ap.passwd.bytes = [] := by simpa using hread.symm
      rw [hempty]
      exact ⟨.inr rfl, rfl⟩
    · rintro ⟨hne | hempty, -⟩
      · exact absurd htype hne
      · rw [hempty]
  | some k =>
    have htype : dev.encryptType ≠ 5 := by
      apply (aesKey_isSome_iff crypto hdev).mp
      rw [haes]
      rfl
    -- a password that is no UTF-8 is not handed on
    cases hutf8 : isUtf8 ap.passwd.bytes with
    | true => simp [htype]
    | false => simp

theorem utf8Bytes_eq_nil_iff (s : List Char) : utf8Bytes s = [] ↔ s = [] := by
  cases s with
  | nil => simp [utf8Bytes]
  | cons c s =>
    have hne : String.utf8EncodeChar c ≠ [] := by
      unfold String.utf8EncodeChar
      dsimp only
      split_ifs <;> exact cons_ne_nil _ _
    simp [utf8Bytes, hne]

/-- **Zero config.**  A device that a registrar can enter gets the network of the registrar with
its password if and only if the password has no character of four bytes and the type of
encryption is one that the enrollee decrypts, or the password is empty. -/
theorem zeroConfig_roundTrips_iff (crypto : Crypto) (dev : Enrollee) (table : EnrolleeTable)
    (now : UInt32) (rssi : ℤ) (ap : ApInfo) (mac : Bytes) (s : List Char)
    (hcrypto : crypto.Lawful) (hdev : dev.Fits)
    (hroom : Room table dev.productKey dev.deviceName) (hap : ap.Admitted)
    (hmac : mac.length = ethAlen) (hpasswd : ap.passwd.bytes = utf8Bytes s) :
    RoundTrips crypto dev table now rssi ap mac ↔
      (dev.encryptType ≠ 5 ∨ s = []) ∧ ShortChars s := by
  have hcallback : (awssWifiMgntFrameCallback table true now (awssInitEnrolleeInfo crypto dev)
      (awssInitEnrolleeInfo crypto dev).length rssi false).1 =
        (enrolleePut table true now (dev.info crypto rssi)).2.1 := by
    rw [awssWifiMgntFrameCallback, awssWifiMgntFrameIe_enrollee hcrypto hdev, Option.bind_some,
      processEnrolleeIe_ie hcrypto hdev]
  have hcondition : (dev.encryptType ≠ 5 ∨ s = []) ∧ ShortChars s ↔
      (dev.encryptType ≠ 5 ∨ ap.passwd.bytes = []) ∧ isUtf8 ap.passwd.bytes = true := by
    rw [hpasswd, isUtf8_utf8Bytes, utf8Bytes_eq_nil_iff, decide_eq_true_eq]
  rw [hcondition]
  constructor
  · intro h
    obtain ⟨i, e, -, -, -, -, hrandom, -, hsign, hanswer⟩ := h.stored
    obtain ⟨key, hkey⟩ := sharedKey_exists crypto dev
    exact (answer_iff { e with key := key } hcrypto hdev hap hmac hsign hrandom hkey).mp
      (hanswer key hkey)
  · intro hok
    obtain ⟨i, hqueued, hcopy⟩ := enrolleePut_stores now
      (show Room table (dev.info crypto rssi).pk (dev.info crypto rssi).devName from hroom)
    refine ⟨length_awssInitEnrolleeInfo hcrypto hdev, ?_, i, _, rfl, ?_⟩
    · rw [length_enrolleeIe hcrypto hdev]
      have hbyte := toNat_ieLen hdev
      have hle : enrolleeIeFixLen ≤ dev.ieLen := Nat.le_add_left _ _
      have hfix : enrolleeIeFixLen = 50 := rfl
      show (UInt8.ofNat (dev.ieLen - 2)).toNat + 2 = _
      omega
    · rw [hcallback]
      set e := (enrolleePut table true now (dev.info crypto rssi)).2.1 i
      have hsign : e.sign = dev.sign crypto := (congrArg EnrolleeInfo.sign hcopy).symm
      have hrandom : e.random = dev.aesRandom := (congrArg EnrolleeInfo.random hcopy).symm
      refine ⟨hqueued, (congrArg EnrolleeInfo.devName hcopy).symm,
        (congrArg EnrolleeInfo.pk hcopy).symm, hrandom,
        (congrArg EnrolleeInfo.security hcopy).symm, hsign, fun key hkey => ?_⟩
      exact (answer_iff { e with key := key } hcrypto hdev hap hmac hsign hrandom hkey).mpr hok

/-- The first block of a stream, which every block has here. -/
def xorBlock (data : Bytes) : Bytes :=
  data.mapIdx fun i b => b ^^^ ([140, 163, 104, 1, 36, 122, 115, 255, 222, 243, 225, 198, 151, 154,
    96, 238] : Bytes).getD (i % 16) 0

/-- The values that the hashes and the cipher have for the device below, and passwords of one
block. -/
def sampleCrypto : Crypto where
  sha256 := fun _ => [107, 183, 203, 46, 17, 206, 139, 200, 114, 93, 193, 17, 64, 84, 78, 40, 55,
    197, 208, 69, 100, 171, 221, 59, 251, 253, 230, 69, 124, 236, 11, 192]
  hmacSha1 := fun _ _ => [215, 150, 180, 121, 231, 252, 193, 200, 123, 200, 32, 20, 134, 161, 212,
    209, 105, 168, 77, 15]
  cfbEncrypt := fun _ _ data => xorBlock data
  cfbDecrypt := fun _ _ data => xorBlock data

theorem xorBlock_xorBlock (data : Bytes) : xorBlock (xorBlock data) = data := by
  apply ext_getElem
  · simp [xorBlock]
  · intro i hi hi'
    simp [xorBlock]

theorem sampleCrypto_lawful : sampleCrypto.Lawful where
  length_hmacSha1 := fun _ _ => rfl
  length_cfbEncrypt := fun _ _ _ => length_mapIdx
  decrypt_encrypt := fun _ _ data => xorBlock_xorBlock data

/-- A device with the name `d1` of the product `a1pk`, and its secret `s`. -/
def sampleDevice : Enrollee where
  productKey := [97, 49, 112, 107]
  deviceName := [100, 49]
  productSecret := [115]
  deviceSecret := []
  aesRandom := [0, 1, 2, 3, 4, 5, 6, 7, 8, 9, 10, 11, 12, 13, 14, 15]
  encryptType := 3
  mac := [2, 0, 0, 0, 0, 1]

theorem sampleDevice_fits : sampleDevice.Fits :=
  ⟨by decide, by decide, by decide, by decide, by decide⟩

theorem room_zero (pk devName : Bytes) : Room (fun _ => EnrolleeInfo.zero) pk devName :=
  ⟨⟨⟨0, by decide⟩, rfl⟩, fun _ hne => absurd rfl hne⟩

/-- The network `ap` with the password `wifi`. -/
theorem zeroConfig_roundTrips_wifi :
    RoundTrips sampleCrypto sampleDevice (fun _ => EnrolleeInfo.zero) 0 (-40)
      ⟨⟨[97, 112], by decide⟩, ⟨[119, 105, 102, 105], by decide⟩, [2, 0, 0, 0, 0, 2]⟩
      [2, 0, 0, 0, 0, 3] :=
  (zeroConfig_roundTrips_iff sampleCrypto sampleDevice (fun _ => EnrolleeInfo.zero) 0 (-40)
    ⟨⟨[97, 112], by decide⟩, ⟨[119, 105, 102, 105], by decide⟩, [2, 0, 0, 0, 0, 2]⟩
    [2, 0, 0, 0, 0, 3] ['w', 'i', 'f', 'i'] sampleCrypto_lawful sampleDevice_fits (room_zero _ _)
    ⟨by decide, by decide, by decide⟩ (by decide) (by decide)).mpr
      ⟨Or.inl (by decide), by simp [ShortChars]⟩

/-- A password with a character of four bytes does not get through. -/
theorem zeroConfig_roundTrips_broken :
    ¬ ∀ (crypto : Crypto) (dev : Enrollee) (table : EnrolleeTable) (now : UInt32) (rssi : ℤ)
      (ap : ApInfo) (mac : Bytes) (s : List Char), crypto.Lawful → dev.Fits →
        Room table dev.productKey dev.deviceName → ap.Admitted → mac.length = ethAlen →
          ap.passwd.bytes = utf8Bytes s → RoundTrips crypto dev table now rssi ap mac := by
  intro hclaim
  have h := hclaim sampleCrypto sampleDevice (fun _ => EnrolleeInfo.zero) 0 (-40)
    ⟨⟨[97, 112], by decide⟩, ⟨[0xF0, 0x9F, 0x98, 0x80], by decide⟩, [2, 0, 0, 0, 0, 2]⟩
    [2, 0, 0, 0, 0, 3] ['😀'] sampleCrypto_lawful sampleDevice_fits (room_zero _ _)
    ⟨by decide, by decide, by decide⟩ (by decide) (by decide)
  obtain ⟨i, e, -, -, -, -, hrandom, -, hsign, hanswer⟩ := h.stored
  obtain ⟨key, hkey⟩ := sharedKey_exists sampleCrypto sampleDevice
  have hread := (answer_iff { e with key := key } sampleCrypto_lawful sampleDevice_fits
    ⟨by decide, by decide, by decide⟩ (by decide) hsign hrandom hkey).mp (hanswer key hkey)
  exact absurd hread.2 (by decide)

end Iotkit.ZeroConfig
