/-
# The fields of an element (`awss_enrollee.c`, `awss_registrar.c`)

The elements of zero config are rows of fields with their lengths in front, walked through a
pointer.  Each access to the element and to the device's own signature is recorded: no length of a
field is compared with that of the element, and the signature is compared for as many bytes as the
element says.
-/
import Iotkit.AccessLog
import Iotkit.ZeroConfig

namespace Iotkit.ZeroConfig

open AccessLog Logged

/-- An access: a byte of the memory from the element on is read or written, or one from
`g_dev_sign` on is read. -/
inductive FieldAccess where
  | read (offset : ℕ)
  | write (offset : ℕ)
  | devSign (offset : ℕ)
  deriving DecidableEq

variable (ie : Bytes)

def elementLen : ℕ := (ie.getD 1 0).toNat + 2

/-- An access to a byte of the element, or of the signature of the device. -/
def FieldAccess.Inside : FieldAccess → Prop
  | .read offset => offset < elementLen ie
  | .write offset => offset < elementLen ie
  | .devSign offset => offset < enrolleeSignSize

/-! ## Reading an element -/

def byteAt (offset : ℕ) : Logged FieldAccess UInt8 :=
  Logged.access (.read offset) (ie.getD offset 0)

def bytesAt (offset n : ℕ) : Logged FieldAccess Bytes :=
  ⟨(ie.drop offset).takeD n 0, (List.range n).map fun i => .read (offset + i)⟩

/-- Bytes of the signature are read. -/
def devSignAt (devSign : Bytes) (n : ℕ) : Logged FieldAccess Bytes :=
  ⟨devSign.takeD n 0, (List.range n).map .devSign⟩

variable (ie : Bytes) (offset : ℕ)

@[simp] theorem val_byteAt : (byteAt ie offset).val = ie.getD offset 0 := rfl

@[simp] theorem val_bytesAt (n : ℕ) : (bytesAt ie offset n).val = (ie.drop offset).takeD n 0 := rfl

@[simp] theorem within_byteAt :
    (byteAt ie offset).Within (FieldAccess.Inside ie) ↔ offset < elementLen ie :=
  within_access _ _

@[simp] theorem within_bytesAt (n : ℕ) :
    (bytesAt ie offset n).Within (FieldAccess.Inside ie) ↔
      n = 0 ∨ offset + n ≤ elementLen ie := by
  simp only [Logged.Within, bytesAt, List.forall_mem_map, List.mem_range]
  constructor
  · intro hall
    rcases Nat.eq_zero_or_pos n with hzero | hpos
    · exact .inl hzero
    · have hlast : offset + (n - 1) < elementLen ie := hall (n - 1) (by omega)
      right
      omega
  · intro hlast i hi
    show offset + i < elementLen ie
    omega

@[simp] theorem within_devSignAt (devSign : Bytes) (n : ℕ) :
    (devSignAt devSign n).Within (FieldAccess.Inside ie) ↔ n ≤ enrolleeSignSize := by
  simp only [Logged.Within, devSignAt, List.forall_mem_map, List.mem_range]
  constructor
  · intro hall
    rcases Nat.eq_zero_or_pos n with rfl | hpos
    · exact Nat.zero_le _
    · have hlast : n - 1 < enrolleeSignSize := hall (n - 1) (by omega)
      omega
  · intro hle i hi
    show i < enrolleeSignSize
    omega

@[simp] theorem within_write :
    (Logged.access (FieldAccess.write offset) ()).Within (FieldAccess.Inside ie) ↔
      offset < elementLen ie := within_access _ _

/-! ## The element of an enrollee -/

namespace Fields

/-- `process_enrollee_ie` up to the call of `enrollee_put`. -/
def processEnrolleeIe (ie : Bytes) (rssi : ℤ) :
    Logged FieldAccess (Option EnrolleeInfo) := do
  let devTypeVer ← byteAt ie 6
  if devTypeVer ≠ deviceTypeVersion then pure none
  else do
    let devNameLen ← byteAt ie 7
    if maxDevNameLen < devNameLen.toNat then pure none
    else do
      let devName ← bytesAt ie 8 devNameLen.toNat
      let pos := 8 + devNameLen.toNat
      let frameType ← byteAt ie pos
      if frameType ≠ enrolleeFrameType then pure none
      else do
        let pkLen ← byteAt ie (pos + 1)
        if maxPkLen < pkLen.toNat then pure none
        else do
          let pk ← bytesAt ie (pos + 2) pkLen.toNat
          let pos := pos + 2 + pkLen.toNat
          let randLen ← byteAt ie pos
          if randLen.toNat ≠ randomMaxLen then pure none
          else do
            let random ← bytesAt ie (pos + 1) randomMaxLen
            let pos := pos + 1 + randomMaxLen
            let security ← byteAt ie pos
            if 5 < security ∨ security < 3 then pure none
            else do
              let signMethod ← byteAt ie (pos + 1)
              if 1 < signMethod then pure none
              else do
                let signLen ← byteAt ie (pos + 2)
                if signLen.toNat ≠ enrolleeSignSize then pure none
                else do
                  let sign ← bytesAt ie (pos + 3) signLen.toNat
                  pure <| some
                    { EnrolleeInfo.zero with
                      devTypeVer := devTypeVer
                      devName := devName
                      frameType := frameType
                      pk := pk
                      random := random
                      security := security
                      signMethod := signMethod
                      sign := sign
                      rssi := rssi }

/-! ## The element of a registrar -/

/-- Whether `g_dev_sign` is set, and whether `aes_decrypt_string` gets its memory. -/
structure ZconfigEnv where
  devSign : Bool
  memory : Bool

/-- `aes_decrypt_string`: the password is copied before it is decrypted. -/
def aesDecryptString (crypto : Crypto) (dev : Enrollee) (env : ZconfigEnv) (ie : Bytes)
    (offset passwdLen : ℕ) : Logged FieldAccess Bytes :=
  if env.memory = true then do
    let cipher ← bytesAt ie offset passwdLen
    pure (ZeroConfig.aesDecryptString crypto dev cipher)
  else pure (List.replicate passwdLen 0)

variable (crypto : Crypto) (dev : Enrollee)

/-- The memory from `g_dev_sign` on. -/
def gDevSign : Bytes :=
  dev.sign crypto ++ probeReqFrame.drop (probeReqFrame.length - fcsSize)

variable (env : ZconfigEnv)

/-- The comparison of the signature: `memcmp` looks at all of its bytes on both sides. -/
def signMatches (ie : Bytes) (signLen : ℕ) : Logged FieldAccess Bool :=
  if env.devSign = true then do
    let expected ← devSignAt (gDevSign crypto dev) signLen
    let received ← bytesAt ie 8 signLen
    pure (expected = received)
  else pure false

/-- `dump_hex` of the signature of the device. -/
def dumpDevSign (signLen : ℕ) :
    Logged FieldAccess Bytes :=
  if env.devSign = true then devSignAt (gDevSign crypto dev) signLen else pure []

/-- The branch of a signature that does not match: its last byte is set to zero, and both
signatures are printed. -/
def dumpSigns (ie : Bytes) (signLen : ℕ) : Logged FieldAccess Unit := do
  Logged.access (.write (7 + signLen)) ()
  let _ ← dumpDevSign crypto dev env signLen
  let _ ← bytesAt ie 8 signLen
  pure ()

/-- `decrypt_ssid_passwd` behind the signature. -/
def decryptFields (ie : Bytes) (pos : ℕ) : Logged FieldAccess (Option ZcResult) := do
  let frameType ← byteAt ie pos
  if frameType ≠ registrarFrameType then pure none
  else do
    let ssidLen ← byteAt ie (pos + 1)
    if osMaxSsidLen ≤ ssidLen.toNat then pure none
    else do
      let ssid ← bytesAt ie (pos + 2) ssidLen.toNat
      let pos := pos + 2 + ssidLen.toNat
      let passwdLen ← byteAt ie pos
      if osMaxPasswdLen ≤ passwdLen.toNat then pure none
      else do
        let passwd ← aesDecryptString crypto dev env ie (pos + 1) passwdLen.toNat
        let pos := pos + 1 + passwdLen.toNat
        if isUtf8 passwd = false then pure none
        else do
          let bssid ← bytesAt ie pos ethAlen
          pure <| some
            { ssid := (cString ssid).take (osMaxSsidLen - 1)
              passwd := (cString passwd).take (osMaxPasswdLen - 1)
              bssid := bssid }

def decryptSsidPasswd (ie : Bytes) :
    Logged FieldAccess (Option ZcResult) := do
  let version ← byteAt ie 6
  if version ≠ deviceTypeVersion then pure none
  else do
    let signLen ← byteAt ie 7
    let isMatch ← signMatches crypto dev env ie signLen.toNat
    if isMatch = false then do
      let _ ← dumpSigns crypto dev env ie signLen.toNat
      pure none
    else decryptFields crypto dev env ie (8 + signLen.toNat)

def awssRecvCallbackZconfig (ie : Bytes) (alinkIeLen : ℤ) :
    Logged FieldAccess (Option ZcResult) := do
  let ieLen ← byteAt ie 1
  if alinkIeLen < ieLen.toNat then pure none
  else decryptSsidPasswd crypto dev env ie

/-! ## The values -/

theorem val_ite {c : Prop} [Decidable c] {α : Type} (m m' : Logged FieldAccess α) :
    (if c then m else m').val = if c then m.val else m'.val := by
  split_ifs <;> rfl

variable (ie : Bytes)

theorem getD_drop (m n : ℕ) : (ie.drop m).getD n 0 = ie.getD (m + n) 0 := by
  rw [List.getD_eq_getElem?_getD, List.getD_eq_getElem?_getD, List.getElem?_drop]

theorem ite_none_congr {α : Type} {c : Prop} [Decidable c] {d : Decidable c} {x y : Option α}
    (h : ¬ c → x = y) : (if c then none else x) = @ite _ c d none y := by
  by_cases hc : c
  · rw [if_pos hc, if_pos hc]
  · rw [if_neg hc, if_neg hc, h hc]

theorem val_processEnrolleeIe (rssi : ℤ) :
    (processEnrolleeIe ie rssi).val = ZeroConfig.processEnrolleeIe ie rssi := by
  have hname (n : UInt8) : 7 + (n.toNat + 1) = 8 + n.toNat := by omega
  have hrand (n : ℕ) (k : UInt8) : 8 + n + 1 + (k.toNat + 1) = 8 + n + 2 + k.toNat := by omega
  unfold processEnrolleeIe ZeroConfig.processEnrolleeIe
  simp only [getD_drop, List.drop_drop, Nat.reduceAdd, Nat.add_zero, hname, hrand]
  rw [val_bind, val_ite]
  refine ite_none_congr fun _ => ?_
  rw [val_bind, val_ite]
  refine ite_none_congr fun _ => ?_
  rw [val_bind, val_bind, val_ite]
  refine ite_none_congr fun _ => ?_
  rw [val_bind, val_ite]
  refine ite_none_congr fun _ => ?_
  rw [val_bind, val_bind, val_ite]
  refine ite_none_congr fun hlen => ?_
  simp only [val_byteAt, val_bytesAt, not_not] at hlen ⊢
  simp only [hlen]
  rw [val_bind, val_bind, val_ite]
  refine ite_none_congr fun _ => ?_
  rw [val_bind, val_ite]
  refine ite_none_congr fun _ => ?_
  rw [val_bind, val_ite]
  exact ite_none_congr fun _ => rfl

variable (crypto : Crypto)

/-- What `decrypt_ssid_passwd` finds, when the signature is there and there is memory. -/
theorem val_decryptSsidPasswd (ie : Bytes) :
    (decryptSsidPasswd crypto dev ⟨true, true⟩ ie).val =
      ZeroConfig.decryptSsidPasswd crypto dev ie := by
  have hsign (n : UInt8) : 7 + (n.toNat + 1) = 8 + n.toNat := by omega
  have hpasswd (n : ℕ) (k : UInt8) : 8 + n + 1 + (k.toNat + 1) = 8 + n + 2 + k.toNat := by omega
  have hbssid (n k : ℕ) (p : UInt8) :
      8 + n + 2 + k + (p.toNat + 1) = 8 + n + 2 + k + 1 + p.toNat := by omega
  unfold decryptSsidPasswd ZeroConfig.decryptSsidPasswd
  simp only [getD_drop, List.drop_drop, Nat.reduceAdd, Nat.add_zero, hsign, hpasswd, hbssid]
  rw [val_bind, val_ite]
  refine ite_none_congr fun _ => ?_
  rw [val_bind, val_bind, val_ite]
  have hmatch : (signMatches crypto dev ⟨true, true⟩ ie (ie.getD 7 0).toNat).val =
      decide ((gDevSign crypto dev).takeD (ie.getD 7 0).toNat 0 =
        (ie.drop 8).takeD (ie.getD 7 0).toNat 0) := rfl
  simp only [val_byteAt, hmatch, decide_eq_false_iff_not]
  refine ite_none_congr fun _ => ?_
  rw [decryptFields, val_bind, val_ite]
  refine ite_none_congr fun _ => ?_
  rw [val_bind, val_ite]
  refine ite_none_congr fun _ => ?_
  rw [val_bind, val_bind, val_ite]
  refine ite_none_congr fun _ => ?_
  rw [val_bind, val_ite]
  exact ite_none_congr fun _ => rfl

theorem val_awssRecvCallbackZconfig (ie : Bytes) (alinkIeLen : ℤ) :
    (awssRecvCallbackZconfig crypto dev ⟨true, true⟩ ie alinkIeLen).val =
      ZeroConfig.awssRecvCallbackZconfig crypto dev ie alinkIeLen := by
  unfold awssRecvCallbackZconfig ZeroConfig.awssRecvCallbackZconfig
  rw [val_bind, val_ite, val_decryptSsidPasswd]
  rfl

/-! ## The ends of the fields -/

def devNameLen (ie : Bytes) : ℕ := (ie.getD 7 0).toNat

def pkLen (ie : Bytes) : ℕ := (ie.getD (8 + devNameLen ie + 1) 0).toNat

/-- Where the random number of an enrollee starts with its length. -/
def randomPos (ie : Bytes) : ℕ := 8 + devNameLen ie + 2 + pkLen ie

/-- Where the bytes end that an element of an enrollee is refused or accepted by: that of the
first field which is refused, or that of the last one. -/
def enrolleeEnd (ie : Bytes) : ℕ :=
  let pos := randomPos ie + 1 + randomMaxLen
  if ie.getD 6 0 ≠ deviceTypeVersion then 7
  else if maxDevNameLen < devNameLen ie then 8
  else if ie.getD (8 + devNameLen ie) 0 ≠ enrolleeFrameType then 8 + devNameLen ie + 1
  else if maxPkLen < pkLen ie then 8 + devNameLen ie + 2
  else if (ie.getD (randomPos ie) 0).toNat ≠ randomMaxLen then randomPos ie + 1
  else if 5 < ie.getD pos 0 ∨ ie.getD pos 0 < 3 then pos + 1
  else if 1 < ie.getD (pos + 1) 0 then pos + 2
  else if (ie.getD (pos + 2) 0).toNat ≠ enrolleeSignSize then pos + 3
  else pos + 3 + enrolleeSignSize

def signLen (ie : Bytes) : ℕ := (ie.getD 7 0).toNat

def ssidLen (ie : Bytes) : ℕ := (ie.getD (8 + signLen ie + 1) 0).toNat

/-- Where the password of a registrar starts with its length. -/
def passwdPos (ie : Bytes) : ℕ := 8 + signLen ie + 2 + ssidLen ie

def passwdLen (ie : Bytes) : ℕ := (ie.getD (passwdPos ie) 0).toNat

/-- The bytes of the signature agree, as many as the element says. -/
def SignAgrees (crypto : Crypto) (dev : Enrollee) (env : ZconfigEnv) (ie : Bytes) : Prop :=
  env.devSign = true ∧
    (gDevSign crypto dev).takeD (signLen ie) 0 = (ie.drop 8).takeD (signLen ie) 0

instance (crypto : Crypto) (dev : Enrollee) (env : ZconfigEnv) (ie : Bytes) :
    Decidable (SignAgrees crypto dev env ie) := inferInstanceAs (Decidable (_ ∧ _))

/-- The password of an element; it is empty when there is no memory to decrypt it in. -/
def passwd (crypto : Crypto) (dev : Enrollee) (env : ZconfigEnv) (ie : Bytes) : Bytes :=
  if env.memory = true then
    ZeroConfig.aesDecryptString crypto dev ((ie.drop (passwdPos ie + 1)).takeD (passwdLen ie) 0)
  else List.replicate (passwdLen ie) 0

/-- Where the bytes end that an element of a registrar is refused or accepted by behind its
signature. -/
def decryptEnd (crypto : Crypto) (dev : Enrollee) (env : ZconfigEnv) (ie : Bytes) : ℕ :=
  if ie.getD (8 + signLen ie) 0 ≠ registrarFrameType then 8 + signLen ie + 1
  else if osMaxSsidLen ≤ ssidLen ie then 8 + signLen ie + 2
  else if osMaxPasswdLen ≤ passwdLen ie then passwdPos ie + 1
  else if isUtf8 (passwd crypto dev env ie) = false then
    passwdPos ie + 1 + if env.memory = true then passwdLen ie else 0
  else passwdPos ie + 1 + passwdLen ie + ethAlen

/-- Where the bytes end that an element of a registrar is refused or accepted by. -/
def registrarEnd (crypto : Crypto) (dev : Enrollee) (env : ZconfigEnv) (ie : Bytes) : ℕ :=
  if ie.getD 6 0 ≠ deviceTypeVersion then 7
  else if ¬ SignAgrees crypto dev env ie then 8 + signLen ie
  else decryptEnd crypto dev env ie

/-- The fields of an element are those that a registrar sends, whatever their lengths. -/
def Answers (crypto : Crypto) (dev : Enrollee) (env : ZconfigEnv) (ie : Bytes) : Prop :=
  ie.getD 6 0 = deviceTypeVersion ∧ SignAgrees crypto dev env ie ∧
    ie.getD (8 + signLen ie) 0 = registrarFrameType ∧ ssidLen ie < osMaxSsidLen ∧
    passwdLen ie < osMaxPasswdLen ∧ isUtf8 (passwd crypto dev env ie) = true

/-! ## Bounds -/

theorem stage_iff {c P Q : Prop} [Decidable c] {a b len : ℕ} (hP : P ↔ a ≤ len)
    (hQ : ¬ c → (P ∧ Q ↔ b ≤ len)) : P ∧ (¬ c → Q) ↔ (if c then a else b) ≤ len := by
  by_cases hc : c
  · rw [if_pos hc, hP]
    exact and_iff_left fun hnot => absurd hc hnot
  · rw [if_neg hc, ← hQ hc]
    simp only [hc, not_false_eq_true, true_implies]

theorem within_processEnrolleeIe_iff (rssi : ℤ) :
    (processEnrolleeIe ie rssi).Within (FieldAccess.Inside ie) ↔
      enrolleeEnd ie ≤ elementLen ie := by
  have hrandom : randomMaxLen = 16 := rfl
  have hsize : enrolleeSignSize = 20 := rfl
  unfold processEnrolleeIe
  simp only [within_bind, within_ite, within_pure, within_byteAt,
    within_bytesAt, implies_true, true_and, and_true]
  simp only [val_byteAt, enrolleeEnd, randomPos, pkLen, devNameLen]
  refine stage_iff (by omega) fun _ => ?_
  rw [← and_assoc]
  refine stage_iff (by omega) fun _ => ?_
  rw [← and_assoc, ← and_assoc]
  refine stage_iff (by omega) fun _ => ?_
  rw [← and_assoc]
  refine stage_iff (by omega) fun _ => ?_
  rw [← and_assoc, ← and_assoc]
  refine stage_iff (by omega) fun _ => ?_
  rw [← and_assoc, ← and_assoc]
  refine stage_iff (by omega) fun _ => ?_
  rw [← and_assoc]
  refine stage_iff (by omega) fun _ => ?_
  rw [← and_assoc]
  exact stage_iff (by omega) fun hlen => by omega

theorem within_signMatches (ie : Bytes) (n : ℕ) :
    (signMatches crypto dev env ie n).Within (FieldAccess.Inside ie) ↔
      (env.devSign = true → n ≤ enrolleeSignSize ∧ (n = 0 ∨ 8 + n ≤ elementLen ie)) := by
  unfold signMatches
  simp only [within_ite, within_bind, within_pure, within_devSignAt,
    within_bytesAt, implies_true, and_true]

theorem val_signMatches (dev : Enrollee) (env : ZconfigEnv) (ie : Bytes) :
    (signMatches crypto dev env ie (ie.getD 7 0).toNat).val = true ↔
      SignAgrees crypto dev env ie := by
  unfold signMatches SignAgrees signLen
  rw [val_ite]
  split_ifs with hsign
  · show decide _ = true ↔ _
    rw [decide_eq_true_iff, and_iff_right hsign]
    rfl
  · exact iff_of_false not_false fun h => hsign h.1

theorem within_dumpSigns (ie : Bytes) (n : ℕ) :
    (dumpSigns crypto dev env ie n).Within (FieldAccess.Inside ie) ↔
      8 + n ≤ elementLen ie ∧ (env.devSign = true → n ≤ enrolleeSignSize) := by
  unfold dumpSigns dumpDevSign
  simp only [within_ite, within_bind, within_pure, within_devSignAt,
    within_bytesAt, within_write, implies_true, and_true]
  cases env.devSign with
  | true =>
    simp only [true_implies]
    omega
  | false =>
    simp only [Bool.false_eq_true, false_implies, true_and, and_true]
    omega

theorem within_aesDecryptString (ie : Bytes) (offset n : ℕ) :
    (aesDecryptString crypto dev env ie offset n).Within (FieldAccess.Inside ie) ↔
      (env.memory = true → n = 0 ∨ offset + n ≤ elementLen ie) := by
  unfold aesDecryptString
  simp only [within_ite, within_bind, within_pure, within_bytesAt,
    implies_true, and_true]

theorem val_aesDecryptString_eq (dev : Enrollee) (env : ZconfigEnv)
    (ie : Bytes) :
    (aesDecryptString crypto dev env ie (passwdPos ie + 1) (passwdLen ie)).val =
      passwd crypto dev env ie := by
  unfold aesDecryptString passwd
  rw [val_ite]
  rfl

theorem within_decryptFields_iff (dev : Enrollee) (env : ZconfigEnv)
    (ie : Bytes) :
    (decryptFields crypto dev env ie (8 + signLen ie)).Within (FieldAccess.Inside ie) ↔
      decryptEnd crypto dev env ie ≤ elementLen ie := by
  have haddress : ethAlen = 6 := rfl
  have hpasswd := val_aesDecryptString_eq crypto dev env ie
  unfold decryptFields
  simp only [within_bind, within_ite, within_pure, within_byteAt,
    within_bytesAt, within_aesDecryptString, implies_true, true_and, and_true]
  simp only [val_byteAt]
  have hssidLen : (ie.getD (8 + signLen ie + 1) 0).toNat = ssidLen ie := rfl
  have hpos : 8 + signLen ie + 2 + ssidLen ie = passwdPos ie := rfl
  have hpasswdLen : (ie.getD (passwdPos ie) 0).toNat = passwdLen ie := rfl
  simp only [hssidLen, hpos, hpasswdLen, hpasswd]
  refine stage_iff (by omega) fun _ => ?_
  rw [← and_assoc]
  refine stage_iff (by omega) fun _ => ?_
  rw [← and_assoc, ← and_assoc]
  refine stage_iff (by omega) fun _ => ?_
  rw [← and_assoc]
  cases env.memory with
  | true =>
    simp only [true_implies, if_true]
    exact stage_iff (by omega) fun _ => by omega
  | false =>
    simp only [Bool.false_eq_true, false_implies, if_false, and_true]
    exact stage_iff (by omega) fun _ => by omega

theorem eight_le_decryptEnd (dev : Enrollee) (env : ZconfigEnv)
    (ie : Bytes) : 8 + signLen ie < decryptEnd crypto dev env ie := by
  unfold decryptEnd passwdPos
  split_ifs <;> omega

/-- An element of a registrar is walked inside if and only if the fields that are looked at end
inside, and the signature is not longer than that of the device. -/
theorem within_decryptSsidPasswd_iff (ie : Bytes) :
    (decryptSsidPasswd crypto dev env ie).Within (FieldAccess.Inside ie) ↔
      registrarEnd crypto dev env ie ≤ elementLen ie ∧
        (ie.getD 6 0 = deviceTypeVersion → env.devSign = true →
          signLen ie ≤ enrolleeSignSize) := by
  unfold decryptSsidPasswd
  simp only [within_bind, within_ite, within_pure, within_byteAt,
    within_signMatches, within_dumpSigns, implies_true, true_and, and_true]
  simp only [val_byteAt]
  by_cases hversion : ie.getD 6 0 = deviceTypeVersion
  · by_cases hagrees : SignAgrees crypto dev env ie
    · have hmatch : (signMatches crypto dev env ie (ie.getD 7 0).toNat).val = true :=
        (val_signMatches crypto dev env ie).mpr hagrees
      have hrest : (decryptFields crypto dev env ie (8 + (ie.getD 7 0).toNat)).Within
          (FieldAccess.Inside ie) ↔ decryptEnd crypto dev env ie ≤ elementLen ie :=
        within_decryptFields_iff crypto dev env ie
      simp only [hversion, hmatch, hrest, registrarEnd, hagrees, hagrees.1, ne_eq,
        not_true_eq_false, not_false_eq_true, true_implies, Bool.true_eq_false, false_implies,
        if_false, true_and]
      have hlast := eight_le_decryptEnd crypto dev env ie
      show _ ∧ _ ∧ (signLen ie ≤ _ ∧ (signLen ie = 0 ∨ 8 + signLen ie ≤ _)) ∧ _ ↔ _
      omega
    · have hmatch : (signMatches crypto dev env ie (ie.getD 7 0).toNat).val = false := by
        rw [← Bool.not_eq_true, val_signMatches]
        exact hagrees
      simp only [hversion, hmatch, registrarEnd, hagrees, ne_eq,
        not_true_eq_false, not_false_eq_true, true_implies, false_implies,
        if_false, if_true, and_true]
      show _ ∧ _ ∧ (_ → signLen ie ≤ _ ∧ (signLen ie = 0 ∨ 8 + signLen ie ≤ _)) ∧
        8 + signLen ie ≤ _ ∧ (_ → signLen ie ≤ _) ↔ _
      cases env.devSign with
      | true =>
        simp only [true_implies]
        omega
      | false =>
        simp only [Bool.false_eq_true, false_implies, true_and, and_true]
        omega
  · simp only [ne_eq, hversion, not_false_eq_true, not_true_eq_false, false_implies, and_true,
      registrarEnd, if_true]
    omega

/-! ## What is accepted -/

theorem and_then_iff {a b : Prop} : a ∧ (a → b) ↔ a ∧ b :=
  ⟨fun h => ⟨h.1, h.2 h.1⟩, fun h => ⟨h.1, fun _ => h.2⟩⟩

theorem decryptSsidPasswd_isSome_iff (dev : Enrollee) (env : ZconfigEnv)
    (ie : Bytes) :
    (decryptSsidPasswd crypto dev env ie).val.isSome = true ↔ Answers crypto dev env ie := by
  show (decryptSsidPasswd crypto dev env ie).Yields (fun r => r.isSome = true) ↔ _
  unfold decryptSsidPasswd decryptFields
  simp only [yields_bind, yields_ite, yields_pure, Option.isSome_none,
    Option.isSome_some, Bool.false_eq_true, implies_true, and_true, imp_false, and_then_iff]
  simp only [val_byteAt, ne_eq, not_not, not_le, Bool.not_eq_false]
  rw [val_signMatches, Answers, ← val_aesDecryptString_eq crypto dev env ie]
  rfl

/-- The end of the fields of an element of an enrollee. -/
def EnrolleeFits (ie : Bytes) : Prop :=
  randomPos ie + 1 + randomMaxLen + 3 + enrolleeSignSize ≤ elementLen ie

theorem enrolleeFits_of_isSome {ie : Bytes} {rssi : ℤ}
    (hinside : enrolleeEnd ie ≤ elementLen ie)
    (hsome : (processEnrolleeIe ie rssi).val.isSome = true) : EnrolleeFits ie := by
  have hyields : (processEnrolleeIe ie rssi).Yields (fun r => r.isSome = true) := hsome
  unfold processEnrolleeIe at hyields
  simp only [yields_bind, yields_ite, yields_pure, Option.isSome_none,
    Option.isSome_some, Bool.false_eq_true, implies_true, and_true, imp_false,
    and_then_iff] at hyields
  obtain ⟨hversion, hname, htype, hpk, hrandom, hsecurity, hmethod, hsign⟩ := hyields
  have hend : enrolleeEnd ie = randomPos ie + 1 + randomMaxLen + 3 + enrolleeSignSize :=
    (if_neg hversion).trans <| (if_neg hname).trans <| (if_neg htype).trans <|
      (if_neg hpk).trans <| (if_neg hrandom).trans <| (if_neg hsecurity).trans <|
        (if_neg hmethod).trans (if_neg hsign)
  rwa [hend] at hinside

end Fields

/-! ## Soundness -/

/-- An element of an enrollee is read inside, and is refused if its fields do not fit. -/
structure EnrolleeSound (ie : Bytes) (rssi : ℤ) : Prop where
  inside : (Fields.processEnrolleeIe ie rssi).Within (FieldAccess.Inside ie)
  fits : (Fields.processEnrolleeIe ie rssi).val.isSome = true → Fields.EnrolleeFits ie

/-- An element of a registrar is walked inside, is refused if its fields do not fit, and is
accepted only with the whole signature of the device. -/
structure RegistrarSound (crypto : Crypto) (dev : Enrollee) (env : Fields.ZconfigEnv)
    (ie : Bytes) (alinkIeLen : ℤ) : Prop where
  inside : (Fields.awssRecvCallbackZconfig crypto dev env ie alinkIeLen).Within
    (FieldAccess.Inside ie)
  fits : (Fields.awssRecvCallbackZconfig crypto dev env ie alinkIeLen).val.isSome = true →
    Fields.passwdPos ie + 1 + Fields.passwdLen ie + ethAlen ≤ elementLen ie
  signed : (Fields.awssRecvCallbackZconfig crypto dev env ie alinkIeLen).val.isSome = true →
    Fields.signLen ie = enrolleeSignSize ∧
      (ie.drop 8).takeD enrolleeSignSize 0 =
        (Fields.gDevSign crypto dev).takeD enrolleeSignSize 0

/-- The fields of a registrar that are looked at end inside, the signature is not longer than that
of the device, and if all fields are right, not shorter. -/
structure RegistrarRight (crypto : Crypto) (dev : Enrollee) (env : Fields.ZconfigEnv)
    (ie : Bytes) : Prop where
  inside : Fields.registrarEnd crypto dev env ie ≤ elementLen ie
  notLong : ie.getD 6 0 = deviceTypeVersion → env.devSign = true →
    Fields.signLen ie ≤ enrolleeSignSize
  whole : Fields.Answers crypto dev env ie → Fields.signLen ie = enrolleeSignSize

/-- **Elements.**  An element of an enrollee is treated soundly if and only if its fields, up to
the first one that is refused, end inside; one of a registrar, if and only if it is not even
looked at, or its fields end inside and its signature has the length of that of the device. -/
theorem element_fields_iff (crypto : Crypto) (dev : Enrollee) (env : Fields.ZconfigEnv)
    (ie : Bytes) (rssi alinkIeLen : ℤ) :
    (EnrolleeSound ie rssi ↔ Fields.enrolleeEnd ie ≤ elementLen ie) ∧
      (RegistrarSound crypto dev env ie alinkIeLen ↔
        ((ie.getD 1 0).toNat ≤ alinkIeLen → RegistrarRight crypto dev env ie)) := by
  constructor
  · rw [← Fields.within_processEnrolleeIe_iff ie rssi]
    exact ⟨fun h => h.inside, fun h => ⟨h, Fields.enrolleeFits_of_isSome
      ((Fields.within_processEnrolleeIe_iff ie rssi).mp h)⟩⟩
  · have hfirst : 1 < elementLen ie := by
      unfold elementLen
      omega
    have hwithin : (Fields.awssRecvCallbackZconfig crypto dev env ie alinkIeLen).Within
        (FieldAccess.Inside ie) ↔ ((ie.getD 1 0).toNat ≤ alinkIeLen →
          (Fields.decryptSsidPasswd crypto dev env ie).Within (FieldAccess.Inside ie)) := by
      unfold Fields.awssRecvCallbackZconfig
      simp only [within_bind, within_ite, within_pure, within_byteAt,
        implies_true, true_and, hfirst, not_lt]
      rfl
    have hval : (Fields.awssRecvCallbackZconfig crypto dev env ie alinkIeLen).val =
        if alinkIeLen < (ie.getD 1 0).toNat then none
        else (Fields.decryptSsidPasswd crypto dev env ie).val := by
      unfold Fields.awssRecvCallbackZconfig
      rw [val_bind, Fields.val_ite]
      rfl
    by_cases hlen : (ie.getD 1 0).toNat ≤ alinkIeLen
    · rw [if_neg (not_lt.mpr hlen)] at hval
      simp only [hlen, true_implies] at hwithin ⊢
      rw [Fields.within_decryptSsidPasswd_iff] at hwithin
      constructor
      · rintro ⟨hinside, -, hsigned⟩
        obtain ⟨hend, hlong⟩ := hwithin.mp hinside
        refine ⟨hend, hlong, fun hanswers => (hsigned ?_).1⟩
        rw [hval]
        exact (Fields.decryptSsidPasswd_isSome_iff crypto dev env ie).mpr hanswers
      · rintro ⟨hend, hlong, hwhole⟩
        refine ⟨hwithin.mpr ⟨hend, hlong⟩, fun hsome => ?_, fun hsome => ?_⟩ <;>
          rw [hval, Fields.decryptSsidPasswd_isSome_iff] at hsome
        · obtain ⟨hversion, hagrees, htype, hssid, hpasswd, hutf8⟩ := hsome
          rwa [Fields.registrarEnd, if_neg (not_not_intro hversion),
            if_neg (not_not_intro hagrees), Fields.decryptEnd, if_neg (not_not_intro htype),
            if_neg (not_le.mpr hssid), if_neg (not_le.mpr hpasswd),
            if_neg (Bool.eq_false_iff.not.mpr (not_not_intro hutf8))] at hend
        · have hsize := hwhole hsome
          refine ⟨hsize, ?_⟩
          have hsame := hsome.2.1.2
          rw [hsize] at hsame
          exact hsame.symm
    · rw [if_pos (not_le.mp hlen)] at hval
      simp only [hlen, false_implies, iff_true] at hwithin ⊢
      refine ⟨hwithin, fun hsome => ?_, fun hsome => ?_⟩ <;> rw [hval] at hsome
      · exact absurd hsome Bool.false_ne_true
      · exact absurd hsome Bool.false_ne_true

/-- Functions that leave a text as it is. -/
def plainCrypto : Crypto where
  sha256 := fun text => text
  hmacSha1 := fun _ _ => List.replicate enrolleeSignSize 7
  cfbEncrypt := fun _ _ text => text
  cfbDecrypt := fun _ _ text => text

/-- A device with the type of encryption 3. -/
def plainDevice : Enrollee where
  productKey := [112]
  deviceName := [100]
  productSecret := [115]
  deviceSecret := [116]
  aesRandom := List.replicate randomMaxLen 0
  encryptType := 3
  mac := List.replicate ethAlen 2

/-- The network `a` without a password, from a stranger who knows no signature. -/
def strangerIe : Bytes :=
  [221, 16, 0xD8, 0x96, 0xE0, 0xAB, 1, 0, 1, 1, 97, 0, 1, 2, 3, 4, 5, 6]

/-- The element of a stranger is accepted. -/
theorem element_fields_broken :
    ¬ ∀ (crypto : Crypto) (dev : Enrollee) (env : Fields.ZconfigEnv) (ie : Bytes)
      (rssi alinkIeLen : ℤ),
        EnrolleeSound ie rssi ∧ RegistrarSound crypto dev env ie alinkIeLen := by
  intro hclaim
  have hsigned := (hclaim plainCrypto plainDevice ⟨true, true⟩ strangerIe 0 18).2.signed (by
    rw [Fields.val_awssRecvCallbackZconfig]
    decide)
  exact absurd hsigned.1 (by decide)

end Iotkit.ZeroConfig
