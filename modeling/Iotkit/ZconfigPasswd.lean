/-
# The name and the password of a complete message (`awss_smartconfig.c`)

`zconfig_get_ssid_passwd` with all that it reads and stores: behind the checksum it copies or
decodes the name, stores it unless one is known already, amends it from the list of access points,
and decodes and decrypts the password into its array.  The lengths of both come from the message,
and what is looked at before is only that their sum is that of the message.
-/
import Iotkit.AwssCrypt

namespace Iotkit.Awss

open AccessLog LibC Logged

/-! ## The function -/

/-- `zconfig_get_apinfo`: the first entry from 1 on with the address. -/
def zconfigGetApinfo (aplist : ApList) (mac : Mac) : Option ApInfo :=
  ((List.finRange maxAplistNum).find? fun i =>
    decide (1 ≤ i.val ∧ i.val < aplist.zconfigAplistNum) &&
      decide ((aplist.zconfigAplist i).mac = mac)).map aplist.zconfigAplist

/-- What the outside gives to `zconfig_get_ssid_passwd`: its memory, that of the functions it
calls, the list of access points, and the bytes behind the array of the password. -/
structure PasswdEnv where
  encodeMemory : Bool
  passwdMemory : Bool
  ssidDecodeMemory : Bool
  passwdDecodeMemory : Bool
  crypt : CryptEnv
  aplist : ApList
  behind : Memory

/-- The characters up to the terminator. -/
def untilNul (s : Bytes) : Bytes := s.takeWhile (· ≠ 0)

variable (env : PasswdEnv)

/-- The name of a message in the buffer `tmp`, in which the scores stand before. -/
def readSsid (flag : ℕ) (pbuf scores : Bytes) :
    Logged CopyUse Bytes :=
  if flag &&& ssidEncodeMask = 0 then
    Logged.access (.ssid pbuf.length) (untilNul (pbuf.map (· + 32)))
  else
    match decodeChinese env.ssidDecodeMemory pbuf 6 with
    | some ssid => Logged.access (.ssid ssid.length) (untilNul ssid)
    | none => pure (untilNul scores)

variable (z : ZconfigData)

/-- `strncpy` to the name that is stored. -/
def strncpySsid (ssid : Bytes) : Logged CopyUse ZconfigData :=
  Logged.access (.ssid (zcMaxSsidLen - 1)) { z with ssid := ssid.take (zcMaxSsidLen - 1) }

/-- The name is amended by that of the access point with the address that is known. -/
def amendSsid : Logged CopyUse ZconfigData :=
  match zconfigGetApinfo env.aplist z.bssid with
  | none => pure z
  | some ap =>
    if ap.name = [] then pure z
    else if ap.name = zcAdhaSsid ∨ ap.name = zcDefaultSsid then
      pure { z with bssid := fun _ => 0 }
    else strncpySsid z ap.name

def storeSsid (flag : ℕ) (pbuf scores : Bytes) :
    Logged CopyUse ZconfigData := do
  let tmp ← readSsid env flag pbuf scores
  let z ← if z.ssid = [] ∨ z.ssidAutoCompleteDisable then strncpySsid z tmp else pure z
  amendSsid env z

/-- The password of a message is decoded, decrypted and stored. -/
def storePasswd (pbuf : Bytes) :
    Logged CopyUse (Bool × ZconfigData × Passwd) := do
  let cipher ← decodePasswd env.passwdDecodeMemory pbuf 6
  let plain ← aesDecryptString env.crypt cipher
  if isUtf8 (passwdMem (fillPasswd plain) env.behind) cipher.length = false then
    pure (false, zeroZconfigData, fillPasswd [])
  else pure (true, z, fillPasswd plain)

/-- `zconfig_get_ssid_passwd` behind the checksum: the bytes of the message are in `buf`. -/
def storeSsidPasswd (buf : Memory) (scores : Bytes) :
    Logged CopyUse (Bool × ZconfigData × Passwd) :=
  if (buf 1).toNat &&& ssidExistMask ≠ 0 then do
    let ssidLen := (buf 2).toNat
    let passwdLen := (buf 3).toNat
    let z ← storeSsid env z (buf 1).toNat (memSlice buf 4 ssidLen) scores
    storePasswd env z (memSlice buf (4 + ssidLen) passwdLen)
  else storePasswd env z (memSlice buf 3 (buf 2).toNat)

/-- The bytes of the packages of a message of length `n`. -/
def messageBytes (tods : Bool) (n : ℕ) : List ℕ :=
  (readPackages z tods n).val

/-- `buf`, of which the rest is zero. -/
def messageMem (tods : Bool) (n : ℕ) : ℕ → UInt8 :=
  fun i => UInt8.ofNat ((messageBytes z tods n).getD i 0)

/-- The length that the first package of a message has. -/
def messageLen (tods : Bool) : ℕ := (z.pkg tods 1).len &&& payloadBitsMask

/-- `PASSWD_ENCRYPT_OPEN` and `PASSWD_ENCRYPT_CIPHER` are not supported. -/
def encryptSupported (buf : List ℕ) : Prop := 1 < (buf.getD 1 0 &&& 0x06) >>> 1

instance (buf : List ℕ) : Decidable (encryptSupported buf) := inferInstanceAs (Decidable (_ < _))

/-- The checksum of a message of `n` bytes is right. -/
def ChecksumRight (buf : List ℕ) (n : ℕ) : Prop :=
  buf.getD (n - 2) 0 * 2 ^ 8 + buf.getD (n - 1) 0 = zconfigChecksumV3 (buf.take (n - 2))

instance (buf : List ℕ) (n : ℕ) : Decidable (ChecksumRight buf n) :=
  inferInstanceAs (Decidable (_ = _))

/-- The scores of a message, as they stand in `tmp`. -/
def messageScores (tods : Bool) (n : ℕ) : Bytes :=
  (List.range' 1 n).map fun i => UInt8.ofNat (toUInt8 (z.pkg tods i).score)

/-- The data after it was looked whether a message is complete. -/
def completedData (tods memory : Bool) : ZconfigData :=
  (zconfigRecvCompleted z tods memory).val.2

/-- `zconfig_get_ssid_passwd` once the message was found complete. -/
def storeCompleted (tods : Bool) (env : PasswdEnv) (passwd : Passwd) :
    Logged CopyUse (Bool × ZconfigData × Passwd) :=
  let packageNum := messageLen z tods
  let buf := messageBytes z tods packageNum
  if ¬ encryptSupported buf then pure (false, z, passwd)
  else if ¬ ChecksumRight buf packageNum then
    let z := (halveScores z false packageNum).val
    pure (false, (halveScores z true packageNum).val, passwd)
  else storeSsidPasswd env z (messageMem z tods packageNum) (messageScores z tods packageNum)

/-- `zconfig_get_ssid_passwd` with what is stored: whether it returns 0, the data, and the
password. -/
def zconfigStoreSsidPasswd (tods : Bool) (env : PasswdEnv) (passwd : Passwd) :
    Logged CopyUse (Bool × ZconfigData × Passwd) :=
  if (zconfigRecvCompleted z tods env.encodeMemory).val.1 = false ∨ env.passwdMemory = false then
    pure (false, completedData z tods env.encodeMemory, passwd)
  else storeCompleted (completedData z tods env.encodeMemory) tods env passwd

/-! ## What stays as it is -/

theorem keptByCompletion_ssid (ssid : Bytes) :
    KeptByCompletion fun z => z.ssid = ssid where
  score := fun h _ _ => h
  len := fun h _ _ _ => h
  disable := fun h => h

theorem ssid_halveScores (tods : Bool) (n : ℕ) : (halveScores z tods n).val.ssid = z.ssid := by
  have hloop : (halveScores z tods n).Yields fun z' => z'.ssid = z.ssid := by
    rw [halveScores]
    apply yields_foldlM
    · intro i _ z' h
      exact h
    · rfl
  exact hloop

/-! ## Messages that fit -/

/-- The number of bytes of a name of `n` groups or letters. -/
def ssidBytes (flag n : ℕ) : ℕ := if flag &&& ssidEncodeMask = 0 then n else n * 6 / 8

def passwdBytes (n : ℕ) : ℕ := n * 6 / 8

/-- The lengths in the head of a message are those of a name and a password that have room. -/
def MessageFits (buf : Memory) : Prop :=
  if (buf 1).toNat &&& ssidExistMask ≠ 0 then
    ssidBytes (buf 1).toNat (buf 2).toNat ≤ zcMaxSsidLen ∧
      passwdBytes (buf 3).toNat ≤ zcMaxPasswdLen
  else passwdBytes (buf 2).toNat ≤ zcMaxPasswdLen

instance (buf : Memory) : Decidable (MessageFits buf) :=
  inferInstanceAs (Decidable (if (buf 1).toNat &&& ssidExistMask ≠ 0 then
    ssidBytes (buf 1).toNat (buf 2).toNat ≤ zcMaxSsidLen ∧
      passwdBytes (buf 3).toNat ≤ zcMaxPasswdLen
    else passwdBytes (buf 2).toNat ≤ zcMaxPasswdLen))

section Fits

variable {env : PasswdEnv} {z : ZconfigData} {flag : ℕ} {pbuf scores : Bytes}

theorem within_readSsid (h : ssidBytes flag pbuf.length ≤ zcMaxSsidLen) :
    (readSsid env flag pbuf scores).Within CopyUse.Fits := by
  rw [ssidBytes] at h
  rw [readSsid]
  split_ifs at h ⊢
  · rw [within_access]
    exact h
  · split
    · next ssid hdecode =>
      rw [within_access]
      show ssid.length ≤ zcMaxSsidLen
      rw [length_decodeChinese hdecode]
      exact h
    · exact within_pure _

theorem within_strncpySsid (ssid : Bytes) :
    (strncpySsid z ssid).Within CopyUse.Fits := by
  rw [strncpySsid, within_access]
  exact Nat.sub_le _ _

theorem within_amendSsid : (amendSsid env z).Within CopyUse.Fits := by
  rw [amendSsid]
  split
  · exact within_pure _
  · simp only [within_ite, within_pure, within_strncpySsid, implies_true, and_self]

theorem within_storeSsid (h : ssidBytes flag pbuf.length ≤ zcMaxSsidLen) :
    (storeSsid env z flag pbuf scores).Within CopyUse.Fits := by
  simp only [storeSsid, within_bind, within_ite, within_pure,
    within_readSsid h, within_strncpySsid, within_amendSsid, implies_true, and_self]

theorem within_storePasswd (h : passwdBytes pbuf.length ≤ zcMaxPasswdLen) :
    (storePasswd env z pbuf).Within CopyUse.Fits := by
  obtain ⟨hdecode, hcipher⟩ := @within_decodePasswd env.passwdDecodeMemory pbuf 6 h
  rw [storePasswd, within_bind, within_bind, within_ite]
  exact ⟨hdecode, within_aesDecryptString _ hcipher, fun _ => within_pure _,
    fun _ => within_pure _⟩

theorem within_storeSsidPasswd {buf : Memory} (h : MessageFits buf) :
    (storeSsidPasswd env z buf scores).Within CopyUse.Fits := by
  rw [MessageFits] at h
  rw [storeSsidPasswd]
  split_ifs at h ⊢
  · rw [within_bind]
    refine ⟨within_storeSsid ?_, within_storePasswd ?_⟩
    · rw [length_memSlice]
      exact h.1
    · rw [length_memSlice]
      exact h.2
  · apply within_storePasswd
    rw [length_memSlice]
    exact h

theorem storePasswd_false (h : (storePasswd env z pbuf).val.1 = false) :
    (storePasswd env z pbuf).val.2 = (zeroZconfigData, fillPasswd []) := by
  rw [storePasswd, val_bind, val_bind] at h ⊢
  split_ifs at h ⊢
  rfl

theorem storeSsidPasswd_false {buf : Memory}
    (h : (storeSsidPasswd env z buf scores).val.1 = false) :
    (storeSsidPasswd env z buf scores).val.2 = (zeroZconfigData, fillPasswd []) := by
  rw [storeSsidPasswd] at h ⊢
  split_ifs at h ⊢
  · rw [val_bind] at h ⊢
    exact storePasswd_false h
  · exact storePasswd_false h

end Fits

/-! ## Every message -/

theorem val_foldlM_append {ι α β : Type} (f : α → Logged ι β) (as : List α) :
    ∀ out : List β, (as.foldlM (fun out a => f a >>= fun b => pure (out ++ [b])) out).val
      = out ++ as.map fun a => (f a).val := by
  induction as with
  | nil => intro out; simp
  | cons a as ih =>
    intro out
    rw [List.foldlM_cons, val_bind, ih]
    simp

theorem messageBytes_eq (tods : Bool) (n : ℕ) :
    messageBytes z tods n
      = (List.range' 1 n).map fun i => (z.pkg tods i).len &&& payloadBitsMask := by
  exact (val_foldlM_append (fun i => do
    let data ← z.pkgLen tods i
    let _ ← z.pkgScore tods i
    pure (data &&& payloadBitsMask)) (List.range' 1 n) []).trans (List.nil_append _)

theorem toNat_messageMem (tods : Bool) (n i : ℕ) :
    (messageMem z tods n i).toNat = (messageBytes z tods n).getD i 0 := by
  have hall : ∀ byte ∈ messageBytes z tods n, byte < maxPkgNums := by
    intro byte hbyte
    rw [messageBytes_eq] at hbyte
    obtain ⟨j, -, rfl⟩ := List.mem_map.mp hbyte
    exact payload_lt _
  have hlt : (messageBytes z tods n).getD i 0 < 2 ^ 8 := by
    by_cases hi : i < (messageBytes z tods n).length
    · rw [List.getD_eq_getElem _ _ hi]
      exact (hall _ (List.getElem_mem hi)).trans (by decide)
    · rw [List.getD_eq_default _ _ (not_lt.mp hi)]
      decide
  rw [messageMem, UInt8.toNat_ofNat', Nat.mod_eq_of_lt hlt]

/-- The bytes of a message that is complete. -/
def completedMem (tods memory : Bool) : ℕ → UInt8 :=
  messageMem (completedData z tods memory) tods (messageLen (completedData z tods memory) tods)

/-- A message is complete, there is memory for it, its password is encrypted in the way that is
supported, and its checksum is right. -/
def MessageAccepted (tods : Bool) (env : PasswdEnv) : Prop :=
  let completed := completedData z tods env.encodeMemory
  let buf := messageBytes completed tods (messageLen completed tods)
  (zconfigRecvCompleted z tods env.encodeMemory).val.1 = true ∧ env.passwdMemory = true ∧
    encryptSupported buf ∧ ChecksumRight buf (messageLen completed tods)

instance (z : ZconfigData) (tods : Bool) (env : PasswdEnv) :
    Decidable (MessageAccepted z tods env) :=
  inferInstanceAs (Decidable (_ ∧ _ ∧ _ ∧ _))

/-- A run with the name and the password that it leaves. -/
def storedBy (run : Logged CopyUse (Bool × ZconfigData × Passwd)) :
    Logged CopyUse (Bool × Bytes × Passwd) :=
  ⟨(run.val.1, run.val.2.1.ssid, run.val.2.2), run.log⟩

section Messages

variable {z : ZconfigData} {tods : Bool} {env : PasswdEnv}

theorem zconfigStoreSsidPasswd_of_accepted (h : MessageAccepted z tods env) (passwd : Passwd) :
    zconfigStoreSsidPasswd z tods env passwd
      = storeSsidPasswd env (completedData z tods env.encodeMemory)
        (completedMem z tods env.encodeMemory)
        (messageScores (completedData z tods env.encodeMemory) tods
          (messageLen (completedData z tods env.encodeMemory) tods)) := by
  obtain ⟨hcompleted, hmemory, hencrypt, hchecksum⟩ := h
  have hgo : ¬ ((zconfigRecvCompleted z tods env.encodeMemory).val.1 = false ∨
      env.passwdMemory = false) := by
    rw [hcompleted, hmemory]
    decide
  rw [zconfigStoreSsidPasswd, if_neg hgo, storeCompleted, if_neg (not_not.mpr hencrypt),
    if_neg (not_not.mpr hchecksum)]
  rfl

theorem storedBy_of_not_accepted (h : ¬ MessageAccepted z tods env) (passwd : Passwd) :
    storedBy (zconfigStoreSsidPasswd z tods env passwd) = pure (false, z.ssid, passwd) := by
  have hssid : (completedData z tods env.encodeMemory).ssid = z.ssid :=
    (keptByCompletion_ssid z.ssid).zconfigRecvCompleted rfl tods env.encodeMemory
  rw [zconfigStoreSsidPasswd]
  split_ifs with hgo
  · rw [← hssid]
    rfl
  · rw [← hssid, storeCompleted]
    split_ifs with hencrypt hchecksum
    · refine absurd ⟨?_, ?_, hencrypt, hchecksum⟩ h
      · simpa using (not_or.mp hgo).1
      · simpa using (not_or.mp hgo).2
    · have hhalved := (ssid_halveScores (halveScores (completedData z tods env.encodeMemory) false
        (messageLen (completedData z tods env.encodeMemory) tods)).val true
        (messageLen (completedData z tods env.encodeMemory) tods)).trans
        (ssid_halveScores (completedData z tods env.encodeMemory) false _)
      rw [← hhalved]
      rfl
    · rfl

/-- **The message of a broadcast.**  No more is copied than fits, and what declares more is
rejected without a change, exactly when no message is accepted that declares more. -/
theorem zconfigStoreSsidPasswd_sound_iff :
    (∀ passwd, Sound (storedBy (zconfigStoreSsidPasswd z tods env passwd)) false (z.ssid, passwd)
        (¬ MessageFits (completedMem z tods env.encodeMemory)))
      ↔ (MessageAccepted z tods env → MessageFits (completedMem z tods env.encodeMemory)) := by
  constructor
  · -- A message that is rejected behind the checksum clears the password, which was not clear.
    intro h hacc
    by_contra hfits
    obtain ⟨-, hrejected⟩ := h (Vector.replicate zcMaxPasswdLen 1)
    obtain ⟨hfalse, hstored⟩ := hrejected hfits
    rw [zconfigStoreSsidPasswd_of_accepted hacc] at hfalse hstored
    have hcleared := storeSsidPasswd_false hfalse
    have hpasswd := congrArg Prod.snd hstored
    have hzero : (storeSsidPasswd env (completedData z tods env.encodeMemory)
        (completedMem z tods env.encodeMemory)
        (messageScores (completedData z tods env.encodeMemory) tods
          (messageLen (completedData z tods env.encodeMemory) tods))).val.2.2
        = Vector.replicate zcMaxPasswdLen 1 := hpasswd
    rw [hcleared] at hzero
    exact absurd (congrArg (fun v : Passwd => v.toList.headD 0) hzero) (by decide)
  · intro h passwd
    by_cases hacc : MessageAccepted z tods env
    · rw [zconfigStoreSsidPasswd_of_accepted hacc]
      exact ⟨within_storeSsidPasswd (h hacc), fun hno => absurd (h hacc) hno⟩
    · rw [storedBy_of_not_accepted hacc]
      exact sound_of_unchanged

theorem storeSsidPasswd_true {buf : Memory} {scores : Bytes}
    (hexist : (buf 1).toNat &&& ssidExistMask = 0)
    (h : (storeSsidPasswd env z buf scores).val.1 = true) :
    (storeSsidPasswd env z buf scores).val.2.1 = z := by
  rw [storeSsidPasswd, if_neg (not_not.mpr hexist), storePasswd, val_bind,
    val_bind] at h ⊢
  split_ifs at h ⊢
  rfl

/-- A computation ends with a verdict and a name. -/
def Ends (ok : Bool) (name : Bytes) (m : Logged TableUse (Bool × ZconfigData)) : Prop :=
  m.val.1 = ok ∧ m.val.2.ssid = name

theorem ends_if_pos {ok : Bool} {name : Bytes} {c : Prop} [Decidable c] (hc : c)
    {m m' : Logged TableUse (Bool × ZconfigData)} (h : Ends ok name m) :
    Ends ok name (if c then m else m') := by
  rwa [if_pos hc]

theorem ends_if_neg {ok : Bool} {name : Bytes} {c : Prop} [Decidable c] (hc : ¬ c)
    {m m' : Logged TableUse (Bool × ZconfigData)} (h : Ends ok name m') :
    Ends ok name (if c then m else m') := by
  rwa [if_neg hc]

/-- Behind the checksum. -/
theorem ends_storeSsidPasswd (scores : Bytes) :
    Ends (storeSsidPasswd env z (messageMem z tods (messageLen z tods)) scores).val.1
      (storeSsidPasswd env z (messageMem z tods (messageLen z tods)) scores).val.2.1.ssid
      (if (storeSsidPasswd env z (messageMem z tods (messageLen z tods)) scores).val.1 = false then
        pure (false, zeroZconfigData)
      else pure (true,
        if (messageBytes z tods (messageLen z tods)).getD 1 0 &&& ssidExistMask ≠ 0 then
          { z with ssid :=
            (storeSsidPasswd env z (messageMem z tods (messageLen z tods)) scores).val.2.1.ssid }
        else z)) := by
  obtain ⟨run, hrun⟩ : ∃ run,
      storeSsidPasswd env z (messageMem z tods (messageLen z tods)) scores = run := ⟨_, rfl⟩
  rw [hrun]
  split_ifs with hok hexist
  · refine ⟨hok.symm, ?_⟩
    have hcleared := storeSsidPasswd_false (hrun ▸ hok)
    rw [hrun] at hcleared
    rw [hcleared]
    rfl
  · exact ⟨by simpa using hok, rfl⟩
  · refine ⟨by simpa using hok, ?_⟩
    have hnone : (messageMem z tods (messageLen z tods) 1).toNat &&& ssidExistMask = 0 := by
      rw [toNat_messageMem]
      exact not_not.mp hexist
    have hkept := storeSsidPasswd_true hnone (show (storeSsidPasswd env z _ scores).val.1 = true by
      rw [hrun]
      simpa using hok)
    rw [hrun] at hkept
    rw [hkept]
    rfl

/-- The model of what is received is that of the stored name and password, for the name that is
stored and the verdict on the password. -/
theorem zconfigGetSsidPasswd_stores (passwd : Passwd) : ∃ recvEnv : RecvEnv,
    recvEnv.encodeMemory = env.encodeMemory ∧ recvEnv.passwdMemory = env.passwdMemory ∧
      Ends (zconfigStoreSsidPasswd z tods env passwd).val.1
        (zconfigStoreSsidPasswd z tods env passwd).val.2.1.ssid
        (zconfigGetSsidPasswd z tods recvEnv) := by
  obtain ⟨run, hrun⟩ : ∃ run, zconfigStoreSsidPasswd z tods env passwd = run := ⟨_, rfl⟩
  rw [hrun]
  refine ⟨⟨env.encodeMemory, env.passwdMemory, run.val.2.1.ssid, run.val.1⟩, rfl, rfl, ?_⟩
  rw [zconfigStoreSsidPasswd] at hrun
  by_cases hgo : (zconfigRecvCompleted z tods env.encodeMemory).val.1 = false ∨
    env.passwdMemory = false
  · rw [if_pos hgo] at hrun
    rw [← hrun]
    exact ends_if_pos hgo ⟨rfl, rfl⟩
  rw [if_neg hgo, storeCompleted] at hrun
  apply ends_if_neg hgo
  by_cases hencrypt : encryptSupported (messageBytes (completedData z tods env.encodeMemory)
    tods (messageLen (completedData z tods env.encodeMemory) tods))
  · rw [if_neg (not_not.mpr hencrypt)] at hrun
    apply ends_if_neg (not_le.mpr hencrypt)
    by_cases hchecksum : ChecksumRight (messageBytes (completedData z tods env.encodeMemory)
      tods (messageLen (completedData z tods env.encodeMemory) tods))
      (messageLen (completedData z tods env.encodeMemory) tods)
    · rw [if_neg (not_not.mpr hchecksum)] at hrun
      apply ends_if_neg (not_not.mpr hchecksum)
      subst hrun
      exact ends_storeSsidPasswd _
    · rw [if_pos hchecksum] at hrun
      rw [← hrun]
      exact ends_if_pos hchecksum ⟨rfl, rfl⟩
  · rw [if_pos hencrypt] at hrun
    rw [← hrun]
    exact ends_if_pos (not_lt.mp hencrypt) ⟨rfl, rfl⟩

end Messages

end Iotkit.Awss
