/-
# The credentials of an MQTT connection (`dev_sign_mqtt.c`, `mqtt_api.c`)

Texts are appended in arrays of zeros at the place that `strlen` finds.  An array that is filled to
its last byte has no zero left, and a read of it runs on.
-/
import Iotkit.DmManager

namespace Iotkit.DevSign

open Dm
open List hiding Vector

/-! ## The model -/

/-- How a call ends: with an access behind an array, with an error, or with a result. -/
abbrev Ends : Type → Type := ExceptT ℤ Option

/-- What needs an access to an array. -/
def access {α : Type} (x : Option α) : Ends α := ExceptT.lift x

/-- `memcpy(buf + strlen(buf), s, strlen(s))` on an array of `cap` bytes that holds a text and
zeros. -/
def appendAt (cap : ℕ) (buf s : Bytes) : Option Bytes :=
  if buf.length < cap ∧ buf.length + s.length ≤ cap then some (buf ++ s) else none

/-- `strlen` of an array of `cap` bytes. -/
def strlenAt (cap : ℕ) (buf : Bytes) : Option ℕ :=
  if buf.length < cap then some buf.length else none

/-- Texts that are appended one after the other. -/
def appendAll (cap : ℕ) (buf : Bytes) (texts : List Bytes) : Option Bytes :=
  texts.foldlM (appendAt cap) buf

/-- The characters of a literal. -/
def ascii (s : String) : Bytes := s.toList.map fun c => UInt8.ofNat c.toNat

abbrev deviceIdMaxlen : ℕ := iotxProductKeyLen + iotxDeviceNameLen + 1
abbrev clientIdMaxlen : ℕ := 200
abbrev sourceMaxlen : ℕ := 200
abbrev hostnameMaxlen : ℕ := 256
abbrev usernameMaxlen : ℕ := 64
abbrev kvKeyMaxlen : ℕ := iotxDeviceNameLen + 12
abbrev domainMaxLen : ℕ := 64

abbrev errorDevSignClientIdTooShort : ℤ := -1101
abbrev errorDevSignUsernameTooShort : ℤ := -1102
abbrev errorDevSignSourceTooShort : ℤ := -1104
abbrev errorDevSignHostNameTooShort : ℤ := -1100
abbrev errorDevSignCustomDomainIsNull : ℤ := -1105

/-- The build: `MQTT_PRE_AUTH` and `SUPPORT_TLS`. -/
structure SignBuild where
  preauth : Bool
  tls : Bool

def timestampValue : Bytes := ascii "2524608000000"

variable (build : SignBuild)

/-- `SECURE_MODE`, or `MODE_ITLS_DNS_ID2`. -/
def secureMode (enableItls : Bool) : Bytes :=
  if enableItls then ascii "8"
  else if build.preauth then ascii "-1"
  else if build.tls then ascii "2"
  else ascii "3"

def clientidKv (enableItls : Bool) : List (Bytes × Bytes) :=
  [(ascii "timestamp", timestampValue), (ascii "_v", ascii "sdk-c-3.0.1"),
    (ascii "securemode", secureMode build enableItls), (ascii "signmethod", ascii "hmacsha256"),
    (ascii "lan", ascii "C"), (ascii "gw", ascii "0"), (ascii "ext", ascii "0")]

/-- A part of the client id is appended, if the characters that it needs leave a zero. -/
def appendPart (buf : Bytes) (need : ℕ) (texts : List Bytes) : Ends Bytes := do
  let len ← access (strlenAt clientIdMaxlen buf)
  if len + need ≥ clientIdMaxlen then throw failReturn
  else access (appendAll clientIdMaxlen buf texts)

/-- The loop of `_sign_get_clientid`. -/
def kvLoop : List (Bytes × Bytes) → Bytes → Ends Bytes
  | [], buf => pure buf
  | (key, value) :: kvs, buf => do
    let buf ← appendPart buf (key.length + value.length + 2) [key, ascii "=", value, ascii ","]
    kvLoop kvs buf

variable (customKv : Option CString)

/-- The custom part of `_sign_get_clientid`. -/
def appendCustom (buf : Bytes) : Ends Bytes :=
  match customKv with
  | none => pure buf
  | some kv => appendPart buf (kv.strlen + 1) [kv.bytes, ascii ","]

/-- `_sign_get_clientid`, for a `device_id` in an array of `idCap` bytes. -/
def signGetClientid (idCap : ℕ) (deviceId : Bytes) (customKv : Option CString)
    (enableItls : Bool) : Ends Bytes := do
  let _ ← access (strlenAt idCap deviceId)
  let buf ← access (appendAll clientIdMaxlen [] [deviceId, ascii "|"])
  let buf ← kvLoop (clientidKv build enableItls) buf
  let buf ← appendCustom customKv buf
  let len ← access (strlenAt clientIdMaxlen buf)
  pure (buf.set (len - 1) 0x7C)

/-- A character of `_hex2str`. -/
def hexChar (n : UInt8) : UInt8 := if n ≤ 9 then n + 0x30 else n + 0x41 - 10

def hex2str (input : Vector UInt8 32) : Bytes :=
  input.toList.flatMap fun b : UInt8 => [hexChar ((b >>> 4) &&& 0x0F), hexChar (b &&& 0x0F)]

/-- The texts of `signsource`. -/
def sourceParts (deviceId : Bytes) (deviceName productKey : CString) : List Bytes :=
  [ascii "clientId", deviceId, ascii "deviceName", deviceName.bytes, ascii "productKey",
    productKey.bytes, ascii "timestamp", timestampValue]

/-- `utils_hmac_sha256` of a text with a key. -/
abbrev Hmac := Bytes → Bytes → Vector UInt8 32

variable (hmac : Hmac)

/-- `_iotx_generate_sign_string`: `sizeof(sign_fmt)` is 46. -/
def iotxGenerateSignString (idCap : ℕ) (deviceId : Bytes)
    (deviceName productKey deviceSecret : CString) : Ends Bytes := do
  let idLen ← access (strlenAt idCap deviceId)
  if (46 + idLen + deviceName.strlen + productKey.strlen + timestampValue.length) % 2 ^ 16 ≥
      sourceMaxlen then throw errorDevSignSourceTooShort
  else do
    let signsource ← access (appendAll sourceMaxlen [] (sourceParts deviceId deviceName productKey))
    let _ ← access (strlenAt sourceMaxlen signsource)
    pure (hex2str (hmac signsource deviceSecret.bytes))

/-- A product key and a device name of the lengths that `IOT_MQTT_Construct` admits. -/
structure DevMeta where
  productKey : CString
  deviceName : CString
  productKey_admitted : 1 ≤ productKey.strlen ∧ productKey.strlen ≤ iotxProductKeyLen
  deviceName_admitted : 1 ≤ deviceName.strlen ∧ deviceName.strlen ≤ iotxDeviceNameLen

/-- `iotx_sign_mqtt_t`. -/
structure SignMqtt where
  hostname : Bytes
  port : ℕ
  clientid : Bytes
  username : Bytes
  password : Bytes

variable (info : DevMeta)

/-- The array `device_id`. -/
def deviceIdOf : Option Bytes :=
  appendAll deviceIdMaxlen [] [info.productKey.bytes, ascii ".", info.deviceName.bytes]

/-- A domain that `IOT_Ioctl` takes. -/
abbrev CustomDomain := {d : CString // d.strlen ≤ domainMaxLen}

abbrev cloudRegionCustom : ℕ := 5
abbrev mqttDomainNumber : ℕ := 6

variable (custom : Option CustomDomain)

def infraMqttDomain (region : ℕ) : Option Bytes :=
  match region with
  | 0 => some (ascii "iot-as-mqtt.cn-shanghai.aliyuncs.com")
  | 1 => some (ascii "iot-as-mqtt.ap-southeast-1.aliyuncs.com")
  | 2 => some (ascii "iot-as-mqtt.ap-northeast-1.aliyuncs.com")
  | 3 => some (ascii "iot-as-mqtt.us-west-1.aliyuncs.com")
  | 4 => some (ascii "iot-as-mqtt.eu-central-1.aliyuncs.com")
  | _ => custom.map fun d => d.val.bytes

/-- The hostname that `IOT_Sign_MQTT` sets up. -/
def setupHostname (region : ℕ) (productKey : CString) :
    Ends Bytes :=
  match infraMqttDomain custom region with
  | none => throw errorDevSignCustomDomainIsNull
  | some domain =>
    if region = cloudRegionCustom then
      if (domain.length + 1) % 2 ^ 16 ≥ hostnameMaxlen then throw errorDevSignHostNameTooShort
      else access (appendAt hostnameMaxlen [] domain)
    else if (productKey.strlen + domain.length + 2) % 2 ^ 16 ≥ hostnameMaxlen then
      throw errorDevSignHostNameTooShort
    else access (appendAll hostnameMaxlen [] [productKey.bytes, ascii ".", domain])

/-- The username that `IOT_Sign_MQTT` sets up. -/
def setupUsername : Ends Bytes :=
  if (info.deviceName.strlen + info.productKey.strlen + 2) % 2 ^ 16 ≥ usernameMaxlen then
    throw errorDevSignUsernameTooShort
  else access (appendAll usernameMaxlen []
    [info.deviceName.bytes, ascii "&", info.productKey.bytes])

def iotSignMqtt (region : ℕ) (info : DevMeta) (deviceSecret : CString) : Ends SignMqtt :=
  if region ≥ mqttDomainNumber then throw (-1)
  else do
    let deviceId ← access (deviceIdOf info)
    let clientid ← tryCatch (signGetClientid build deviceIdMaxlen deviceId none false)
      fun _ => throw errorDevSignClientIdTooShort
    let password ← iotxGenerateSignString hmac deviceIdMaxlen deviceId info.deviceName
      info.productKey deviceSecret
    let hostname ← setupHostname custom region info.productKey
    let username ← setupUsername info
    pure ⟨hostname, if build.tls then 443 else 1883, clientid, username, password⟩

variable (kvGet dynamicRegister : Option CString)

/-- The secret that the key-value store, or else the server, has. -/
def registeredSecret (kvSet : Bool) : Ends CString :=
  match kvGet, dynamicRegister with
  | some secret, _ => pure secret
  | none, none => throw failReturn
  | none, some secret => if kvSet then pure secret else throw failReturn

def iotxDynamicRegister (kvSet : Bool) (info : DevMeta) :
    Ends CString := do
  let kvKey ← access (appendAt kvKeyMaxlen (ascii "DYNAMIC_REG_") info.deviceName.bytes)
  let _ ← access (strlenAt kvKeyMaxlen kvKey)
  registeredSecret kvGet dynamicRegister kvSet

/-- `_iotx_preauth`, with `preauth_get_connection_info`. -/
def iotxPreauth (connectionInfo : Bytes → Bytes → Except ℤ SignMqtt) (info : DevMeta)
    (deviceSecret : CString) : Ends SignMqtt := do
  let deviceId ← access (deviceIdOf info)
  let signString ← iotxGenerateSignString hmac deviceIdMaxlen deviceId info.deviceName
    info.productKey deviceSecret
  ExceptT.mk (some (connectionInfo signString deviceId))

/-- Whether `customize_info` asks for ITLS. -/
def enableItls (customizeInfo : Option CString) : Bool :=
  customizeInfo.any fun info => (LibC.strstr (ascii "authtype=id2") info.bytes).isSome

/-- The client id that `IOT_MQTT_Construct` sets up again, with `customize_info`. -/
def reconfigClientid (customizeInfo : Option CString) :
    Ends Bytes := do
  let deviceId ← access (deviceIdOf info)
  signGetClientid build deviceIdMaxlen deviceId customizeInfo (enableItls customizeInfo)

/-! ## Calls that stay inside their arrays -/

/-- No access is behind an array, and a result is as it should be. -/
def Meets {α : Type} (call : Ends α) (Good : α → Prop) : Prop :=
  match call.run with
  | none => False
  | some (.error _) => True
  | some (.ok a) => Good a

section Meets

variable {α β : Type} {Good : α → Prop}

theorem meets_pure (a : α) : Meets (pure a) Good ↔ Good a := Iff.rfl

theorem meets_throw (e : ℤ) : Meets (throw e) Good := trivial

theorem meets_access (a : α) : Meets (access (some a)) Good ↔ Good a := Iff.rfl

theorem meets_bind (x : Ends α) (f : α → Ends β) (Good : β → Prop) :
    Meets (x >>= f) Good ↔ Meets x fun a => Meets (f a) Good := by
  rcases x with _ | _ | _ <;> rfl

theorem meets_tryCatch (x : Ends α) (e : ℤ) :
    Meets (tryCatch x fun _ => throw e) Good ↔ Meets x Good := by
  rcases x with _ | _ | _ <;> rfl

theorem meets_strlenAt {cap : ℕ} {buf : Bytes} {Good : ℕ → Prop} :
    Meets (access (strlenAt cap buf)) Good ↔ buf.length < cap ∧ Good buf.length := by
  unfold strlenAt
  split_ifs with h
  · exact (and_iff_right h).symm
  · exact iff_of_false id fun hand => h hand.1

end Meets

theorem appendAll_of_lt {cap : ℕ} {buf : Bytes} {texts : List Bytes}
    (h : (buf ++ texts.flatten).length < cap) :
    appendAll cap buf texts = some (buf ++ texts.flatten) := by
  induction texts generalizing buf with
  | nil =>
    rw [flatten_nil, append_nil]
    rfl
  | cons s texts ih =>
    rw [flatten_cons, ← append_assoc] at h ⊢
    have hlen := h
    rw [length_append, length_append] at hlen
    have hone : appendAt cap buf s = some (buf ++ s) := if_pos (by omega)
    rw [appendAll, foldlM_cons, hone]
    exact ih h

/-! ## The client id -/

/-- A pair of `clientid_kv` with its equals sign. -/
def kvText (kv : Bytes × Bytes) : Bytes := kv.1 ++ ascii "=" ++ kv.2

/-- The parts of the client id behind the identity. -/
def clientidParts (itls : Bool) :
    List Bytes :=
  (clientidKv build itls).map kvText ++ (customKv.map CString.bytes).toList

/-- The client id: the identity, and the parts separated by commas. -/
def clientidText (deviceId : Bytes) (customKv : Option CString) (itls : Bool) : Bytes :=
  deviceId ++ ascii "|" ++ (ascii ",").intercalate (clientidParts build customKv itls) ++ ascii "|"

/-- A call that appends a text to the client id, if it leaves a zero behind it. -/
def Appends (call : Bytes → Ends Bytes) (part : Bytes) : Prop :=
  ∀ buf : Bytes, buf.length < clientIdMaxlen → ∀ Good : Bytes → Prop,
    Meets (call buf) Good ↔ ((buf ++ part).length < clientIdMaxlen → Good (buf ++ part))

theorem appends_pure : Appends pure [] := by
  intro buf hbuf Good
  rw [append_nil, meets_pure]
  exact ⟨fun h _ => h, fun h => h hbuf⟩

theorem appends_part {part : Bytes} {need : ℕ} {texts : List Bytes}
    (htexts : texts.flatten = part) (hneed : part.length = need) :
    Appends (fun buf => appendPart buf need texts) part := by
  intro buf hbuf Good
  have hlen : (buf ++ part).length = buf.length + need := by rw [length_append, hneed]
  simp only [appendPart]
  rw [meets_bind, meets_strlenAt, and_iff_right hbuf, hlen]
  split_ifs with hfull
  · exact iff_of_true (meets_throw _) fun h => absurd h (not_lt.mpr hfull)
  · rw [appendAll_of_lt (by rw [htexts, hlen]; exact not_le.mp hfull), meets_access, htexts]
    exact ⟨fun h _ => h, fun h => h (not_le.mp hfull)⟩

theorem Appends.bind {call call' : Bytes → Ends Bytes} {part part' : Bytes}
    (h : Appends call part) (h' : Appends call' part') :
    Appends (fun buf => call buf >>= call') (part ++ part') := by
  intro buf hbuf Good
  rw [meets_bind, h buf hbuf, ← append_assoc]
  constructor
  · intro hall htotal
    have hlt : (buf ++ part).length < clientIdMaxlen := by
      rw [length_append] at htotal
      omega
    exact (h' _ hlt _).mp (hall hlt) htotal
  · exact fun hall hlt => (h' _ hlt _).mpr hall

/-- Parts with the separator behind each. -/
def sepAll (parts : List Bytes) : Bytes := parts.flatMap (· ++ ascii ",")

theorem sepAll_cons (s : Bytes) (parts : List Bytes) :
    sepAll (s :: parts) = s ++ ascii "," ++ sepAll parts := flatMap_cons

theorem sepAll_append (parts parts' : List Bytes) :
    sepAll (parts ++ parts') = sepAll parts ++ sepAll parts' := flatMap_append

theorem sepAll_eq {parts : List Bytes} (h : parts ≠ []) :
    sepAll parts = (ascii ",").intercalate parts ++ ascii "," := by
  induction parts with
  | nil => exact absurd rfl h
  | cons s parts ih =>
    cases parts with
    | nil => simp [sepAll]
    | cons t parts =>
      rw [sepAll_cons, ih (cons_ne_nil t parts), intercalate_cons_cons]
      simp only [append_assoc]

theorem appends_kvLoop (kvs : List (Bytes × Bytes)) :
    Appends (kvLoop kvs) (sepAll (kvs.map kvText)) := by
  induction kvs with
  | nil => exact appends_pure
  | cons kv kvs ih =>
    obtain ⟨key, value⟩ := kv
    have hlen : (kvText (key, value) ++ ascii ",").length = key.length + value.length + 2 := by
      simp only [kvText, length_append, show (ascii "=").length = 1 from rfl,
        show (ascii ",").length = 1 from rfl]
      omega
    rw [map_cons, sepAll_cons]
    exact Appends.bind (appends_part (by simp [kvText]) hlen) ih

theorem appends_custom :
    Appends (appendCustom customKv) (sepAll (customKv.map CString.bytes).toList) := by
  cases customKv with
  | none => exact appends_pure
  | some kv =>
    have hlen : (kv.bytes ++ ascii ",").length = kv.strlen + 1 := length_append
    rw [Option.map_some, Option.toList_some, sepAll, flatMap_singleton]
    exact appends_part (by simp) hlen

variable {Good : Bytes → Prop}

/-- The client id is set up if it leaves a zero behind it. -/
theorem signGetClientid_meets {idCap : ℕ} {deviceId : Bytes}
    (hid : deviceId.length + 1 < clientIdMaxlen) (customKv : Option CString) (itls : Bool) :
    Meets (signGetClientid build idCap deviceId customKv itls) Good ↔ deviceId.length < idCap ∧
      ((clientidText build deviceId customKv itls).length < clientIdMaxlen →
        Good (clientidText build deviceId customKv itls)) := by
  have hhead : [] ++ [deviceId, ascii "|"].flatten = deviceId ++ ascii "|" := by simp
  have hlt : (deviceId ++ ascii "|").length < clientIdMaxlen := by
    rw [length_append]
    exact hid
  have hparts := (appends_kvLoop (clientidKv build itls)).bind (appends_custom customKv)
  rw [← sepAll_append, ← clientidParts, sepAll_eq (by exact cons_ne_nil _ _)] at hparts
  simp only [signGetClientid, meets_bind]
  rw [meets_strlenAt, appendAll_of_lt (by rwa [hhead]), meets_access, hhead, ← meets_bind,
    hparts _ hlt, clientidText, ← append_assoc]
  refine and_congr_right fun _ => ?_
  -- the last separator is replaced
  generalize deviceId ++ ascii "|" ++ (ascii ",").intercalate _ = front
  have hlen : (front ++ ascii "|").length = (front ++ ascii ",").length := by
    rw [length_append, length_append]
    rfl
  have hset : (front ++ ascii ",").set ((front ++ ascii ",").length - 1) 0x7C =
      front ++ ascii "|" := by
    rw [length_append, show (ascii ",").length = 1 from rfl, Nat.add_sub_cancel,
      set_append_right _ _ le_rfl, Nat.sub_self]
    rfl
  rw [meets_strlenAt, meets_pure, hset, hlen]
  exact ⟨fun h hroom => (h hroom).2, fun h hroom => ⟨hroom, h hroom⟩⟩

/-! ## The arrays of a device -/

theorem bounds :
    info.productKey.strlen ≤ 20 ∧ info.deviceName.strlen ≤ 32 ∧ deviceIdMaxlen = 53 ∧
      clientIdMaxlen = 200 ∧ sourceMaxlen = 200 ∧ hostnameMaxlen = 256 ∧ usernameMaxlen = 64 ∧
      kvKeyMaxlen = 44 ∧ domainMaxLen = 64 ∧ iotxDeviceNameLen = 32 :=
  ⟨info.productKey_admitted.2, info.deviceName_admitted.2, by decide⟩

/-- `pk.dn`. -/
def idText : Bytes :=
  info.productKey.bytes ++ ascii "." ++ info.deviceName.bytes

/-- `dn&pk`. -/
def usernameText : Bytes :=
  info.deviceName.bytes ++ ascii "&" ++ info.productKey.bytes

/-- The text that is signed. -/
def signText : Bytes :=
  ascii "clientId" ++ idText info ++ ascii "deviceName" ++ info.deviceName.bytes ++
    ascii "productKey" ++ info.productKey.bytes ++ ascii "timestamp" ++ timestampValue

/-- The identity leaves a zero in its array. -/
def IdFits : Prop := info.productKey.strlen + info.deviceName.strlen < 52

variable {info : DevMeta} {α : Type}

theorem length_idText (info : DevMeta) :
    (idText info).length = info.productKey.strlen + 1 + info.deviceName.strlen := by
  rw [idText, length_append, length_append]
  rfl

theorem length_usernameText (info : DevMeta) :
    (usernameText info).length = info.deviceName.strlen + 1 + info.productKey.strlen := by
  rw [usernameText, length_append, length_append]
  rfl

theorem idText_lt_iff (info : DevMeta) : (idText info).length < deviceIdMaxlen ↔ IdFits info := by
  have hbounds := bounds info
  rw [length_idText, IdFits]
  omega

/-- The identity always fits in its array, which it may fill. -/
theorem deviceIdOf_eq (info : DevMeta) : deviceIdOf info = some (idText info) := by
  have hbounds := bounds info
  have hlen := length_idText info
  rw [idText, length_append] at hlen
  have hdn : info.deviceName.bytes.length = info.deviceName.strlen := rfl
  have hparts : [] ++ [info.productKey.bytes, ascii "."].flatten =
      info.productKey.bytes ++ ascii "." := by simp
  have hfirst : appendAll deviceIdMaxlen [] [info.productKey.bytes, ascii "."] =
      some (info.productKey.bytes ++ ascii ".") := by
    rw [appendAll_of_lt (by rw [hparts]; omega), hparts]
  have hlast : appendAt deviceIdMaxlen (info.productKey.bytes ++ ascii ".") info.deviceName.bytes =
      some (idText info) := if_pos (by omega)
  rw [appendAll] at hfirst
  rw [deviceIdOf, show [info.productKey.bytes, ascii ".", info.deviceName.bytes] =
    [info.productKey.bytes, ascii "."] ++ [info.deviceName.bytes] from rfl, appendAll,
    foldlM_append, hfirst]
  simpa using hlast

theorem length_clientidText_lt (info : DevMeta) :
    (clientidText build (idText info) none false).length < clientIdMaxlen := by
  have hbounds := bounds info
  have hparts : ((ascii ",").intercalate (clientidParts build none false)).length ≤ 91 := by
    obtain ⟨preauth, tls⟩ := build
    cases preauth <;> cases tls <;> decide
  rw [clientidText, length_append, length_append, length_append, length_idText,
    show (ascii "|").length = 1 from rfl]
  omega

theorem generateSignString_meets (secret : CString) :
    Meets (iotxGenerateSignString hmac deviceIdMaxlen (idText info) info.deviceName
      info.productKey secret) Good ↔
      IdFits info ∧ Good (hex2str (hmac (signText info) secret.bytes)) := by
  have hbounds := bounds info
  have hid := length_idText info
  have hparts : [] ++ (sourceParts (idText info) info.deviceName info.productKey).flatten =
      signText info := by simp [sourceParts, signText]
  have hlt : (signText info).length < sourceMaxlen := by
    have hpk : info.productKey.bytes.length = info.productKey.strlen := rfl
    have hdn : info.deviceName.bytes.length = info.deviceName.strlen := rfl
    simp only [signText, length_append, show (ascii "clientId").length = 8 from rfl,
      show (ascii "deviceName").length = 10 from rfl, show (ascii "timestamp").length = 9 from rfl,
      show (ascii "productKey").length = 10 from rfl, show timestampValue.length = 13 from rfl]
    omega
  rw [iotxGenerateSignString, meets_bind, meets_strlenAt, idText_lt_iff,
    if_neg (by rw [show timestampValue.length = 13 from rfl]; omega), meets_bind,
    appendAll_of_lt (hparts.symm ▸ hlt), hparts, meets_access, meets_bind, meets_strlenAt,
    and_iff_right hlt, meets_pure]

theorem setupHostname_meets (region : ℕ) (info : DevMeta) (hgood : ∀ hostname, Good hostname) :
    Meets (setupHostname custom region info.productKey) Good := by
  have hbounds := bounds info
  have hpk : info.productKey.bytes.length = info.productKey.strlen := rfl
  unfold setupHostname
  cases hdomain : infraMqttDomain custom region with
  | none => exact meets_throw _
  | some domain =>
    have hlen : domain.length ≤ domainMaxLen := by
      unfold infraMqttDomain at hdomain
      split at hdomain
      case h_6 =>
        obtain ⟨d, -, rfl⟩ := Option.map_eq_some_iff.mp hdomain
        exact d.property
      all_goals
        obtain rfl := Option.some.inj hdomain
        decide
    dsimp only
    split_ifs
    · exact meets_throw _
    · rw [appendAt, if_pos ⟨by decide, by rw [length_nil]; omega⟩]
      exact hgood _
    · exact meets_throw _
    · rw [appendAll_of_lt]
      · exact hgood _
      · simp only [nil_append, flatten_cons, flatten_nil, append_nil,
          length_append, show (ascii ".").length = 1 from rfl]
        omega

theorem setupUsername_meets (info : DevMeta) :
    Meets (setupUsername info) Good ↔ Good (usernameText info) := by
  have hbounds := bounds info
  have hparts : [] ++ [info.deviceName.bytes, ascii "&", info.productKey.bytes].flatten =
      usernameText info := by simp [usernameText]
  have hlen := length_usernameText info
  rw [setupUsername, if_neg (by omega), appendAll_of_lt (by rw [hparts]; omega), hparts,
    meets_access]

/-! ## The credentials -/

/-- The username and the password belong to the device and its secret. -/
structure Signed (hmac : Hmac) (info : DevMeta) (secret : CString) (sign : SignMqtt) : Prop where
  username : sign.username = usernameText info
  terminated : sign.username.length < usernameMaxlen
  password : sign.password = hex2str (hmac (signText info) secret.bytes)

/-- The credentials that `IOT_Sign_MQTT` sets up. -/
def signOf (info : DevMeta) (secret : CString) (hostname : Bytes) : SignMqtt :=
  ⟨hostname, if build.tls then 443 else 1883, clientidText build (idText info) none false,
    usernameText info, hex2str (hmac (signText info) secret.bytes)⟩

theorem signed_signOf (info : DevMeta) (secret : CString) (hostname : Bytes) :
    Signed hmac info secret (signOf build hmac info secret hostname) := by
  refine ⟨rfl, ?_, rfl⟩
  have hbounds := bounds info
  have hlen := length_usernameText info
  show (usernameText info).length < _
  omega

theorem clientid_meets (itls : Bool) :
    Meets (signGetClientid build deviceIdMaxlen (idText info) customKv itls) Good ↔
      IdFits info ∧ ((clientidText build (idText info) customKv itls).length < clientIdMaxlen →
        Good (clientidText build (idText info) customKv itls)) := by
  have hbounds := bounds info
  have hlen := length_idText info
  rw [signGetClientid_meets build (by omega), idText_lt_iff]

theorem iotSignMqtt_meets (region : ℕ) (info : DevMeta) (secret : CString) {Good : SignMqtt → Prop}
    (hgood : ∀ hostname, Good (signOf build hmac info secret hostname)) :
    Meets (iotSignMqtt build hmac custom region info secret) Good ↔
      (region < mqttDomainNumber → IdFits info) := by
  rw [iotSignMqtt]
  by_cases hregion : region ≥ mqttDomainNumber
  · rw [if_pos hregion]
    exact iff_of_true (meets_throw _) fun h => absurd h (not_lt.mpr hregion)
  rw [if_neg hregion, forall_prop_of_true (not_le.mp hregion), deviceIdOf_eq, meets_bind,
    meets_access, meets_bind, meets_tryCatch, clientid_meets]
  refine ⟨fun h => h.1, fun hfits => ⟨hfits, fun _ => ?_⟩⟩
  rw [meets_bind, generateSignString_meets]
  refine ⟨hfits, ?_⟩
  rw [meets_bind]
  refine setupHostname_meets custom region info fun hostname => ?_
  rw [meets_bind, setupUsername_meets]
  exact hgood hostname

theorem iotxDynamicRegister_meets (kvSet : Bool) (info : DevMeta) :
    Meets (iotxDynamicRegister kvGet dynamicRegister kvSet info) (fun _ => True) ↔
      info.deviceName.strlen < iotxDeviceNameLen := by
  have hbounds := bounds info
  have hlen : (ascii "DYNAMIC_REG_" ++ info.deviceName.bytes).length =
      12 + info.deviceName.strlen := length_append
  have hkey : appendAt kvKeyMaxlen (ascii "DYNAMIC_REG_") info.deviceName.bytes =
      some (ascii "DYNAMIC_REG_" ++ info.deviceName.bytes) := by
    refine if_pos ⟨by decide, ?_⟩
    rw [← length_append]
    omega
  have hanswer : Meets (registeredSecret kvGet dynamicRegister kvSet) fun _ => True := by
    cases kvGet <;> cases dynamicRegister <;> cases kvSet <;> trivial
  unfold iotxDynamicRegister
  rw [hkey, meets_bind, meets_access, meets_bind, meets_strlenAt, and_iff_left hanswer, hlen]
  omega

/-- **Credentials.**  They are set up inside their arrays, and are those of the device where a
call succeeds, exactly if product key and device name do not both have the greatest length; and a
registration looks for its key inside its array exactly if the device name does not have it. -/
theorem credentials_iff (build : SignBuild) (hmac : Hmac) (info : DevMeta) :
    (∀ custom region secret, Meets (iotSignMqtt build hmac custom region info secret)
        (fun sign => Signed hmac info secret sign ∧
          sign.clientid = clientidText build (idText info) none false ∧
          sign.clientid.length < clientIdMaxlen) ↔
      (region < mqttDomainNumber → IdFits info)) ∧
    (∀ customizeInfo, Meets (reconfigClientid build info customizeInfo) (fun clientid =>
        clientid = clientidText build (idText info) customizeInfo (enableItls customizeInfo) ∧
          clientid.length < clientIdMaxlen) ↔ IdFits info) ∧
    (∀ connectionInfo secret,
      Meets (iotxPreauth hmac connectionInfo info secret) (fun _ => True) ↔ IdFits info) ∧
    ∀ kvGet dynamicRegister kvSet,
      Meets (iotxDynamicRegister kvGet dynamicRegister kvSet info) (fun _ => True) ↔
        info.deviceName.strlen < iotxDeviceNameLen := by
  refine ⟨fun custom region secret => ?_, fun customizeInfo => ?_, fun connectionInfo secret => ?_,
    fun kvGet dynamicRegister kvSet => iotxDynamicRegister_meets kvGet dynamicRegister kvSet info⟩
  · exact iotSignMqtt_meets build hmac custom region info secret fun hostname =>
      ⟨signed_signOf build hmac info secret hostname, rfl, length_clientidText_lt build info⟩
  · rw [reconfigClientid, meets_bind, deviceIdOf_eq, meets_access, clientid_meets]
    exact and_iff_left fun hroom => ⟨rfl, hroom⟩
  · rw [iotxPreauth, meets_bind, deviceIdOf_eq, meets_access, meets_bind, generateSignString_meets]
    refine and_iff_left ?_
    cases connectionInfo (hex2str (hmac (signText info) secret.bytes)) (idText info) <;> trivial

theorem nul_notMem_replicate (n : ℕ) : (0 : UInt8) ∉ List.replicate n 0x61 :=
  fun h => absurd (eq_of_mem_replicate h) (by decide)

/-- The longest product key and the longest device name. -/
def longestMeta : DevMeta :=
  ⟨⟨_, nul_notMem_replicate iotxProductKeyLen⟩, ⟨_, nul_notMem_replicate iotxDeviceNameLen⟩,
    by decide, by decide⟩

/-- The longest identity fills its array, and is read on behind it. -/
theorem credentials_broken :
    ¬ ∀ (build : SignBuild) (hmac : Hmac) (info : DevMeta) (custom : Option CustomDomain)
      (region : ℕ) (secret : CString), Meets (iotSignMqtt build hmac custom region info secret)
        fun _ => True := by
  intro hclaim
  have hmeets := hclaim ⟨false, true⟩ (fun _ _ => Vector.replicate 32 0) longestMeta none 0
    longestMeta.deviceName
  have hfits := (iotSignMqtt_meets _ _ _ _ longestMeta _ fun _ => trivial).mp hmeets (by decide)
  exact absurd hfits (by unfold IdFits; decide)

end Iotkit.DevSign
