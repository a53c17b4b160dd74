/-
# The payloads of an ALCS server

`alcs_rec_auth`, `alcs_rec_auth_select` and `alcs_rec_heart_beat` (`alcs_server.c`) from the
bytes of a payload to the reply that is printed, with what is left in their variables when the
payload does not set them.  The parameters of a request are found whatever stands behind the
payload, and its id if there is any member that can be read.
-/
import Iotkit.AlcsHandshake
import Iotkit.JsonParser

namespace Iotkit.Alcs

open Coap Json
open LibC (intText)
open List hiding Vector

variable (crypto : Crypto) {C : Type}

/-! ## A reply -/

/-- What is printed in the places of `RES_FORMAT`, and the size of `payloadbuf`. -/
structure Reply where
  id : Bytes
  code : ℤ
  data : Bytes
  size : ℕ

variable (id : Bytes)

/-- `RES_FORMAT` up to the comma behind the code: `{"id":"`, the id, `","code":`, the code. -/
def resHead (code : ℤ) : Bytes :=
  [0x7b, 0x22, 0x69, 0x64, 0x22, 0x3a, 0x22] ++ id
    ++ [0x22, 0x2c, 0x22, 0x63, 0x6f, 0x64, 0x65, 0x22, 0x3a] ++ intText code ++ [0x2c]

/-- `RES_FORMAT`, which goes on with `"data":{`, the data and `}}`. -/
def resFormat (code : ℤ) (data : Bytes) : Bytes :=
  resHead id code ++ [0x22, 0x64, 0x61, 0x74, 0x61, 0x22, 0x3a, 0x7b] ++ data ++ [0x7d, 0x7d]

/-- The payload of the reply, as it fits. -/
def Reply.text (reply : Reply) : Bytes :=
  (resFormat reply.id reply.code reply.data).take (reply.size - 1)

/-- The payload is not cut off before the code is printed. -/
def Reply.CarriesCode (reply : Reply) (code : ℤ) : Prop :=
  reply.code = code ∧ resHead reply.id code <+: reply.text

/-- `"accessKey":"%.*s"` -/
def accessKeyData (key : Bytes) : Bytes :=
  [0x22, 0x61, 0x63, 0x63, 0x65, 0x73, 0x73, 0x4b, 0x65, 0x79, 0x22, 0x3a, 0x22] ++ key ++ [0x22]

/-- The payload is printed whole, with the code 200 and the access key. -/
def Reply.CarriesKey (reply : Reply) (key : Bytes) : Prop :=
  reply.code = 200 ∧ reply.data = accessKeyData key ∧
    reply.text = resFormat reply.id reply.code reply.data

/-! ## The parser of the payload -/

/-- `seq` and `seqlen`: what `seq` points to, if it is not `NULL`. -/
structure Seq where
  seq : Option Bytes
  seqlen : ℤ

/-- What `%.*s` prints; `(null)` stands for a `NULL` pointer where it fits. -/
def Seq.printed (s : Seq) : Bytes :=
  match s.seq with
  | none => if 0 ≤ s.seqlen ∧ s.seqlen < 6 then [] else [0x28, 0x6e, 0x75, 0x6c, 0x6c, 0x29]
  | some chars => if s.seqlen < 0 then cChars chars else (cChars chars).take s.seqlen.toNat

/-- What a handler finds before anything is written: its variables `seq` and `seqlen`, the bytes
behind the payload, and what `AuthEnv` has of this kind. -/
structure Leftover where
  seq : Seq
  behind : Bytes
  memory : Bytes
  stack : Bytes
  buf : Vector UInt8 20

/-- The names `id` and `params`. -/
def idName : Bytes := [0x69, 0x64]
def paramsName : Bytes := [0x70, 0x61, 0x72, 0x61, 0x6d, 0x73]

variable (payload : Bytes) (left : Leftover)

/-- `req_payload_parser`: `seq` and `seqlen` afterwards, and `data` and `datalen` if the result is
not zero. -/
def reqPayloadParser : Seq × Option Span :=
  if payload = [] then (left.seq, none)
  else
    let mem := payload ++ left.behind
    let seq : Seq :=
      match jsonGetValueByName mem payload.length idName with
      | none => ⟨none, left.seq.seqlen⟩
      | some none => ⟨none, 0⟩
      | some (some span) => ⟨some (mem.drop span.start), span.len⟩
    (seq, (jsonGetValueByName mem payload.length paramsName).join)

def paramsField (data : Span) (name : Bytes) :
    Option Bytes :=
  let mem := (payload ++ left.behind).drop data.start
  (jsonGetValueByName mem data.len name).join.map (Span.bytes mem)

/-! ## `alcs_rec_auth` -/

def authRequest (data : Span) : AuthRequest where
  accessKey := paramsField payload left data [0x61, 0x63, 0x63, 0x65, 0x73, 0x73, 0x4b, 0x65, 0x79]
  randomKey := paramsField payload left data [0x72, 0x61, 0x6e, 0x64, 0x6f, 0x6d, 0x4b, 0x65, 0x79]
  sign := paramsField payload left data [0x73, 0x69, 0x67, 0x6e]
  prodKey := paramsField payload left data [0x70, 0x72, 0x6f, 0x64, 0x4b, 0x65, 0x79]
  deviceName :=
    paramsField payload left data [0x64, 0x65, 0x76, 0x69, 0x63, 0x65, 0x4e, 0x61, 0x6d, 0x65]

/-- `body`: `"sign":"%.*s","randomKey":"%s","sessionId":%d,"expire":86400`. -/
def authBodyText (body : AuthBody) : Bytes :=
  ([0x22, 0x73, 0x69, 0x67, 0x6e, 0x22, 0x3a, 0x22] ++ body.sign.chars
    ++ [0x22, 0x2c, 0x22, 0x72, 0x61, 0x6e, 0x64, 0x6f, 0x6d, 0x4b, 0x65, 0x79, 0x22, 0x3a, 0x22]
    ++ body.randomKey.chars
    ++ [0x22, 0x2c, 0x22, 0x73, 0x65, 0x73, 0x73, 0x69, 0x6f, 0x6e, 0x49, 0x64, 0x22, 0x3a]
    ++ intText body.sessionId.toInt32.toInt
    ++ [0x2c, 0x22, 0x65, 0x78, 0x70, 0x69, 0x72, 0x65, 0x22, 0x3a, 0x38, 0x36, 0x34, 0x30,
      0x30]).take (200 - 1)

/-- What `alcs_rec_auth` finds around it that is not left over: the random key for a new session
and the time. -/
structure AuthInput where
  randomKey : RandomKey
  uptime : UInt64

def Leftover.env (input : AuthInput) : AuthEnv :=
  ⟨input.randomKey, left.memory, left.stack, left.buf, input.uptime⟩

/-- `alcs_rec_auth`, from the bytes of the payload: the reply, the session that is created or
refreshed, if one is, and the server afterwards. -/
def alcsRecAuthBytes (server : AlcsServer C) (addr : NetworkAddr) (payload : Bytes)
    (input : AuthInput) (left : Leftover) : Reply × Option SessionItem × AlcsServer C :=
  let (seq, data) := reqPayloadParser payload left
  match data with
  | none => (⟨seq.printed, 200, [], 512⟩, none, server)
  | some data =>
    let request := authRequest payload left data
    let env := left.env input
    let (reply, after) := alcsRecAuth crypto server addr request env
    (⟨seq.printed, reply.code, (reply.body.map authBodyText).getD [], 512⟩,
      match authCheck crypto server.lstAuth env.buf request with
      | .error _ => none
      | .ok auth => some ((authSession crypto server addr env auth).authed crypto auth env.uptime),
      after)

/-! ## `alcs_rec_auth_select` -/

/-- An entry of the access keys that are offered, and the text from it on, which ends with
the array. -/
structure OfferedKey where
  key : Bytes
  text : Bytes
  deriving DecidableEq

def offeredKeys : List OfferedKey :=
  match (reqPayloadParser payload left).2 with
  | none => []
  | some data =>
    match paramsField payload left data
      [0x61, 0x63, 0x63, 0x65, 0x73, 0x73, 0x4b, 0x65, 0x79, 0x73] with
    | none => []
    | some accesskeys =>
      (jsonArrayForEachEntry accesskeys accesskeys.length).map fun entry =>
        ⟨entry.val.bytes accesskeys, accesskeys.drop entry.val.start⟩

/-- The loop over the entries; `targetKey` is a pointer, with `targetLen` characters behind it. -/
def selectEntries (lst : AuthList) :
    List OfferedKey → Option Bytes → Option Bytes
  | [], targetKey => targetKey
  | entry :: rest, targetKey =>
    let targetKey :=
      if lst.lstSvr.any fun node => startsWith entry.text node.keyprefix.chars then some entry.key
      else targetKey
    if targetKey.isSome then targetKey
    else
      let targetKey :=
        if lst.lstSvrGroup.any fun gnode => startsWith entry.text gnode.keyInfo.keyprefix.chars
        then some entry.key else targetKey
      if targetKey.isSome then targetKey else selectEntries lst rest targetKey

/-- `alcs_rec_auth_select`, from the bytes of the payload; `keybuf` has 32 bytes. -/
def alcsRecAuthSelectBytes (lst : AuthList) (payload : Bytes) (left : Leftover) : Reply :=
  let targetKey := selectEntries lst (offeredKeys payload left) (some [])
  { id := (reqPayloadParser payload left).1.printed
    code := if targetKey.isSome then 200 else coapMsgCode401Unauthorized.toNat
    data := (accessKeyData (targetKey.getD [])).take (32 - 1)
    size := 512 }

/-! ## `alcs_rec_heart_beat` -/

/-- `"delayTime":%d` -/
def delayTimeText : Bytes :=
  [0x22, 0x64, 0x65, 0x6c, 0x61, 0x79, 0x54, 0x69, 0x6d, 0x65, 0x22, 0x3a]
    ++ intText (defaultHeartExpire / 1000).toInt

/-- `alcs_rec_heart_beat`, from the bytes of the payload: the reply, if there is one. -/
def alcsRecHeartBeatBytes (sessions : List SessionItem) (remote : NetworkAddr) (uptime : UInt64)
    (payload : Bytes) (left : Leftover) : Option Reply :=
  (alcsRecHeartBeat sessions remote uptime).1.map fun code =>
    { id := (reqPayloadParser payload left).1.printed
      code := code
      data := if code = 200 then delayTimeText else []
      size := 128 }

/-! ## What a payload says -/

/-- A handler that finds nothing. -/
def Leftover.clear : Leftover := ⟨⟨none, 0⟩, [], [], [], Vector.replicate 20 0⟩

/-- The reader finds a name with a value. -/
def HasMember : Prop := jsonParseNameValue payload payload.length ≠ []

def requestId : Bytes :=
  ((jsonGetValueByName payload payload.length idName).join.map fun span =>
    cChars (span.bytes payload)).getD []

def requestData : Option Span :=
  (jsonGetValueByName payload payload.length paramsName).join

def requestOf : Option AuthRequest :=
  (requestData payload).map (authRequest payload Leftover.clear)

def offered : List OfferedKey := offeredKeys payload Leftover.clear

theorem jsonGetValueByName_eq_none_iff (mem name : Bytes) (slen : ℕ) :
    jsonGetValueByName mem slen name = none ↔ jsonParseNameValue mem slen = [] := by
  unfold jsonGetValueByName
  cases jsonParseNameValue mem slen with
  | nil => simp
  | cons kv kvs => simp

theorem reqPayloadParser_snd : (reqPayloadParser payload left).2 = requestData payload := by
  unfold reqPayloadParser requestData
  split_ifs with hnil
  · rw [hnil]
    rfl
  · simp only [jsonGetValueByName_append]

variable {payload : Bytes}

theorem bounds_of_requestData {data : Span} (h : requestData payload = some data) :
    data.start + data.len ≤ payload.length :=
  bounds_of_jsonGetValueByName (Option.join_eq_some_iff.mp h)

theorem printed_of_hasMember (h : HasMember payload) (left : Leftover) :
    (reqPayloadParser payload left).1.printed = requestId payload := by
  have hnil : payload ≠ [] := by
    rintro rfl
    exact h rfl
  unfold reqPayloadParser requestId
  rw [if_neg hnil]
  simp only [jsonGetValueByName_append]
  cases hid : jsonGetValueByName payload payload.length idName with
  | none => exact absurd ((jsonGetValueByName_eq_none_iff _ _ _).mp hid) h
  | some found =>
    cases found with
    | none => rfl
    | some span =>
      have hbytes := Span.bytes_append left.behind (bounds_of_jsonGetValueByName hid)
      show (if (span.len : ℤ) < 0 then cChars ((payload ++ left.behind).drop span.start)
          else (cChars ((payload ++ left.behind).drop span.start)).take (span.len : ℤ).toNat)
        = cChars (span.bytes payload)
      rw [if_neg (by omega), Int.toNat_natCast, ← hbytes]
      exact take_takeWhile

theorem exists_printed_ne (h : ¬ HasMember payload) :
    ∃ left left', (reqPayloadParser payload left).1.printed
      ≠ (reqPayloadParser payload left').1.printed := by
  refine ⟨{ Leftover.clear with seq := ⟨none, 0⟩ }, { Leftover.clear with seq := ⟨none, 6⟩ }, ?_⟩
  have hid : ∀ behind, jsonGetValueByName (payload ++ behind) payload.length idName = none := by
    intro behind
    rw [jsonGetValueByName_append, jsonGetValueByName_eq_none_iff]
    exact not_not.mp h
  unfold reqPayloadParser
  simp only [hid]
  split_ifs
  · exact (cons_ne_nil _ _).symm
  · exact (cons_ne_nil _ _).symm

/-- The bytes behind the payload do not matter for the parameters. -/
theorem paramsField_left {data : Span} (h : requestData payload = some data) (left left' : Leftover)
    (name : Bytes) :
    paramsField payload left data name = paramsField payload left' data name := by
  have hle := bounds_of_requestData h
  have htext : (data.bytes payload).length = data.len := by
    unfold Span.bytes
    rw [length_take, length_drop]
    omega
  have hmem : ∀ left : Leftover, (payload ++ left.behind).drop data.start
      = data.bytes payload ++ ((payload ++ left.behind).drop data.start).drop data.len := by
    intro left
    rw [← Span.bytes_append left.behind hle]
    exact (take_append_drop _ _).symm
  have hfield : ∀ left : Leftover, paramsField payload left data name
      = (jsonGetValueByName (data.bytes payload) data.len name).join.map
        (Span.bytes (data.bytes payload)) := by
    intro left
    unfold paramsField
    simp only
    rw [hmem left, ← htext, jsonGetValueByName_append]
    cases hfound : jsonGetValueByName (data.bytes payload) (data.bytes payload).length name with
    | none => rfl
    | some found =>
      cases found with
      | none => rfl
      | some span => exact congrArg some (Span.bytes_append _ (bounds_of_jsonGetValueByName hfound))
  rw [hfield left, hfield left']

theorem authRequest_left {payload : Bytes} {data : Span}
    (h : requestData payload = some data) (left left' : Leftover) :
    authRequest payload left data = authRequest payload left' data := by
  unfold authRequest
  simp only [paramsField_left h left left']

theorem offeredKeys_eq (payload : Bytes) (left : Leftover) :
    offeredKeys payload left = offered payload := by
  unfold offered offeredKeys
  rw [reqPayloadParser_snd, reqPayloadParser_snd]
  cases hdata : requestData payload with
  | none => rfl
  | some data => simp only [paramsField_left hdata left Leftover.clear]

/-! ## What is printed -/

theorem length_resHead : (resHead id 200).length = id.length + 20 := by
  have hcode : intText 200 = [0x32, 0x30, 0x30] := by
    simp [intText, LibC.natText, LibC.digitChar]
  simp only [resHead, hcode, length_append, length_cons, length_nil]
  omega

theorem length_resFormat (data : Bytes) :
    (resFormat id 200 data).length = id.length + data.length + 30 := by
  simp only [resFormat, length_append, length_resHead, length_cons, length_nil]
  omega

theorem length_accessKeyData (key : Bytes) : (accessKeyData key).length = key.length + 14 := by
  simp only [accessKeyData, length_append, length_cons, length_nil]
  omega

theorem carriesCode_iff {reply : Reply} (hsize : reply.size = 512) :
    reply.CarriesCode 200 ↔ reply.code = 200 ∧ reply.id.length ≤ 491 := by
  unfold Reply.CarriesCode Reply.text
  apply and_congr_right
  intro hcode
  have hpre : resHead reply.id 200 <+: resFormat reply.id 200 reply.data := by
    unfold resFormat
    rw [append_assoc, append_assoc]
    exact prefix_append _ _
  rw [prefix_take_iff, hsize, hcode, length_resHead, and_iff_right hpre]
  omega

/-- A reply is printed whole if it is not too long. -/
theorem carriesKey_iff {reply : Reply} (hsize : reply.size = 512) (key : Bytes) :
    reply.CarriesKey key ↔ reply.code = 200 ∧ reply.data = accessKeyData key ∧
      reply.id.length + key.length + 44 < 512 := by
  unfold Reply.CarriesKey Reply.text
  apply and_congr_right
  intro hcode
  apply and_congr_right
  intro hdata
  rw [take_eq_self_iff, hsize, hcode, length_resFormat, hdata, length_accessKeyData]
  omega

end Iotkit.Alcs
