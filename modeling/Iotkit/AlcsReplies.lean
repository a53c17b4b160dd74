/-
# The replies of an ALCS server

When a reply says what the handler has done, and says it without a look at what was left over in
its variables.  An auth request without a full access key is answered with the code 200 as well,
a request for a key always is, and the id of a reply to a payload that cannot be read is
whatever stood there before.
-/
import Iotkit.AlcsPayload

namespace Iotkit.Alcs

open Coap Json
open List hiding Vector

variable (crypto : Crypto) {C : Type}

/-! ## The reply to an auth request -/

/-- The access key of a request, of the right length. -/
def FullKey (request : AuthRequest) (accesskey : Bytes) : Prop :=
  request.accessKey = some accesskey ∧ accesskey.length = keyprefixLen + 1 + 1 + keyseqLen

variable (lst : AuthList)

/-- The key of the server for a full access key. -/
def LegalKey (request : AuthRequest) (accesskey : Bytes) (item : SvrKeyInfo) : Prop :=
  FullKey request accesskey ∧ (isLegalKey lst (accesskey.take keyprefixLen)
    ((accesskey.drop (keyprefixLen + 1 + 1)).take keyseqLen)).1 = some item

/-- The request has the sign that a token gives its random key, and names a device. -/
def Signed (token : Base64) (request : AuthRequest) : Prop :=
  ∃ randomkey pk dn, (request.randomKey = some randomkey ∧ randomkey ≠ []) ∧
    request.sign = some (crypto.base64 (crypto.hmacSha1 token.chars randomkey)).chars ∧
    (request.prodKey = some pk ∧ pk ≠ []) ∧ (request.deviceName = some dn ∧ dn ≠ [])

variable (payload : Bytes)

/-- A session for the requester is created or refreshed by the request, and is there afterwards. -/
def SessionMade (server : AlcsServer C) (addr : NetworkAddr) (payload : Bytes)
    (input : AuthInput) (left : Leftover) : Prop :=
  ∃ session ∈ (alcsRecAuthBytes crypto server addr payload input left).2.2.sessions,
    (alcsRecAuthBytes crypto server addr payload input left).2.1 = some session ∧
      isNetworkaddSame addr session.addr = true ∧ session.heartTime = uptimeInt input.uptime

/-- The code is 200 exactly if a session is created or refreshed, and neither the id nor the data
depends on what was left over. -/
def AuthTruthful (server : AlcsServer C) (addr : NetworkAddr) (payload : Bytes)
    (input : AuthInput) : Prop :=
  (∀ left, (alcsRecAuthBytes crypto server addr payload input left).1.CarriesCode 200 ↔
      SessionMade crypto server addr payload input left) ∧
    ∀ left left',
      (alcsRecAuthBytes crypto server addr payload input left).1.id
          = (alcsRecAuthBytes crypto server addr payload input left').1.id ∧
        (alcsRecAuthBytes crypto server addr payload input left).1.data
          = (alcsRecAuthBytes crypto server addr payload input left').1.data

/-- When it is so: the id is one of the payload.  If it leaves room for the code, there is a full
access key, and a key whose secret is too long for HMAC has not signed the request with what is left in
its buffer; if it does not, nobody has signed the request. -/
def AuthPayloadOk : Prop :=
  HasMember payload ∧
    if (requestId payload).length ≤ 491 then
      ∃ request accesskey, requestOf payload = some request ∧ FullKey request accesskey ∧
        ∀ item, LegalKey lst request accesskey item → sha1KeyIopadSize < item.secret.chars.length →
          ∀ buf, ¬ Signed crypto (crypto.base64 buf) request
    else
      ∀ request accesskey item, requestOf payload = some request →
        LegalKey lst request accesskey item →
          ∀ buf, ¬ Signed crypto (utilsHmacSha1Base64 crypto buf accesskey item.secret.chars) request

variable {crypto}

theorem exists_authCheck_iff (buf : Vector UInt8 20) (request : AuthRequest) :
    (∃ auth, authCheck crypto lst buf request = .ok auth) ↔
      ∃ accesskey item, LegalKey lst request accesskey item ∧
        Signed crypto (utilsHmacSha1Base64 crypto buf accesskey item.secret.chars) request := by
  simp only [authCheck_eq_ok_iff]
  constructor
  · rintro ⟨auth, accesskey, item, haccess, hlen, hitem, htoken, hrandom, hsign, hpk, hdn⟩
    refine ⟨accesskey, item, ⟨⟨haccess, hlen⟩, hitem⟩, auth.randomkey, auth.pk, auth.dn, hrandom,
      ?_, hpk, hdn⟩
    rw [hsign, ← htoken, utilsHmacSha1Base64, utilsHmacSha1Hex_base64]
  · rintro ⟨accesskey, item, ⟨⟨haccess, hlen⟩, hitem⟩, randomkey, pk, dn, hrandom, hsign, hpk, hdn⟩
    refine ⟨⟨utilsHmacSha1Base64 crypto buf accesskey item.secret.chars, randomkey, pk, dn⟩,
      accesskey, item, haccess, hlen, hitem, rfl, hrandom, ?_, hpk, hdn⟩
    simp only
    rw [hsign]
    unfold utilsHmacSha1Base64
    rw [utilsHmacSha1Hex_base64]

theorem bind_eq_error_iff {ε α β : Type} (x : Except ε α) (f : α → Except ε β) (e : ε) :
    (x >>= f) = .error e ↔ x = .error e ∨ ∃ a, x = .ok a ∧ f a = .error e := by
  cases x with
  | error e' => simp [bind, Except.bind]
  | ok a => simp [bind, Except.bind]

theorem checkAccessKey_eq_error_iff (request : AuthRequest) (code : ℤ) :
    checkAccessKey request = .error code ↔
      code = 200 ∧ ¬ ∃ accesskey, FullKey request accesskey := by
  unfold checkAccessKey FullKey
  cases request.accessKey with
  | none => simp [eq_comm]
  | some given =>
    by_cases hlen : given.length = keyprefixLen + 1 + 1 + keyseqLen
    · simp [hlen]
    · simp [hlen, eq_comm]

variable {code : ℤ}

variable {accesskey : Bytes}

theorem checkLegalKey_error_ne {lst : AuthList} (h : checkLegalKey lst accesskey = .error code) :
    code ≠ 200 := by
  unfold checkLegalKey isLegalKey at h
  split_ifs at h
  · cases h
    decide
  · cases h
    decide
  · split at h
    · cases h
    · next hnone =>
        split at hnone
        · cases hnone
        · split at hnone
          · cases hnone
          · cases hnone
            cases h
            decide

theorem checkField_error_ne {field : Option Bytes} (h : checkField field = .error code) :
    code ≠ 200 := by
  unfold checkField at h
  split at h
  · split_ifs at h
    cases h
    decide
  · cases h
    decide

variable {request : AuthRequest}

theorem checkSign_error_ne {sign : Base64} (h : checkSign sign request = .error code) :
    code ≠ 200 := by
  unfold checkSign at h
  split at h
  · split_ifs at h
    cases h
    decide
  · cases h
    decide

/-- The code of a check that fails is 200 exactly if there is no full access key. -/
theorem authCheck_error_iff {lst : AuthList} {buf : Vector UInt8 20}
    (h : authCheck crypto lst buf request = .error code) :
    code = 200 ↔ ¬ ∃ accesskey, FullKey request accesskey := by
  unfold authCheck at h
  rcases (bind_eq_error_iff _ _ _).mp h with haccess | ⟨accesskey, haccess, hrest⟩
  · obtain ⟨hcode, hnone⟩ := (checkAccessKey_eq_error_iff request code).mp haccess
    exact iff_of_true hcode hnone
  have hfull := (checkAccessKey_eq_ok_iff accesskey).mp haccess
  refine iff_of_false ?_ fun hnone => hnone ⟨accesskey, hfull⟩
  -- none of the other checks fails with the code 200
  simp only [bind_eq_error_iff] at hrest
  rcases hrest with hlegal | ⟨item, -, hrandom | ⟨randomkey, -, hsign | ⟨-, -, hpk | ⟨pk, -, hdn |
    ⟨dn, -, hpure⟩⟩⟩⟩⟩
  · exact checkLegalKey_error_ne hlegal
  · exact checkField_error_ne hrandom
  · exact checkSign_error_ne hsign
  · exact checkField_error_ne hpk
  · exact checkField_error_ne hdn
  · cases hpure

/-- What the checks show does not depend on the buffer where the secrets are short. -/
theorem authCheck_buf {lst : AuthList} {buf : Vector UInt8 20} {request : AuthRequest}
    {auth : AuthProof} (h : authCheck crypto lst buf request = .ok auth)
    (hshort : ∀ accesskey item, LegalKey lst request accesskey item →
      item.secret.chars.length ≤ sha1KeyIopadSize) (buf' : Vector UInt8 20) :
    authCheck crypto lst buf' request = .ok auth := by
  rw [authCheck_eq_ok_iff] at h ⊢
  obtain ⟨accesskey, item, haccess, hlen, hitem, htoken, hrandom, hsign, hnames⟩ := h
  have hle := hshort accesskey item ⟨⟨haccess, hlen⟩, hitem⟩
  refine ⟨accesskey, item, haccess, hlen, hitem, ?_, hrandom, ?_, hnames⟩
  · rw [htoken]
    unfold utilsHmacSha1Base64 utilsHmacSha1Hex
    rw [if_neg (not_lt.mpr hle), if_neg (not_lt.mpr hle)]
  · rw [hsign]
    unfold utilsHmacSha1Base64
    rw [utilsHmacSha1Hex_base64, utilsHmacSha1Hex_base64]

section Auth

variable {server : AlcsServer C} {addr : NetworkAddr} {payload : Bytes} {input : AuthInput}

theorem alcsRecAuthBytes_id (left : Leftover) :
    (alcsRecAuthBytes crypto server addr payload input left).1.id
      = (reqPayloadParser payload left).1.printed := by
  unfold alcsRecAuthBytes
  simp only
  split
  · rfl
  · rfl

theorem alcsRecAuthBytes_size (left : Leftover) :
    (alcsRecAuthBytes crypto server addr payload input left).1.size = 512 := by
  unfold alcsRecAuthBytes
  simp only
  split
  · rfl
  · rfl

theorem alcsRecAuthBytes_none (h : requestOf payload = none) (left : Leftover) :
    (alcsRecAuthBytes crypto server addr payload input left).1.code = 200 ∧
      (alcsRecAuthBytes crypto server addr payload input left).1.data = [] ∧
      (alcsRecAuthBytes crypto server addr payload input left).2.1 = none := by
  have hdata : (reqPayloadParser payload left).2 = none := by
    rw [reqPayloadParser_snd]
    exact Option.map_eq_none_iff.mp h
  unfold alcsRecAuthBytes
  simp only [hdata, and_self]

variable {request : AuthRequest} {left : Leftover}

theorem alcsRecAuthBytes_error (h : requestOf payload = some request) {code : ℤ}
    (hauth : authCheck crypto server.lstAuth left.buf request = .error code) :
    (alcsRecAuthBytes crypto server addr payload input left).1.code = code ∧
      (alcsRecAuthBytes crypto server addr payload input left).1.data = [] ∧
      (alcsRecAuthBytes crypto server addr payload input left).2.1 = none := by
  obtain ⟨data, hdata, rfl⟩ := Option.map_eq_some_iff.mp h
  rw [authRequest_left hdata Leftover.clear left] at hauth
  unfold alcsRecAuthBytes alcsRecAuth
  simp only [reqPayloadParser_snd, hdata, Leftover.env, hauth, Option.map_none, Option.getD_none,
    and_self]

theorem alcsRecAuthBytes_made {request : AuthRequest} (h : requestOf payload = some request)
    {left : Leftover} {auth : AuthProof}
    (hauth : authCheck crypto server.lstAuth left.buf request = .ok auth) :
    (alcsRecAuthBytes crypto server addr payload input left).2
      = (some ((authSession crypto server addr (left.env input) auth).authed crypto auth input.uptime),
        (alcsRecAuth crypto server addr request (left.env input)).2) := by
  obtain ⟨data, hdata, rfl⟩ := Option.map_eq_some_iff.mp h
  rw [authRequest_left hdata Leftover.clear left] at hauth ⊢
  unfold alcsRecAuthBytes
  simp only [reqPayloadParser_snd, hdata]
  change authCheck crypto server.lstAuth (left.env input).buf _ = _ at hauth
  simp only [hauth]
  rfl

/-- What is printed of the session for a request that passes the checks. -/
def authData (crypto : Crypto) (server : AlcsServer C) (addr : NetworkAddr) (input : AuthInput)
    (auth : AuthProof) : Bytes :=
  let session := authSession crypto server addr (Leftover.clear.env input) auth
  authBodyText ⟨crypto.base64 (crypto.hmacSha1 auth.accessToken.chars session.randomKey.bytes),
    session.randomKey, session.sessionId⟩

theorem authData_ne_nil (auth : AuthProof) : authData crypto server addr input auth ≠ [] :=
  cons_ne_nil _ _

variable {auth : AuthProof}

/-- Checks that pass give the code 200 and a session, which is printed. -/
theorem alcsRecAuthBytes_ok (h : requestOf payload = some request)
    (hauth : authCheck crypto server.lstAuth left.buf request = .ok auth) :
    (alcsRecAuthBytes crypto server addr payload input left).1.code = 200 ∧
      (alcsRecAuthBytes crypto server addr payload input left).1.data
        = authData crypto server addr input auth ∧
      (alcsRecAuthBytes crypto server addr payload input left).2.1.isSome = true := by
  obtain ⟨data, hdata, rfl⟩ := Option.map_eq_some_iff.mp h
  rw [authRequest_left hdata Leftover.clear left] at hauth
  have hsession : ∀ left : Leftover,
      (authSession crypto server addr (left.env input) auth).randomKey
          = (authSession crypto server addr (Leftover.clear.env input) auth).randomKey ∧
        (authSession crypto server addr (left.env input) auth).sessionId
          = (authSession crypto server addr (Leftover.clear.env input) auth).sessionId := by
    intro left
    unfold authSession
    cases getSession crypto server.sessions ⟨addr, auth.pk, auth.dn⟩ with
    | none => exact ⟨rfl, rfl⟩
    | some session => exact ⟨rfl, rfl⟩
  unfold alcsRecAuthBytes alcsRecAuth
  simp only [reqPayloadParser_snd, hdata]
  change authCheck crypto server.lstAuth (left.env input).buf _ = _ at hauth
  simp only [hauth]
  refine ⟨rfl, ?_, rfl⟩
  show authBodyText _ = authData crypto server addr input auth
  unfold authData
  simp only [utilsHmacSha1Base64, utilsHmacSha1Hex_base64, hsession left]

theorem sessionMade_iff (left : Leftover) :
    SessionMade crypto server addr payload input left ↔
      (alcsRecAuthBytes crypto server addr payload input left).2.1.isSome = true := by
  constructor
  · rintro ⟨session, -, hsome, -⟩
    rw [hsome]
    rfl
  · intro hsome
    cases hrequest : requestOf payload with
    | none =>
      rw [(alcsRecAuthBytes_none hrequest left).2.2] at hsome
      cases hsome
    | some request =>
      cases hauth : authCheck crypto server.lstAuth left.buf request with
      | error code =>
        rw [(alcsRecAuthBytes_error hrequest hauth).2.2] at hsome
        cases hsome
      | ok auth =>
        have hmem : (authSession crypto server addr (left.env input) auth).authed crypto auth
            input.uptime ∈ (alcsRecAuth crypto server addr request (left.env input)).2.sessions :=
          authSession_mem_alcsRecAuth hauth
        unfold SessionMade
        rw [alcsRecAuthBytes_made hrequest hauth]
        refine ⟨_, hmem, rfl, ?_, rfl⟩
        show isNetworkaddSame addr (authSession crypto server addr (left.env input) auth).addr = true
        unfold authSession
        cases hfound : getSession crypto server.sessions ⟨addr, auth.pk, auth.dn⟩ with
        | none => exact decide_eq_true ⟨rfl, rfl⟩
        | some session =>
          have hfor : session.isFor addr (deviceChecksum crypto ⟨addr, auth.pk, auth.dn⟩) =
            true := List.find?_some hfound
          exact (Bool.and_eq_true_iff.mp hfor).1

/-- Some session is created or refreshed exactly if the checks pass. -/
theorem alcsRecAuthBytes_session_iff (left : Leftover) :
    (alcsRecAuthBytes crypto server addr payload input left).2.1.isSome = true ↔
      ∃ request accesskey item, requestOf payload = some request ∧
        LegalKey server.lstAuth request accesskey item ∧
        Signed crypto (utilsHmacSha1Base64 crypto left.buf accesskey item.secret.chars) request := by
  cases hrequest : requestOf payload with
  | none => simp [(alcsRecAuthBytes_none hrequest left).2.2]
  | some request =>
    have hiff := @exists_authCheck_iff crypto server.lstAuth left.buf request
    cases hauth : authCheck crypto server.lstAuth left.buf request with
    | error code =>
      rw [(alcsRecAuthBytes_error hrequest hauth).2.2]
      rw [hauth] at hiff
      simp_all
    | ok auth =>
      rw [(alcsRecAuthBytes_ok hrequest hauth).2.2]
      rw [hauth] at hiff
      simp_all

/-- The code is 200 exactly if the checks pass, or there is no full access key to check. -/
theorem alcsRecAuthBytes_code_iff (left : Leftover) :
    (alcsRecAuthBytes crypto server addr payload input left).1.code = 200 ↔
      (alcsRecAuthBytes crypto server addr payload input left).2.1.isSome = true ∨
        ¬ ∃ request accesskey, requestOf payload = some request ∧ FullKey request accesskey := by
  cases hrequest : requestOf payload with
  | none => simp [(alcsRecAuthBytes_none hrequest left).1]
  | some request =>
    cases hauth : authCheck crypto server.lstAuth left.buf request with
    | error code =>
      rw [(alcsRecAuthBytes_error hrequest hauth).1, (alcsRecAuthBytes_error hrequest hauth).2.2,
        authCheck_error_iff hauth]
      simp
    | ok auth =>
      exact iff_of_true (alcsRecAuthBytes_ok hrequest hauth).1
        (.inl (alcsRecAuthBytes_ok hrequest hauth).2.2)

theorem alcsRecAuthBytes_data_iff (left : Leftover) :
    (alcsRecAuthBytes crypto server addr payload input left).1.data = [] ↔
      ¬ (alcsRecAuthBytes crypto server addr payload input left).2.1.isSome = true := by
  cases hrequest : requestOf payload with
  | none => simp [alcsRecAuthBytes_none hrequest left]
  | some request =>
    cases hauth : authCheck crypto server.lstAuth left.buf request with
    | error code => simp [alcsRecAuthBytes_error hrequest hauth]
    | ok auth => simp [alcsRecAuthBytes_ok hrequest hauth, authData_ne_nil]

theorem carriesCode_alcsRecAuthBytes_iff (hmember : HasMember payload) (left : Leftover) :
    (alcsRecAuthBytes crypto server addr payload input left).1.CarriesCode 200 ↔
      ((alcsRecAuthBytes crypto server addr payload input left).2.1.isSome = true ∨
        ¬ ∃ request accesskey, requestOf payload = some request ∧ FullKey request accesskey) ∧
        (requestId payload).length ≤ 491 := by
  rw [carriesCode_iff (alcsRecAuthBytes_size left), alcsRecAuthBytes_code_iff, alcsRecAuthBytes_id,
    printed_of_hasMember hmember]

/-- No message gets the same sign under the tokens of all buffers. -/
def KeySensitive (crypto : Crypto) : Prop :=
  ∀ msg, ∃ buf buf', (crypto.base64 (crypto.hmacSha1 (crypto.base64 buf).chars msg)).chars
    ≠ (crypto.base64 (crypto.hmacSha1 (crypto.base64 buf').chars msg)).chars

theorem KeySensitive.exists_not_signed (hkey : KeySensitive crypto) (request : AuthRequest) :
    ∃ buf, ¬ Signed crypto (crypto.base64 buf) request := by
  by_contra hall
  push Not at hall
  obtain ⟨randomkey, -, -, ⟨hrandom, -⟩, -⟩ := hall (Vector.replicate 20 0)
  obtain ⟨buf, buf', hne⟩ := hkey randomkey
  have hsign : ∀ buf, request.sign
      = some (crypto.base64 (crypto.hmacSha1 (crypto.base64 buf).chars randomkey)).chars := by
    intro buf
    obtain ⟨randomkey', -, -, ⟨hrandom', -⟩, hsign, -⟩ := hall buf
    rw [Option.some.inj (hrandom.symm.trans hrandom')]
    exact hsign
  exact hne (Option.some.inj ((hsign buf).symm.trans (hsign buf')))

theorem LegalKey.unique {lst : AuthList} {accesskey' : Bytes} {item item' : SvrKeyInfo}
    (h : LegalKey lst request accesskey item) (h' : LegalKey lst request accesskey' item') :
    accesskey = accesskey' ∧ item = item' := by
  obtain ⟨⟨haccess, -⟩, hitem⟩ := h
  obtain ⟨⟨haccess', -⟩, hitem'⟩ := h'
  obtain rfl := Option.some.inj (haccess.symm.trans haccess')
  exact ⟨rfl, Option.some.inj (hitem.symm.trans hitem')⟩

/-- Where no key with a long secret has signed the request, the checks pass for every buffer or
for none. -/
theorem authCheck_buf_of_not_signed {lst : AuthList} {request : AuthRequest}
    (hlong : ∀ item, LegalKey lst request accesskey item → sha1KeyIopadSize < item.secret.chars.length → ∀ buf, ¬ Signed crypto (crypto.base64 buf) request)
    (hfull : FullKey request accesskey) {buf : Vector UInt8 20} {auth : AuthProof}
    (h : authCheck crypto lst buf request = .ok auth) (buf' : Vector UInt8 20) :
    authCheck crypto lst buf' request = .ok auth := by
  obtain ⟨accesskey', item, hlegal, hsigned⟩ := (exists_authCheck_iff lst buf request).mp ⟨auth, h⟩
  obtain rfl : accesskey = accesskey' := Option.some.inj (hfull.1.symm.trans hlegal.1.1)
  refine authCheck_buf h (fun accesskey'' item' hlegal' => ?_) buf'
  obtain ⟨-, rfl⟩ := hlegal.unique hlegal'
  by_contra hlt
  have htoken : utilsHmacSha1Base64 crypto buf accesskey item.secret.chars = crypto.base64 buf :=
    congrArg crypto.base64 (if_pos (not_le.mp hlt))
  exact hlong item hlegal (not_le.mp hlt) buf (htoken ▸ hsigned)

/-- **The reply to an auth request.** -/
theorem authTruthful_iff (hkey : KeySensitive crypto) :
    AuthTruthful crypto server addr payload input ↔ AuthPayloadOk crypto server.lstAuth payload := by
  unfold AuthTruthful
  simp only [sessionMade_iff]
  set run := alcsRecAuthBytes crypto server addr payload input
  constructor
  · rintro ⟨hcode, hsame⟩
    have hmember : HasMember payload := by
      by_contra hnone
      obtain ⟨left, left', hne⟩ := exists_printed_ne hnone
      have hid := (hsame left left').1
      rw [alcsRecAuthBytes_id, alcsRecAuthBytes_id] at hid
      exact hne hid
    refine ⟨hmember, ?_⟩
    split_ifs with hlen
    · have hfull : ∃ request accesskey, requestOf payload = some request ∧
          FullKey request accesskey := by
        by_contra hnone
        have hsome := (hcode Leftover.clear).mp
          ((carriesCode_alcsRecAuthBytes_iff hmember _).mpr ⟨.inr hnone, hlen⟩)
        obtain ⟨request, accesskey, item, hrequest, hlegal, -⟩ :=
          (alcsRecAuthBytes_session_iff _).mp hsome
        exact hnone ⟨request, accesskey, hrequest, hlegal.1⟩
      obtain ⟨request, accesskey, hrequest, hfull⟩ := hfull
      refine ⟨request, accesskey, hrequest, hfull, fun item hlegal hlong buf hsigned => ?_⟩
      have htoken : ∀ buf, utilsHmacSha1Base64 crypto buf accesskey item.secret.chars
          = crypto.base64 buf := fun buf => congrArg crypto.base64 (if_pos hlong)
      -- with this buffer there is data, with another one there is none
      obtain ⟨buf', hnot⟩ := hkey.exists_not_signed request
      have hdata := (hsame { Leftover.clear with buf := buf } { Leftover.clear with buf := buf' }).2
      have hsome : (run { Leftover.clear with buf := buf }).2.1.isSome = true :=
        (alcsRecAuthBytes_session_iff _).mpr
          ⟨request, accesskey, item, hrequest, hlegal, (htoken buf).symm ▸ hsigned⟩
      have hnone : ¬ (run { Leftover.clear with buf := buf' }).2.1.isSome = true := by
        intro hsome'
        obtain ⟨request', accesskey', item', hrequest', hlegal', hsigned'⟩ :=
          (alcsRecAuthBytes_session_iff _).mp hsome'
        obtain rfl := Option.some.inj (hrequest.symm.trans hrequest')
        obtain ⟨rfl, rfl⟩ := hlegal.unique hlegal'
        exact hnot (htoken buf' ▸ hsigned')
      rw [(alcsRecAuthBytes_data_iff _).mpr hnone] at hdata
      exact (alcsRecAuthBytes_data_iff _).mp hdata hsome
    · intro request accesskey item hrequest hlegal buf hsigned
      have hcarries := (hcode { Leftover.clear with buf := buf }).mpr
        ((alcsRecAuthBytes_session_iff _).mpr ⟨request, accesskey, item, hrequest, hlegal, hsigned⟩)
      exact hlen ((carriesCode_alcsRecAuthBytes_iff hmember _).mp hcarries).2
  · rintro ⟨hmember, hcond⟩
    have hid : ∀ left left',
        (run left).1.id = (run left').1.id := by
      intro left left'
      rw [alcsRecAuthBytes_id, alcsRecAuthBytes_id, printed_of_hasMember hmember,
        printed_of_hasMember hmember]
    split_ifs at hcond with hlen
    · obtain ⟨request, accesskey, hrequest, hfull, hlong⟩ := hcond
      refine ⟨fun left => ?_, fun left left' => ⟨hid left left', ?_⟩⟩
      · rw [carriesCode_alcsRecAuthBytes_iff hmember]
        constructor
        · rintro ⟨hsome | hnone, -⟩
          · exact hsome
          · exact absurd ⟨request, accesskey, hrequest, hfull⟩ hnone
        · exact fun hsome => ⟨.inl hsome, hlen⟩
      · cases hauth : authCheck crypto server.lstAuth left.buf request with
        | ok auth =>
          have hauth' := authCheck_buf_of_not_signed hlong hfull hauth left'.buf
          rw [(alcsRecAuthBytes_ok hrequest hauth).2.1, (alcsRecAuthBytes_ok hrequest hauth').2.1]
        | error code =>
          cases hauth' : authCheck crypto server.lstAuth left'.buf request with
          | ok auth =>
            rw [authCheck_buf_of_not_signed hlong hfull hauth' left.buf] at hauth
            cases hauth
          | error code' =>
            rw [(alcsRecAuthBytes_error hrequest hauth).2.1,
              (alcsRecAuthBytes_error hrequest hauth').2.1]
    · have hnone : ∀ left,
          ¬ (run left).2.1.isSome = true := by
        intro left hsome
        obtain ⟨request, accesskey, item, hrequest, hlegal, hsigned⟩ :=
          (alcsRecAuthBytes_session_iff left).mp hsome
        exact hcond request accesskey item hrequest hlegal left.buf hsigned
      refine ⟨fun left => iff_of_false (fun hcarries => ?_) (hnone left),
        fun left left' => ⟨hid left left', ?_⟩⟩
      · exact hlen ((carriesCode_alcsRecAuthBytes_iff hmember left).mp hcarries).2
      · rw [(alcsRecAuthBytes_data_iff left).mpr (hnone left),
          (alcsRecAuthBytes_data_iff left').mpr (hnone left')]

end Auth

/-! ## The reply to a request for a key -/

/-- The access key starts with the prefix of a key of the device or of a group. -/
def Registered (key : Bytes) : Bool :=
  (lst.lstSvr.any fun node => startsWith key node.keyprefix.chars) ||
    lst.lstSvrGroup.any fun gnode => startsWith key gnode.keyInfo.keyprefix.chars

/-- The first access key that is offered and registered. -/
def firstRegistered : Option OfferedKey :=
  (offered payload).find? fun entry => Registered lst entry.key

/-- The reply carries the code 200 and an access key exactly if a registered one is offered,
then the first of them, and neither the id nor the data depends on what was left over. -/
def SelectTruthful : Prop :=
  (∀ left,
    ((∃ key, (alcsRecAuthSelectBytes lst payload left).CarriesKey key) ↔
        ∃ entry ∈ offered payload, Registered lst entry.key = true) ∧
      ∀ entry, firstRegistered lst payload = some entry →
        (alcsRecAuthSelectBytes lst payload left).CarriesKey entry.key) ∧
    ∀ left left',
      (alcsRecAuthSelectBytes lst payload left).id = (alcsRecAuthSelectBytes lst payload left').id ∧
        (alcsRecAuthSelectBytes lst payload left).data
          = (alcsRecAuthSelectBytes lst payload left').data

/-- The first entry, if the text from it on starts with the prefix of a key of the device. -/
def firstDeviceKey : List OfferedKey → Bytes
  | [] => []
  | entry :: _ =>
    if lst.lstSvr.any fun node => startsWith entry.text node.keyprefix.chars then entry.key else []

/-- When it is so: the id is one of the payload.  If a registered access key is offered, the
first one is the first entry, found for a key of the device, and it fits in `keybuf` and in the reply;
if none is, the reply is too long to be printed whole. -/
def SelectPayloadOk : Prop :=
  HasMember payload ∧
    match firstRegistered lst payload with
    | some entry => entry.key = firstDeviceKey lst (offered payload) ∧ entry.key.length ≤ 17 ∧
        (requestId payload).length + entry.key.length + 44 < 512
    | none => 512 ≤ (requestId payload).length + (firstDeviceKey lst (offered payload)).length + 44

section Select

variable {lst : AuthList} {payload : Bytes}

/-- The loop stops at the first entry, as `targetKey` is not `NULL` from the start. -/
theorem selectEntries_some (lst : AuthList) (entries : List OfferedKey) :
    selectEntries lst entries (some []) = some (firstDeviceKey lst entries) := by
  cases entries with
  | nil => rfl
  | cons entry rest =>
    rw [selectEntries, firstDeviceKey]
    by_cases hany : lst.lstSvr.any fun node => startsWith entry.text node.keyprefix.chars
    · simp only [hany, if_true, Option.isSome_some]
    · simp only [if_neg hany, Option.isSome_some, if_true]

theorem alcsRecAuthSelectBytes_eq (left : Leftover) :
    alcsRecAuthSelectBytes lst payload left = ⟨(reqPayloadParser payload left).1.printed, 200,
        (accessKeyData (firstDeviceKey lst (offered payload))).take 31, 512⟩ := by
  unfold alcsRecAuthSelectBytes
  rw [offeredKeys_eq, selectEntries_some]
  rfl

theorem registered_mono {key key' : Bytes} (h : key <+: key')
    (hkey : Registered lst key = true) : Registered lst key' = true := by
  have hstarts : ∀ s : Bytes, startsWith key s = true → startsWith key' s = true :=
    fun s hs => isPrefixOf_iff_prefix.mpr ((List.isPrefixOf_iff_prefix.mp hs).trans h)
  unfold Registered at hkey ⊢
  rw [Bool.or_eq_true, any_eq_true, any_eq_true] at hkey ⊢
  rcases hkey with ⟨node, hmem, hnode⟩ | ⟨gnode, hmem, hgnode⟩
  · exact .inl ⟨node, hmem, hstarts _ hnode⟩
  · exact .inr ⟨gnode, hmem, hstarts _ hgnode⟩

variable {entry : OfferedKey}

theorem OfferedKey.begins_text (h : entry ∈ offered payload) : entry.key <+: entry.text := by
  unfold offered offeredKeys at h
  split at h
  · cases h
  · split at h
    · cases h
    · obtain ⟨value, -, rfl⟩ := mem_map.mp h
      exact take_prefix _ _

/-- The entry that is named is a short one if it is not registered. -/
theorem length_firstDeviceKey (hlst : ∀ node ∈ lst.lstSvr, node.keyprefix.chars.length = keyprefixLen)
    (hnone : ∀ entry ∈ offered payload, ¬ Registered lst entry.key = true) :
    (firstDeviceKey lst (offered payload)).length < keyprefixLen := by
  have htext := fun entry => @OfferedKey.begins_text payload entry
  revert hnone htext
  cases offered payload with
  | nil => exact fun _ _ => Nat.succ_pos _
  | cons entry rest =>
    intro hnone htext
    rw [firstDeviceKey]
    split_ifs with hany
    · by_contra hle
      obtain ⟨node, hmem, hstarts⟩ := any_eq_true.mp hany
      have hshort : node.keyprefix.chars <+: entry.key := by
        apply prefix_of_prefix_length_le (List.isPrefixOf_iff_prefix.mp hstarts)
          (htext entry mem_cons_self)
        rw [hlst node hmem]
        exact not_lt.mp hle
      apply hnone entry mem_cons_self
      unfold Registered
      rw [Bool.or_eq_true, any_eq_true]
      exact .inl ⟨node, hmem, isPrefixOf_iff_prefix.mpr hshort⟩
    · exact Nat.succ_pos _

/-- What `keybuf` cuts off only looks like another key if that one begins it. -/
theorem cut_accessKeyData {key target : Bytes}
    (h : (accessKeyData target).take 31 = accessKeyData key) :
    key.length ≤ 17 ∧ key <+: target := by
  have hlen := congrArg List.length h
  rw [length_take, length_accessKeyData, length_accessKeyData] at hlen
  have hpre : accessKeyData key <+: accessKeyData target := h ▸ take_prefix _ _
  unfold accessKeyData at hpre
  rw [append_assoc, append_assoc, prefix_append_right_inj] at hpre
  exact ⟨by omega, prefix_of_prefix_length_le ((prefix_append key _).trans hpre)
    (prefix_append target _) (by omega)⟩

theorem take_accessKeyData {target : Bytes} (h : target.length ≤ 17) :
    (accessKeyData target).take 31 = accessKeyData target := by
  apply take_of_length_le
  rw [length_accessKeyData]
  omega

theorem registered_of_firstRegistered (h : firstRegistered lst payload = some entry) :
    entry ∈ offered payload ∧ Registered lst entry.key = true := by
  obtain ⟨hregistered, -⟩ := List.find?_eq_some_iff_append.mp h
  exact ⟨mem_of_find?_eq_some h, hregistered⟩

/-- A registered key can only begin the key that is named if it is that key. -/
theorem eq_firstDeviceKey (h : firstRegistered lst payload = some entry)
    (hbegins : entry.key <+: firstDeviceKey lst (offered payload)) :
    entry.key = firstDeviceKey lst (offered payload) := by
  have hregistered := (registered_of_firstRegistered h).2
  unfold firstRegistered at h
  revert h hbegins
  cases offered payload with
  | nil => exact fun h _ => by cases h
  | cons first rest =>
    intro h hbegins
    rw [firstDeviceKey] at hbegins ⊢
    split_ifs at hbegins ⊢
    · have hfirst : (first :: rest).find? (fun entry => Registered lst entry.key) = some first :=
        List.find?_cons_of_pos (registered_mono hbegins hregistered)
      rw [Option.some.inj (h.symm.trans hfirst)]
    · exact prefix_nil.mp hbegins

/-- **The reply to a request for a key.** -/
theorem selectTruthful_iff
    (hlst : ∀ node ∈ lst.lstSvr, node.keyprefix.chars.length = keyprefixLen) :
    SelectTruthful lst payload ↔ SelectPayloadOk lst payload := by
  have hcarries : HasMember payload → ∀ left key,
      (alcsRecAuthSelectBytes lst payload left).CarriesKey key ↔
        (accessKeyData (firstDeviceKey lst (offered payload))).take 31 = accessKeyData key ∧
          (requestId payload).length + key.length + 44 < 512 := by
    intro hmember left key
    rw [alcsRecAuthSelectBytes_eq, printed_of_hasMember hmember, carriesKey_iff rfl]
    exact and_iff_right rfl
  have hnone : firstRegistered lst payload = none →
      ∀ entry ∈ offered payload, ¬ Registered lst entry.key = true :=
    fun h => List.find?_eq_none.mp h
  have hshort : firstRegistered lst payload = none →
      (firstDeviceKey lst (offered payload)).length ≤ 17 := by
    intro h
    have hlt := length_firstDeviceKey hlst (hnone h)
    unfold keyprefixLen at hlt
    omega
  constructor
  · rintro ⟨hcode, hsame⟩
    have hmember : HasMember payload := by
      by_contra hnot
      obtain ⟨left, left', hne⟩ := exists_printed_ne hnot
      have hid := (hsame left left').1
      rw [alcsRecAuthSelectBytes_eq, alcsRecAuthSelectBytes_eq] at hid
      exact hne hid
    refine ⟨hmember, ?_⟩
    obtain ⟨hexists, hfirst⟩ := hcode Leftover.clear
    cases hfind : firstRegistered lst payload with
    | some entry =>
      obtain ⟨hdata, hfits⟩ := (hcarries hmember _ _).mp (hfirst entry hfind)
      obtain ⟨hlen, hbegins⟩ := cut_accessKeyData hdata
      exact ⟨eq_firstDeviceKey hfind hbegins, hlen, hfits⟩
    | none =>
      by_contra hfits
      obtain ⟨entry, hmem, hregistered⟩ := hexists.mp ⟨_, (hcarries hmember _ _).mpr
        ⟨take_accessKeyData (hshort hfind), not_le.mp hfits⟩⟩
      exact hnone hfind entry hmem hregistered
  · rintro ⟨hmember, hcond⟩
    refine ⟨fun left => ?_, fun left left' => ?_⟩
    · cases hfind : firstRegistered lst payload with
      | some entry =>
        rw [hfind] at hcond
        obtain ⟨hkey, hlen, hfits⟩ := hcond
        have hentry := (hcarries hmember left entry.key).mpr
          ⟨hkey ▸ take_accessKeyData (hkey ▸ hlen), hfits⟩
        refine ⟨iff_of_true ⟨_, hentry⟩ ⟨entry, registered_of_firstRegistered hfind⟩,
          fun entry' h => ?_⟩
        obtain rfl := Option.some.inj h
        exact hentry
      | none =>
        rw [hfind] at hcond
        refine ⟨iff_of_false ?_ ?_, fun entry' h => by cases h⟩
        · rintro ⟨key, hkey⟩
          obtain ⟨hdata, hfits⟩ := (hcarries hmember left key).mp hkey
          rw [take_accessKeyData (hshort hfind)] at hdata
          have hlen := congrArg List.length hdata
          rw [length_accessKeyData, length_accessKeyData] at hlen
          simp only at hcond
          omega
        · rintro ⟨entry, hmem, hregistered⟩
          exact hnone hfind entry hmem hregistered
    · rw [alcsRecAuthSelectBytes_eq, alcsRecAuthSelectBytes_eq, printed_of_hasMember hmember,
        printed_of_hasMember hmember]
      exact ⟨rfl, rfl⟩

end Select

/-! ## The reply to a heartbeat -/

/-- Neither the id nor the data of a reply depends on what was left over. -/
def HeartBeatTruthful (sessions : List SessionItem) (remote : NetworkAddr) (uptime : UInt64)
    (payload : Bytes) : Prop :=
  ∀ left left',
    (alcsRecHeartBeatBytes sessions remote uptime payload left).map (fun reply => (reply.id, reply.data))
      = (alcsRecHeartBeatBytes sessions remote uptime payload left').map
        fun reply => (reply.id, reply.data)

theorem heartBeatTruthful_iff (sessions : List SessionItem) (remote : NetworkAddr) (uptime : UInt64)
    (payload : Bytes) :
    HeartBeatTruthful sessions remote uptime payload ↔ sessions = [] ∨ HasMember payload := by
  cases hsessions : sessions with
  | nil => exact iff_of_true (fun _ _ => rfl) (.inl rfl)
  | cons session rest =>
    have hreply : ∃ code, (alcsRecHeartBeat (session :: rest) remote uptime).1 = some code :=
      ⟨_, rfl⟩
    obtain ⟨code, hcode⟩ := hreply
    unfold HeartBeatTruthful alcsRecHeartBeatBytes
    simp only [hcode, Option.map_some, Option.some.injEq, Prod.mk.injEq, and_true, reduceCtorEq,
      false_or]
    constructor
    · intro hsame
      by_contra hnone
      obtain ⟨left, left', hne⟩ := exists_printed_ne hnone
      exact hne (hsame left left')
    · intro hmember left left'
      rw [printed_of_hasMember hmember, printed_of_hasMember hmember]

/-! ## The replies -/

theorem length_keyprefix_keyRun (ops : List KeyOp) :
    ∀ node ∈ (keyRun authListInit ops).lstSvr, node.keyprefix.chars.length = keyprefixLen := by
  refine GuardedRun.inv_foldl
    (fun lst : AuthList => ∀ node ∈ lst.lstSvr, node.keyprefix.chars.length = keyprefixLen)
    (fun lst op h => ?_) (fun node hmem => absurd hmem not_mem_nil) ops
  have hlow : ∀ priority, ∀ node ∈ (alcsRemoveLowPriorityKey lst priority).lstSvr,
      node.keyprefix.chars.length = keyprefixLen :=
    fun priority node hmem => h node (mem_of_mem_filter hmem)
  cases op with
  | addSvrKey malloc keyPrefix secret priority =>
    show ∀ node ∈ (Alcs.addSvrKey malloc lst keyPrefix secret priority).2.lstSvr, _
    rcases addSvrKey_cases malloc lst keyPrefix secret priority with
      heq | ⟨-, hlen, ⟨-, -, -, heq⟩ | ⟨-, heq⟩ | ⟨-, heq⟩⟩
    · rw [heq]
      exact h
    · rw [heq]
      exact hlow priority
    · rw [heq]
      exact hlow priority
    · rw [heq]
      exact forall_mem_append.mpr ⟨hlow priority, forall_mem_singleton.mpr hlen⟩
  | removeSvrKey keyPrefix =>
    show ∀ node ∈ (alcsRemoveSvrKey lst keyPrefix).lstSvr, _
    unfold alcsRemoveSvrKey
    split_ifs
    · exact fun node hmem => h node (mem_of_mem_eraseP hmem)
    · exact h
  | addSvrGroup malloc groupid keyPrefix secret =>
    show ∀ node ∈ (alcsAddSvrGroup malloc lst groupid keyPrefix secret).2.lstSvr, _
    rcases alcsAddSvrGroup_cases malloc lst groupid keyPrefix secret with
      heq | heq | ⟨-, -, heq⟩ <;> exact heq ▸ h
  | setRevocation seqlist => exact h
  | addClientKey malloc accesskey accesstoken deviceName =>
    show ∀ node ∈ (alcsAddClientKey malloc lst accesskey accesstoken deviceName).2.lstSvr, _
    rcases alcsAddClientKey_cases malloc lst accesskey accesstoken deviceName with
      heq | heq | ⟨-, heq⟩ <;> exact heq ▸ h
  | removeClientKey key => exact h

/-- **The replies of an ALCS server.**  With any keys that were added and removed before, and
any sessions, the reply to an auth request, to a request for a key and to a heartbeat is as it
should be exactly if the payload allows it. -/
theorem auth_replies_iff (hkey : KeySensitive crypto) (ops : List KeyOp) (server : AlcsServer C)
    (addr : NetworkAddr) (payload : Bytes) (input : AuthInput) :
    let lst := keyRun authListInit ops
    (AuthTruthful crypto { server with lstAuth := lst } addr payload input ↔
        AuthPayloadOk crypto lst payload) ∧
      (SelectTruthful lst payload ↔ SelectPayloadOk lst payload) ∧
      (HeartBeatTruthful server.sessions addr input.uptime payload ↔
        server.sessions = [] ∨ HasMember payload) :=
  ⟨authTruthful_iff hkey, selectTruthful_iff (length_keyprefix_keyRun ops),
    heartBeatTruthful_iff _ _ _ _⟩

/-! ### A payload with an access key, and one without -/

/-- Signs that are the token. -/
def tokenCrypto : Crypto :=
  { plainCrypto with hmacSha1 := fun key _ => Vector.ofFn fun i => key.getD i 0 }

theorem tokenCrypto_keySensitive : KeySensitive tokenCrypto := by
  have hne : (tokenCrypto.base64 (tokenCrypto.hmacSha1
        (tokenCrypto.base64 (Vector.replicate 20 0x41)).chars [])).chars
      ≠ (tokenCrypto.base64 (tokenCrypto.hmacSha1
        (tokenCrypto.base64 (Vector.replicate 20 0x42)).chars [])).chars := by
    decide
  exact fun _ => ⟨_, _, hne⟩

def serverA : AlcsServer ℕ := ⟨keysA, [], [], 0xff⟩

def inputA : AuthInput := ⟨randomKeyA, 0⟩

/-- `{"id":"7","params":{"accessKey":"QYTP123401abc","accessKeys":["QYTP123401abc"]}}` -/
def keyPayload : Bytes :=
  [0x7b, 0x22, 0x69, 0x64, 0x22, 0x3a, 0x22, 0x37, 0x22, 0x2c, 0x22, 0x70, 0x61, 0x72, 0x61, 0x6d,
    0x73, 0x22, 0x3a, 0x7b, 0x22, 0x61, 0x63, 0x63, 0x65, 0x73, 0x73, 0x4b, 0x65, 0x79, 0x22, 0x3a,
    0x22, 0x51, 0x59, 0x54, 0x50, 0x31, 0x32, 0x33, 0x34, 0x30, 0x31, 0x61, 0x62, 0x63, 0x22, 0x2c,
    0x22, 0x61, 0x63, 0x63, 0x65, 0x73, 0x73, 0x4b, 0x65, 0x79, 0x73, 0x22, 0x3a, 0x5b, 0x22, 0x51,
    0x59, 0x54, 0x50, 0x31, 0x32, 0x33, 0x34, 0x30, 0x31, 0x61, 0x62, 0x63, 0x22, 0x5d, 0x7d, 0x7d]

/-- `{"id":"7","params":{}}` -/
def emptyPayload : Bytes :=
  [0x7b, 0x22, 0x69, 0x64, 0x22, 0x3a, 0x22, 0x37, 0x22, 0x2c, 0x22, 0x70, 0x61, 0x72, 0x61, 0x6d,
    0x73, 0x22, 0x3a, 0x7b, 0x7d, 0x7d]

theorem authPayloadOk_keyPayload : AuthPayloadOk tokenCrypto keysA keyPayload := by
  have hmember : HasMember keyPayload := by
    unfold HasMember
    decide +kernel
  have hdata : requestData keyPayload = some ⟨19, 60⟩ := by decide +kernel
  have hfull : FullKey (authRequest keyPayload Leftover.clear ⟨19, 60⟩) accesskeyA.chars :=
    ⟨by decide +kernel, rfl⟩
  have hlegal : LegalKey keysA (authRequest keyPayload Leftover.clear ⟨19, 60⟩) accesskeyA.chars
      ⟨keyprefixA, secretX, .localsetup⟩ := ⟨hfull, rfl⟩
  refine ⟨hmember, ?_⟩
  rw [if_pos (by decide +kernel)]
  refine ⟨_, _, congrArg (Option.map _) hdata, hfull, fun item hitem hlong => ?_⟩
  rw [← (hlegal.unique hitem).2] at hlong
  exact absurd hlong (by decide)

theorem selectPayloadOk_keyPayload : SelectPayloadOk keysA keyPayload := by
  have hmember : HasMember keyPayload := by
    unfold HasMember
    decide +kernel
  refine ⟨hmember, ?_⟩
  have hfirst : firstRegistered keysA keyPayload
      = some ⟨accesskeyA.chars, accesskeyA.chars ++ [0x22, 0x5d]⟩ := by
    decide +kernel
  rw [hfirst]
  decide +kernel

theorem auth_replies_keyPayload :
    AuthTruthful tokenCrypto { serverA with lstAuth := keysA } remoteA keyPayload inputA ∧
      SelectTruthful keysA keyPayload := by
  obtain ⟨hauth, hselect, -⟩ := auth_replies_iff tokenCrypto_keySensitive
    [.addSvrKey true keyprefixA secretX .localsetup] serverA remoteA keyPayload inputA
  exact ⟨hauth.mpr authPayloadOk_keyPayload, hselect.mpr selectPayloadOk_keyPayload⟩

/-- The code is 200 without a session and without a key, and the id of a heartbeat that says
nothing is what was left over. -/
theorem auth_replies_emptyPayload :
    ¬ AuthTruthful tokenCrypto serverA remoteA emptyPayload inputA ∧
      ¬ SelectTruthful keysA emptyPayload ∧
      ∀ session, ¬ HeartBeatTruthful [session] remoteA 0 [] := by
  refine ⟨?_, ?_, ?_⟩
  · rintro ⟨hcode, -⟩
    have hreply : (alcsRecAuthBytes tokenCrypto serverA remoteA emptyPayload inputA
        Leftover.clear).1.CarriesCode 200 :=
      (carriesCode_iff rfl).mpr (by decide +kernel)
    obtain ⟨session, -, hsome, -⟩ := (hcode _).mp hreply
    have hnone : (alcsRecAuthBytes tokenCrypto serverA remoteA emptyPayload inputA
        Leftover.clear).2.1.isSome = false := by decide +kernel
    rw [hsome] at hnone
    cases hnone
  · rintro ⟨hcode, -⟩
    have hreply : (alcsRecAuthSelectBytes keysA emptyPayload Leftover.clear).CarriesKey [] :=
      (carriesKey_iff rfl []).mpr (by decide +kernel)
    obtain ⟨entry, hmem, -⟩ := (hcode Leftover.clear).1.mp ⟨[], hreply⟩
    have hnone : (offered emptyPayload).length = 0 := by decide +kernel
    rw [length_eq_zero_iff.mp hnone] at hmem
    cases hmem
  · intro session hsame
    rcases (heartBeatTruthful_iff _ _ _ _).mp hsame with h | h
    · cases h
    · exact h rfl

end Iotkit.Alcs
