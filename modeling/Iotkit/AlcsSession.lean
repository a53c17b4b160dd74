/-
# Sessions of an ALCS server

`alcs_server.c` and `alcs_api.c`: the handling of an auth request, which creates or refreshes
a session, the secure resources and the handler of a request for one of them, heartbeats, and
the timer that removes sessions.  MD5, HMAC-SHA1, base64 and AES stay abstract; of a JSON
payload the model has the fields that are read from it.
-/
import Iotkit.AlcsKeys

namespace Iotkit.Alcs

open Coap

def randomkeyLen : ℕ := 16
def pkDnChecksumLen : ℕ := 6
def maxPathChecksumLen : ℕ := 5
def sha1KeyIopadSize : ℕ := 64

abbrev coapOptionSessionid : UInt16 := 71
abbrev coapMsgCode401Unauthorized : UInt8 := 0x81
abbrev alcsHeartFailauth : ℤ := 507
def defaultHeartExpire : Int32 := 120000

/-! ## Cryptography -/

/-- The base64 text of a digest. -/
structure Base64 extends CString where
  length_eq : chars.length = 28

/-- The functions from elsewhere: `utils_md5`, HMAC-SHA1, `utils_base64encode` of a digest,
`alcs_encrypt` and `alcs_decrypt`. -/
structure Crypto where
  md5 : Bytes → Vector UInt8 16
  hmacSha1 : (key msg : Bytes) → Vector UInt8 20
  base64 : Vector UInt8 20 → Base64
  encrypt : (key : Vector UInt8 20) → (src : Bytes) → Bytes
  decrypt : (key : Vector UInt8 20) → (src : Bytes) → Bytes

variable (crypto : Crypto)

/-- `utils_hmac_sha1_hex`, which leaves `digest` alone if the key is too long. -/
def utilsHmacSha1Hex (msg : Bytes) (digest : Vector UInt8 20) (key : Bytes) :
    Vector UInt8 20 :=
  if key.length > sha1KeyIopadSize then digest else crypto.hmacSha1 key msg

/-- `utils_hmac_sha1_base64`; `buf` is what its buffer holds before. -/
def utilsHmacSha1Base64 (buf : Vector UInt8 20) (msg key : Bytes) : Base64 :=
  crypto.base64 (utilsHmacSha1Hex crypto msg buf key)

/-- What `gen_random_key` makes of `RANDOMKEY_LEN` bytes: one character less, each of them a
letter or a digit. -/
structure RandomKey where
  chars : Bytes
  length_eq : chars.length = randomkeyLen - 1
  alnum : ∀ c ∈ chars, isDigit c ∨ isLower c ∨ (0x41 ≤ c ∧ c ≤ 0x5a)

/-- The array that holds a random key, with the terminator. -/
def RandomKey.bytes (key : RandomKey) : Bytes := key.chars ++ [0]

/-! ## Sessions -/

/-- `session_item`; of `sessionKey` the bytes that are written. -/
structure SessionItem where
  randomKey : RandomKey
  sessionId : UInt32
  sessionKey : Vector UInt8 20
  authedTime : Int32
  heartTime : Int32
  addr : NetworkAddr
  pkDn : Bytes

/-- The device that a session is with. -/
structure AlcsDeviceKey where
  addr : NetworkAddr
  pk : Bytes
  dn : Bytes

/-- The same port and the same text of the address. -/
def isNetworkaddSame (addr1 addr2 : NetworkAddr) : Bool :=
  addr1.port = addr2.port ∧ cChars addr1.addr.toList = cChars addr2.addr.toList

/-- The test for a session in `get_session_by_checksum`. -/
def SessionItem.isFor (addr : NetworkAddr) (ck : Bytes) (node : SessionItem) : Bool :=
  isNetworkaddSame addr node.addr && strncmpEq pkDnChecksumLen node.pkDn ck

variable (sessions : List SessionItem)

/-- The first session of the address and the checksum. -/
def getSessionByChecksum (addr : NetworkAddr) (ck : Bytes) :
    Option SessionItem :=
  sessions.find? (SessionItem.isFor addr ck)

/-- The checksum that `get_session` takes of the names of a device, printed into 100 bytes. -/
def deviceChecksum (devKey : AlcsDeviceKey) : Bytes :=
  coapPathMD5Sum crypto.md5 ((cChars devKey.pk ++ cChars devKey.dn).take 99) pkDnChecksumLen

/-- The session of a device. -/
def getSession (devKey : AlcsDeviceKey) : Option SessionItem :=
  getSessionByChecksum sessions devKey.addr (deviceChecksum crypto devKey)

/-! ## Secure resources -/

/-- `secure_resource_cb_item`. -/
structure SecureResource (C : Type) where
  path : Bytes
  pkDn : Bytes
  filterPath : Bytes
  pathType : PathType
  cb : C

/-- The server: its keys, the sessions, the secure resources and `sessionid_seed`. -/
structure AlcsServer (C : Type) where
  lstAuth : AuthList
  sessions : List SessionItem
  resources : List (SecureResource C)
  sessionidSeed : UInt32

variable {C : Type}

/-- The names of a device in one string, as `alcs_resource_register_secure` and `do_auth` join
them in a cleared buffer of 100 bytes. -/
def joinNames (pk dn : Bytes) : Bytes :=
  let path := pk.take (100 - 1)
  path ++ dn.take (100 - path.length - 1)

/-- The item `alcs_resource_register_secure` makes. -/
def secureResourceItem (pk dn path : CString) (cb : C) : SecureResource C :=
  let filter : Prop := [0x2f, 0x23] <:+: path.chars
  { path := if filter then List.replicate maxPathChecksumLen 0
      else coapPathMD5Sum crypto.md5 path.chars maxPathChecksumLen
    pkDn := coapPathMD5Sum crypto.md5 (joinNames pk.chars dn.chars) pkDnChecksumLen
    filterPath := if filter then path.chars else []
    pathType := if filter then .filter else .normal
    cb := cb }

/-- A registered resource takes the place of the new one. -/
def isDup (path : CString) (item node : SecureResource C) : Bool :=
  match item.pathType, node.pathType with
  | .normal, .normal => node.path = item.path
  | .filter, .filter => strncmpEq path.chars.length node.filterPath path.chars
  | _, _ => false

/-- `alcs_resource_register_secure`, up to the registration in the CoAP context; `malloc` says
whether the item can be allocated. -/
def alcsResourceRegisterSecure (malloc : Bool) (resources : List (SecureResource C))
    (pk dn path : CString) (callback : C) : List (SecureResource C) :=
  let item := secureResourceItem crypto pk dn path callback
  if ¬ malloc then resources
  else if resources.any (isDup path item) then resources
  else resources ++ [item]

/-- The first resource of the path. -/
def getResourceByPath (resources : List (SecureResource C)) (path : CString) :
    Option (SecureResource C) :=
  resources.find? fun node =>
    match node.pathType with
    | .normal => node.path = coapPathMD5Sum crypto.md5 path.chars maxPathChecksumLen
    | .filter => 0 < node.filterPath.length ∧ coapResourceTopicFilterMatch node.filterPath path.chars

/-- What the handler of a request does: an error response, an observer, a call. -/
inductive SvrEffect (C : Type)
  | errRsp (code : UInt8) (addr : NetworkAddr)
  | observe (path : CString) (remote : NetworkAddr)
  | callback (cb : C) (path : CString) (remote : NetworkAddr) (payload : Bytes)

/-- The bytes of a message's payload. -/
def payloadBytes (message : CoapMessage Memory) : Bytes :=
  (List.range message.payloadlen.toNat).map fun i =>
    (message.payload.map fun payload => payload i).getD 0

/-- The session id a request carries, 0 if it carries none. -/
def requestSessionId (message : CoapMessage Memory) : UInt32 :=
  (coapUintOptionGet message.options coapOptionSessionid 0).getD 0

/-- `recv_msg_handler`; `malloc` says whether the buffer for a long payload can be allocated,
`obsVal` is what the variable of that name holds before. -/
def recvMsgHandler (server : AlcsServer C) (path : CString) (remote : NetworkAddr)
    (message : CoapMessage Memory) (malloc : Bool) (obsVal : UInt32) : List (SvrEffect C) :=
  match getResourceByPath crypto server.resources path with
  | none => []
  | some node =>
    match getSessionByChecksum server.sessions remote node.pkDn with
    | none => [.errRsp coapMsgCode401Unauthorized remote]
    | some session =>
      if session.sessionId ≠ requestSessionId message then
        [.errRsp coapMsgCode401Unauthorized remote]
      else
        (if coapUintOptionGet message.options coapOptionObserve obsVal = some 0 then
            [.observe path remote] else []) ++
          if message.payloadlen < 256 ∨ malloc then
            [.callback node.cb path remote (crypto.decrypt session.sessionKey
              (payloadBytes message))]
          else []

/-! ## The auth request -/

/-- The fields of the parameters of an auth request. -/
structure AuthRequest where
  accessKey : Option Bytes
  randomKey : Option Bytes
  sign : Option Bytes
  prodKey : Option Bytes
  deviceName : Option Bytes

/-- The body of an answer to an authentication. -/
structure AuthBody where
  sign : Base64
  randomKey : RandomKey
  sessionId : UInt32

/-- The answer to an authentication. -/
structure AuthReply where
  code : ℤ
  body : Option AuthBody

/-- What `alcs_rec_auth` finds around it: the random key for a new session, the six bytes of
the memory that becomes its `pk_dn`, the bytes behind `path` on the stack up to the first NUL,
the buffer of `utils_hmac_sha1_base64`, and the time. -/
structure AuthEnv where
  randomKey : RandomKey
  memory : Bytes
  stack : Bytes
  buf : Vector UInt8 20
  uptime : UInt64

/-- What an auth request has shown when its sign is verified. -/
structure AuthProof where
  accessToken : Base64
  randomkey : Bytes
  pk : Bytes
  dn : Bytes

/-- The access key of a request; without one the result code stays 200. -/
def checkAccessKey (request : AuthRequest) : Except ℤ Bytes :=
  match request.accessKey with
  | some accesskey =>
    if accesskey.length = keyprefixLen + 1 + 1 + keyseqLen then .ok accesskey
    else .error alcsAuthOk
  | none => .error alcsAuthOk

/-- The key of the server that belongs to the access key. -/
def checkLegalKey (lst : AuthList) (accesskey : Bytes) : Except ℤ SvrKeyInfo :=
  match isLegalKey lst (accesskey.take keyprefixLen)
      ((accesskey.drop (keyprefixLen + 1 + 1)).take keyseqLen) with
  | (some item, _) => .ok item
  | (none, code) => .error code

/-- A field of the request that must be there. -/
def checkField (field : Option Bytes) : Except ℤ Bytes :=
  match field with
  | some value => if value = [] then .error alcsAuthInvalidparam else .ok value
  | none => .error alcsAuthInvalidparam

/-- The sign of the request is the one that is calculated. -/
def checkSign (sign : Base64) (request : AuthRequest) : Except ℤ Unit :=
  match request.sign with
  | some given =>
    if given.length = sign.chars.length ∧ strncmpEq sign.chars.length given sign.chars then .ok ()
    else .error alcsAuthIllegalsign
  | none => .error alcsAuthIllegalsign

/-- The checks of `alcs_rec_auth`: what they have shown, or the result code if one fails. -/
def authCheck (lst : AuthList) (buf : Vector UInt8 20) (request : AuthRequest) :
    Except ℤ AuthProof := do
  let accesskey ← checkAccessKey request
  let item ← checkLegalKey lst accesskey
  let accessToken := utilsHmacSha1Base64 crypto buf accesskey item.secret.chars
  let randomkey ← checkField request.randomKey
  checkSign (utilsHmacSha1Base64 crypto buf randomkey accessToken.chars) request
  let pk ← checkField request.prodKey
  let dn ← checkField request.deviceName
  return ⟨accessToken, randomkey, pk, dn⟩

/-- The string in `path` in `alcs_rec_auth`.  A product key of 100 characters fills the array
without a terminator; `strncat` then appends behind what follows it on the stack. -/
def authPath (stack pk dn : Bytes) : Bytes :=
  let path := (cChars pk).take 100
  if path.length < 100 then path ++ (cChars dn).take (100 - path.length - 1)
  else path ++ stack ++ cChars dn

/-- `HAL_UptimeMs` in an `int`. -/
def uptimeInt (uptime : UInt64) : Int32 := uptime.toUInt32.toInt32

/-- The session of a device that is authenticated. -/
def newSession (env : AuthEnv) (addr : NetworkAddr) (sessionId : UInt32) (pk dn : Bytes) :
    SessionItem where
  randomKey := env.randomKey
  sessionId := sessionId
  sessionKey := Vector.replicate 20 0
  authedTime := 0
  heartTime := 0
  addr := addr
  pkDn :=
    let path := authPath env.stack pk dn
    if path = [] then env.memory else coapPathMD5Sum crypto.md5 path pkDnChecksumLen

/-- The session after a verified auth request: a new key, and a new time. -/
def SessionItem.authed (auth : AuthProof) (uptime : UInt64) (session : SessionItem) :
    SessionItem :=
  { session with
    sessionKey := utilsHmacSha1Hex crypto
      ((cChars auth.randomkey ++ session.randomKey.chars).take 39) session.sessionKey
      auth.accessToken.chars
    authedTime := uptimeInt uptime
    heartTime := uptimeInt uptime }

def authReply (buf : Vector UInt8 20) (auth : AuthProof) (session : SessionItem) : AuthReply :=
  ⟨alcsAuthOk, some ⟨utilsHmacSha1Base64 crypto buf session.randomKey.bytes auth.accessToken.chars,
    session.randomKey, session.sessionId⟩⟩

/-- The session a verified auth request finds or makes. -/
def authSession (server : AlcsServer C) (addr : NetworkAddr) (env : AuthEnv) (auth : AuthProof) :
    SessionItem :=
  (getSession crypto server.sessions ⟨addr, auth.pk, auth.dn⟩).getD
    (newSession crypto env addr (server.sessionidSeed + 1) auth.pk auth.dn)

/-- An authentication request is answered. -/
def alcsRecAuth (server : AlcsServer C) (addr : NetworkAddr) (request : AuthRequest)
    (env : AuthEnv) : AuthReply × AlcsServer C :=
  match authCheck crypto server.lstAuth env.buf request with
  | .error code => (⟨code, none⟩, server)
  | .ok auth =>
    let devKey : AlcsDeviceKey := ⟨addr, auth.pk, auth.dn⟩
    let session := authSession crypto server addr env auth
    (authReply crypto env.buf auth session,
      if (getSession crypto server.sessions devKey).isSome then
        { server with
          sessions := server.sessions.replaceF fun node =>
            if node.isFor addr (deviceChecksum crypto devKey) then
              some (node.authed crypto auth env.uptime)
            else none }
      else
        { server with
          sessions := server.sessions ++ [session.authed crypto auth env.uptime]
          sessionidSeed := server.sessionidSeed + 1 })

/-! ## Heartbeats and the timer -/

/-- `alcs_rec_heart_beat`: the result code, if there is a response, and the sessions. -/
def alcsRecHeartBeat (remote : NetworkAddr) (uptime : UInt64) :
    Option ℤ × List SessionItem :=
  let alive (node : SessionItem) : Bool := node.sessionId ≠ 0 ∧ isNetworkaddSame node.addr remote
  if sessions.isEmpty then (none, sessions)
  else
    (some (if sessions.any alive then alcsAuthOk else alcsHeartFailauth),
      sessions.map fun node => if alive node then { node with heartTime := uptimeInt uptime } else node)

/-- Sessions without a heartbeat for too long are removed. -/
def onSvrAuthTimer (uptime : UInt64) : List SessionItem :=
  sessions.filter fun node =>
    !(node.sessionId ≠ 0 ∧ node.heartTime + defaultHeartExpire < uptimeInt uptime : Bool)

/-! ## The checks of an auth request -/

section Checks

variable {crypto} {lst : AuthList} {request : AuthRequest}

theorem bind_eq_ok_iff {ε α β : Type} (x : Except ε α) (f : α → Except ε β) (b : β) :
    (x >>= f) = .ok b ↔ ∃ a, x = .ok a ∧ f a = .ok b := by
  cases x with
  | error e => simp [bind, Except.bind]
  | ok a => simp [bind, Except.bind]

theorem checkAccessKey_eq_ok_iff (accesskey : Bytes) :
    checkAccessKey request = .ok accesskey ↔
      request.accessKey = some accesskey ∧
        accesskey.length = keyprefixLen + 1 + 1 + keyseqLen := by
  unfold checkAccessKey
  cases request.accessKey with
  | none => simp
  | some given =>
    by_cases hlen : given.length = keyprefixLen + 1 + 1 + keyseqLen
    · simp only [if_pos hlen, Except.ok.injEq, Option.some.injEq]
      exact ⟨fun h => ⟨h, h ▸ hlen⟩, fun h => h.1⟩
    · simp only [if_neg hlen, reduceCtorEq, Option.some.injEq, false_iff]
      rintro ⟨rfl, h⟩
      exact hlen h

theorem checkLegalKey_eq_ok_iff (accesskey : Bytes) (item : SvrKeyInfo) :
    checkLegalKey lst accesskey = .ok item ↔
      (isLegalKey lst (accesskey.take keyprefixLen)
        ((accesskey.drop (keyprefixLen + 1 + 1)).take keyseqLen)).1 = some item := by
  unfold checkLegalKey
  rcases isLegalKey lst (accesskey.take keyprefixLen)
    ((accesskey.drop (keyprefixLen + 1 + 1)).take keyseqLen) with ⟨_ | found, code⟩
  · simp
  · simp

theorem checkField_eq_ok_iff (field : Option Bytes) (value : Bytes) :
    checkField field = .ok value ↔ field = some value ∧ value ≠ [] := by
  unfold checkField
  cases field with
  | none => simp
  | some given =>
    by_cases hnil : given = []
    · simp only [if_pos hnil, reduceCtorEq, Option.some.injEq, false_iff]
      rintro ⟨rfl, h⟩
      exact h hnil
    · simp only [if_neg hnil, Except.ok.injEq, Option.some.injEq]
      exact ⟨fun h => ⟨h, h ▸ hnil⟩, fun h => h.1⟩

theorem checkSign_eq_ok_iff (sign : Base64) (u : Unit) :
    checkSign sign request = .ok u ↔ request.sign = some sign.chars := by
  unfold checkSign
  cases request.sign with
  | none => simp
  | some given =>
    have heq : (given.length = sign.chars.length ∧
        strncmpEq sign.chars.length given sign.chars = true) ↔ given = sign.chars := by
      constructor
      · rintro ⟨hlen, hcmp⟩
        rw [strncmpEq_iff_cChars, List.take_of_length_le (Nat.le_of_eq hlen), List.take_length,
          cChars_eq_self sign.nul_free] at hcmp
        -- the string in `given` is as long as `given` itself
        have hall : cChars given = given := by
          apply (List.takeWhile_prefix _).eq_of_length
          rw [hlen, ← hcmp]
          rfl
        exact hall.symm.trans hcmp
      · rintro rfl
        exact ⟨rfl, (strncmpEq_iff sign.nul_free sign.nul_free _).mpr rfl⟩
    simp only [heq, Option.some.injEq]
    split_ifs with hgiven
    · simp [hgiven]
    · simp [hgiven]

theorem authCheck_eq_ok_iff (buf : Vector UInt8 20) (auth : AuthProof) :
    authCheck crypto lst buf request = .ok auth ↔
      ∃ accesskey item, request.accessKey = some accesskey ∧
        accesskey.length = keyprefixLen + 1 + 1 + keyseqLen ∧
        (isLegalKey lst (accesskey.take keyprefixLen)
          ((accesskey.drop (keyprefixLen + 1 + 1)).take keyseqLen)).1 = some item ∧
        auth.accessToken = utilsHmacSha1Base64 crypto buf accesskey item.secret.chars ∧
        (request.randomKey = some auth.randomkey ∧ auth.randomkey ≠ []) ∧
        request.sign =
          some (utilsHmacSha1Base64 crypto buf auth.randomkey auth.accessToken.chars).chars ∧
        (request.prodKey = some auth.pk ∧ auth.pk ≠ []) ∧
        (request.deviceName = some auth.dn ∧ auth.dn ≠ []) := by
  unfold authCheck
  simp only [bind_eq_ok_iff, checkAccessKey_eq_ok_iff, checkLegalKey_eq_ok_iff,
    checkField_eq_ok_iff, checkSign_eq_ok_iff]
  constructor
  · rintro ⟨accesskey, ⟨haccess, hlen⟩, item, hitem, randomkey, hrandom, -, hsign, pk, hpk, dn, hdn, heq⟩
    cases heq
    exact ⟨accesskey, item, haccess, hlen, hitem, rfl, hrandom, hsign, hpk, hdn⟩
  · rintro ⟨accesskey, item, haccess, hlen, hitem, htoken, hrandom, hsign, hpk, hdn⟩
    rw [htoken] at hsign
    refine ⟨accesskey, ⟨haccess, hlen⟩, item, hitem, auth.randomkey, hrandom, (), hsign,
      auth.pk, hpk, auth.dn, hdn, ?_⟩
    rw [← htoken]
    rfl

end Checks

end Iotkit.Alcs
