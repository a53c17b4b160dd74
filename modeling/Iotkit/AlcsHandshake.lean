/-
# The handshake of an ALCS client and an ALCS server

The client half of the authentication (`alcs_client.c`) and the negotiation of an access key,
run against `alcs_rec_auth`.  Client and server make the sign and the session key on their
own; where they do so from the same bytes, they agree.
-/
import Iotkit.AlcsAccess

namespace Iotkit.Alcs

open Coap
open List hiding Vector

variable (crypto : Crypto) {C : Type}

/-! ## The client -/

/-- `ctl_key_item` as `do_auth` gets it; `auth_cb` gets the same but for the access key. -/
structure AuthItem where
  accessKey : CString
  accessToken : CString
  productKey : CString
  deviceName : CString

def AuthItem.devKey (item : AuthItem) (addr : NetworkAddr) : AlcsDeviceKey :=
  ⟨addr, item.productKey.chars, item.deviceName.chars⟩

/-- The session `do_auth` creates. -/
def ctlSession (addr : NetworkAddr) (item : AuthItem) (randomKey : RandomKey) : SessionItem where
  randomKey := randomKey
  sessionId := 0
  sessionKey := Vector.replicate 20 0
  authedTime := 0
  heartTime := 0
  addr := addr
  pkDn := coapPathMD5Sum crypto.md5 (joinNames item.productKey.chars item.deviceName.chars)
    pkDnChecksumLen

/-- The auth request `do_auth` builds; the sign is over all of `RANDOMKEY_LEN` bytes. -/
def ctlRequest (buf : Vector UInt8 20) (item : AuthItem) (randomKey : RandomKey) : AuthRequest where
  accessKey := some item.accessKey.chars
  randomKey := some randomKey.chars
  sign := some (utilsHmacSha1Base64 crypto buf randomKey.bytes item.accessToken.chars).chars
  prodKey := some item.productKey.chars
  deviceName := some item.deviceName.chars

/-- What `do_auth` does: there is a session already, one is being made, or a request is sent. -/
inductive DoAuth
  | noNeed
  | authing
  | sent (request : AuthRequest) (sessions : List SessionItem)

/-- `do_auth`; `buf` is the buffer of `utils_hmac_sha1_base64`. -/
def doAuth (buf : Vector UInt8 20) (sessions : List SessionItem) (addr : NetworkAddr)
    (item : AuthItem) (randomKey : RandomKey) : DoAuth :=
  match getSession crypto sessions (item.devKey addr) with
  | some session => if session.sessionId ≠ 0 then .noNeed else .authing
  | none => .sent (ctlRequest crypto buf item randomKey)
      (sessions ++ [ctlSession crypto addr item randomKey])

/-- The session after a reply that names the server's session. -/
def SessionItem.confirmed (accessToken : CString) (body : AuthBody) (uptime : UInt64)
    (session : SessionItem) : SessionItem :=
  { session with
    sessionId := body.sessionId
    sessionKey := utilsHmacSha1Hex crypto
      ((session.randomKey.chars ++ body.randomKey.chars).take 31) session.sessionKey
      accessToken.chars
    authedTime := uptimeInt uptime
    heartTime := uptimeInt uptime }

/-- `auth_cb`; there is no reply when the request timed out. -/
def authCb (sessions : List SessionItem) (remote : NetworkAddr) (item : AuthItem)
    (reply : Option AuthReply) (uptime : UInt64) : List SessionItem :=
  let isFor := SessionItem.isFor remote (deviceChecksum crypto (item.devKey remote))
  match getSession crypto sessions (item.devKey remote) with
  | none => sessions
  | some _ =>
    match reply with
    | none => sessions.eraseP isFor
    | some ⟨code, body⟩ =>
      if code = 200 then
        match body with
        | none => sessions
        | some body => sessions.replaceF fun node =>
          if isFor node then some (node.confirmed crypto item.accessToken body uptime) else none
      else sessions.eraseP isFor

/-! ## The negotiation of an access key -/

variable (lst : AuthList)

/-- `fillAccessKey`: the access keys that are offered. -/
def fillAccessKey : Option (List CString) :=
  if lst.lstCtl.isEmpty then none
  else some (lst.lstCtl.map CtlKeyItem.accessKey ++ lst.lstCtlGroup.map CtlGroupItem.accessKey)

/-- The loop of `alcs_rec_auth_select`; `targetKey` is a pointer. -/
def selectLoop (lst : AuthList) : List CString → Option CString → Option CString
  | [], targetKey => targetKey
  | entry :: rest, targetKey =>
    let targetKey :=
      if lst.lstSvr.any fun node => startsWith entry.chars node.keyprefix.chars then some entry
      else targetKey
    if targetKey.isSome then targetKey
    else
      let targetKey :=
        if lst.lstSvrGroup.any fun gnode => startsWith entry.chars gnode.keyInfo.keyprefix.chars
        then some entry else targetKey
      if targetKey.isSome then targetKey else selectLoop lst rest targetKey

/-- `alcs_rec_auth_select`: the code and the access key of the reply.  `targetKey` starts as an
empty string, which is not `NULL`. -/
def alcsRecAuthSelect (accesskeys : List CString) : ℤ × CString :=
  match selectLoop lst accesskeys (some CString.empty) with
  | some targetKey => (200, targetKey)
  | none => (coapMsgCode401Unauthorized.toNat, CString.empty)

/-- The token `nego_cb` finds for the access key of the reply. -/
def negoToken (accessKey : CString) : Option CString :=
  match lst.lstCtl.find? fun node =>
      strncmpEq accessKey.chars.length node.accessKey.chars accessKey.chars with
  | some node => some node.accessToken
  | none =>
    -- a group gives its access key for a token
    (lst.lstCtlGroup.find? fun gnode =>
      strncmpEq accessKey.chars.length gnode.accessKey.chars accessKey.chars).map
        CtlGroupItem.accessKey

/-- `nego_cb`, up to the call of `do_auth`: the item for it. -/
def negoCb (productKey deviceName : CString) (reply : ℤ × CString) :
    Option AuthItem :=
  if reply.1 ≠ 200 ∨ reply.2.chars = [] then none
  else (negoToken lst reply.2).map fun accessToken =>
    ⟨reply.2, accessToken, productKey, deviceName⟩

/-- The whole negotiation: what `nego_cb` hands to `do_auth`. -/
def negotiate (svr ctl : AuthList) (productKey deviceName : CString) : Option AuthItem :=
  (fillAccessKey ctl).bind fun accesskeys =>
    negoCb ctl productKey deviceName (alcsRecAuthSelect svr accesskeys)

/-! ## Agreement -/

/-- A client and a server: the server and what its `alcs_rec_auth` finds around it, the address
it knows the client by; the sessions of the client, the address of the server, the random key
of the client, its buffer, and the time when the reply comes. -/
structure Handshake (C : Type) where
  server : AlcsServer C
  env : AuthEnv
  remote : NetworkAddr
  sessions : List SessionItem
  addr : NetworkAddr
  randomKey : RandomKey
  buf : Vector UInt8 20
  uptime : UInt64

variable (hs : Handshake C) (item : AuthItem)

/-- `do_auth` sends a request, the server accepts it, and after `auth_cb` the session of the
client has the id and the key of the session of the server. -/
def Agreed : Prop :=
  ∃ request sessions auth,
    doAuth crypto hs.buf hs.sessions hs.addr item hs.randomKey = .sent request sessions ∧
    authCheck crypto hs.server.lstAuth hs.env.buf request = .ok auth ∧
    ∃ svr ctl, svr = (authSession crypto hs.server hs.remote hs.env auth).authed crypto auth
        hs.env.uptime ∧
      svr ∈ (alcsRecAuth crypto hs.server hs.remote request hs.env).2.sessions ∧
      getSession crypto (authCb crypto sessions hs.addr item
        (some (alcsRecAuth crypto hs.server hs.remote request hs.env).1) hs.uptime)
        (item.devKey hs.addr) = some ctl ∧
      ctl.sessionId = svr.sessionId ∧ ctl.sessionKey = svr.sessionKey

/-- The access token the server calculates with a key. -/
def svrToken (info : SvrKeyInfo) : Base64 :=
  utilsHmacSha1Base64 crypto hs.env.buf item.accessKey.chars info.secret.chars

/-- The random key of the server's session. -/
def svrRandomKey : RandomKey :=
  ((getSession crypto hs.server.sessions (item.devKey hs.remote)).map
    SessionItem.randomKey).getD hs.env.randomKey

/-- The server, from the characters of the random key, and the client, from all of its bytes,
make the same sign; and they make the same session key. -/
structure Matching (info : SvrKeyInfo) : Prop where
  sign : (crypto.base64 (crypto.hmacSha1 (svrToken crypto hs item info).chars
      hs.randomKey.chars)).chars =
    (utilsHmacSha1Base64 crypto hs.buf hs.randomKey.bytes item.accessToken.chars).chars
  key : crypto.hmacSha1 (svrToken crypto hs item info).chars
      (hs.randomKey.chars ++ (svrRandomKey crypto hs item).chars) =
    utilsHmacSha1Hex crypto (hs.randomKey.chars ++ (svrRandomKey crypto hs item).chars)
      (Vector.replicate 20 0) item.accessToken.chars

/-- What it takes for client and server to agree. -/
structure CanAgree : Prop where
  length : item.accessKey.chars.length = keyprefixLen + 1 + 1 + keyseqLen
  names : item.productKey.chars ≠ [] ∧ item.deviceName.chars ≠ []
  not_revoked : ¬ Revoked hs.server.lstAuth
    ((item.accessKey.chars.drop (keyprefixLen + 1 + 1)).take keyseqLen)
  svr_ne_nil : hs.server.lstAuth.lstSvr ≠ []
  matching : ∃ found, firstKey hs.server.lstAuth (item.accessKey.chars.take keyprefixLen) =
    some found ∧ Matching crypto hs item found

section Lemmas

variable {crypto}

theorem find?_replaceF {α : Type} {p : α → Bool} {g : α → α} (hg : ∀ a, p (g a) = p a)
    (l : List α) :
    (l.replaceF fun a => if p a then some (g a) else none).find? p = (l.find? p).map g := by
  induction l with
  | nil => rfl
  | cons a l ih =>
    by_cases ha : p a = true
    · simp [ha, hg]
    · simp [ha, ih]

theorem joinNames_eq (pk dn : Bytes) : joinNames pk dn = (pk ++ dn).take 99 := by
  unfold joinNames
  simp only [take_append, length_take]
  congr 2
  omega

theorem deviceChecksum_devKey (addr : NetworkAddr) :
    deviceChecksum crypto (item.devKey addr) = coapPathMD5Sum crypto.md5
      (joinNames item.productKey.chars item.deviceName.chars) pkDnChecksumLen := by
  unfold deviceChecksum AuthItem.devKey
  simp only [cChars_eq_self item.productKey.nul_free, cChars_eq_self item.deviceName.nul_free]
  rw [joinNames_eq]

theorem ctlSession_isFor (addr : NetworkAddr) (randomKey : RandomKey) :
    (ctlSession crypto addr item randomKey).isFor addr
      (deviceChecksum crypto (item.devKey addr)) = true := by
  rw [SessionItem.isFor_iff, deviceChecksum_devKey]
  exact ⟨decide_eq_true ⟨rfl, rfl⟩, (strncmpEq_iff_cChars _ _ _).mpr rfl⟩

theorem RandomKey.nul_free (key : RandomKey) : 0 ∉ key.chars := by
  intro h
  rcases key.alnum 0 h with hdigit | hlower | hupper
  · exact absurd hdigit (by decide)
  · exact absurd hlower (by decide)
  · exact absurd hupper (by decide)

/-- A token of the server is short enough to be a key. -/
theorem utilsHmacSha1Hex_base64 (msg : Bytes) (digest : Vector UInt8 20) (token : Base64) :
    utilsHmacSha1Hex crypto msg digest token.chars = crypto.hmacSha1 token.chars msg := by
  unfold utilsHmacSha1Hex
  rw [if_neg]
  rw [token.length_eq]
  decide

theorem authSession_mem_alcsRecAuth {server : AlcsServer C} {addr : NetworkAddr}
    {request : AuthRequest} {env : AuthEnv} {auth : AuthProof}
    (hauth : authCheck crypto server.lstAuth env.buf request = .ok auth) :
    (authSession crypto server addr env auth).authed crypto auth env.uptime ∈
      (alcsRecAuth crypto server addr request env).2.sessions := by
  unfold alcsRecAuth
  rw [hauth]
  simp only
  cases hfound : getSession crypto server.sessions ⟨addr, auth.pk, auth.dn⟩ with
  | none => exact mem_append_right _ mem_cons_self
  | some session =>
    have hsession : authSession crypto server addr env auth = session := by
      unfold authSession
      rw [hfound]
      rfl
    rw [hsession]
    apply mem_of_find?_eq_some (p := SessionItem.isFor addr
      (deviceChecksum crypto ⟨addr, auth.pk, auth.dn⟩))
    have hkeep : ∀ node : SessionItem, (node.authed crypto auth env.uptime).isFor addr
        (deviceChecksum crypto ⟨addr, auth.pk, auth.dn⟩) =
          node.isFor addr (deviceChecksum crypto ⟨addr, auth.pk, auth.dn⟩) := fun node => rfl
    rw [Option.isSome_some, if_pos rfl, find?_replaceF hkeep]
    exact congrArg (Option.map _) hfound

/-- After a reply that names a session, the client's new session has its id and a key. -/
theorem getSession_authCb {sessions : List SessionItem} {addr : NetworkAddr}
    (hnew : getSession crypto sessions (item.devKey addr) = none) (randomKey : RandomKey)
    (body : AuthBody) (uptime : UInt64) :
    getSession crypto (authCb crypto (sessions ++ [ctlSession crypto addr item randomKey]) addr item
      (some ⟨200, some body⟩) uptime) (item.devKey addr) =
      some ((ctlSession crypto addr item randomKey).confirmed crypto item.accessToken body uptime) := by
  have hfind : getSession crypto (sessions ++ [ctlSession crypto addr item randomKey])
      (item.devKey addr) = some (ctlSession crypto addr item randomKey) := by
    unfold getSession getSessionByChecksum at hnew ⊢
    rw [List.find?_append, hnew, Option.none_or]
    exact List.find?_cons_of_pos (ctlSession_isFor item addr randomKey)
  have hkeep : ∀ node : SessionItem,
      (node.confirmed crypto item.accessToken body uptime).isFor addr
        (deviceChecksum crypto (item.devKey addr)) =
          node.isFor addr (deviceChecksum crypto (item.devKey addr)) := fun node => rfl
  unfold authCb
  rw [hfind]
  simp only [if_true]
  show List.find? (SessionItem.isFor addr (deviceChecksum crypto (item.devKey addr))) _ = _
  rw [find?_replaceF hkeep]
  exact congrArg (Option.map _) hfind

theorem take_randomKeys (a b : RandomKey) {n : ℕ} (hn : 30 ≤ n) :
    (a.chars ++ b.chars).take n = a.chars ++ b.chars := by
  apply take_of_length_le
  rw [length_append, a.length_eq, b.length_eq]
  exact hn

theorem authSession_randomKey (auth : AuthProof) (hpk : auth.pk = item.productKey.chars)
    (hdn : auth.dn = item.deviceName.chars) :
    (authSession crypto hs.server hs.remote hs.env auth).randomKey = svrRandomKey crypto hs item := by
  unfold authSession svrRandomKey AuthItem.devKey
  rw [hpk, hdn]
  cases getSession crypto hs.server.sessions
      ⟨hs.remote, item.productKey.chars, item.deviceName.chars⟩ with
  | none => rfl
  | some session => rfl

/-- When the server accepts the request of the client, and what it has seen then. -/
theorem authCheck_ctlRequest_iff (auth : AuthProof) :
    authCheck crypto hs.server.lstAuth hs.env.buf (ctlRequest crypto hs.buf item hs.randomKey) =
        .ok auth ↔
      item.accessKey.chars.length = keyprefixLen + 1 + 1 + keyseqLen ∧
        (item.productKey.chars ≠ [] ∧ item.deviceName.chars ≠ []) ∧
        ∃ found, (isLegalKey hs.server.lstAuth (item.accessKey.chars.take keyprefixLen)
            ((item.accessKey.chars.drop (keyprefixLen + 1 + 1)).take keyseqLen)).1 = some found ∧
          (crypto.base64 (crypto.hmacSha1 (svrToken crypto hs item found).chars
              hs.randomKey.chars)).chars =
            (utilsHmacSha1Base64 crypto hs.buf hs.randomKey.bytes item.accessToken.chars).chars ∧
          auth = ⟨svrToken crypto hs item found, hs.randomKey.chars, item.productKey.chars,
            item.deviceName.chars⟩ := by
  have hsvr : ∀ found : SvrKeyInfo, utilsHmacSha1Base64 crypto hs.env.buf hs.randomKey.chars
      (svrToken crypto hs item found).chars =
        crypto.base64 (crypto.hmacSha1 (svrToken crypto hs item found).chars hs.randomKey.chars) :=
    fun found => congrArg crypto.base64 (utilsHmacSha1Hex_base64 _ _ _)
  have hrandom : hs.randomKey.chars ≠ [] :=
    ne_nil_of_length_eq_add_one hs.randomKey.length_eq
  rw [authCheck_eq_ok_iff]
  constructor
  · obtain ⟨token, randomkey, pk, dn⟩ := auth
    rintro ⟨accesskey, found, haccess, hlen, hfound, htoken, ⟨hrk, -⟩, hsign, ⟨hpk, hpk'⟩, hdn, hdn'⟩
    cases Option.some.inj haccess
    cases Option.some.inj hrk
    cases Option.some.inj hpk
    cases Option.some.inj hdn
    cases htoken
    refine ⟨hlen, ⟨hpk', hdn'⟩, found, hfound, ?_, rfl⟩
    rw [← hsvr found]
    exact (Option.some.inj hsign).symm
  · rintro ⟨hlen, ⟨hpk, hdn⟩, found, hfound, hsign, rfl⟩
    refine ⟨item.accessKey.chars, found, rfl, hlen, hfound, rfl, ⟨rfl, hrandom⟩, ?_, ⟨rfl, hpk⟩,
      ⟨rfl, hdn⟩⟩
    simp only [hsvr found]
    rw [hsign]
    rfl

theorem authed_sessionKey (found : SvrKeyInfo) :
    ((authSession crypto hs.server hs.remote hs.env ⟨svrToken crypto hs item found,
        hs.randomKey.chars, item.productKey.chars, item.deviceName.chars⟩).authed crypto
      ⟨svrToken crypto hs item found, hs.randomKey.chars, item.productKey.chars,
        item.deviceName.chars⟩ hs.env.uptime).sessionKey =
      crypto.hmacSha1 (svrToken crypto hs item found).chars
        (hs.randomKey.chars ++ (svrRandomKey crypto hs item).chars) := by
  show utilsHmacSha1Hex crypto _ _ _ = _
  rw [utilsHmacSha1Hex_base64, cChars_eq_self hs.randomKey.nul_free,
    authSession_randomKey hs item _ rfl rfl, take_randomKeys _ _ (by omega)]

/-- What the client makes of the reply to a request that was accepted. -/
theorem getSession_authCb_alcsRecAuth
    (hnew : getSession crypto hs.sessions (item.devKey hs.addr) = none) {auth : AuthProof}
    (hauth : authCheck crypto hs.server.lstAuth hs.env.buf
      (ctlRequest crypto hs.buf item hs.randomKey) = .ok auth)
    (hpk : auth.pk = item.productKey.chars) (hdn : auth.dn = item.deviceName.chars) :
    ∃ ctl, getSession crypto (authCb crypto
        (hs.sessions ++ [ctlSession crypto hs.addr item hs.randomKey]) hs.addr item
        (some (alcsRecAuth crypto hs.server hs.remote (ctlRequest crypto hs.buf item hs.randomKey)
          hs.env).1) hs.uptime) (item.devKey hs.addr) = some ctl ∧
      ctl.sessionId = (authSession crypto hs.server hs.remote hs.env auth).sessionId ∧
      ctl.sessionKey = utilsHmacSha1Hex crypto
        (hs.randomKey.chars ++ (svrRandomKey crypto hs item).chars) (Vector.replicate 20 0)
        item.accessToken.chars := by
  have hreply : (alcsRecAuth crypto hs.server hs.remote
      (ctlRequest crypto hs.buf item hs.randomKey) hs.env).1 =
        authReply crypto hs.env.buf auth (authSession crypto hs.server hs.remote hs.env auth) := by
    unfold alcsRecAuth
    rw [hauth]
  rw [hreply]
  refine ⟨_, getSession_authCb item hnew hs.randomKey _ hs.uptime, rfl, ?_⟩
  show utilsHmacSha1Hex crypto ((hs.randomKey.chars ++
    (authSession crypto hs.server hs.remote hs.env auth).randomKey.chars).take 31) _ _ = _
  rw [authSession_randomKey hs item auth hpk hdn, take_randomKeys _ _ (by omega)]
  rfl

theorem agreed_iff (hnew : getSession crypto hs.sessions (item.devKey hs.addr) = none) :
    Agreed crypto hs item ↔ CanAgree crypto hs item := by
  have hdo : doAuth crypto hs.buf hs.sessions hs.addr item hs.randomKey =
      .sent (ctlRequest crypto hs.buf item hs.randomKey)
        (hs.sessions ++ [ctlSession crypto hs.addr item hs.randomKey]) := by
    unfold doAuth
    rw [hnew]
  constructor
  · rintro ⟨request, sessions, auth, hsent, hauth, svr, ctl, rfl, -, hget, -, hkey⟩
    rw [hdo] at hsent
    cases hsent
    obtain ⟨hlen, hnames, found, hfound, hsign, rfl⟩ :=
      (authCheck_ctlRequest_iff hs item auth).mp hauth
    obtain ⟨hrevoked, hne, hfirst⟩ :=
      (isLegalKey_accesskey_iff _ item.accessKey (Nat.le_of_eq hlen.symm) found).mp hfound
    obtain ⟨ctl', hget', -, hkey'⟩ := getSession_authCb_alcsRecAuth hs item hnew hauth rfl rfl
    cases Option.some.inj (hget.symm.trans hget')
    rw [authed_sessionKey, hkey'] at hkey
    exact ⟨hlen, hnames, hrevoked, hne, found, hfirst, hsign, hkey.symm⟩
  · rintro ⟨hlen, hnames, hrevoked, hne, found, hfirst, hsign, hkey⟩
    have hfound := (isLegalKey_accesskey_iff _ item.accessKey (Nat.le_of_eq hlen.symm) found).mpr
      ⟨hrevoked, hne, hfirst⟩
    have hauth := (authCheck_ctlRequest_iff hs item _).mpr ⟨hlen, hnames, found, hfound, hsign, rfl⟩
    obtain ⟨ctl, hget, hid, hctlkey⟩ := getSession_authCb_alcsRecAuth hs item hnew hauth rfl rfl
    exact ⟨_, _, _, hdo, hauth, _, ctl, rfl, authSession_mem_alcsRecAuth hauth, hget, hid,
      hctlkey.trans (hkey.symm.trans (authed_sessionKey hs item found).symm)⟩

/-! ## Negotiation -/

/-- The server only looks at the first access key, and only among the keys of the device. -/
theorem alcsRecAuthSelect_cons (entry : CString) (rest : List CString) :
    alcsRecAuthSelect lst (entry :: rest) =
      (200, if lst.lstSvr.any fun node => startsWith entry.chars node.keyprefix.chars then entry
        else CString.empty) := by
  unfold alcsRecAuthSelect selectLoop
  by_cases hany : (lst.lstSvr.any fun node => startsWith entry.chars node.keyprefix.chars) = true
  · simp [hany]
  · simp [hany]

theorem negoToken_cons {ctl : AuthList} {first : CtlKeyItem} {rest : List CtlKeyItem}
    (hctl : ctl.lstCtl = first :: rest) :
    negoToken ctl first.accessKey = some first.accessToken := by
  have hself : strncmpEq first.accessKey.chars.length first.accessKey.chars
      first.accessKey.chars = true := (strncmpEq_iff_cChars _ _ _).mpr rfl
  unfold negoToken
  rw [hctl]
  simp [hself]

/-- The negotiation ends with the first access key of the client, if that is one of the device,
and otherwise fails. -/
theorem negotiate_eq_some_iff (svr ctl : AuthList) (productKey deviceName : CString)
    (item : AuthItem) :
    negotiate svr ctl productKey deviceName = some item ↔
      ∃ first rest, ctl.lstCtl = first :: rest ∧
        (∃ node ∈ svr.lstSvr, startsWith first.accessKey.chars node.keyprefix.chars = true) ∧
        first.accessKey.chars ≠ [] ∧
        item = ⟨first.accessKey, first.accessToken, productKey, deviceName⟩ := by
  unfold negotiate fillAccessKey
  cases hctl : ctl.lstCtl with
  | nil => simp
  | cons first rest =>
    rw [if_neg (by simp), Option.bind_some, map_cons, cons_append,
      alcsRecAuthSelect_cons]
    unfold negoCb
    by_cases hany : (svr.lstSvr.any fun node =>
        startsWith first.accessKey.chars node.keyprefix.chars) = true
    · rw [if_pos hany]
      by_cases hnil : first.accessKey.chars = []
      · rw [if_pos (Or.inr hnil)]
        simp [hnil]
      rw [if_neg (by simp [hnil]), negoToken_cons hctl, Option.map_some]
      obtain ⟨node, hnode, hstarts⟩ := any_eq_true.mp hany
      constructor
      · intro heq
        exact ⟨first, rest, rfl, ⟨node, hnode, hstarts⟩, hnil, (Option.some.inj heq).symm⟩
      · rintro ⟨first', rest', heq, -, -, rfl⟩
        cases heq
        rfl
    · have hempty : CString.empty.chars = [] := rfl
      rw [if_neg hany, if_pos (Or.inr hempty)]
      constructor
      · intro heq
        cases heq
      · rintro ⟨first', rest', heq, ⟨node, hnode, hstarts⟩, -⟩
        cases heq
        exact absurd (any_eq_true.mpr ⟨node, hnode, hstarts⟩) hany

end Lemmas

/-- **Client and server agree** on a session exactly when access key and names are well formed,
there is a device key, and the token of the first key with the prefix signs the characters of the
random key as the client's token signs all of its bytes, with the same session key; after a
negotiation, exactly when the client's first access key is one of the device and the same holds for
it. -/
theorem session_agreement (hs : Handshake C) (ctl : AuthList) (item : AuthItem)
    (info : SvrKeyInfo)
    (hkeyPrefix : item.accessKey.chars.take keyprefixLen = info.keyprefix.chars)
    (hrevoked : ¬ Revoked hs.server.lstAuth
      ((item.accessKey.chars.drop (keyprefixLen + 1 + 1)).take keyseqLen))
    (htoken : item.accessToken.chars =
      (crypto.base64 (crypto.hmacSha1 info.secret.chars item.accessKey.chars)).chars)
    (hnew : getSession crypto hs.sessions (item.devKey hs.addr) = none) :
    (Agreed crypto hs item ↔
      item.accessKey.chars.length = keyprefixLen + 1 + 1 + keyseqLen ∧
      (item.productKey.chars ≠ [] ∧ item.deviceName.chars ≠ []) ∧
      hs.server.lstAuth.lstSvr ≠ [] ∧
      ∃ found, firstKey hs.server.lstAuth info.keyprefix.chars = some found ∧
        (crypto.base64 (crypto.hmacSha1 (svrToken crypto hs item found).chars
            hs.randomKey.chars)).chars =
          (crypto.base64 (crypto.hmacSha1 item.accessToken.chars (hs.randomKey.chars ++ [0]))).chars ∧
        crypto.hmacSha1 (svrToken crypto hs item found).chars
            (hs.randomKey.chars ++ (svrRandomKey crypto hs item).chars) =
          crypto.hmacSha1 item.accessToken.chars
            (hs.randomKey.chars ++ (svrRandomKey crypto hs item).chars)) ∧
      ((∃ item', negotiate hs.server.lstAuth ctl item.productKey item.deviceName = some item' ∧
          Agreed crypto hs item') ↔
        ∃ first rest, ctl.lstCtl = first :: rest ∧
          (∃ node ∈ hs.server.lstAuth.lstSvr,
            startsWith first.accessKey.chars node.keyprefix.chars = true) ∧
          CanAgree crypto hs ⟨first.accessKey, first.accessToken, item.productKey,
            item.deviceName⟩) := by
  constructor
  · have hhmac : ∀ (msg : Bytes) (digest : Vector UInt8 20),
        utilsHmacSha1Hex crypto msg digest item.accessToken.chars =
          crypto.hmacSha1 item.accessToken.chars msg := by
      -- the token is the text that the digest is written in
      intro msg digest
      rw [htoken]
      exact utilsHmacSha1Hex_base64 msg digest _
    rw [agreed_iff hs item hnew, ← hkeyPrefix]
    constructor
    · rintro ⟨hlen, hnames, -, hne, found, hfirst, hsign, hkey⟩
      rw [utilsHmacSha1Base64, hhmac] at hsign
      rw [hhmac] at hkey
      exact ⟨hlen, hnames, hne, found, hfirst, hsign, hkey⟩
    · rintro ⟨hlen, hnames, hne, found, hfirst, hsign, hkey⟩
      refine ⟨hlen, hnames, hrevoked, hne, found, hfirst, ?_, ?_⟩
      · rw [utilsHmacSha1Base64, hhmac]
        exact hsign
      · rw [hhmac]
        exact hkey
  · -- negotiation picks the first key of the client
    have hfirst : ∀ first : CtlKeyItem,
        Agreed crypto hs ⟨first.accessKey, first.accessToken, item.productKey, item.deviceName⟩ ↔
          CanAgree crypto hs ⟨first.accessKey, first.accessToken, item.productKey,
            item.deviceName⟩ := fun first => agreed_iff hs ⟨_, _, _, _⟩ hnew
    constructor
    · rintro ⟨item', hnego, hagreed⟩
      obtain ⟨first, rest, hctl, hnode, -, rfl⟩ := (negotiate_eq_some_iff _ _ _ _ _).mp hnego
      exact ⟨first, rest, hctl, hnode, (hfirst first).mp hagreed⟩
    · rintro ⟨first, rest, hctl, hnode, hcan⟩
      refine ⟨_, (negotiate_eq_some_iff _ _ _ _ _).mpr ⟨first, rest, hctl, hnode, ?_, rfl⟩,
        (hfirst first).mpr hcan⟩
      exact ne_nil_of_length_eq_add_one hcan.length

/-- The HMAC of the string in the message. -/
def stringCrypto : Crypto :=
  { plainCrypto with hmacSha1 := fun key msg => plainCrypto.hmacSha1 key (cChars msg) }

/-- The item of a client with the access key `QYTP123401abc` and its token. -/
def itemA (crypto : Crypto) : AuthItem where
  accessKey := accesskeyA
  accessToken := (crypto.base64 (crypto.hmacSha1 secretX.chars accesskeyA.chars)).toCString
  productKey := pkAb
  deviceName := dnC

/-- A client and a server that meet for the first time. -/
def handshakeA : Handshake ℕ :=
  ⟨⟨lst, [], [], 0xff⟩, envA, remoteA, [], remoteA, randomKeyA, Vector.replicate 20 0, 0⟩

def clientA (crypto : Crypto) : AuthList :=
  keyRun authListInit [.addClientKey true accesskeyA (itemA crypto).accessToken none]

theorem not_revoked_keysA (keyseq : Bytes) : ¬ Revoked keysA keyseq := by
  rintro ⟨revocation, hsome, -⟩
  cases hsome

/-- An HMAC that only reads strings would let them agree. -/
theorem session_agreement_string :
    Agreed stringCrypto (handshakeA keysA) (itemA stringCrypto) ∧
      ∃ item', negotiate keysA (clientA stringCrypto) pkAb dnC = some item' ∧
        Agreed stringCrypto (handshakeA keysA) item' := by
  have hagree := session_agreement stringCrypto (handshakeA keysA) (clientA stringCrypto)
    (itemA stringCrypto) ⟨keyprefixA, secretX, .localsetup⟩ rfl (not_revoked_keysA _) rfl rfl
  refine ⟨hagree.1.mpr ⟨rfl, ⟨by decide, by decide⟩, cons_ne_nil _ _, _, rfl, rfl, rfl⟩,
    hagree.2.mpr ?_⟩
  refine ⟨_, [], rfl, ⟨_, List.Mem.head _, rfl⟩, rfl, ⟨by decide, by decide⟩, not_revoked_keysA _,
    cons_ne_nil _ _, _, rfl, rfl, rfl⟩

/-- A server with the key of a group, and a client with the access key for it that offers
another one first. -/
def groupKeysA : AuthList :=
  keyRun authListInit [.addSvrKey true keyprefixB secretX .localsetup,
    .addSvrGroup true secretX keyprefixA secretX]

def groupClientA (crypto : Crypto) : AuthList :=
  (alcsAddCtlGroup true (keyRun authListInit [.addClientKey true secretX secretX none]) secretX
    accesskeyA (itemA crypto).accessToken).2

/-- The server knows the key and the client has its token, but the sign is not accepted, as
the client signs the terminator as well; and a group is not found in a negotiation. -/
theorem session_agreement_terminator :
    firstKey keysA (accesskeyA.chars.take keyprefixLen) = some ⟨keyprefixA, secretX, .localsetup⟩ ∧
      (alcsRecAuth plainCrypto (handshakeA keysA).server remoteA
        (ctlRequest plainCrypto (Vector.replicate 20 0) (itemA plainCrypto) randomKeyA)
          envA).1.code = alcsAuthIllegalsign ∧
      ¬ Agreed plainCrypto (handshakeA keysA) (itemA plainCrypto) ∧
      (¬ ∃ item', negotiate keysA (clientA plainCrypto) pkAb dnC = some item' ∧
        Agreed plainCrypto (handshakeA keysA) item') ∧
      negotiate groupKeysA (groupClientA plainCrypto) pkAb dnC = none := by
  have hnot : ¬ Agreed plainCrypto (handshakeA keysA) (itemA plainCrypto) := by
    rw [agreed_iff (handshakeA keysA) (itemA plainCrypto) rfl]
    rintro ⟨-, -, -, -, found, hfirst, hsign, -⟩
    cases hfirst
    exact absurd hsign (by decide)
  refine ⟨rfl, rfl, hnot, ?_, rfl⟩
  rintro ⟨item', hnego, hagreed⟩
  have hitem : negotiate keysA (clientA plainCrypto) pkAb dnC = some (itemA plainCrypto) := rfl
  rw [hitem] at hnego
  exact hnot (Option.some.inj hnego ▸ hagreed)

end Iotkit.Alcs
