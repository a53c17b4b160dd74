/-
# Access control of an ALCS server

A session is found by the address of the remote and by six bytes of the MD5 sum of the names
of a device, joined and cut to 99 characters, and compared like strings.  Where these tell the
devices of a run apart, the callback of a secure resource is only called for a remote that
authenticated itself for the device of the resource.
-/
import Iotkit.AlcsSession
import Iotkit.AlcsKeyLists

namespace Iotkit.Alcs

open Coap
open List hiding Vector

variable (crypto : Crypto) {C : Type}

/-! ## Runs -/

/-- What can happen to a server. -/
inductive SvrEvent (C : Type)
  | register (malloc : Bool) (pk dn path : CString) (callback : C)
  | auth (addr : NetworkAddr) (request : AuthRequest) (env : AuthEnv)
  | request (path : CString) (remote : NetworkAddr) (message : CoapMessage Memory)
      (malloc : Bool) (obsVal : UInt32)
  | heartBeat (remote : NetworkAddr) (uptime : UInt64)
  | timer (uptime : UInt64)

def svrStep (server : AlcsServer C) : SvrEvent C → AlcsServer C
  | .register malloc pk dn path callback =>
    { server with
      resources := alcsResourceRegisterSecure crypto malloc server.resources pk dn path callback }
  | .auth addr request env => (alcsRecAuth crypto server addr request env).2
  | .request _ _ _ _ _ => server
  | .heartBeat remote uptime =>
    { server with sessions := (alcsRecHeartBeat server.sessions remote uptime).2 }
  | .timer uptime => { server with sessions := onSvrAuthTimer server.sessions uptime }

variable (lst : AuthList) (events : List (SvrEvent C))

/-- A server with the keys `lst` after some events. -/
def svrRun : AlcsServer C :=
  events.foldl (svrStep crypto) ⟨lst, [], [], 0xff⟩

theorem svrRun_concat (event : SvrEvent C) :
    svrRun crypto lst (events ++ [event]) = svrStep crypto (svrRun crypto lst events) event := by
  unfold svrRun
  rw [foldl_append]
  rfl

/-- The same session, perhaps with a new key or time. -/
structure SessionItem.Same (s t : SessionItem) : Prop where
  sessionId : s.sessionId = t.sessionId
  addr : s.addr = t.addr
  pkDn : s.pkDn = t.pkDn

theorem SessionItem.Same.refl (s : SessionItem) : s.Same s := ⟨rfl, rfl, rfl⟩

theorem SessionItem.Same.trans {s t u : SessionItem} (h : s.Same t) (h' : t.Same u) : s.Same u :=
  ⟨h.sessionId.trans h'.sessionId, h.addr.trans h'.addr, h.pkDn.trans h'.pkDn⟩

theorem SessionItem.same_authed (auth : AuthProof) (uptime : UInt64) (s : SessionItem) :
    s.Same (s.authed crypto auth uptime) := ⟨rfl, rfl, rfl⟩

/-! ## What is to be shown -/

/-- The request names the device and carries the sign that a legal key gives its random key. -/
def SignVerified (buf : Vector UInt8 20) (request : AuthRequest) (pk dn : Bytes) : Prop :=
  ∃ accesskey randomkey item, request.accessKey = some accesskey ∧
    (isLegalKey lst (accesskey.take keyprefixLen)
      ((accesskey.drop (keyprefixLen + 1 + 1)).take keyseqLen)).1 = some item ∧
    request.randomKey = some randomkey ∧
    request.sign = some (utilsHmacSha1Base64 crypto buf randomkey
      (utilsHmacSha1Base64 crypto buf accesskey item.secret.chars).chars).chars ∧
    request.prodKey = some pk ∧ request.deviceName = some dn

/-- An auth request from `addr` for this device was verified and made or refreshed the
session, which has been in the list since. -/
def AuthedSession (session : SessionItem) (addr : NetworkAddr) (pk dn : Bytes) : Prop :=
  ∃ before request env after auth, events = before ++ .auth addr request env :: after ∧
    authCheck crypto lst env.buf request = .ok auth ∧
    SignVerified crypto lst env.buf request pk dn ∧
    (authSession crypto (svrRun crypto lst before) addr env auth).Same session ∧
    ∀ mid, mid <+: after →
      ∃ s ∈ (svrRun crypto lst (before ++ .auth addr request env :: mid)).sessions, s.Same session

/-- The resource was registered for this device. -/
def RegisteredFor (pk dn : CString) (node : SecureResource C) : Prop :=
  ∃ before malloc path callback after, events = before ++ .register malloc pk dn path callback :: after ∧
    (svrRun crypto lst (before ++ [.register malloc pk dn path callback])).resources =
      (svrRun crypto lst before).resources ++ [node]

/-- The checksums of the devices of a run tell them apart: those of a resource and of a
verified auth request, and those of two verified auth requests from one remote.  The product
keys fit their buffers, and the names are not empty. -/
structure Distinguished (lst : AuthList) (events : List (SvrEvent C)) : Prop where
  resource : ∀ pk dn node addr request env auth, RegisteredFor crypto lst events pk dn node →
    SvrEvent.auth addr request env ∈ events → authCheck crypto lst env.buf request = .ok auth →
    strncmpEq pkDnChecksumLen (deviceChecksum crypto ⟨addr, auth.pk, auth.dn⟩) node.pkDn = true →
    auth.pk = pk.chars ∧ auth.dn = dn.chars
  session : ∀ addr request env auth addr' request' env' auth',
    SvrEvent.auth addr request env ∈ events → authCheck crypto lst env.buf request = .ok auth →
    SvrEvent.auth addr' request' env' ∈ events →
    authCheck crypto lst env'.buf request' = .ok auth' →
    isNetworkaddSame addr addr' = true →
    strncmpEq pkDnChecksumLen (deviceChecksum crypto ⟨addr, auth.pk, auth.dn⟩)
      (deviceChecksum crypto ⟨addr', auth'.pk, auth'.dn⟩) = true →
    auth.pk = auth'.pk ∧ auth.dn = auth'.dn
  named : ∀ addr request env auth, SvrEvent.auth addr request env ∈ events →
    authCheck crypto lst env.buf request = .ok auth →
    (cChars auth.pk).length < 100 ∧ cChars auth.pk ++ cChars auth.dn ≠ []

/-! ## One event -/

section Events

variable {crypto} {lst : AuthList}

variable {request : AuthRequest} {auth : AuthProof}

theorem signVerified_of_authCheck {buf : Vector UInt8 20}
    (h : authCheck crypto lst buf request = .ok auth) :
    SignVerified crypto lst buf request auth.pk auth.dn := by
  obtain ⟨accesskey, item, haccess, -, hitem, htoken, hrandom, hsign, hpk, hdn⟩ :=
    (authCheck_eq_ok_iff buf auth).mp h
  exact ⟨accesskey, auth.randomkey, item, haccess, hitem, hrandom.1, htoken ▸ hsign, hpk.1, hdn.1⟩

variable {pk : Bytes}

theorem signVerified_names {buf : Vector UInt8 20} {dn pk' dn' : Bytes}
    (h : SignVerified crypto lst buf request pk dn)
    (h' : SignVerified crypto lst buf request pk' dn') : pk = pk' ∧ dn = dn' := by
  obtain ⟨-, -, -, -, -, -, -, hpk, hdn⟩ := h
  obtain ⟨-, -, -, -, -, -, -, hpk', hdn'⟩ := h'
  rw [hpk] at hpk'
  rw [hdn] at hdn'
  exact ⟨Option.some.inj hpk', Option.some.inj hdn'⟩

theorem svrStep_lstAuth (server : AlcsServer C) (event : SvrEvent C) :
    (svrStep crypto server event).lstAuth = server.lstAuth := by
  cases event with
  | auth addr request env =>
    show (alcsRecAuth crypto server addr request env).2.lstAuth = server.lstAuth
    unfold alcsRecAuth
    cases authCheck crypto server.lstAuth env.buf request with
    | error code => rfl
    | ok auth =>
      simp only
      split_ifs
      · rfl
      · rfl
  | register malloc pk dn path callback => rfl
  | request path remote message malloc obsVal => rfl
  | heartBeat remote uptime => rfl
  | timer uptime => rfl

theorem svrRun_lstAuth :
    (svrRun crypto lst events).lstAuth = lst :=
  GuardedRun.inv_foldl (fun server => server.lstAuth = lst)
    (fun server event h => (svrStep_lstAuth server event).trans h) rfl events

theorem mem_replaceF {α : Type} {f : α → Option α} {l : List α} {b : α} (h : b ∈ l.replaceF f) :
    b ∈ l ∨ ∃ a ∈ l, f a = some b := by
  induction l with
  | nil => cases h
  | cons a l ih =>
    cases hf : f a with
    | none =>
      rw [replaceF_cons_of_none _ hf] at h
      rcases mem_cons.mp h with rfl | hmem
      · exact .inl mem_cons_self
      · rcases ih hmem with hold | ⟨c, hc, hfc⟩
        · exact .inl (mem_cons_of_mem a hold)
        · exact .inr ⟨c, mem_cons_of_mem a hc, hfc⟩
    | some a' =>
      rw [replaceF_cons_of_some _ hf] at h
      rcases mem_cons.mp h with rfl | hmem
      · exact .inr ⟨a, mem_cons_self, hf⟩
      · exact .inl (mem_cons_of_mem a hmem)

variable {server : AlcsServer C}

/-- A session after an event was there before, or a verified auth request made it. -/
theorem mem_sessions_svrStep {event : SvrEvent C} {s : SessionItem}
    (hs : s ∈ (svrStep crypto server event).sessions) :
    (∃ t ∈ server.sessions, t.Same s) ∨
      ∃ addr request env auth, event = .auth addr request env ∧
        authCheck crypto server.lstAuth env.buf request = .ok auth ∧
        getSession crypto server.sessions ⟨addr, auth.pk, auth.dn⟩ = none ∧
        (authSession crypto server addr env auth).Same s := by
  cases event with
  | register malloc pk dn path callback => exact .inl ⟨s, hs, SessionItem.Same.refl s⟩
  | request path remote message malloc obsVal => exact .inl ⟨s, hs, SessionItem.Same.refl s⟩
  | auth addr request env =>
    have hs' : s ∈ (alcsRecAuth crypto server addr request env).2.sessions := hs
    unfold alcsRecAuth at hs'
    cases hauth : authCheck crypto server.lstAuth env.buf request with
    | error code =>
      rw [hauth] at hs'
      exact .inl ⟨s, hs', SessionItem.Same.refl s⟩
    | ok auth =>
      rw [hauth] at hs'
      simp only at hs'
      -- a session that is there is authenticated again
      cases hfound : getSession crypto server.sessions ⟨addr, auth.pk, auth.dn⟩ with
      | some session =>
        rw [hfound] at hs'
        rcases mem_replaceF hs' with hold | ⟨t, ht, heq⟩
        · exact .inl ⟨s, hold, SessionItem.Same.refl s⟩
        · split_ifs at heq with hfor
          cases heq
          exact .inl ⟨t, ht, t.same_authed crypto auth env.uptime⟩
      | none =>
        rw [hfound] at hs'
        rcases mem_append.mp hs' with hold | hnew
        · exact .inl ⟨s, hold, SessionItem.Same.refl s⟩
        · rw [mem_singleton.mp hnew]
          exact .inr ⟨addr, request, env, auth, rfl, hauth, hfound,
            SessionItem.same_authed crypto auth env.uptime _⟩
  | heartBeat remote uptime =>
    have hs' : s ∈ (alcsRecHeartBeat server.sessions remote uptime).2 := hs
    unfold alcsRecHeartBeat at hs'
    by_cases hempty : server.sessions.isEmpty = true
    · rw [if_pos hempty] at hs'
      exact .inl ⟨s, hs', SessionItem.Same.refl s⟩
    rw [if_neg hempty] at hs'
    obtain ⟨t, ht, rfl⟩ := mem_map.mp hs'
    refine .inl ⟨t, ht, ?_⟩
    -- a heartbeat only touches the time of a session
    split_ifs
    · exact ⟨rfl, rfl, rfl⟩
    · exact SessionItem.Same.refl t
  | timer uptime =>
    exact .inl ⟨s, (mem_filter.mp hs).1, SessionItem.Same.refl s⟩

variable {node : SecureResource C}

/-- A resource after an event was there before, or was registered by it. -/
theorem mem_resources_svrStep {event : SvrEvent C}
    (hnode : node ∈ (svrStep crypto server event).resources) :
    node ∈ server.resources ∨
      ∃ malloc pk dn path callback, event = .register malloc pk dn path callback ∧
        (svrStep crypto server event).resources = server.resources ++ [node] := by
  cases event with
  | register malloc pk dn path callback =>
    have hres : (svrStep crypto server (.register malloc pk dn path callback)).resources =
        alcsResourceRegisterSecure crypto malloc server.resources pk dn path callback := rfl
    rw [hres] at hnode ⊢
    unfold alcsResourceRegisterSecure at hnode ⊢
    simp only at hnode ⊢
    cases malloc with
    | false => exact .inl hnode
    | true =>
      rw [if_neg (by simp)] at hnode ⊢
      split_ifs at hnode ⊢ with hdup
      · exact .inl hnode
      · rcases mem_append.mp hnode with hold | hnew
        · exact .inl hold
        · rw [mem_singleton.mp hnew]
          exact .inr ⟨true, pk, dn, path, callback, rfl, rfl⟩
  | auth addr request env =>
    have hres : (svrStep crypto server (.auth addr request env)).resources = server.resources := by
      show (alcsRecAuth crypto server addr request env).2.resources = server.resources
      unfold alcsRecAuth
      cases authCheck crypto server.lstAuth env.buf request with
      | error code => rfl
      | ok auth =>
        simp only
        split_ifs
        · rfl
        · rfl
    exact .inl (hres ▸ hnode)
  | request path remote message malloc obsVal => exact .inl hnode
  | heartBeat remote uptime => exact .inl hnode
  | timer uptime => exact .inl hnode

/-! ## Whole runs -/

variable {events : List (SvrEvent C)}

/-- Every session of a run was made by a verified auth request, and has been there since. -/
theorem session_made {s : SessionItem} (hs : s ∈ (svrRun crypto lst events).sessions) :
    ∃ before addr request env after auth, events = before ++ .auth addr request env :: after ∧
      authCheck crypto lst env.buf request = .ok auth ∧
      getSession crypto (svrRun crypto lst before).sessions ⟨addr, auth.pk, auth.dn⟩ = none ∧
      (authSession crypto (svrRun crypto lst before) addr env auth).Same s ∧
      ∀ mid, mid <+: after →
        ∃ t ∈ (svrRun crypto lst (before ++ .auth addr request env :: mid)).sessions, t.Same s := by
  induction events using List.reverseRecOn generalizing s with
  | nil => cases hs
  | append_singleton events event ih =>
    have hs' := hs
    rw [svrRun_concat] at hs'
    rcases mem_sessions_svrStep hs' with ⟨t, ht, hsame⟩ |
      ⟨addr, request, env, auth, rfl, hauth, hnone, hsame⟩
    · obtain ⟨before, addr, request, env, after, auth, rfl, hauth, hnone, hmade, hsince⟩ := ih ht
      refine ⟨before, addr, request, env, after ++ [event], auth, by simp, hauth, hnone,
        hmade.trans hsame, ?_⟩
      intro mid hmid
      rcases prefix_concat_iff.mp hmid with rfl | hmid
      · exact ⟨s, by simpa using hs, SessionItem.Same.refl s⟩
      · obtain ⟨u, hu, husame⟩ := hsince mid hmid
        exact ⟨u, hu, husame.trans hsame⟩
    · rw [svrRun_lstAuth] at hauth
      refine ⟨events, addr, request, env, [], auth, rfl, hauth, hnone, hsame, ?_⟩
      intro mid hmid
      rw [prefix_nil.mp hmid]
      exact ⟨s, hs, SessionItem.Same.refl s⟩

theorem resource_registered (hnode : node ∈ (svrRun crypto lst events).resources) :
    ∃ pk dn, RegisteredFor crypto lst events pk dn node := by
  induction events using List.reverseRecOn with
  | nil => cases hnode
  | append_singleton events event ih =>
    rw [svrRun_concat] at hnode
    rcases mem_resources_svrStep hnode with hold |
      ⟨malloc, pk, dn, path, callback, rfl, hres⟩
    · obtain ⟨pk, dn, before, malloc, path, callback, after, rfl, hres⟩ := ih hold
      exact ⟨pk, dn, before, malloc, path, callback, after ++ [event], by simp, hres⟩
    · refine ⟨pk, dn, events, malloc, path, callback, [], rfl, ?_⟩
      rw [svrRun_concat]
      exact hres

theorem RegisteredFor.append {pk dn : CString} (h : RegisteredFor crypto lst events pk dn node)
    (later : List (SvrEvent C)) : RegisteredFor crypto lst (events ++ later) pk dn node := by
  obtain ⟨before, malloc, path, callback, after, rfl, hres⟩ := h
  exact ⟨before, malloc, path, callback, after ++ later, by simp, hres⟩

/-! ## Checksums -/

theorem strncmpEq_symm {n : ℕ} {a b : Bytes} (h : strncmpEq n a b = true) :
    strncmpEq n b a = true :=
  (strncmpEq_iff_cChars n b a).mpr ((strncmpEq_iff_cChars n a b).mp h).symm

theorem strncmpEq_trans {n : ℕ} {a b c : Bytes} (h : strncmpEq n a b = true)
    (h' : strncmpEq n b c = true) : strncmpEq n a c = true :=
  (strncmpEq_iff_cChars n a c).mpr
    (((strncmpEq_iff_cChars n a b).mp h).trans ((strncmpEq_iff_cChars n b c).mp h'))

theorem isNetworkaddSame_symm {a b : NetworkAddr} (h : isNetworkaddSame a b = true) :
    isNetworkaddSame b a = true := by
  unfold isNetworkaddSame at h ⊢
  rw [decide_eq_true_iff] at h ⊢
  exact ⟨h.1.symm, h.2.symm⟩

theorem isNetworkaddSame_trans {a b c : NetworkAddr} (h : isNetworkaddSame a b = true)
    (h' : isNetworkaddSame b c = true) : isNetworkaddSame a c = true := by
  unfold isNetworkaddSame at h h' ⊢
  rw [decide_eq_true_iff] at h h' ⊢
  exact ⟨h.1.trans h'.1, h.2.trans h'.2⟩

theorem authPath_eq (hpk : (cChars pk).length < 100) (stack dn : Bytes) :
    authPath stack pk dn = (cChars pk ++ cChars dn).take 99 := by
  have htake : (cChars pk).take 100 = cChars pk := take_of_length_le (by omega)
  unfold authPath
  simp only [htake]
  rw [if_pos hpk, take_append, take_of_length_le (by omega : (cChars pk).length ≤ 99)]
  congr 2
  omega

variable {addr : NetworkAddr}

theorem newSession_pkDn {env : AuthEnv} {sessionId : UInt32} {dn : Bytes}
    (hpk : (cChars pk).length < 100) (hne : cChars pk ++ cChars dn ≠ []) :
    (newSession crypto env addr sessionId pk dn).pkDn = deviceChecksum crypto ⟨addr, pk, dn⟩ := by
  have hpath : (cChars pk ++ cChars dn).take 99 ≠ [] := by
    rw [ne_eq, take_eq_nil_iff]
    exact not_or.mpr ⟨by omega, hne⟩
  unfold newSession deviceChecksum
  simp only [authPath_eq hpk]
  rw [if_neg hpath]

/-- The session of an auth request has its address and its checksum. -/
theorem authSession_isFor {env : AuthEnv} (hpk : (cChars auth.pk).length < 100)
    (hne : cChars auth.pk ++ cChars auth.dn ≠ []) :
    (authSession crypto server addr env auth).isFor addr
      (deviceChecksum crypto ⟨addr, auth.pk, auth.dn⟩) = true := by
  unfold authSession
  cases hfound : getSession crypto server.sessions ⟨addr, auth.pk, auth.dn⟩ with
  | some session => exact List.find?_some hfound
  | none =>
    rw [Option.getD_none]
    unfold SessionItem.isFor
    rw [newSession_pkDn hpk hne, Bool.and_eq_true]
    exact ⟨decide_eq_true ⟨rfl, rfl⟩, (strncmpEq_iff_cChars _ _ _).mpr rfl⟩

theorem SessionItem.isFor_iff (addr : NetworkAddr) (ck : Bytes) (s : SessionItem) :
    s.isFor addr ck = true ↔
      isNetworkaddSame addr s.addr = true ∧ strncmpEq pkDnChecksumLen s.pkDn ck = true := by
  unfold SessionItem.isFor
  rw [Bool.and_eq_true]

/-- What is known of the session of a verified auth request. -/
theorem Distinguished.session_isFor {events : List (SvrEvent C)}
    (h : Distinguished crypto lst events) {addr : NetworkAddr} {request : AuthRequest}
    {env : AuthEnv} {auth : AuthProof} (hmem : SvrEvent.auth addr request env ∈ events)
    (hauth : authCheck crypto lst env.buf request = .ok auth) {server : AlcsServer C}
    {session : SessionItem} (hsame : (authSession crypto server addr env auth).Same session) :
    isNetworkaddSame addr session.addr = true ∧
      strncmpEq pkDnChecksumLen (deviceChecksum crypto ⟨addr, auth.pk, auth.dn⟩) session.pkDn = true := by
  obtain ⟨hpk, hne⟩ := h.named addr request env auth hmem hauth
  have hfor : (authSession crypto server addr env auth).isFor addr
      (deviceChecksum crypto ⟨addr, auth.pk, auth.dn⟩) = true := authSession_isFor hpk hne
  obtain ⟨haddr, hck⟩ := (SessionItem.isFor_iff _ _ _).mp hfor
  rw [hsame.addr] at haddr
  rw [hsame.pkDn] at hck
  exact ⟨haddr, strncmpEq_symm hck⟩

/-! ## Requests -/

/-- A callback is only called with a session for the resource. -/
theorem callback_mem_recvMsgHandler {server : AlcsServer C} {path path' : CString}
    {remote remote' : NetworkAddr} {message : CoapMessage Memory} {malloc : Bool}
    {obsVal : UInt32} {cb : C} {payload : Bytes}
    (hcall : SvrEffect.callback cb path' remote' payload ∈
      recvMsgHandler crypto server path remote message malloc obsVal) :
    ∃ node session, getResourceByPath crypto server.resources path = some node ∧ node.cb = cb ∧
      getSessionByChecksum server.sessions remote node.pkDn = some session ∧
      session.sessionId = requestSessionId message := by
  unfold recvMsgHandler at hcall
  cases hnode : getResourceByPath crypto server.resources path with
  | none =>
    rw [hnode] at hcall
    cases hcall
  | some node =>
    rw [hnode] at hcall
    simp only at hcall
    cases hsession : getSessionByChecksum server.sessions remote node.pkDn with
    | none =>
      rw [hsession] at hcall
      simp at hcall
    | some session =>
      rw [hsession] at hcall
      simp only at hcall
      by_cases hid : session.sessionId ≠ requestSessionId message
      · rw [if_pos hid] at hcall
        simp at hcall
      rw [if_neg hid] at hcall
      refine ⟨node, session, rfl, ?_, hsession, not_not.mp hid⟩
      rcases mem_append.mp hcall with hobs | hcb
      · split_ifs at hobs
        · simp at hobs
        · simp at hobs
      · split_ifs at hcb
        · simp only [mem_singleton, SvrEffect.callback.injEq] at hcb
          exact hcb.1.symm
        · simp at hcb

end Events

/-! ## Access control -/

/-- **Access control.**  In a run that tells its devices apart, a callback is called only with the
id of a session that a verified auth request, from the same remote and for the device of the
resource, made or refreshed and that was not lost since; and no two devices share a session. -/
theorem access_control (lst : AuthList) (events : List (SvrEvent C))
    (h : Distinguished crypto lst events) :
    (∀ pre path remote message malloc obsVal post,
        events = pre ++ .request path remote message malloc obsVal :: post →
      ∀ cb path' remote' payload, SvrEffect.callback cb path' remote' payload ∈
          recvMsgHandler crypto (svrRun crypto lst pre) path remote message malloc obsVal →
        ∃ node, getResourceByPath crypto (svrRun crypto lst pre).resources path = some node ∧
          node.cb = cb ∧ (∃ pk dn, RegisteredFor crypto lst pre pk dn node) ∧
          ∀ pk dn, RegisteredFor crypto lst pre pk dn node →
            ∃ addr session, isNetworkaddSame addr remote = true ∧
              session.sessionId = requestSessionId message ∧
              AuthedSession crypto lst pre session addr pk.chars dn.chars) ∧
      ∀ pre post, events = pre ++ post → ∀ session addr pk dn addr' pk' dn',
        AuthedSession crypto lst pre session addr pk dn →
        AuthedSession crypto lst pre session addr' pk' dn' → pk = pk' ∧ dn = dn' := by
  constructor
  · rintro pre path remote message malloc obsVal post rfl cb path' remote' payload hcall
    -- the session that the request came in, and its resource
    obtain ⟨node, session, hnode, hcb, hsession, hid⟩ := callback_mem_recvMsgHandler hcall
    refine ⟨node, hnode, hcb, resource_registered (mem_of_find?_eq_some hnode), ?_⟩
    intro pk dn hreg
    obtain ⟨haddr, hck⟩ := (SessionItem.isFor_iff _ _ _).mp (List.find?_some hsession)
    -- the authentication that the session was made by
    obtain ⟨before, addr, request, env, after, auth, rfl, hauth, hnone, hmade, hsince⟩ :=
      session_made (mem_of_find?_eq_some hsession)
    have hmem : SvrEvent.auth addr request env ∈
        (before ++ .auth addr request env :: after) ++
          .request path remote message malloc obsVal :: post := by simp
    obtain ⟨haddr', hck'⟩ := h.session_isFor hmem hauth hmade
    obtain ⟨hpk', hdn'⟩ := h.resource pk dn node addr request env auth (hreg.append _) hmem hauth
      (strncmpEq_trans hck' hck)
    refine ⟨addr, session, isNetworkaddSame_trans haddr' (isNetworkaddSame_symm haddr), hid, ?_⟩
    rw [← hpk', ← hdn']
    exact ⟨before, request, env, after, auth, rfl, hauth, signVerified_of_authCheck hauth,
      hmade, hsince⟩
  · rintro pre post rfl session addr pk dn addr' pk' dn'
      ⟨before, request, env, after, auth, rfl, hauth, hsign, hsame, -⟩
      ⟨before', request', env', after', auth', heq, hauth', hsign', hsame', -⟩
    have hmem : SvrEvent.auth addr request env ∈
        (before ++ .auth addr request env :: after) ++ post := by simp
    have hmem' : SvrEvent.auth addr' request' env' ∈
        (before ++ .auth addr request env :: after) ++ post := by
      rw [heq]
      simp
    -- both authentications were for the session
    obtain ⟨haddr, hck⟩ := h.session_isFor hmem hauth hsame
    obtain ⟨haddr', hck'⟩ := h.session_isFor hmem' hauth' hsame'
    obtain ⟨hpk, hdn⟩ := h.session addr request env auth addr' request' env' auth' hmem hauth hmem'
      hauth' (isNetworkaddSame_trans haddr (isNetworkaddSame_symm haddr'))
      (strncmpEq_trans hck (strncmpEq_symm hck'))
    -- and their names are the signed ones
    obtain ⟨hpk₁, hdn₁⟩ := signVerified_names hsign (signVerified_of_authCheck hauth)
    obtain ⟨hpk₂, hdn₂⟩ := signVerified_names hsign' (signVerified_of_authCheck hauth')
    exact ⟨hpk₁.trans (hpk.trans hpk₂.symm), hdn₁.trans (hdn.trans hdn₂.symm)⟩

/-! ## Two devices with one string -/

/-- A character that can stand in a string. -/
def maskNul (c : UInt8) : UInt8 := if c = 0 then 0x41 else c

theorem maskNul_ne_zero (c : UInt8) : maskNul c ≠ 0 := by
  unfold maskNul
  split_ifs with h
  · decide
  · exact h

/-- Functions that keep as much of their arguments as fits. -/
def plainCrypto : Crypto where
  md5 path := Vector.ofFn fun i => path.getD i 0
  hmacSha1 key msg := Vector.ofFn fun i => (msg ++ key).getD i 0
  base64 digest :=
    { chars := digest.toList.map maskNul ++ List.replicate 8 0x41
      nul_free := by
        intro h
        rcases mem_append.mp h with hmap | hpad
        · obtain ⟨c, -, hc⟩ := mem_map.mp hmap
          exact maskNul_ne_zero c hc
        · simp at hpad
      length_eq := by simp }
  encrypt _ src := src
  decrypt _ src := src

/-- The keys of a server with one device key. -/
def keysA : AuthList := keyRun authListInit [.addSvrKey true keyprefixA secretX .localsetup]

def remoteA : NetworkAddr := ⟨Vector.replicate 16 0, 5683⟩

def randomKeyA : RandomKey where
  chars := List.replicate 15 0x61
  length_eq := rfl
  alnum c hc := by
    rw [eq_of_mem_replicate hc]
    decide

def envA : AuthEnv := ⟨randomKeyA, [], [], Vector.replicate 20 0, 0⟩

/-- A signed request for the device with these names. -/
def signedRequest (pk dn : Bytes) : AuthRequest where
  accessKey := some accesskeyA.chars
  randomKey := some randomKeyA.chars
  sign := some (utilsHmacSha1Base64 plainCrypto envA.buf randomKeyA.chars
    (utilsHmacSha1Base64 plainCrypto envA.buf accesskeyA.chars secretX.chars).chars).chars
  prodKey := some pk
  deviceName := some dn

/-- The strings `ab`, `c` and `/x`. -/
def pkAb : CString := ⟨[0x61, 0x62], by decide⟩
def dnC : CString := ⟨[0x63], by decide⟩
def pathX : CString := ⟨[0x2f, 0x78], by decide⟩

/-- A request with the session id 256, the first that is given out. -/
def firstSessionMessage : CoapMessage Memory where
  header := ⟨1, coapMessageTypeCon, 0, coapMsgCodeGet, 1⟩
  token := fun _ => 0
  options := [⟨coapOptionSessionid, 2, fun i => if i = 0 then 1 else 0⟩]
  payloadlen := 0
  payload := none

/-- A resource for the device `(ab, c)`, and a verified auth request for some device. -/
def registerThenAuth (pk dn : Bytes) : List (SvrEvent ℕ) :=
  [.register true pkAb dnC pathX 7, .auth remoteA (signedRequest pk dn) envA]

/-- A request for the resource. -/
def requestX : SvrEvent ℕ := .request pathX remoteA firstSessionMessage true 0

theorem names_of_mem {pk dn : Bytes} {addr : NetworkAddr} {request : AuthRequest}
    {env : AuthEnv} (hmem : SvrEvent.auth addr request env ∈ registerThenAuth pk dn ++ [requestX])
    {lst : AuthList} {pk' dn' : Bytes}
    (hsign : SignVerified plainCrypto lst env.buf request pk' dn') : pk' = pk ∧ dn' = dn := by
  simp only [registerThenAuth, requestX, cons_append, nil_append, mem_cons,
    reduceCtorEq, SvrEvent.auth.injEq, not_mem_nil, or_false, false_or] at hmem
  obtain ⟨-, -, -, -, -, -, -, hpk, hdn⟩ := hsign
  rw [hmem.2.1] at hpk hdn
  exact ⟨(Option.some.inj hpk).symm, (Option.some.inj hdn).symm⟩

theorem distinguished_authed :
    Distinguished plainCrypto keysA (registerThenAuth pkAb.chars dnC.chars ++ [requestX]) := by
  constructor
  · rintro pk dn node addr request env auth ⟨before, malloc, path, callback, after, heq, -⟩ hmem hauth -
    have hreg : SvrEvent.register malloc pk dn path callback ∈
        registerThenAuth pkAb.chars dnC.chars ++ [requestX] := by
      rw [heq]
      simp
    simp only [registerThenAuth, requestX, cons_append, nil_append, mem_cons,
      reduceCtorEq, SvrEvent.register.injEq, not_mem_nil, or_false] at hreg
    rw [hreg.2.1, hreg.2.2.1]
    exact names_of_mem hmem (signVerified_of_authCheck hauth)
  · intro addr request env auth addr' request' env' auth' hmem hauth hmem' hauth' _ _
    obtain ⟨hpk, hdn⟩ := names_of_mem hmem (signVerified_of_authCheck hauth)
    obtain ⟨hpk', hdn'⟩ := names_of_mem hmem' (signVerified_of_authCheck hauth')
    exact ⟨hpk.trans hpk'.symm, hdn.trans hdn'.symm⟩
  · intro addr request env auth hmem hauth
    obtain ⟨hpk, hdn⟩ := names_of_mem hmem (signVerified_of_authCheck hauth)
    rw [hpk, hdn]
    decide

/-- The remote that authenticated itself for the device may call its resource. -/
theorem access_control_authed :
    let pre := registerThenAuth pkAb.chars dnC.chars
    recvMsgHandler plainCrypto (svrRun plainCrypto keysA pre) pathX remoteA firstSessionMessage
        true 0 = [.callback 7 pathX remoteA []] ∧
      ∃ addr session, isNetworkaddSame addr remoteA = true ∧ session.sessionId = 256 ∧
        AuthedSession plainCrypto keysA pre session addr pkAb.chars dnC.chars := by
  intro pre
  have hcall : recvMsgHandler plainCrypto (svrRun plainCrypto keysA pre) pathX remoteA
      firstSessionMessage true 0 = [.callback 7 pathX remoteA []] := rfl
  refine ⟨hcall, ?_⟩
  obtain ⟨node, hnode, -, -, hauthed⟩ := (access_control plainCrypto keysA _ distinguished_authed).1
    pre pathX remoteA firstSessionMessage true 0 [] rfl 7 pathX remoteA [] (by rw [hcall]; simp)
  refine hauthed pkAb dnC ⟨[], true, pathX, 7, [.auth remoteA (signedRequest _ _) envA], rfl, ?_⟩
  have hitem : getResourceByPath plainCrypto (svrRun plainCrypto keysA pre).resources pathX =
      some (secureResourceItem plainCrypto pkAb dnC pathX 7) := rfl
  rw [hitem] at hnode
  rw [← Option.some.inj hnode]
  rfl

/-- A remote that authenticated itself for the device `(a, bc)` may call the resource of the
device `(ab, c)`, and the two devices share a session. -/
theorem access_control_same_string :
    let pre := registerThenAuth [0x61] [0x62, 0x63]
    let both := pre ++ [.auth remoteA (signedRequest pkAb.chars dnC.chars) envA]
    (recvMsgHandler plainCrypto (svrRun plainCrypto keysA pre) pathX remoteA firstSessionMessage
        true 0 = [.callback 7 pathX remoteA []] ∧
      ¬ ∃ addr session, isNetworkaddSame addr remoteA = true ∧ session.sessionId = 256 ∧
        AuthedSession plainCrypto keysA pre session addr pkAb.chars dnC.chars) ∧
      ∃ session, AuthedSession plainCrypto keysA both session remoteA [0x61] [0x62, 0x63] ∧
        AuthedSession plainCrypto keysA both session remoteA pkAb.chars dnC.chars := by
  intro pre both
  refine ⟨⟨rfl, ?_⟩, ?_⟩
  · rintro ⟨addr, session, -, -, before, request, env, after, auth, heq, -, hsign, -⟩
    have hmem : SvrEvent.auth addr request env ∈ pre ++ [requestX] := by
      rw [heq]
      simp
    obtain ⟨hpk, -⟩ := names_of_mem hmem hsign
    exact absurd hpk (by decide)
  · have hcheck : ∀ pk dn : Bytes, pk ≠ [] → dn ≠ [] →
        authCheck plainCrypto keysA envA.buf (signedRequest pk dn) =
          .ok ⟨utilsHmacSha1Base64 plainCrypto envA.buf accesskeyA.chars secretX.chars,
            randomKeyA.chars, pk, dn⟩ := by
      intro pk dn hpk hdn
      refine (authCheck_eq_ok_iff _ _).mpr ⟨accesskeyA.chars, ⟨keyprefixA, secretX, .localsetup⟩, ?_⟩
      exact ⟨rfl, rfl, rfl, rfl, ⟨rfl, (by decide : randomKeyA.chars ≠ [])⟩, rfl, ⟨rfl, hpk⟩, ⟨rfl, hdn⟩⟩
    refine ⟨newSession plainCrypto envA remoteA 256 [0x61] [0x62, 0x63],
      ⟨[.register true pkAb dnC pathX 7], _, envA, [.auth remoteA (signedRequest _ _) envA], _, rfl,
        hcheck _ _ (by decide) (by decide),
        signVerified_of_authCheck (hcheck _ _ (by decide) (by decide)), ⟨rfl, rfl, rfl⟩, ?_⟩,
      ⟨pre, _, envA, [], _, rfl,
        hcheck _ _ (by decide) (by decide),
        signVerified_of_authCheck (hcheck _ _ (by decide) (by decide)), ⟨rfl, rfl, rfl⟩, ?_⟩⟩
    · intro mid hmid
      have hmid' : mid <+: [] ++ [.auth remoteA (signedRequest pkAb.chars dnC.chars) envA] := hmid
      rcases prefix_concat_iff.mp hmid' with rfl | hnil
      · exact ⟨_, List.Mem.head _, ⟨rfl, rfl, rfl⟩⟩
      · rw [prefix_nil.mp hnil]
        exact ⟨_, List.Mem.head _, ⟨rfl, rfl, rfl⟩⟩
    · intro mid hmid
      rw [prefix_nil.mp hmid]
      exact ⟨_, List.Mem.head _, ⟨rfl, rfl, rfl⟩⟩

end Iotkit.Alcs
