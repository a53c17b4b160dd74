/-
# Heartbeats and the two auth timers

`on_svr_auth_timer` and `on_client_auth_timer` with what sets the times they look at: auths and
heartbeats on either side.  The times are the low 32 bits of the uptime, with a sign, and so are
the sums that the timers compare; next to each session stands the full uptime that its
`heart_time` was taken from.
-/
import Iotkit.AlcsHandshake

namespace Iotkit.Alcs

open Coap GuardedRun List

/-! ## A clock of 32 bits with a sign -/

/-- How often the clock has wrapped. -/
def era (x : ℤ) : ℤ := (x + 2 ^ 31) / 2 ^ 32

theorem bmod_eq_sub_era (x : ℤ) : x.bmod (2 ^ 32) = x - 2 ^ 32 * era x := by
  unfold era Int.bmod
  norm_num
  split_ifs <;> omega

/-- `a` and `c` come in their order on the clock: the time between them is not made up for by the
wraps between them. -/
def OrderKept (a c : ℤ) : Prop :=
  if a < c then 2 ^ 32 * (era c - era a) < c - a else c - a ≤ 2 ^ 32 * (era c - era a)

/-- On the clock `c` is behind `a`, although it is not: the clock has wrapped in between. -/
def OrderReversed (a c : ℤ) : Prop :=
  if a ≤ c then c - a < 2 ^ 32 * (era c - era a) else 2 ^ 32 * (era c - era a) ≤ c - a

instance (a c : ℤ) : Decidable (OrderKept a c) := inferInstanceAs (Decidable (ite _ _ _))

instance (a c : ℤ) : Decidable (OrderReversed a c) := inferInstanceAs (Decidable (ite _ _ _))

theorem orderKept_iff (a c : ℤ) :
    (a.bmod (2 ^ 32) < c.bmod (2 ^ 32) ↔ a < c) ↔ OrderKept a c := by
  rw [bmod_eq_sub_era, bmod_eq_sub_era, OrderKept]
  split_ifs with h <;> omega

theorem orderReversed_iff (a c : ℤ) :
    (c.bmod (2 ^ 32) < a.bmod (2 ^ 32) ↔ a ≤ c) ↔ OrderReversed a c := by
  rw [bmod_eq_sub_era, bmod_eq_sub_era, OrderReversed]
  split_ifs with h <;> omega

theorem toInt_uptimeInt (uptime : UInt64) :
    (uptimeInt uptime).toInt = (uptime.toNat : ℤ).bmod (2 ^ 32) := by
  show (uptime.toUInt32.toBitVec).toInt = _
  rw [BitVec.toInt_eq_toNat_bmod]
  show ((uptime.toUInt32.toNat : ℤ)).bmod (2 ^ 32) = _
  rw [UInt64.toNat_toUInt32, Int.natCast_emod]
  exact Int.emod_bmod _ _

theorem toInt_add_of_bmod {a b : Int32} {x : ℤ} (h : a.toInt = x.bmod (2 ^ 32)) :
    (a + b).toInt = (x + b.toInt).bmod (2 ^ 32) := by
  rw [Int32.toInt_add, h]
  exact Int.bmod_add_bmod

/-! ## Sessions with their times -/

/-- A session with the uptime of its last heartbeat or auth. -/
structure Timed (α : Type) where
  node : α
  beat : ℕ

theorem filter_eq_filter_iff {α : Type} {p q : α → Bool} {l : List α} :
    l.filter p = l.filter q ↔ ∀ a ∈ l, p a = q a := by
  refine ⟨fun h a ha => ?_, filter_congr⟩
  rw [Bool.eq_iff_iff]
  constructor
  · intro hp
    have hmem : a ∈ l.filter p := mem_filter.mpr ⟨ha, hp⟩
    rw [h] at hmem
    exact (mem_filter.mp hmem).2
  · intro hq
    have hmem : a ∈ l.filter q := mem_filter.mpr ⟨ha, hq⟩
    rw [← h] at hmem
    exact (mem_filter.mp hmem).2

variable (crypto : Crypto) {C : Type}

/-! ## The server -/

/-- An ALCS server whose sessions have their times. -/
structure TimedServer (C : Type) where
  lstAuth : AuthList
  sessions : List (Timed SessionItem)
  resources : List (SecureResource C)
  sessionidSeed : UInt32

variable (server : TimedServer C)

def TimedServer.forget : AlcsServer C :=
  ⟨server.lstAuth, server.sessions.map Timed.node, server.resources, server.sessionidSeed⟩

/-- The sessions after a verified auth request at `uptime`. -/
def timedAuth (addr : NetworkAddr) (env : AuthEnv) (auth : AuthProof) :
    List (Timed SessionItem) :=
  let devKey : AlcsDeviceKey := ⟨addr, auth.pk, auth.dn⟩
  let now := env.uptime
  if (getSession crypto server.forget.sessions devKey).isSome then
    server.sessions.replaceF fun t =>
      if t.node.isFor addr (deviceChecksum crypto devKey) then
        some ⟨t.node.authed crypto auth now, now.toNat⟩
      else none
  else server.sessions ++
    [⟨(authSession crypto server.forget addr env auth).authed crypto auth now, now.toNat⟩]

/-- A heartbeat reaches the established sessions of an address. -/
def Timed.beaten (remote : NetworkAddr) (uptime : UInt64) (t : Timed SessionItem) :
    Timed SessionItem :=
  if t.node.sessionId ≠ 0 ∧ isNetworkaddSame t.node.addr remote then
    ⟨{ t.node with heartTime := uptimeInt uptime }, uptime.toNat⟩
  else t

def timedStep : SvrEvent C → TimedServer C
  | .register malloc pk dn path callback =>
    { server with
      resources := alcsResourceRegisterSecure crypto malloc server.resources pk dn path callback }
  | .auth addr request env =>
    match authCheck crypto server.lstAuth env.buf request with
    | .error _ => server
    | .ok auth =>
      { server with
        sessions := timedAuth crypto server addr env auth
        sessionidSeed :=
          if (getSession crypto server.forget.sessions ⟨addr, auth.pk, auth.dn⟩).isSome then
            server.sessionidSeed
          else server.sessionidSeed + 1 }
  | .request _ _ _ _ _ => server
  | .heartBeat remote uptime =>
    { server with sessions := server.sessions.map (Timed.beaten remote uptime) }
  | .timer uptime =>
    { server with
      sessions := server.sessions.filter fun t => onSvrAuthTimer [t.node] uptime ≠ [] }

theorem map_replaceF {α β : Type} (g : α → β) {f : α → Option α} {f' : β → Option β}
    (h : ∀ a, f' (g a) = (f a).map g) (l : List α) :
    (l.replaceF f).map g = (l.map g).replaceF f' := by
  induction l with
  | nil => rfl
  | cons a l ih =>
    rw [map_cons]
    cases hf : f a with
    | none =>
      rw [replaceF_cons_of_none _ hf, map_cons, ih,
        replaceF_cons_of_none _ (by rw [h, hf]; rfl)]
    | some b =>
      rw [replaceF_cons_of_some _ hf, map_cons,
        replaceF_cons_of_some _ (show f' (g a) = some (g b) by rw [h, hf]; rfl)]

theorem forget_timedAuth (addr : NetworkAddr) (env : AuthEnv) (auth : AuthProof) :
    (timedAuth crypto server addr env auth).map Timed.node =
      if (getSession crypto server.forget.sessions ⟨addr, auth.pk, auth.dn⟩).isSome then
        server.forget.sessions.replaceF fun node =>
          if node.isFor addr (deviceChecksum crypto ⟨addr, auth.pk, auth.dn⟩) then
            some (node.authed crypto auth env.uptime)
          else none
      else server.forget.sessions ++
        [(authSession crypto server.forget addr env auth).authed crypto auth env.uptime] := by
  unfold timedAuth
  simp only
  split_ifs
  · apply map_replaceF
    intro t
    split_ifs
    · rfl
    · rfl
  · rw [map_append]
    rfl

theorem onSvrAuthTimer_singleton_ne_nil (node : SessionItem) (uptime : UInt64) :
    onSvrAuthTimer [node] uptime ≠ [] ↔
      ¬ (node.sessionId ≠ 0 ∧ node.heartTime + defaultHeartExpire < uptimeInt uptime) := by
  unfold onSvrAuthTimer
  rw [filter_cons]
  split_ifs with h
  · simpa [or_iff_not_imp_left] using h
  · simpa using h

/-- **The times are only added.**  Without them the server takes the step of the code. -/
theorem forget_timedStep (event : SvrEvent C) :
    (timedStep crypto server event).forget = svrStep crypto server.forget event := by
  cases event with
  | register malloc pk dn path callback => rfl
  | request path remote message malloc obsVal => rfl
  | auth addr request env =>
    show _ = (alcsRecAuth crypto server.forget addr request env).2
    unfold alcsRecAuth timedStep
    simp only
    have hlst : server.forget.lstAuth = server.lstAuth := rfl
    rw [hlst]
    cases authCheck crypto server.lstAuth env.buf request with
    | error code => rfl
    | ok auth =>
      have hsessions := forget_timedAuth crypto server addr env auth
      simp only
      split_ifs at hsessions ⊢
      · exact congrArg (fun sessions => (⟨server.lstAuth, sessions, server.resources,
          server.sessionidSeed⟩ : AlcsServer C)) hsessions
      · exact congrArg (fun sessions => (⟨server.lstAuth, sessions, server.resources,
          server.sessionidSeed + 1⟩ : AlcsServer C)) hsessions
  | heartBeat remote uptime =>
    have hsessions : (server.sessions.map (Timed.beaten remote uptime)).map Timed.node =
        (alcsRecHeartBeat server.forget.sessions remote uptime).2 := by
      unfold alcsRecHeartBeat
      split_ifs with hempty
      · have hnil : server.sessions = [] := by
          simpa [TimedServer.forget] using hempty
        rw [TimedServer.forget, hnil]
        rfl
      · show _ = (server.sessions.map Timed.node).map _
        rw [map_map, map_map]
        apply map_congr_left
        intro t _
        simp only [Function.comp_apply, Timed.beaten, decide_eq_true_eq]
        split_ifs
        · rfl
        · rfl
    exact congrArg (fun sessions => (⟨server.lstAuth, sessions, server.resources,
      server.sessionidSeed⟩ : AlcsServer C)) hsessions
  | timer uptime =>
    have hsessions : (server.sessions.filter fun t => onSvrAuthTimer [t.node] uptime ≠ []).map
        Timed.node = onSvrAuthTimer server.forget.sessions uptime := by
      show _ = (server.sessions.map Timed.node).filter _
      rw [filter_map]
      apply congrArg
      apply filter_congr
      intro t _
      rw [decide_eq_decide.mpr (onSvrAuthTimer_singleton_ne_nil t.node uptime), decide_not,
        Function.comp_apply]
    exact congrArg (fun sessions => (⟨server.lstAuth, sessions, server.resources,
      server.sessionidSeed⟩ : AlcsServer C)) hsessions

/-! ## The client -/

def defaultHeartInterval : Int32 := 30000

/-- A session of a client, with its `interval`. -/
structure CtlSession extends SessionItem where
  interval : Int32

/-- The fields that `auth_cb` reads from a reply. -/
structure CtlReply where
  code : ℤ
  sessionId : Option UInt32
  randomKey : Option Bytes

/-- What can happen to a client; there is no reply when a request timed out, and the reply to a
heartbeat has a session id, which is 0 if it is not there. -/
inductive CtlEvent
  | doAuth (addr : NetworkAddr) (item : AuthItem) (randomKey : RandomKey)
  | authCb (remote : NetworkAddr) (item : AuthItem) (reply : Option CtlReply) (uptime : UInt64)
  | heartBeatCb (remote : NetworkAddr) (sessionId : Option UInt32) (uptime : UInt64)
  | timer (uptime : UInt64)

/-- The session after a reply with a session id and a random key. -/
def CtlSession.confirmed (item : AuthItem) (sessionId : UInt32) (randomKey : Bytes)
    (uptime : UInt64) (node : CtlSession) : CtlSession :=
  { node with
    sessionId := sessionId
    sessionKey := utilsHmacSha1Hex crypto
      ((node.randomKey.chars ++ cChars randomKey).take 31) node.sessionKey item.accessToken.chars
    authedTime := uptimeInt uptime
    heartTime := uptimeInt uptime
    interval := defaultHeartInterval }

/-- The session that `auth_cb` has found, after a reply with the code 200.  The session id is set
before the random key is looked for. -/
def answered (item : AuthItem) (reply : CtlReply) (uptime : UInt64) (t : Timed CtlSession) :
    Timed CtlSession :=
  match reply.sessionId, reply.randomKey with
  | none, _ => t
  | some sessionId, none => ⟨{ t.node with sessionId := sessionId }, t.beat⟩
  | some sessionId, some randomKey =>
    ⟨t.node.confirmed crypto item sessionId randomKey uptime, uptime.toNat⟩

variable (sessions : List (Timed CtlSession))

/-- `get_ctl_session`, among sessions with their times. -/
def getCtlSession (devKey : AlcsDeviceKey) :
    Option SessionItem :=
  getSession crypto (sessions.map fun t => t.node.toSessionItem) devKey

/-- `do_auth`, which makes a session if there is none. -/
def ctlDoAuth (addr : NetworkAddr) (item : AuthItem) (randomKey : RandomKey) :
    List (Timed CtlSession) :=
  if (getCtlSession crypto sessions (item.devKey addr)).isSome then sessions
  else sessions ++ [⟨⟨ctlSession crypto addr item randomKey, 0⟩, 0⟩]

/-- `auth_cb` -/
def ctlAuthCb (remote : NetworkAddr) (item : AuthItem) (reply : Option CtlReply) (uptime : UInt64) :
    List (Timed CtlSession) :=
  let isFor (t : Timed CtlSession) : Bool :=
    t.node.isFor remote (deviceChecksum crypto (item.devKey remote))
  match reply with
  | none => sessions.eraseP isFor
  | some reply =>
    if reply.code = 200 then
      sessions.replaceF fun t => if isFor t then some (answered crypto item reply uptime t) else none
    else sessions.eraseP isFor

def heartBeatCb (remote : NetworkAddr) (sessionId : Option UInt32) (uptime : UInt64) :
    List (Timed CtlSession) :=
  sessions.filterMap fun t =>
    if t.node.sessionId ≠ 0 ∧ isNetworkaddSame t.node.addr remote then
      if sessionId = some t.node.sessionId then
        some ⟨{ t.node with heartTime := uptimeInt uptime }, uptime.toNat⟩
      else none
    else some t

/-- `on_client_auth_timer`: the sessions for which a heartbeat is sent. -/
def onClientAuthTimer (uptime : UInt64) :
    List (Timed CtlSession) :=
  sessions.filter fun t =>
    t.node.sessionId ≠ 0 ∧ t.node.heartTime + t.node.interval > uptimeInt uptime

def ctlStep : CtlEvent → List (Timed CtlSession)
  | .doAuth addr item randomKey => ctlDoAuth crypto sessions addr item randomKey
  | .authCb remote item reply uptime => ctlAuthCb crypto sessions remote item reply uptime
  | .heartBeatCb remote sessionId uptime => heartBeatCb sessions remote sessionId uptime
  | .timer _ => sessions

/-! ## The times of a run -/

/-- `heart_time` is what the clock showed at the time of the session. -/
def Timed.Clocked (heartTime : Int32) (beat : ℕ) : Prop :=
  heartTime.toInt = (beat : ℤ).bmod (2 ^ 32)

theorem clocked_uptimeInt (uptime : UInt64) : Timed.Clocked (uptimeInt uptime) uptime.toNat :=
  toInt_uptimeInt uptime

theorem clocked_zero : Timed.Clocked 0 0 := by
  rw [Timed.Clocked, Int32.toInt_zero, Nat.cast_zero, Int.zero_bmod]

def SvrTimes : Prop :=
  ∀ t ∈ server.sessions, Timed.Clocked t.node.heartTime t.beat

def CtlTimes : Prop :=
  ∀ t ∈ sessions, Timed.Clocked t.node.heartTime t.beat

theorem SvrTimes.step {server : TimedServer C} (h : SvrTimes server) (event : SvrEvent C) :
    SvrTimes (timedStep crypto server event) := by
  cases event with
  | register malloc pk dn path callback => exact h
  | request path remote message malloc obsVal => exact h
  | auth addr request env =>
    unfold timedStep
    simp only
    cases authCheck crypto server.lstAuth env.buf request with
    | error code => exact h
    | ok auth =>
      intro t ht
      have ht' : t ∈ timedAuth crypto server addr env auth := ht
      unfold timedAuth at ht'
      simp only at ht'
      split_ifs at ht'
      · rcases mem_replaceF ht' with hold | ⟨t', -, heq⟩
        · exact h t hold
        · split_ifs at heq
          cases heq
          exact clocked_uptimeInt env.uptime
      · rcases mem_append.mp ht' with hold | hnew
        · exact h t hold
        · rw [mem_singleton.mp hnew]
          exact clocked_uptimeInt env.uptime
  | heartBeat remote uptime =>
    intro t ht
    obtain ⟨t', ht', rfl⟩ := mem_map.mp ht
    unfold Timed.beaten
    split_ifs
    · exact clocked_uptimeInt uptime
    · exact h t' ht'
  | timer uptime => exact fun t ht => h t (mem_filter.mp ht).1

theorem CtlTimes.step {sessions : List (Timed CtlSession)} (h : CtlTimes sessions)
    (event : CtlEvent) : CtlTimes (ctlStep crypto sessions event) := by
  cases event with
  | doAuth addr item randomKey =>
    intro t ht
    have ht' : t ∈ ctlDoAuth crypto sessions addr item randomKey := ht
    unfold ctlDoAuth at ht'
    split_ifs at ht'
    · exact h t ht'
    · rcases mem_append.mp ht' with hold | hnew
      · exact h t hold
      · rw [mem_singleton.mp hnew]
        exact clocked_zero
  | authCb remote item reply uptime =>
    intro t ht
    have ht' : t ∈ ctlAuthCb crypto sessions remote item reply uptime := ht
    unfold ctlAuthCb at ht'
    cases reply with
    | none => exact h t (mem_of_mem_eraseP ht')
    | some reply =>
      simp only at ht'
      split_ifs at ht'
      · rcases mem_replaceF ht' with hold | ⟨t', hmem, heq⟩
        · exact h t hold
        split_ifs at heq
        cases heq
        unfold answered
        split
        · exact h t' hmem
        · exact h t' hmem
        · exact clocked_uptimeInt uptime
      · exact h t (mem_of_mem_eraseP ht')
  | heartBeatCb remote sessionId uptime =>
    intro t ht
    obtain ⟨t', hmem, heq⟩ := mem_filterMap.mp ht
    split_ifs at heq
    · cases heq
      exact clocked_uptimeInt uptime
    · cases heq
      exact h t hmem
  | timer uptime => exact h

/-! ## The timers -/

/-- What `on_svr_auth_timer` is for: an established session goes when more than
`default_heart_expire` ms have passed since its last heartbeat or auth, and all others stay. -/
def SvrTick (uptime : UInt64) : Prop :=
  (timedStep crypto server (.timer uptime)).sessions = server.sessions.filter fun t =>
      ¬ (t.node.sessionId ≠ 0 ∧ defaultHeartExpire.toInt < (uptime.toNat : ℤ) - t.beat)

/-- What `on_client_auth_timer` is for: a heartbeat is sent for an established session when at
least `interval` ms have passed since its last one was confirmed. -/
def CtlTick (uptime : UInt64) : Prop :=
  onClientAuthTimer sessions uptime = sessions.filter fun t =>
      t.node.sessionId ≠ 0 ∧ t.node.interval.toInt ≤ (uptime.toNat : ℤ) - t.beat

/-- Of no established session does the clock change the order of deadline and tick. -/
def SvrInOrder (uptime : UInt64) : Prop :=
  ∀ t ∈ server.sessions, t.node.sessionId ≠ 0 →
    OrderKept (t.beat + defaultHeartExpire.toInt) uptime.toNat

/-- Of every established session the clock has changed it. -/
def CtlReversed (uptime : UInt64) : Prop :=
  ∀ t ∈ sessions, t.node.sessionId ≠ 0 →
    OrderReversed (t.beat + t.node.interval.toInt) uptime.toNat

theorem svrTick_iff {server : TimedServer C} (h : SvrTimes server) (uptime : UInt64) :
    SvrTick crypto server uptime ↔ SvrInOrder server uptime := by
  unfold SvrTick SvrInOrder timedStep
  rw [filter_eq_filter_iff]
  apply forall₂_congr
  intro t ht
  rw [decide_eq_decide, onSvrAuthTimer_singleton_ne_nil, not_iff_not, and_congr_right_iff,
    Int32.lt_iff_toInt_lt, toInt_add_of_bmod (h t ht), toInt_uptimeInt]
  apply imp_congr_right
  intro _
  rw [← orderKept_iff, show (defaultHeartExpire.toInt < (uptime.toNat : ℤ) - t.beat) ↔
    (t.beat + defaultHeartExpire.toInt < (uptime.toNat : ℤ)) by omega]

theorem ctlTick_iff {sessions : List (Timed CtlSession)} (h : CtlTimes sessions)
    (uptime : UInt64) : CtlTick sessions uptime ↔ CtlReversed sessions uptime := by
  unfold CtlTick CtlReversed onClientAuthTimer
  rw [filter_eq_filter_iff]
  apply forall₂_congr
  intro t ht
  rw [decide_eq_decide, and_congr_right_iff, gt_iff_lt, Int32.lt_iff_toInt_lt,
    toInt_add_of_bmod (h t ht), toInt_uptimeInt]
  apply imp_congr_right
  intro _
  rw [← orderReversed_iff, show (t.node.interval.toInt ≤ (uptime.toNat : ℤ) - t.beat) ↔
    (t.beat + t.node.interval.toInt ≤ (uptime.toNat : ℤ)) by omega]

/-! ## Runs -/

/-- A device with the sessions of both sides. -/
structure HeartState (C : Type) where
  server : TimedServer C
  ctlSessions : List (Timed CtlSession)

inductive HeartEvent (C : Type)
  | svr (event : SvrEvent C)
  | ctl (event : CtlEvent)

variable (s : HeartState C)

def heartStep : HeartEvent C → HeartState C
  | .svr event => { s with server := timedStep crypto s.server event }
  | .ctl event => { s with ctlSessions := ctlStep crypto s.ctlSessions event }

/-- A device with the keys `lst`, before anything has happened. -/
def heartStart (lst : AuthList) : HeartState C := ⟨⟨lst, [], [], 0xff⟩, []⟩

/-- Every tick of a timer does what the timer is for. -/
def TickLaw : HeartEvent C → Prop
  | .svr (.timer uptime) => SvrTick crypto s.server uptime
  | .ctl (.timer uptime) => CtlTick s.ctlSessions uptime
  | _ => True

def TickOk : HeartEvent C → Prop
  | .svr (.timer uptime) => SvrInOrder s.server uptime
  | .ctl (.timer uptime) => CtlReversed s.ctlSessions uptime
  | _ => True

/-- The times of both sides. -/
def HeartInv : Prop := SvrTimes s.server ∧ CtlTimes s.ctlSessions

theorem HeartInv.step {s : HeartState C} (h : HeartInv s) (event : HeartEvent C) :
    HeartInv (heartStep crypto s event) := by
  cases event with
  | svr event => exact ⟨h.1.step crypto event, h.2⟩
  | ctl event => exact ⟨h.1, h.2.step crypto event⟩

theorem tickLaw_iff {s : HeartState C} (h : HeartInv s) (event : HeartEvent C) :
    TickLaw crypto s event ↔ TickOk s event := by
  cases event with
  | svr event =>
    cases event with
    | timer uptime => exact svrTick_iff crypto h.1 uptime
    | _ => exact Iff.rfl
  | ctl event =>
    cases event with
    | timer uptime => exact ctlTick_iff h.2 uptime
    | _ => exact Iff.rfl

/-- **The auth timers.**  In a run of auths, heartbeats and ticks on both sides every tick does
what its timer is for, if and only if at every tick of the server the clock keeps the order of
the deadlines and the tick, and at every tick of the client it has reversed it. -/
theorem auth_timers_iff (lst : AuthList) (events : List (HeartEvent C)) :
    AllSteps (heartStep crypto) (TickLaw crypto) (heartStart lst) events ↔
      AllSteps (heartStep crypto) TickOk (heartStart lst) events := by
  have hstart : HeartInv (heartStart lst : HeartState C) :=
    ⟨fun t ht => absurd ht not_mem_nil, fun t ht => absurd ht not_mem_nil⟩
  have hiff : ∀ (s : HeartState C) event, HeartInv s →
      (TickLaw crypto s event ↔ TickOk s event) := fun s event h => tickLaw_iff crypto h event
  have hstep : ∀ (s : HeartState C) event, HeartInv s → TickOk s event →
      HeartInv (heartStep crypto s event) := fun s event h _ => h.step crypto event
  exact allSteps_congr hiff hstep hstart events

/-- The device `(ab, c)`, as a client knows it. -/
def itemAbC : AuthItem := ⟨accesskeyA, secretX, pkAb, dnC⟩

/-- A client has a session since the uptime 0. -/
def ctlAuthed : List (HeartEvent ℕ) :=
  [.ctl (.doAuth remoteA itemAbC randomKeyA),
    .ctl (.authCb remoteA itemAbC (some ⟨200, some 256, some randomKeyA.chars⟩) 0)]

/-- A server has a session since 100 s before the clock wraps. -/
def svrAuthed : List (HeartEvent ℕ) :=
  [.svr (.auth remoteA (signedRequest pkAb.chars dnC.chars) { envA with uptime := 2147383647 })]

/-- A client sends a heartbeat in the first half minute and none after it, and a server takes a
session of one millisecond for an old one. -/
theorem auth_timers_broken :
    (∀ uptime : UInt64, uptime = 1000 ∨ uptime = 40000 →
      ¬ AllSteps (heartStep plainCrypto) (TickLaw plainCrypto) (heartStart keysA)
        (ctlAuthed ++ [.ctl (.timer uptime)])) ∧
      ∀ uptime : UInt64, uptime = 2147383648 →
        ¬ AllSteps (heartStep plainCrypto) (TickLaw plainCrypto) (heartStart keysA)
          (svrAuthed ++ [.svr (.timer uptime)]) := by
  constructor
  · intro uptime huptime hall
    have htick := ((allSteps_append _ _ _).mp hall).2.1
    have hinv : HeartInv (ctlAuthed.foldl (heartStep plainCrypto) (heartStart keysA)) :=
      inv_foldl HeartInv (fun s event h => h.step plainCrypto event)
        ⟨fun t ht => absurd ht not_mem_nil, fun t ht => absurd ht not_mem_nil⟩ _
    have hreversed := (tickLaw_iff plainCrypto hinv _).mp htick _ (List.Mem.head _) (by decide)
    rcases huptime with rfl | rfl
    · exact absurd hreversed (by decide)
    · exact absurd hreversed (by decide)
  · intro uptime huptime hall
    have htick := ((allSteps_append _ _ _).mp hall).2.1
    have hinv : HeartInv (svrAuthed.foldl (heartStep plainCrypto) (heartStart keysA)) :=
      inv_foldl HeartInv (fun s event h => h.step plainCrypto event)
        ⟨fun t ht => absurd ht not_mem_nil, fun t ht => absurd ht not_mem_nil⟩ _
    have horder := (svrTick_iff plainCrypto hinv.1 uptime).mp htick
    have hsession : ∃ t ∈ (svrAuthed.foldl (heartStep plainCrypto) (heartStart keysA)).server.sessions,
        t.node.sessionId = 256 ∧ t.beat = 2147383647 := ⟨_, List.Mem.head _, rfl, rfl⟩
    obtain ⟨t, ht, hid, hbeat⟩ := hsession
    have hkept := horder t ht (by rw [hid]; decide)
    rw [hbeat, huptime] at hkept
    exact absurd hkept (by decide)

end Iotkit.Alcs
