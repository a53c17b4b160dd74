/-
# The connection state machine

Runs of connecting, keeping alive, reconnecting, cycling, requesting and
disconnecting, in any order and with any failures of the transport.  The client
becomes connected only by an accepted CONNACK in reply to a CONNECT on a transport
that was just established; but `wrapper_mqtt_connect` goes on to send CONNECT when
none of its transport attempts succeeded.
-/
import Iotkit.MqttConnect
import Iotkit.MqttRecvPublish

open GuardedRun

namespace Iotkit.Mqtt

open List

/-! ## CONNECT and CONNACK -/

/-- The CONNECT packet can be built: the send buffer can be had and holds it. -/
structure ConnectFits (s : Session) (env : SendEnv) : Prop where
  alloc : s.client.sendBuf.allocFails env.alloc = false
  fits : mqttPacketLen (mqttSerializeConnectLength s.connectData) ≤
    s.client.sendBuf.sendSize (mqttPacketLen (mqttSerializeConnectLength s.connectData))

variable {s : Session}

theorem connectFits_setNet {net : Net} {env : SendEnv} :
    ConnectFits (s.setNet net) env ↔ ConnectFits s env :=
  ⟨fun h => ⟨h.alloc, h.fits⟩, fun h => ⟨h.alloc, h.fits⟩⟩

theorem connectFits_setKeepAlive {k : ℕ} {env : SendEnv} :
    ConnectFits (s.setKeepAlive k) env ↔ ConnectFits s env :=
  ⟨fun h => ⟨h.alloc, h.fits⟩, fun h => ⟨h.alloc, h.fits⟩⟩

theorem sendPacket_rc (net : Net) (packet : Bytes) (writes : List WriteEvent) :
    (sendPacket net packet writes).1 = successReturn ∨
      (sendPacket net packet writes).1 = mqttNetworkError := by
  simp only [sendPacket, iotxMcSendPacket]
  split_ifs
  · exact .inl rfl
  · exact .inr rfl

/-- `MQTTConnect` sends a packet that can be built, and fails otherwise. -/
theorem mqttConnect_cases (s : Session) (env : SendEnv) :
    (ConnectFits s env ∧
      mqttConnect s env = sendPacket s.client.net (connectPacket s.connectData) env.writes) ∨
    (¬ ConnectFits s env ∧ ∃ rc, rc ≠ successReturn ∧ mqttConnect s env = (rc, [])) := by
  unfold mqttConnect
  by_cases halloc : s.client.sendBuf.allocFails env.alloc = true
  · refine .inr ⟨fun h => ?_, failReturn, by decide, if_pos halloc⟩
    rw [h.alloc] at halloc
    cases halloc
  simp only [if_neg halloc]
  by_cases hfits : mqttPacketLen (mqttSerializeConnectLength s.connectData) >
      s.client.sendBuf.sendSize (mqttPacketLen (mqttSerializeConnectLength s.connectData))
  · have hser : mqttSerializeConnect (s.client.sendBuf.sendSize
        (mqttPacketLen (mqttSerializeConnectLength s.connectData))) s.connectData
          = (mqttPacketBufferTooShort, []) := if_pos hfits
    refine Or.inr ⟨fun h => absurd h.fits (by omega), mqttConnectPacketError, by decide, ?_⟩
    rw [hser]
    rfl
  have hser : mqttSerializeConnect (s.client.sendBuf.sendSize
      (mqttPacketLen (mqttSerializeConnectLength s.connectData))) s.connectData
        = (((connectPacket s.connectData).length : ℤ), connectPacket s.connectData) := if_neg hfits
  have hpos : ¬ ((connectPacket s.connectData).length : ℤ) ≤ 0 := by
    have := length_pos_iff.mpr (connectPacket_ne_nil s.connectData)
    omega
  refine Or.inl ⟨⟨by simpa using halloc, by omega⟩, ?_⟩
  rw [hser]
  simp only [if_neg hpos]
  generalize hr : sendPacket s.client.net (connectPacket s.connectData) env.writes = r
  have hrc := sendPacket_rc s.client.net (connectPacket s.connectData) env.writes
  rw [hr] at hrc
  obtain ⟨rc, actions⟩ := r
  rcases hrc with rfl | rfl
  · rfl
  · rfl

/-- `MQTTConnect` succeeds only over an established transport, with all of CONNECT
sent. -/
theorem mqttConnect_success {env : SendEnv} (h : (mqttConnect s env).1 = successReturn) :
    s.client.net.established = true ∧
      (mqttConnect s env).2 = [.send (connectPacket s.connectData) successReturn] := by
  rcases mqttConnect_cases s env with ⟨-, heq⟩ | ⟨-, rc, hrc, heq⟩
  · rw [heq] at h ⊢
    exact established_of_sendPacket (connectPacket_ne_nil _) h
  · rw [heq] at h
    exact absurd h hrc

/-- A CONNACK packet as it stands in the read buffer, with return code accepted. -/
def AcceptedConnack (packet : Bytes) : Prop :=
  ∃ header body, StoredPacket packet header body ∧
    mqttHeaderGetType header = MsgType.connack.code ∧ 2 ≤ body.length ∧ body.getD 1 0 = 0

/-- Only an accepting CONNACK is handled with success. -/
theorem acceptedConnack_of_handled {packet : Bytes} {header : UInt8} {body : Bytes}
    (hstored : StoredPacket packet header body) {rest : Memory}
    (h : iotxMcHandleRecvConnack (memOf packet rest) = successReturn) :
    AcceptedConnack packet := by
  refine ⟨header, body, hstored, ?_⟩
  unfold iotxMcHandleRecvConnack mqttDeserializeConnack at h
  simp only [hstored.header_eq rest, hstored.decode rest] at h
  by_cases htype : mqttHeaderGetType header ≠ MsgType.connack.code
  · simp [if_pos htype] at h
  rw [if_neg htype] at h
  -- a short packet leaves the return code at 255, which is no return code at all
  by_cases hshort : body.length < 2
  · simp only [if_pos hshort] at h
    split_ifs at h <;> simp_all
  simp only [if_neg hshort] at h
  refine ⟨not_not.mp htype, by omega, ?_⟩
  have hcode := hstored.body_at rest (show 1 < body.length by omega)
  rw [hcode] at h
  by_cases hzero : (body.getD 1 0).toNat = 0
  · exact UInt8.toNat_inj.mp hzero
  · simp only [hzero, if_false, ne_eq, not_true_eq_false] at h
    split_ifs at h <;> cases h

/-- What is done to the transport when a connection is accepted: CONNECT is sent,
other packets are skipped, and an accepting CONNACK arrives. -/
def AcceptedExchange (actions : List NetAction) : Prop :=
  ∃ connect others connack,
    actions = .send connect successReturn :: (others ++ [.recv MsgType.connack.code connack]) ∧
      IsConnect connect ∧ AcceptedConnack connack ∧
      ∀ a ∈ others, ∃ type packet, a = .recv type packet ∧ type ≠ MsgType.connack.code

/-- The wait for CONNACK succeeds with the first CONNACK it reads. -/
theorem iotxMcWaitConnackLoop_success (m : BufMode) (read : ℕ → ReadEnv) (left : ℕ) :
    ∀ net : Net, (iotxMcWaitConnackLoop m read left net).1 = successReturn →
      ∃ others, (iotxMcWaitConnackLoop m read left net).2.2.2
          = others ++ [.recv MsgType.connack.code (iotxMcWaitConnackLoop m read left net).2.1] ∧
        (∀ a ∈ others, ∃ type packet, a = .recv type packet ∧ type ≠ MsgType.connack.code) ∧
        ∃ header body, StoredPacket (iotxMcWaitConnackLoop m read left net).2.1 header body := by
  induction left with
  | zero =>
    intro net h
    unfold iotxMcWaitConnackLoop at h
    simp only at h
    by_cases hrc : (iotxMcReadPacket m net (read 0)).rc ≠ successReturn
    · rw [if_pos hrc] at h
      exact absurd h hrc
    · rw [if_neg hrc] at h
      cases h
  | succ left ih =>
    intro net h
    unfold iotxMcWaitConnackLoop at h ⊢
    simp only at h ⊢
    by_cases hrc : (iotxMcReadPacket m net (read (left + 1))).rc ≠ successReturn
    · rw [if_pos hrc] at h
      exact absurd h hrc
    rw [if_neg hrc] at h ⊢
    by_cases htype : (iotxMcReadPacket m net (read (left + 1))).packetType = MsgType.connack.code
    · rw [if_pos htype]
      obtain ⟨header, body, hstored, -⟩ := iotxMcReadPacket_stored (not_not.mp hrc)
        (by rw [htype]; decide)
      exact ⟨[], by rw [htype]; rfl, by simp, header, body, hstored⟩
    rw [if_neg htype] at h ⊢
    obtain ⟨others, hacts, hothers, hstored⟩ := ih _ h
    refine ⟨.recv (iotxMcReadPacket m net (read (left + 1))).packetType
      (iotxMcReadPacket m net (read (left + 1))).buf :: others, ?_, ?_, hstored⟩
    · simp only [hacts, cons_append]
    · rintro a (_ | ⟨_, ha⟩)
      · exact ⟨_, _, rfl, htype⟩
      · exact hothers a ha

/-- `iotx_mc_wait_CONNACK` succeeds only by an accepting CONNACK. -/
theorem iotxMcWaitConnack_success (c : Client) (env : RoundEnv) (options : ConnectData)
    (h : (iotxMcWaitConnack c env).1 = successReturn) :
    AcceptedExchange (.send (connectPacket options) successReturn
      :: (iotxMcWaitConnack c env).2.2) := by
  unfold iotxMcWaitConnack at *
  have hloop := iotxMcWaitConnackLoop_success c.recvBuf env.read waitConnackMax c.net
  generalize iotxMcWaitConnackLoop c.recvBuf env.read waitConnackMax c.net = r at h hloop ⊢
  obtain ⟨rc, connack, net, actions⟩ := r
  simp only at h hloop ⊢
  by_cases hrc : rc ≠ successReturn
  · rw [if_pos hrc] at h
    exact absurd h hrc
  rw [if_neg hrc] at h ⊢
  obtain ⟨others, rfl, hothers, header, body, hstored⟩ := hloop (not_not.mp hrc)
  exact ⟨_, others, connack, rfl, isConnect_connectPacket options,
    acceptedConnack_of_handled hstored h, hothers⟩

/-! ## Connecting -/

/-- The last connection that was established over `actions` was accepted. -/
def ConnectedOver (actions : List NetAction) : Prop :=
  ∃ before exchange, actions = before ++ .connect true :: exchange ∧ AcceptedExchange exchange

variable {actions : List NetAction}

theorem ConnectedOver.append (h : ConnectedOver actions) (before : List NetAction) :
    ConnectedOver (before ++ actions) := by
  obtain ⟨before', exchange, rfl, hex⟩ := h
  exact ⟨before ++ before', exchange, by simp, hex⟩

/-- The rounds of `_mqtt_connect` succeed by an accepted exchange, on the transport they
were entered with or on one established on the way; otherwise the state is left alone. -/
theorem mqttConnectLoop_cases (keepAlive : ℕ) (env : ℕ → RoundEnv) (now : UInt32) (left : ℕ) :
    ∀ s : Session, let r := mqttConnectLoop keepAlive env now left s
      (r.1 = successReturn ∧ r.2.1.state = .connected ∧
        (s.client.net.established = true ∧ AcceptedExchange r.2.2 ∨ ConnectedOver r.2.2)) ∨
      (r.1 ≠ successReturn ∧ r.2.1.state = s.state) := by
  induction left with
  | zero => intro s; exact Or.inr ⟨by simp [mqttConnectLoop], rfl⟩
  | succ left ih =>
    intro s
    simp only [mqttConnectLoop]
    by_cases hconn : (mqttConnect s (env left).send).1 ≠ successReturn
    · simp only [if_pos hconn]
      exact .inr ⟨hconn, rfl⟩
    simp only [if_neg hconn]
    obtain ⟨hest, hsent⟩ := mqttConnect_success (not_not.mp hconn)
    rw [hsent]
    have hwait := iotxMcWaitConnack_success (s.setKeepAlive keepAlive).client (env left)
      s.connectData
    generalize iotxMcWaitConnack (s.setKeepAlive keepAlive).client (env left) = w at hwait ⊢
    obtain ⟨rc, net, received⟩ := w
    simp only at hwait ⊢
    by_cases hreject : rc ≤ mqttConnackNotAuthorizedError ∧
        mqttConanckUnacceptableProtocolVersionError ≤ rc
    · rw [if_pos hreject]
      exact Or.inr ⟨by simp, rfl⟩
    rw [if_neg hreject]
    by_cases hrc : rc ≠ successReturn
    · rw [if_pos hrc]
      -- the next round runs over the transport established at the end of this one
      rcases ih ((s.setKeepAlive keepAlive).setNet
          (net.disconnect.connect (env left).reconnect)) with
        ⟨hok, hstate, hover⟩ | ⟨hfail, hstate⟩
      · refine .inl ⟨hok, hstate, .inr ?_⟩
        rcases hover with ⟨hest', hex⟩ | hover
        · rw [Session.net_setNet, Net.established_connect] at hest'
          refine ⟨[NetAction.send (connectPacket s.connectData) successReturn] ++ received
            ++ [NetAction.disconnect], _, ?_, hex⟩
          rw [hest']
          simp
        · exact hover.append _
      · exact .inr ⟨hfail, hstate⟩
    · rw [if_neg hrc]
      refine .inl ⟨rfl, rfl, .inl ⟨hest, ?_⟩⟩
      exact hwait (not_not.mp hrc)

/-- The transport attempts of `wrapper_mqtt_connect` stop at the first success; if there
is none, the handle is left invalid and every attempt is seen to fail. -/
theorem transportConnectLoop_cases (transport : ℕ → ConnectEvent) (left : ℕ) :
    ∀ net : Net, let r := transportConnectLoop transport left net
      ((∃ k < left, (transport k).ok = true) ∧ r.1.established = true ∧
        ∃ before, r.2 = before ++ [NetAction.connect true]) ∨
      ((∀ k < left, (transport k).ok = false) ∧
        (net.established = false ∨ 0 < left → r.1.established = false) ∧
        ∀ a ∈ r.2, a = .connect false ∨ a = .disconnect) := by
  induction left with
  | zero =>
    intro net
    exact Or.inr ⟨by simp, by simp [transportConnectLoop], by simp [transportConnectLoop]⟩
  | succ left ih =>
    intro net
    simp only [transportConnectLoop]
    by_cases hok : (transport left).ok = true
    · simp only [if_pos hok]
      exact Or.inl ⟨⟨left, by omega, hok⟩, by simpa using hok, [], rfl⟩
    simp only [if_neg hok]
    rcases ih (net.connect (transport left)).disconnect with
      ⟨⟨k, hk, hkok⟩, hest, before, hbefore⟩ | ⟨hall, hest, hacts⟩
    · refine Or.inl ⟨⟨k, by omega, hkok⟩, hest, .connect false :: .disconnect :: before, ?_⟩
      rw [hbefore]
      rfl
    refine .inr ⟨fun k hk => ?_, fun _ => hest (.inl rfl), ?_⟩
    · rcases Nat.lt_succ_iff_lt_or_eq.mp hk with hk | rfl
      · exact hall k hk
      · simpa using hok
    · intro a ha
      simp only [mem_cons] at ha
      rcases ha with rfl | rfl | ha
      · exact .inl rfl
      · exact .inr rfl
      · exact hacts a ha

/-- `wrapper_mqtt_connect` succeeds by an accepted exchange over a transport it has
established; otherwise it leaves the state alone. -/
theorem wrapperMqttConnect_cases (s : Session) (env : ConnectEnv) :
    let r := wrapperMqttConnect s env
    (r.1 = successReturn ∧ r.2.1.state = .connected ∧ ConnectedOver r.2.2) ∨
      (r.1 ≠ successReturn ∧ r.2.1.state = s.state) := by
  simp only [wrapperMqttConnect, mqttConnectRounds]
  have htransport := transportConnectLoop_cases env.transport 3 s.client.net
  generalize transportConnectLoop env.transport 3 s.client.net = t at htransport ⊢
  obtain ⟨net, tried⟩ := t
  simp only at htransport ⊢
  rcases mqttConnectLoop_cases s.connectData.keepAliveInterval env.round env.now
      (retryTimeLimit - 1) ((s.setNet net).setKeepAlive
        (min (s.connectData.keepAliveInterval * 2 % 2 ^ 16) configMqttKeepaliveIntervalMax)) with
    ⟨hok, hstate, hover⟩ | ⟨hfail, hstate⟩
  · refine .inl ⟨hok, hstate, ?_⟩
    rcases hover with ⟨hest, hex⟩ | hover
    · -- the exchange began on the transport the attempts left behind
      rw [Session.net_setKeepAlive, Session.net_setNet] at hest
      rcases htransport with ⟨-, -, before, rfl⟩ | ⟨-, hnot, -⟩
      · refine ⟨before, _, ?_, hex⟩
        rw [append_assoc]
        rfl
      · rw [hnot (Or.inr (by decide))] at hest
        cases hest
    · exact hover.append tried
  · exact .inr ⟨hfail, hstate⟩

/-! ## No CONNECT without a transport -/

/-- If every transport attempt among `actions` failed, no CONNECT packet was passed to
the transport. -/
def QuietWhenRefused (actions : List NetAction) : Prop :=
  (∀ ok, .connect ok ∈ actions → ok = false) →
    ∀ packet rc, .send packet rc ∈ actions → ¬ IsConnect packet

/-- When `wrapper_mqtt_connect` is quiet: one of its transport attempts succeeds, or it
does not get as far as writing CONNECT, because the packet cannot be built or the timer
expires first. -/
def Settles (s : Session) (env : ConnectEnv) : Prop :=
  (∃ k < 3, (env.transport k).ok = true) ∨
    ¬ (ConnectFits s (env.round 7).send ∧ (env.round 7).send.writes ≠ [])

/-- Without a transport, `_mqtt_connect` ends in its first round. -/
theorem mqttConnectRounds_refused (env : ℕ → RoundEnv) (now : UInt32)
    (hest : s.client.net.established = false) :
    ∃ sent, (mqttConnectRounds s env now).2.2 = sent ++ [NetAction.disconnect] ∧
      (sent = [] ∧ ¬ (ConnectFits s (env 7).send ∧ (env 7).send.writes ≠ []) ∨
        (ConnectFits s (env 7).send ∧ (env 7).send.writes ≠ []) ∧
          ∃ packet rc, sent = [NetAction.send packet rc] ∧ IsConnect packet) := by
  have hfail : (mqttConnect (s.setKeepAlive (min (s.connectData.keepAliveInterval * 2 % 2 ^ 16)
      configMqttKeepaliveIntervalMax)) (env 7).send).1 ≠ successReturn := by
    intro h
    have hest' := (mqttConnect_success h).1
    rw [Session.net_setKeepAlive, hest] at hest'
    cases hest'
  simp only [mqttConnectRounds, retryTimeLimit, Nat.add_sub_cancel, mqttConnectLoop, if_pos hfail]
  refine ⟨_, rfl, ?_⟩
  rw [← connectFits_setKeepAlive]
  rcases mqttConnect_cases (s.setKeepAlive (min (s.connectData.keepAliveInterval * 2 % 2 ^ 16)
      configMqttKeepaliveIntervalMax)) (env 7).send with ⟨hfits, heq⟩ | ⟨hfits, rc, -, heq⟩
  · rw [heq]
    by_cases hwrites : (env 7).send.writes = []
    · exact Or.inl ⟨by simp [sendPacket, hwrites], fun h => h.2 hwrites⟩
    · exact Or.inr ⟨⟨hfits, hwrites⟩, _, _, if_neg (by simpa using hwrites),
        isConnect_connectPacket _⟩
  · rw [heq]
    exact .inl ⟨rfl, fun h => hfits h.1⟩

theorem quietWhenRefused_wrapperMqttConnect (s : Session) (env : ConnectEnv) :
    QuietWhenRefused (wrapperMqttConnect s env).2.2 ↔ Settles s env := by
  simp only [wrapperMqttConnect]
  have htransport := transportConnectLoop_cases env.transport 3 s.client.net
  generalize transportConnectLoop env.transport 3 s.client.net = t at htransport ⊢
  obtain ⟨net, tried⟩ := t
  simp only at htransport ⊢
  rcases htransport with ⟨hsome, -, before, rfl⟩ | ⟨hnone, hest, htried⟩
  · refine ⟨fun _ => .inl hsome, fun _ hrefused => ?_⟩
    exact absurd (hrefused true (by simp)) (by decide)
  obtain ⟨sent, hacts, hsent⟩ := mqttConnectRounds_refused (s := s.setNet net) env.round env.now
    (hest (.inr (by decide)))
  rw [hacts]
  rw [connectFits_setNet] at hsent
  have hnot : ¬ ∃ k < 3, (env.transport k).ok = true := by
    rintro ⟨k, hk, hok⟩
    rw [hnone k hk] at hok
    cases hok
  rcases hsent with ⟨rfl, hleaves⟩ | ⟨hleaves, packet, rc, rfl, hconnect⟩
  · refine ⟨fun _ => .inr hleaves, ?_⟩
    intro _ _ packet rc hmem
    rcases mem_append.mp hmem with hmem | hmem
    · rcases htried _ hmem with h | h <;> cases h
    · simp at hmem
  constructor
  · intro hquiet
    refine absurd hconnect (hquiet (fun ok hok => ?_) packet rc (by simp))
    rcases mem_append.mp hok with hok | hok
    · rcases htried _ hok with h | h
      · exact NetAction.connect.inj h
      · cases h
    · simp at hok
  · rintro (hsome | hleaves')
    · exact absurd hsome hnot
    · exact absurd hleaves hleaves'

/-! ## Runs -/

/-- What can happen to a client.  A `wrapper_mqtt_yield` is a `keepalive` followed by
`cycle`s; its lock is released between them, so that calls of other threads may come in
between. -/
inductive SessionOp
  | connect (env : ConnectEnv)
  | keepalive (env : KeepaliveEnv)
  | cycle (env : CycleEnv) (sweep : ℕ → RepubEnv)
  | disconnect (env : SendEnv)
  | publish (ptr : ℕ) (req : PubRequest) (env : PubEnv)
  | subscribe (req : SubRequest) (env : SubEnv)
  | unsubscribe (topicFilter : CString) (env : SubEnv)

/-- One round of `_mqtt_cycle`. -/
def mqttCycleRound (c : Client) (env : CycleEnv) (sweep : ℕ → RepubEnv) : Client :=
  match iotxMcCycle c env with
  | (rc, c, _) => if rc = successReturn then (mqttPubInfoProc c sweep).1 else c

/-- One operation: the session afterwards, and what connection code did to the
transport. -/
def sessionExec (s : Session) : SessionOp → Session × List NetAction
  | .connect env => ((wrapperMqttConnect s env).2.1, (wrapperMqttConnect s env).2.2)
  | .keepalive env => ((iotxMcKeepalive s env).1, (iotxMcKeepalive s env).2.1)
  | .cycle env sweep => ({ s with client := mqttCycleRound s.client env sweep }, [])
  | .disconnect env => iotxMcDisconnect s env
  | .publish ptr req env => ({ s with client := (wrapperMqttPublish s.client ptr req env).2 }, [])
  | .subscribe req env => ({ s with client := (wrapperMqttSubscribe s.client req env).2 }, [])
  | .unsubscribe topicFilter env =>
    ({ s with client := (wrapperMqttUnsubscribe s.client topicFilter env).2 }, [])

def sessionStep (s : Session) (op : SessionOp) : Session := (sessionExec s op).1

/-- The client gets connected only by an accepted exchange over a transport that was
established for it. -/
def ConnectsByConnack (s : Session) (op : SessionOp) : Prop :=
  s.state ≠ .connected → (sessionStep s op).state = .connected →
    ConnectedOver (sessionExec s op).2

/-- A keepalive gets to reconnecting. -/
def Reconnects (s : Session) (env : KeepaliveEnv) : Prop :=
  (s.state = .disconnectedReconnecting ∨ s.state = .connectBlock) ∧
    utilsTimeIsExpired s.reconnectNextTime env.reconnectNow = true

/-- `Settles` for the `wrapper_mqtt_connect` an operation makes, if it makes one. -/
def SessionOp.Settles (s : Session) : SessionOp → Prop
  | .connect env => Mqtt.Settles s env
  | .keepalive env => Reconnects s env → Mqtt.Settles s env.connect
  | _ => True

/-! ### Keepalive -/

/-- An action that neither connects nor sends CONNECT. -/
def NetAction.Harmless (a : NetAction) : Prop :=
  (∀ ok, a ≠ .connect ok) ∧ ∀ packet rc, a = .send packet rc → ¬ IsConnect packet

theorem harmless_disconnect : NetAction.disconnect.Harmless := ⟨nofun, nofun⟩

theorem quietWhenRefused_append {before : List NetAction} (h : ∀ a ∈ before, a.Harmless) :
    QuietWhenRefused (before ++ actions) ↔ QuietWhenRefused actions := by
  have hconnect : ∀ ok, NetAction.connect ok ∈ before ++ actions ↔ .connect ok ∈ actions := by
    intro ok
    rw [mem_append]
    exact ⟨fun hmem => hmem.resolve_left fun hb => (h _ hb).1 ok rfl, .inr⟩
  constructor
  · intro hquiet hrefused packet rc hmem
    exact hquiet (fun ok hok => hrefused ok ((hconnect ok).mp hok)) packet rc
      (mem_append_right _ hmem)
  · intro hquiet hrefused packet rc hmem
    rcases mem_append.mp hmem with hmem | hmem
    · exact (h _ hmem).2 packet rc rfl
    · exact hquiet (fun ok hok => hrefused ok ((hconnect ok).mpr hok)) packet rc hmem

theorem quietWhenRefused_harmless (h : ∀ a ∈ actions, a.Harmless) : QuietWhenRefused actions := by
  rw [← append_nil actions, quietWhenRefused_append h]
  exact fun _ _ _ hmem => absurd hmem not_mem_nil

theorem harmless_sendZero {type : MsgType}
    (htype : mqttHeaderGetType (mqttHeaderSet type 0 0 0) ≠ MsgType.connect.code)
    (c : Client) (err : ℤ) (env : SendEnv) : ∀ a ∈ (sendZero c type err env).2, a.Harmless := by
  intro a ha
  have hmem : ∃ rc, a = .send (mqttHeaderSet type 0 0 0 :: mqttPacketEncode 0) rc := by
    unfold sendZero mqttSerializeZero at ha
    simp only at ha
    split_ifs at ha with halloc hlen hpos hpos
    · cases ha
    · cases ha
    · exact absurd (show mqttPacketBufferTooShort ≤ 0 by decide) hpos
    · cases ha
    · simp only [sendPacket] at ha
      split_ifs at ha
      · cases ha
      · exact ⟨_, mem_singleton.mp ha⟩
  obtain ⟨rc, rfl⟩ := hmem
  constructor
  · intro ok h
    cases h
  · intro packet rc' h
    obtain ⟨rfl, -⟩ := NetAction.send.inj h
    exact htype

theorem iotxMcKeepaliveSub_state (s : Session) (env : KeepaliveEnv) :
    (s.state ≠ .connected ∧ iotxMcKeepaliveSub s env = (successReturn, s, [])) ∨
      s.state = .connected ∧ ((iotxMcKeepaliveSub s env).2.1.state = .connected ∨
        (iotxMcKeepaliveSub s env).2.1.state = .disconnected) := by
  unfold iotxMcKeepaliveSub
  by_cases hstate : s.state ≠ .connected
  · exact .inl ⟨hstate, if_pos hstate⟩
  have hconn : s.state = .connected := not_not.mp hstate
  refine .inr ⟨hconn, ?_⟩
  simp only [if_neg hstate]
  split_ifs
  · exact .inl hconn
  · exact .inr rfl
  · exact .inl hconn
  · exact .inl hconn

theorem harmless_iotxMcKeepaliveSub (s : Session) (env : KeepaliveEnv) :
    ∀ a ∈ (iotxMcKeepaliveSub s env).2.2, a.Harmless := by
  have hping : mqttHeaderGetType (mqttHeaderSet .pingreq 0 0 0) ≠ MsgType.connect.code := by decide
  unfold iotxMcKeepaliveSub mqttKeepalive
  simp only
  split_ifs
  · simp
  · simp
  · exact harmless_sendZero hping _ _ _
  · exact harmless_sendZero hping _ _ _
  · exact harmless_sendZero hping _ _ _

theorem iotxMcAttemptReconnect_cases (s : Session) (env : ConnectEnv) :
    let r := iotxMcAttemptReconnect s env
    ((r.1 = successReturn ∧ ConnectedOver r.2.2) ∨
      (r.1 ≠ successReturn ∧ r.2.1.state = s.state)) ∧
      (QuietWhenRefused r.2.2 ↔ Settles s env) := by
  have hcases := wrapperMqttConnect_cases (s.setNet s.client.net.disconnect) env
  have hquiet := quietWhenRefused_wrapperMqttConnect (s.setNet s.client.net.disconnect) env
  simp only [iotxMcAttemptReconnect]
  generalize wrapperMqttConnect (s.setNet s.client.net.disconnect) env = w at hcases hquiet ⊢
  obtain ⟨rc, s', actions⟩ := w
  constructor
  · rcases hcases with ⟨hok, -, hover⟩ | hfail
    · exact .inl ⟨hok, hover.append [.disconnect]⟩
    · exact .inr hfail
  · rw [← singleton_append, quietWhenRefused_append (by simpa using harmless_disconnect),
      hquiet, Settles, Settles, connectFits_setNet]

theorem iotxMcHandleReconnect_due {env : KeepaliveEnv}
    (hdue : utilsTimeIsExpired s.reconnectNextTime env.reconnectNow = true) :
    let r := iotxMcHandleReconnect s env
    ((r.1 = successReturn ∧ ConnectedOver r.2.2) ∨
      (r.1 ≠ successReturn ∧ r.2.1.state = s.state)) ∧
      (QuietWhenRefused r.2.2 ↔ Settles s env.connect) := by
  have hnot : ¬ utilsTimeIsExpired s.reconnectNextTime env.reconnectNow = false := by simp [hdue]
  have hattempt := iotxMcAttemptReconnect_cases s env.connect
  simp only [iotxMcHandleReconnect, if_neg hnot]
  generalize iotxMcAttemptReconnect s env.connect = r at hattempt ⊢
  obtain ⟨rc, s', actions⟩ := r
  obtain ⟨⟨hok, hover⟩ | ⟨hfail, hstate⟩, hquiet⟩ := hattempt
  · have hok' : rc = successReturn := hok
    simp only [if_pos hok']
    exact ⟨.inl ⟨trivial, hover⟩, hquiet⟩
  · have hfail' : ¬ rc = successReturn := hfail
    simp only [if_neg hfail']
    exact ⟨.inr ⟨hfail', hstate⟩, hquiet⟩

/-- What a keepalive does once the ping has been dealt with: it reconnects, it waits for
the time to reconnect, it notices a lost connection, or it does nothing. -/
theorem iotxMcKeepaliveState_cases (s : Session) (env : KeepaliveEnv) :
    let r := iotxMcKeepaliveState s env
    (Reconnects s env ∧ (r.1.state = .connected → s.state ≠ .connected → ConnectedOver r.2.1) ∧
      (QuietWhenRefused r.2.1 ↔ Settles s env.connect)) ∨
    (¬ Reconnects s env ∧ (r.1.state = .connected → s.state = .connected) ∧
      ∀ a ∈ r.2.1, a.Harmless) := by
  simp only [iotxMcKeepaliveState]
  by_cases hwaits : s.state = .disconnectedReconnecting ∨ s.state = .connectBlock
  · rw [if_pos hwaits]
    by_cases hdue : utilsTimeIsExpired s.reconnectNextTime env.reconnectNow = true
    · have hrec := iotxMcHandleReconnect_due hdue
      refine .inl ⟨⟨hwaits, hdue⟩, ?_⟩
      generalize iotxMcHandleReconnect s env = r at hrec ⊢
      obtain ⟨rc, s', actions⟩ := r
      obtain ⟨hcases, hquiet⟩ := hrec
      rcases hcases with ⟨hok, hover⟩ | ⟨hfail, hstate⟩
      · have hok' : ¬ rc ≠ successReturn := not_not.mpr hok
        simp only [if_neg hok']
        exact ⟨fun _ _ => hover, hquiet⟩
      · have hfail' : rc ≠ successReturn := hfail
        simp only [if_pos hfail']
        refine ⟨fun hconn hne => absurd (hstate.symm.trans hconn) hne, hquiet⟩
    · have hrec : iotxMcHandleReconnect s env = (failReturn, s, []) :=
        if_pos (by simpa using hdue)
      refine .inr ⟨fun h => hdue h.2, ?_⟩
      rw [hrec]
      exact ⟨id, by simp⟩
  · rw [if_neg hwaits]
    refine .inr ⟨fun h => hwaits h.1, ?_⟩
    by_cases hlost : s.state = .disconnected
    · rw [if_pos hlost]
      refine ⟨fun h => ?_, by simpa using harmless_disconnect⟩
      cases h
    · rw [if_neg hlost]
      exact ⟨id, by simp⟩

/-! ### Every step of every run -/

/-- A keepalive reconnects by an accepted exchange, and is quiet exactly if its
reconnection settles. -/
theorem iotxMcKeepalive_cases (s : Session) (env : KeepaliveEnv) :
    let r := iotxMcKeepalive s env
    (s.state ≠ .connected → r.1.state = .connected → ConnectedOver r.2.1) ∧
      (QuietWhenRefused r.2.1 ↔ (Reconnects s env → Settles s env.connect)) := by
  simp only [iotxMcKeepalive]
  rcases iotxMcKeepaliveSub_state s env with ⟨hne, hsub⟩ | ⟨hconn, hsub⟩
  · rw [hsub]
    simp only [nil_append]
    rcases iotxMcKeepaliveState_cases s env with ⟨hrec, hover, hquiet⟩ | ⟨hrec, hstate, hacts⟩
    · exact ⟨fun _ h => hover h hne, hquiet.trans ⟨fun h _ => h, fun h => h hrec⟩⟩
    · exact ⟨fun _ h => absurd (hstate h) hne,
        fun _ h => absurd h hrec, fun _ => quietWhenRefused_harmless hacts⟩
  -- a connected client at most notices that the connection is lost
  have hnotrec : ¬ Reconnects s env := by
    rintro ⟨h | h, -⟩ <;> rw [hconn] at h <;> cases h
  refine ⟨fun hne => absurd hconn hne, fun _ h => absurd h hnotrec, fun _ => ?_⟩
  rw [quietWhenRefused_append (harmless_iotxMcKeepaliveSub s env)]
  rcases iotxMcKeepaliveState_cases (iotxMcKeepaliveSub s env).2.1 env with
    ⟨⟨hwaits, -⟩, -⟩ | ⟨-, -, hacts⟩
  · rcases hsub with hsub | hsub <;> rw [hsub] at hwaits <;> simp at hwaits
  · exact quietWhenRefused_harmless hacts

theorem mqttCycleRound_state {c : Client} (h : c.clientState ≠ .connected) (env : CycleEnv)
    (sweep : ℕ → RepubEnv) : (mqttCycleRound c env sweep).clientState ≠ .connected := by
  have hcycle : iotxMcCycle c env = (mqttStateError, c, []) := if_pos h
  simp only [mqttCycleRound, hcycle]
  rw [if_neg (by decide)]
  exact h

theorem iotxMcGetNextPacketid_clientState (c : Client) :
    (iotxMcGetNextPacketid c).2.clientState = c.clientState := rfl

/-- Nor does a request: it is turned away, although a subscription has taken a packet id
by then. -/
theorem request_state {c : Client} (h : c.clientState ≠ .connected) :
    (∀ ptr req env, (wrapperMqttPublish c ptr req env).2.clientState ≠ .connected) ∧
      (∀ req env, (wrapperMqttSubscribe c req env).2.clientState ≠ .connected) ∧
      ∀ topicFilter env, (wrapperMqttUnsubscribe c topicFilter env).2.clientState ≠ .connected := by
  have hid : (iotxMcGetNextPacketid c).2.clientState ≠ .connected := by
    rw [iotxMcGetNextPacketid_clientState]
    exact h
  refine ⟨fun ptr req env => ?_, fun req env => ?_, fun topicFilter env => ?_⟩
  · unfold wrapperMqttPublish
    split_ifs
    · exact h
    · exact h
  · unfold wrapperMqttSubscribe
    simp only [if_pos hid]
    split_ifs
    · exact h
    · exact hid
  · unfold wrapperMqttUnsubscribe
    simp only [if_pos hid]
    split_ifs
    · exact hid
    · exact hid

theorem sessionStep_connects (s : Session) (op : SessionOp) : ConnectsByConnack s op := by
  intro hne hconn
  cases op with
  | connect env =>
    rcases wrapperMqttConnect_cases s env with ⟨-, -, hover⟩ | ⟨-, hstate⟩
    · exact hover
    · exact absurd (hstate.symm.trans hconn) hne
  | keepalive env => exact (iotxMcKeepalive_cases s env).1 hne hconn
  | cycle env sweep => exact absurd hconn (mqttCycleRound_state hne env sweep)
  | disconnect env => cases hconn
  | publish ptr req env => exact absurd hconn ((request_state hne).1 ptr req env)
  | subscribe req env => exact absurd hconn ((request_state hne).2.1 req env)
  | unsubscribe topicFilter env => exact absurd hconn ((request_state hne).2.2 topicFilter env)

theorem sessionStep_quiet_iff (s : Session) (op : SessionOp) :
    QuietWhenRefused (sessionExec s op).2 ↔ op.Settles s := by
  have hnil : QuietWhenRefused [] := quietWhenRefused_harmless (by simp)
  cases op with
  | connect env => exact quietWhenRefused_wrapperMqttConnect s env
  | keepalive env => exact (iotxMcKeepalive_cases s env).2
  | disconnect env =>
    refine iff_of_true (quietWhenRefused_harmless fun a ha => ?_) trivial
    rcases mem_append.mp ha with ha | ha
    · split_ifs at ha
      · exact harmless_sendZero (by decide) _ _ _ a ha
      · cases ha
    · rw [mem_singleton.mp ha]
      exact harmless_disconnect
  | cycle env sweep => exact iff_of_true hnil trivial
  | publish ptr req env => exact iff_of_true hnil trivial
  | subscribe req env => exact iff_of_true hnil trivial
  | unsubscribe topicFilter env => exact iff_of_true hnil trivial

/-- **The connection state machine.**  In every run, a step that makes the client connected received
an accepting CONNACK in reply to a CONNECT on a transport it had established; and no step sends
CONNECT although all of its transport attempts failed, exactly if in every step that connects one
succeeds or CONNECT is not reached. -/
theorem connection_state_machine_iff (s : Session) (ops : List SessionOp) :
    AllSteps sessionStep ConnectsByConnack s ops ∧
      (AllSteps sessionStep (fun s op => QuietWhenRefused (sessionExec s op).2) s ops ↔
        AllSteps sessionStep (fun s op => op.Settles s) s ops) := by
  refine ⟨allSteps_of_forall sessionStep_connects s ops, ?_, ?_⟩
  · exact AllSteps.mono fun s op => (sessionStep_quiet_iff s op).mp
  · exact AllSteps.mono fun s op => (sessionStep_quiet_iff s op).mpr

/-! ### A client that connects, and one that cannot -/

/-- The client `a`, initialized and not yet connected. -/
def freshSession : Session where
  client := { idleClient with clientState := .initialized, net := ⟨false, fun _ => 0, 0⟩ }
  connectData := ⟨4, ⟨some ⟨[0x61], by decide⟩, []⟩, 60, 1, 0,
    ⟨⟨none, []⟩, ⟨none, []⟩, 0, 0⟩, ⟨none, []⟩, ⟨none, []⟩⟩
  nextPingTime := 0
  reconnectNextTime := 0
  reconnectTimeIntervalMs := iotxMcReconnectIntervalMinMs

/-- Every transport attempt ends with `ev`, and whatever can be served is served. -/
def connectEnvWith (ev : ConnectEvent) : ConnectEnv where
  transport := fun _ => ev
  round := fun _ => ⟨⟨true, [.wrote 100]⟩, fun _ => ReadEnv.served, fun _ => 0, ev⟩
  now := 0

example : (sessionStep freshSession (.connect (connectEnvWith
    (.established (memOf [0x20, 2, 0, 0] fun _ => 0))))).state = .connected := by decide

/-- All three transport attempts fail, and CONNECT is written all the same. -/
theorem connect_written_when_refused :
    (sessionExec freshSession (.connect (connectEnvWith .failed))).2
        = [.connect false, .disconnect, .connect false, .disconnect, .connect false, .disconnect,
          .send [0x10, 13, 0, 4, 0x4D, 0x51, 0x54, 0x54, 4, 2, 0, 120, 0, 1, 0x61]
            mqttNetworkError, .disconnect] ∧
      ¬ QuietWhenRefused (sessionExec freshSession (.connect (connectEnvWith .failed))).2 := by
  have hacts : (sessionExec freshSession (.connect (connectEnvWith .failed))).2
      = [.connect false, .disconnect, .connect false, .disconnect, .connect false, .disconnect,
        .send [0x10, 13, 0, 4, 0x4D, 0x51, 0x54, 0x54, 4, 2, 0, 120, 0, 1, 0x61]
          mqttNetworkError, .disconnect] := by decide
  refine ⟨hacts, fun hquiet => ?_⟩
  rw [hacts] at hquiet
  refine hquiet (fun ok hok => ?_)
    [0x10, 13, 0, 4, 0x4D, 0x51, 0x54, 0x54, 4, 2, 0, 120, 0, 1, 0x61] mqttNetworkError
    (by decide) (by decide)
  simpa using hok

end Iotkit.Mqtt
