/-
# Unanswered pings and the delays between reconnections

What `wrapper_mqtt_yield` keeps count of over a whole run: `keepalive_probes`, which
`iotx_mc_keepalive_sub` counts up and a received packet clears, and `reconnect_time_interval_ms`,
which `iotx_mc_handle_reconnect` doubles and `iotx_mc_keepalive` puts back.
-/
import Iotkit.MqttKeepAlive
import Iotkit.MqttAlignment

open GuardedRun

namespace Iotkit.Mqtt

/-! ## Pings and received packets -/

/-- The bytes of a packet are those of a PINGREQ packet by its type field. -/
def IsPingreq (packet : Bytes) : Prop :=
  mqttHeaderGetType (packet.headD 0) = MsgType.pingreq.code

instance (packet : Bytes) : Decidable (IsPingreq packet) :=
  inferInstanceAs (Decidable (_ = _))

/-- A PINGREQ is passed to the transport, in full or in part. -/
def NetAction.pings : NetAction → Bool
  | .send packet _ => decide (IsPingreq packet)
  | _ => false

/-- The PINGREQs among `actions`. -/
def pingreqs (actions : List NetAction) : ℕ := actions.countP NetAction.pings

@[simp] theorem pingreqs_disconnect : pingreqs [.disconnect] = 0 := rfl

theorem pingreqs_append (as bs : List NetAction) :
    pingreqs (as ++ bs) = pingreqs as + pingreqs bs := List.countP_append

/-- Only packets that are no PINGREQ are sent. -/
def Pingless (actions : List NetAction) : Prop :=
  ∀ packet rc, .send packet rc ∈ actions → ¬ IsPingreq packet

theorem Pingless.append {as bs : List NetAction} (has : Pingless as) (hbs : Pingless bs) :
    Pingless (as ++ bs) := by
  intro packet rc hmem
  rcases List.mem_append.mp hmem with hmem | hmem
  · exact has packet rc hmem
  · exact hbs packet rc hmem

variable {actions : List NetAction}

theorem pingless_of_forall (h : ∀ a ∈ actions, ∀ packet rc, a ≠ .send packet rc) :
    Pingless actions :=
  fun packet rc hmem => absurd rfl (h _ hmem packet rc)

theorem Pingless.pingreqs_eq (h : Pingless actions) : pingreqs actions = 0 := by
  refine List.countP_eq_zero.mpr fun a ha => ?_
  cases a with
  | send packet rc => simpa [NetAction.pings] using h packet rc ha
  | connect ok => exact Bool.false_ne_true
  | disconnect => exact Bool.false_ne_true
  | recv packetType packet => exact Bool.false_ne_true

/-- An `iotx_mc_cycle` receives a packet: `MQTT_CPT_RESERVED` stands for none. -/
def CycleReceives (c : Client) (env : CycleEnv) : Prop :=
  c.clientState = .connected ∧
    (iotxMcReadPacket c.recvBuf c.net env.read).rc = successReturn ∧
    (iotxMcReadPacket c.recvBuf c.net env.read).packetType ≠ MsgType.reserved.code

/-- An operation receives a packet, in a cycle or while it connects. -/
def Receives (s : Session) : SessionOp → Prop
  | .cycle env _ => CycleReceives s.client env
  | op => ∃ packetType packet, packetType ≠ MsgType.reserved.code ∧
      .recv packetType packet ∈ (sessionExec s op).2

/-- The PINGREQs of a run. -/
def pingreqsSent : Session → List SessionOp → ℕ
  | _, [] => 0
  | s, op :: ops => pingreqs (sessionExec s op).2 + pingreqsSent (sessionStep s op) ops

/-! ## Yields -/

/-- A call of `wrapper_mqtt_yield`: the keepalive, the first round of `_mqtt_cycle`, and
those that follow until the time is over. -/
structure YieldCall where
  keepalive : KeepaliveEnv
  first : CycleEnv × (ℕ → RepubEnv)
  more : List (CycleEnv × (ℕ → RepubEnv))

def YieldCall.ops (y : YieldCall) : List SessionOp :=
  .keepalive y.keepalive :: (y.first :: y.more).map fun r => .cycle r.1 r.2

/-- One yield is over before the next one begins: between two keepalives there is a
cycle.  Whatever else is done to the client may come anywhere. -/
def YieldsInOrder : Bool → List SessionOp → Prop
  | _, [] => True
  | cycled, .keepalive _ :: ops => cycled = true ∧ YieldsInOrder false ops
  | _, .cycle _ _ :: ops => YieldsInOrder true ops
  | cycled, .connect _ :: ops => YieldsInOrder cycled ops
  | cycled, .disconnect _ :: ops => YieldsInOrder cycled ops
  | cycled, .publish _ _ _ :: ops => YieldsInOrder cycled ops
  | cycled, .subscribe _ _ :: ops => YieldsInOrder cycled ops
  | cycled, .unsubscribe _ _ :: ops => YieldsInOrder cycled ops

theorem yieldsInOrder_cycles (rounds : List (CycleEnv × (ℕ → RepubEnv))) {ops : List SessionOp}
    (hops : YieldsInOrder true ops) :
    YieldsInOrder true (rounds.map (fun r => .cycle r.1 r.2) ++ ops) := by
  induction rounds with
  | nil => exact hops
  | cons r rounds ih => exact ih

theorem yieldsInOrder_flatMap (ys : List YieldCall) :
    YieldsInOrder true (ys.flatMap YieldCall.ops) := by
  induction ys with
  | nil => trivial
  | cons y ys ih =>
    exact ⟨rfl, yieldsInOrder_cycles y.more ih⟩

/-- Whether a cycle has come since the last keepalive, after one more operation. -/
def SessionOp.cycledAfter (cycled : Bool) : SessionOp → Bool
  | .keepalive _ => false
  | .cycle _ _ => true
  | _ => cycled

/-- A keepalive waits for a cycle. -/
def SessionOp.InOrder (cycled : Bool) : SessionOp → Prop
  | .keepalive _ => cycled = true
  | _ => True

variable {cycled : Bool}

theorem yieldsInOrder_cons {op : SessionOp} {ops : List SessionOp} :
    YieldsInOrder cycled (op :: ops) ↔
      op.InOrder cycled ∧ YieldsInOrder (op.cycledAfter cycled) ops := by
  cases op with
  | keepalive env => exact Iff.rfl
  | connect env => exact (and_iff_right trivial).symm
  | cycle env sweep => exact (and_iff_right trivial).symm
  | disconnect env => exact (and_iff_right trivial).symm
  | publish ptr req env => exact (and_iff_right trivial).symm
  | subscribe req env => exact (and_iff_right trivial).symm
  | unsubscribe topicFilter env => exact (and_iff_right trivial).symm

/-! ## What the operations do to the counters -/

/-- The counters of the keep-alive and of the back-off. -/
structure SameTimers (s s' : Session) : Prop where
  interval : s'.reconnectTimeIntervalMs = s.reconnectTimeIntervalMs
  next : s'.reconnectNextTime = s.reconnectNextTime

theorem SameTimers.refl (s : Session) : SameTimers s s := ⟨rfl, rfl⟩

theorem pingless_sendPacket {packet : Bytes} (h : ¬ IsPingreq packet) (net : Net)
    (writes : List WriteEvent) : Pingless (sendPacket net packet writes).2 := by
  intro packet' rc hmem
  simp only [sendPacket] at hmem
  split_ifs at hmem
  · cases hmem
  · obtain ⟨rfl, -⟩ := NetAction.send.inj (List.mem_singleton.mp hmem)
    exact h

theorem pingless_mqttConnect (s : Session) (env : SendEnv) : Pingless (mqttConnect s env).2 := by
  rcases mqttConnect_cases s env with ⟨-, heq⟩ | ⟨-, rc, -, heq⟩
  · rw [heq]
    apply pingless_sendPacket
    intro hpingreq
    exact absurd ((isConnect_connectPacket s.connectData).symm.trans hpingreq) (by decide)
  · rw [heq]
    exact pingless_of_forall (by simp)

variable (c : Client)

theorem pingless_iotxMcWaitConnack (env : RoundEnv) : Pingless (iotxMcWaitConnack c env).2.2 := by
  apply pingless_of_forall
  intro a ha packet rc hsend
  have hrecv := iotxMcWaitConnackLoop_recv c.recvBuf env.read waitConnackMax c.net a
  simp only [iotxMcWaitConnack] at ha
  split_ifs at ha
  all_goals
    obtain ⟨t, p, rfl⟩ := hrecv ha
    cases hsend

/-- The rounds of `_mqtt_connect` send no ping and leave the back-off alone; a success
clears the probes. -/
theorem mqttConnectLoop_probes (u : ℕ) (env : ℕ → RoundEnv) (now : UInt32) (left : ℕ) :
    ∀ s : Session, let r := mqttConnectLoop u env now left s
      SameTimers s r.2.1 ∧ Pingless r.2.2 ∧ r.2.1.client.keepaliveProbes
        = if r.1 = successReturn then 0 else s.client.keepaliveProbes := by
  have hclosing : Pingless [.disconnect] := pingless_of_forall (by simp)
  induction left with
  | zero =>
    intro s
    exact ⟨SameTimers.refl s, pingless_of_forall (by simp [mqttConnectLoop]), rfl⟩
  | succ left ih =>
    intro s
    have hsent := pingless_mqttConnect s (env left).send
    simp only [mqttConnectLoop]
    by_cases hconn : (mqttConnect s (env left).send).1 ≠ successReturn
    · rw [if_pos hconn]
      exact ⟨⟨rfl, rfl⟩, hsent.append hclosing, (if_neg hconn).symm⟩
    rw [if_neg hconn]
    have hrecv := pingless_iotxMcWaitConnack (s.setKeepAlive u).client (env left)
    generalize iotxMcWaitConnack (s.setKeepAlive u).client (env left) = w at hrecv ⊢
    obtain ⟨rc, net, received⟩ := w
    by_cases hreject : rc ≤ mqttConnackNotAuthorizedError ∧
        mqttConanckUnacceptableProtocolVersionError ≤ rc
    · rw [if_pos hreject]
      exact ⟨⟨rfl, rfl⟩, (hsent.append hrecv).append hclosing, rfl⟩
    rw [if_neg hreject]
    by_cases hrc : rc ≠ successReturn
    · rw [if_pos hrc]
      obtain ⟨⟨hinterval, hnext⟩, hrest, hprobes⟩ := ih ((s.setKeepAlive u).setNet
        (net.disconnect.connect (env left).reconnect))
      refine ⟨⟨hinterval, hnext⟩, ?_, hprobes⟩
      exact ((hsent.append hrecv).append (pingless_of_forall (by simp))).append hrest
    · rw [if_neg hrc]
      exact ⟨⟨rfl, rfl⟩, hsent.append hrecv, rfl⟩

theorem pingless_transportConnectLoop (transport : ℕ → ConnectEvent) (left : ℕ) :
    ∀ net, Pingless (transportConnectLoop transport left net).2 := by
  induction left with
  | zero => intro net; exact pingless_of_forall (by simp [transportConnectLoop])
  | succ left ih =>
    intro net
    simp only [transportConnectLoop]
    split_ifs
    · exact pingless_of_forall (by simp)
    · have hfailed : Pingless [.connect false, .disconnect] := pingless_of_forall (by simp)
      exact hfailed.append (ih _)

theorem mqttConnectRounds_probes (s : Session) (env : ℕ → RoundEnv) (now : UInt32) :
    let r := mqttConnectRounds s env now
    SameTimers s r.2.1 ∧ Pingless r.2.2 ∧ r.2.1.client.keepaliveProbes
      = if r.1 = successReturn then 0 else s.client.keepaliveProbes := by
  simp only [mqttConnectRounds]
  obtain ⟨htimers, hpingless, hprobes⟩ := mqttConnectLoop_probes s.connectData.keepAliveInterval
    env now (retryTimeLimit - 1) (s.setKeepAlive
      (min (s.connectData.keepAliveInterval * 2 % 2 ^ 16) configMqttKeepaliveIntervalMax))
  exact ⟨⟨htimers.interval, htimers.next⟩, hpingless, hprobes⟩

theorem wrapperMqttConnect_probes (s : Session) (env : ConnectEnv) :
    let r := wrapperMqttConnect s env
    SameTimers s r.2.1 ∧ Pingless r.2.2 ∧ r.2.1.client.keepaliveProbes
      = if r.1 = successReturn then 0 else s.client.keepaliveProbes := by
  have htried := pingless_transportConnectLoop env.transport 3 s.client.net
  have hrounds := fun net => mqttConnectRounds_probes (s.setNet net) env.round env.now
  unfold wrapperMqttConnect
  generalize transportConnectLoop env.transport 3 s.client.net = t at htried
  obtain ⟨net, tried⟩ := t
  obtain ⟨htimers, hpingless, hprobes⟩ := hrounds net
  exact ⟨⟨htimers.interval, htimers.next⟩, htried.append hpingless, hprobes⟩

/-! ### The ping -/

theorem sendZero_cases (type : MsgType) (err : ℤ) (env : SendEnv) :
    sendZero c type err env
        = sendPacket c.net (mqttHeaderSet type 0 0 0 :: mqttPacketEncode 0) env.writes ∨
      sendZero c type err env = (failReturn, []) ∨ sendZero c type err env = (err, []) := by
  unfold sendZero mqttSerializeZero
  by_cases halloc : c.sendBuf.allocFails env.alloc = true
  · exact .inr (.inl (if_pos halloc))
  rw [if_neg halloc]
  by_cases hlen : c.sendBuf.sendSize 0 < 2
  · rw [if_pos hlen]
    exact .inr (.inr (if_pos (by decide)))
  · rw [if_neg hlen]
    refine .inl (if_neg ?_)
    simp only [List.length_cons]
    omega

theorem pingless_mqttDisconnect (env : SendEnv) : Pingless (mqttDisconnect c env).2 := by
  rw [mqttDisconnect]
  rcases sendZero_cases c .disconnect failReturn env with heq | heq | heq
  · rw [heq]
    exact pingless_sendPacket (by decide) _ _
  · rw [heq]
    exact pingless_of_forall (by simp)
  · rw [heq]
    exact pingless_of_forall (by simp)

variable {s : Session}

/-- `iotx_mc_keepalive_sub` counts the ping that it sends; a ping that cannot be sent
disconnects the client. -/
theorem iotxMcKeepaliveSub_probes (hconn : s.state = .connected)
    (hprobes : s.client.keepaliveProbes < 255) (env : KeepaliveEnv) :
    let r := iotxMcKeepaliveSub s env
    (r.2.1.state = .connected ∧
      r.2.1.client.keepaliveProbes = pingreqs r.2.2 + s.client.keepaliveProbes ∧
      pingreqs r.2.2 ≤ 1) ∨
    (r.2.1.state = .disconnected ∧ pingreqs r.2.2 ≤ 1) := by
  unfold iotxMcKeepaliveSub
  rw [if_neg (not_not.mpr hconn)]
  by_cases hexpired : utilsTimeIsExpired s.nextPingTime env.pingNow = false
  · rw [if_pos hexpired]
    exact .inl ⟨hconn, (Nat.zero_add _).symm, Nat.zero_le _⟩
  rw [if_neg hexpired]
  have hone : ∀ rc, pingreqs [.send (mqttHeaderSet .pingreq 0 0 0 :: mqttPacketEncode 0) rc] = 1 :=
    fun rc => rfl
  simp only [mqttKeepalive]
  rcases sendZero_cases s.client .pingreq mqttPingPacketError env.ping with heq | heq | heq
  · simp only [heq]
    have hne := List.cons_ne_nil (mqttHeaderSet .pingreq 0 0 0) (mqttPacketEncode 0)
    have hrc := sendPacket_rc s.client.net
      (mqttHeaderSet .pingreq 0 0 0 :: mqttPacketEncode 0) env.ping.writes
    by_cases hok : (sendPacket s.client.net
        (mqttHeaderSet .pingreq 0 0 0 :: mqttPacketEncode 0) env.ping.writes).1 = successReturn
    · -- sent in full, and counted
      rw [if_neg (not_not.mpr hok), (established_of_sendPacket hne hok).2, hone]
      refine .inl ⟨hconn, ?_, le_refl 1⟩
      show (s.client.keepaliveProbes + 1) % 2 ^ 8 = 1 + s.client.keepaliveProbes
      omega
    rw [if_pos hok, if_pos (hrc.resolve_left hok)]
    refine .inr ⟨rfl, ?_⟩
    show pingreqs (if env.ping.writes.isEmpty = true then [] else _) ≤ 1
    split_ifs
    · exact Nat.zero_le 1
    · exact (hone _).le
  · simp only [heq]
    rw [if_pos (by decide), if_neg (by decide)]
    exact .inl ⟨hconn, (Nat.zero_add _).symm, Nat.zero_le _⟩
  · simp only [heq]
    rw [if_pos (by decide), if_neg (by decide)]
    exact .inl ⟨hconn, (Nat.zero_add _).symm, Nat.zero_le _⟩

/-! ### Reconnecting -/

theorem iotxMcAttemptReconnect_probes (s : Session) (env : ConnectEnv) :
    let r := iotxMcAttemptReconnect s env
    SameTimers s r.2.1 ∧ Pingless r.2.2 ∧ r.2.1.client.keepaliveProbes
      = if r.1 = successReturn then 0 else s.client.keepaliveProbes := by
  obtain ⟨htimers, hpingless, hprobes⟩ :=
    wrapperMqttConnect_probes (s.setNet s.client.net.disconnect) env
  refine ⟨⟨htimers.interval, htimers.next⟩, ?_, hprobes⟩
  have hdisconnect : Pingless [.disconnect] := pingless_of_forall (by simp)
  exact hdisconnect.append hpingless

/-- `reconnect_time_interval_ms` after one more failure. -/
def raisedInterval (interval : UInt32) : UInt32 :=
  if interval < iotxMcReconnectIntervalMaxMs then interval * 2 else iotxMcReconnectIntervalMaxMs

/-- What is left of a session whose reconnection has failed. -/
structure Postponed (s s' : Session) (now : UInt32) : Prop where
  state : s'.state = s.state
  probes : s'.client.keepaliveProbes = s.client.keepaliveProbes
  interval : s'.reconnectTimeIntervalMs = raisedInterval s.reconnectTimeIntervalMs
  next : s'.reconnectNextTime = utilsTimeCountdownMs now
    (min (raisedInterval s.reconnectTimeIntervalMs).toNat iotxMcReconnectIntervalMaxMs.toNat)

/-- `iotx_mc_handle_reconnect` waits, connects with the probes cleared, or puts the next
attempt off. -/
theorem iotxMcHandleReconnect_cases (s : Session) (env : KeepaliveEnv) :
    let r := iotxMcHandleReconnect s env
    let due := utilsTimeIsExpired s.reconnectNextTime env.reconnectNow
    Pingless r.2.2 ∧
      ((due = false ∧ r = (failReturn, s, [])) ∨
        (due = true ∧ r.1 = successReturn ∧ r.2.1.client.keepaliveProbes = 0) ∨
        (due = true ∧ r.1 ≠ successReturn ∧ Postponed s r.2.1 env.reconnectNext)) := by
  by_cases hdue : utilsTimeIsExpired s.reconnectNextTime env.reconnectNow = false
  · have hwaits : iotxMcHandleReconnect s env = (failReturn, s, []) := if_pos hdue
    rw [hwaits]
    exact ⟨pingless_of_forall (by simp), Or.inl ⟨hdue, rfl⟩⟩
  have hdue' : utilsTimeIsExpired s.reconnectNextTime env.reconnectNow = true := by
    simpa using hdue
  obtain ⟨htimers, hpingless, hprobes⟩ := iotxMcAttemptReconnect_probes s env.connect
  have hstate := (iotxMcAttemptReconnect_cases s env.connect).1
  simp only [iotxMcHandleReconnect, if_neg hdue]
  generalize iotxMcAttemptReconnect s env.connect = r at htimers hpingless hprobes hstate
  obtain ⟨rc, s', actions⟩ := r
  by_cases hrc : rc = successReturn
  · rw [if_pos hrc] at hprobes ⊢
    exact ⟨hpingless, .inr (.inl ⟨hdue', rfl, hprobes⟩)⟩
  rw [if_neg hrc] at hprobes ⊢
  refine ⟨hpingless, .inr (.inr ⟨hdue', hrc, ?_, hprobes, ?_, ?_⟩)⟩
  · exact (hstate.resolve_left fun h => hrc h.1).2
  · show raisedInterval s'.reconnectTimeIntervalMs = _
    rw [htimers.interval]
  · show utilsTimeCountdownMs env.reconnectNext
      (if iotxMcReconnectIntervalMaxMs < raisedInterval s'.reconnectTimeIntervalMs
        then iotxMcReconnectIntervalMaxMs
        else raisedInterval s'.reconnectTimeIntervalMs).toNat = _
    rw [htimers.interval]
    congr 1
    split_ifs with hlt
    · exact (min_eq_right (UInt32.lt_iff_toNat_lt.mp hlt).le).symm
    · exact (min_eq_left (not_lt.mp fun h => hlt (UInt32.lt_iff_toNat_lt.mpr h))).symm

/-! ### Cycles and requests -/

theorem iotxMcCycleSwitch_probes (packetType : ℕ) (buf : Memory) (env : CycleEnv) :
    (iotxMcCycleSwitch c packetType buf env).2.1.keepaliveProbes = c.keepaliveProbes := by
  have hpub := iotxMcHandleRecvPublish_client c buf env.ack
  unfold iotxMcCycleSwitch iotxMcHandleRecvPuback iotxMcHandleRecvSuback iotxMcHandleRecvUnsuback
  simp only
  split_ifs <;> simp [hpub]

theorem afterCallbacks_probes (env : CycleEnv) (c : Client) (calls : List Invocation) :
    (afterCallbacks env c calls).keepaliveProbes = c.keepaliveProbes := by
  unfold afterCallbacks
  split_ifs
  · rfl
  · rfl

/-- A client that a cycle leaves connected was so before with room for a ping, and has
received a packet or has the probes it had. -/
theorem cycleStep_probes {c : Client} {env : CycleEnv}
    (hstay : (cycleStep c env).clientState = .connected) :
    c.clientState = .connected ∧ c.keepaliveProbes ≤ iotxMcKeepaliveProbeMax ∧
      (CycleReceives c env ∧ (cycleStep c env).keepaliveProbes = 0 ∨
        (cycleStep c env).keepaliveProbes = c.keepaliveProbes) := by
  have hconn : c.clientState = .connected := by
    by_contra hne
    rw [cycleStep_of_not_connected hne] at hstay
    exact hne hstay
  have hprobes := (cycleStep_connected hconn env hstay).1
  refine ⟨hconn, hprobes, ?_⟩
  unfold cycleStep iotxMcCycle
  simp only [hconn, ne_eq, not_true_eq_false, if_false, if_neg (not_lt.mpr hprobes)]
  by_cases hrc : (iotxMcReadPacket c.recvBuf c.net env.read).rc ≠ successReturn
  · rw [if_pos hrc]
    refine .inr ?_
    split_ifs
    · rfl
    · rfl
  rw [if_neg hrc]
  by_cases htype : (iotxMcReadPacket c.recvBuf c.net env.read).packetType = MsgType.reserved.code
  · rw [if_pos htype]
    exact .inr (afterCallbacks_probes env _ _)
  · rw [if_neg htype]
    refine .inl ⟨⟨hconn, not_not.mp hrc, htype⟩, ?_⟩
    rw [afterCallbacks_probes, iotxMcCycleSwitch_probes]

theorem mqttPubInfoProcLoop_state (timeout : ℕ) (env : ℕ → RepubEnv) {state : McState}
    (h : state ≠ .connected) (l : List PubInfo) :
    (mqttPubInfoProcLoop timeout env state l).1 ≠ .connected := by
  induction l with
  | nil => exact h
  | cons node rest ih =>
    simp only [mqttPubInfoProcLoop]
    split_ifs
    · exact ih
    · exact ih
    · exact McState.noConfusion
    · exact ih

/-- A round of `_mqtt_cycle` has the effect of its cycle on the probes. -/
theorem mqttCycleRound_probes (env : CycleEnv) (sweep : ℕ → RepubEnv) :
    (mqttCycleRound c env sweep).keepaliveProbes = (cycleStep c env).keepaliveProbes ∧
      ((mqttCycleRound c env sweep).clientState = .connected →
        (cycleStep c env).clientState = .connected) := by
  unfold mqttCycleRound cycleStep
  generalize iotxMcCycle c env = r
  obtain ⟨rc, c', calls⟩ := r
  simp only
  split_ifs
  · refine ⟨rfl, fun hconn => ?_⟩
    by_contra hne
    exact mqttPubInfoProcLoop_state c'.requestTimeoutMs sweep hne c'.listPubWaitAck hconn
  · exact ⟨rfl, id⟩

theorem afterRequest_probes (msgId : ℕ) (r : ℤ × Client) :
    (afterRequest msgId r).2.keepaliveProbes = r.2.keepaliveProbes := by
  unfold afterRequest
  split_ifs <;> rfl

theorem mqttPublish_probes (ptr : ℕ) (req : PubRequest) (env : PubEnv) :
    (mqttPublish c ptr req env).2.keepaliveProbes = c.keepaliveProbes := by
  unfold mqttPublish
  generalize publishPacket c req = pkt
  obtain ⟨len, bytes⟩ := pkt
  simp only
  split_ifs
  · rfl
  · rfl
  · split <;> rfl
  · split <;> rfl
  · rfl
  · rfl

theorem request_probes :
    (∀ ptr req env, (wrapperMqttPublish c ptr req env).2.keepaliveProbes = c.keepaliveProbes) ∧
      (∀ req env, (wrapperMqttSubscribe c req env).2.keepaliveProbes = c.keepaliveProbes) ∧
      ∀ topicFilter env,
        (wrapperMqttUnsubscribe c topicFilter env).2.keepaliveProbes = c.keepaliveProbes := by
  refine ⟨fun ptr req env => ?_, fun req env => ?_, fun topicFilter env => ?_⟩
  · unfold wrapperMqttPublish wrapperMqttPublishChecked
    by_cases hack : req.qos = 1 ∨ req.qos = 2
    · simp only [if_pos hack]
      split_ifs
      · rfl
      · rfl
      · rfl
      · rw [afterRequest_probes, mqttPublish_probes]
        rfl
    simp only [if_neg hack]
    split_ifs
    · rfl
    · rfl
    · rfl
    · rw [afterRequest_probes, mqttPublish_probes]
  · have hsub := mqttSubscribe_cases (iotxMcGetNextPacketid c).2 req (iotxMcGetNextPacketid c).1 env
    unfold wrapperMqttSubscribe
    simp only
    split_ifs
    · rfl
    · rfl
    · rfl
    · rw [afterRequest_probes]
      rcases hsub with ⟨-, heq⟩ | ⟨-, -, heq⟩
      · rw [heq]
        rfl
      · rw [heq]
        rfl
  · have hunsub := mqttUnsubscribe_cases (iotxMcGetNextPacketid c).2 topicFilter
      (iotxMcGetNextPacketid c).1 env
    unfold wrapperMqttUnsubscribe
    simp only
    split_ifs
    · rfl
    · rfl
    · rw [afterRequest_probes]
      rcases hunsub with ⟨-, heq⟩ | ⟨-, heq⟩
      · rw [heq]
        rfl
      · rw [heq]
        rfl

/-! ## Unanswered pings -/

/-- Pings are sent by keepalives alone. -/
def SessionOp.isKeepalive : SessionOp → Bool
  | .keepalive _ => true
  | _ => false

/-- What an operation makes of the probes: a client that it leaves connected has received
a packet and has none, or was connected and has counted the pings that were sent. -/
structure ProbesStep (s : Session) (op : SessionOp) : Prop where
  counts : (sessionStep s op).state = .connected →
    (Receives s op ∧ (sessionStep s op).client.keepaliveProbes = 0) ∨
      (s.state = .connected ∧ (sessionStep s op).client.keepaliveProbes
        = pingreqs (sessionExec s op).2 + s.client.keepaliveProbes)
  pings : pingreqs (sessionExec s op).2 ≤ if op.isKeepalive then 1 else 0

theorem ConnectedOver.receives (h : ConnectedOver actions) :
    ∃ packetType packet, packetType ≠ MsgType.reserved.code ∧
      NetAction.recv packetType packet ∈ actions := by
  obtain ⟨before, -, rfl, connect, others, connack, rfl, -⟩ := h
  exact ⟨MsgType.connack.code, connack, by decide, by simp⟩

theorem probesStep_connect (s : Session) (env : ConnectEnv) : ProbesStep s (.connect env) := by
  obtain ⟨-, hpingless, hprobes⟩ := wrapperMqttConnect_probes s env
  refine ⟨fun hconn => ?_, hpingless.pingreqs_eq.le⟩
  rcases wrapperMqttConnect_cases s env with ⟨hok, -, hover⟩ | ⟨hfail, hstate⟩
  · rw [if_pos hok] at hprobes
    exact .inl ⟨hover.receives, hprobes⟩
  · rw [if_neg hfail] at hprobes
    refine .inr ⟨hstate.symm.trans hconn, ?_⟩
    show (wrapperMqttConnect s env).2.1.client.keepaliveProbes
      = pingreqs (wrapperMqttConnect s env).2.2 + s.client.keepaliveProbes
    rw [hprobes, hpingless.pingreqs_eq, zero_add]

/-- Once the ping has been dealt with, a keepalive sends no more of them, and a client
that was not connected comes out connected with no probes. -/
theorem iotxMcKeepaliveState_probes (s : Session) (env : KeepaliveEnv) :
    let r := iotxMcKeepaliveState s env
    Pingless r.2.1 ∧ (r.1.state = .connected → s.state ≠ .connected →
      r.1.client.keepaliveProbes = 0) := by
  unfold iotxMcKeepaliveState
  by_cases hwaits : s.state = .disconnectedReconnecting ∨ s.state = .connectBlock
  · rw [if_pos hwaits]
    obtain ⟨hpingless, hcases⟩ := iotxMcHandleReconnect_cases s env
    generalize iotxMcHandleReconnect s env = r at hpingless hcases ⊢
    obtain ⟨rc, s', actions⟩ := r
    simp only at hpingless hcases ⊢
    rcases hcases with ⟨-, heq⟩ | ⟨-, hok, hprobes⟩ | ⟨-, hfail, hpost⟩
    · obtain ⟨rfl, rfl, rfl⟩ : rc = failReturn ∧ s' = s ∧ actions = [] := by simpa using heq
      rw [if_pos (by decide)]
      exact ⟨hpingless, fun hconn hne => absurd hconn hne⟩
    · rw [if_neg (not_not.mpr hok)]
      refine ⟨hpingless, fun _ _ => ?_⟩
      split_ifs
      · exact hprobes
      · exact hprobes
    · rw [if_pos hfail]
      exact ⟨hpingless, fun hconn hne => absurd (hpost.state.symm.trans hconn) hne⟩
  rw [if_neg hwaits]
  split_ifs
  · exact ⟨pingless_of_forall (by simp), fun hconn => McState.noConfusion hconn⟩
  · exact ⟨pingless_of_forall (by simp), fun hconn hne => absurd hconn hne⟩

theorem sessionExec_keepalive (s : Session) (env : KeepaliveEnv) :
    sessionExec s (.keepalive env) = ((iotxMcKeepaliveState (iotxMcKeepaliveSub s env).2.1 env).1,
        (iotxMcKeepaliveSub s env).2.2
          ++ (iotxMcKeepaliveState (iotxMcKeepaliveSub s env).2.1 env).2.1) := by
  simp only [sessionExec, iotxMcKeepalive]

theorem probesStep_keepalive_unconnected (hne : s.state ≠ .connected) (env : KeepaliveEnv) :
    ProbesStep s (.keepalive env) := by
  have hsub : iotxMcKeepaliveSub s env = (successReturn, s, []) := if_pos hne
  have hstep : sessionExec s (.keepalive env)
      = ((iotxMcKeepaliveState s env).1, (iotxMcKeepaliveState s env).2.1) := by
    rw [sessionExec_keepalive, hsub, List.nil_append]
  obtain ⟨hpingless, hprobes⟩ := iotxMcKeepaliveState_probes s env
  refine ⟨fun hconn => .inl ⟨?_, ?_⟩, ?_⟩
  · exact (sessionStep_connects s (.keepalive env) hne hconn).receives
  · simp only [sessionStep, hstep] at hconn ⊢
    exact hprobes hconn hne
  · rw [hstep, hpingless.pingreqs_eq]
    exact Nat.zero_le _

/-- A connected client stays connected by a keepalive unless its ping cannot be sent. -/
theorem probesStep_keepalive_connected (hconn : s.state = .connected)
    (hprobes : s.client.keepaliveProbes < 255) (env : KeepaliveEnv) :
    ProbesStep s (.keepalive env) := by
  have hexec := sessionExec_keepalive s env
  have hsub := iotxMcKeepaliveSub_probes hconn hprobes env
  generalize iotxMcKeepaliveSub s env = r at hexec hsub
  obtain ⟨rc, s', sent⟩ := r
  obtain ⟨hpingless, -⟩ := iotxMcKeepaliveState_probes s' env
  have hpings : pingreqs (sessionExec s (.keepalive env)).2 = pingreqs sent := by
    rw [hexec, pingreqs_append, hpingless.pingreqs_eq, add_zero]
  constructor
  · intro hstay
    rw [hpings]
    simp only [sessionStep, hexec] at hstay ⊢
    rcases hsub with ⟨hstate, hcount, -⟩ | ⟨hstate, -⟩
    · have hsame : iotxMcKeepaliveState s' env = (s', [], []) := by
        simp [iotxMcKeepaliveState, hstate]
      rw [hsame]
      exact .inr ⟨hconn, hcount⟩
    · simp only [iotxMcKeepaliveState, hstate, reduceCtorEq, or_self, if_false, if_true] at hstay
      cases hstay
  · rw [hpings]
    rcases hsub with ⟨-, -, hle⟩ | ⟨-, hle⟩
    · exact hle
    · exact hle

theorem probesStep (hprobes : s.state = .connected → s.client.keepaliveProbes < 255)
    (op : SessionOp) : ProbesStep s op := by
  obtain ⟨hpub, hsub, hunsub⟩ := request_probes s.client
  cases op with
  | connect env => exact probesStep_connect s env
  | keepalive env =>
    by_cases hconn : s.state = .connected
    · exact probesStep_keepalive_connected hconn (hprobes hconn) env
    · exact probesStep_keepalive_unconnected hconn env
  | cycle env sweep =>
    refine ⟨fun hconn => ?_, Nat.zero_le _⟩
    obtain ⟨hsame, hstate⟩ := mqttCycleRound_probes s.client env sweep
    obtain ⟨hwas, -, hcount⟩ := cycleStep_probes (hstate hconn)
    rcases hcount with ⟨hrecv, hzero⟩ | hcount
    · exact .inl ⟨hrecv, hsame.trans hzero⟩
    · exact .inr ⟨hwas, (hsame.trans hcount).trans (zero_add _).symm⟩
  | disconnect env =>
    refine ⟨fun hconn => McState.noConfusion hconn, ?_⟩
    show pingreqs ((if s.state = .connected then (mqttDisconnect s.client env).2 else [])
      ++ [.disconnect]) ≤ 0
    rw [pingreqs_append, pingreqs_disconnect, add_zero]
    split_ifs
    · exact (pingless_mqttDisconnect s.client env).pingreqs_eq.le
    · exact le_refl 0
  | publish ptr req env =>
    refine ⟨fun hconn => .inr ⟨?_, (hpub ptr req env).trans (zero_add _).symm⟩,
      Nat.zero_le _⟩
    exact not_not.mp fun hne => (request_state hne).1 ptr req env hconn
  | subscribe req env =>
    refine ⟨fun hconn => .inr ⟨?_, (hsub req env).trans (Nat.zero_add _).symm⟩, Nat.zero_le _⟩
    exact not_not.mp fun hne => (request_state hne).2.1 req env hconn
  | unsubscribe topicFilter env =>
    refine ⟨fun hconn => .inr ⟨?_, (hunsub topicFilter env).trans (zero_add _).symm⟩,
      Nat.zero_le _⟩
    exact not_not.mp fun hne => (request_state hne).2.2 topicFilter env hconn

/-! ### Along a run -/

/-- A connected client has room for one more ping, once a cycle has come since the last
keepalive. -/
def ProbesInBound (cycled : Bool) (s : Session) : Prop :=
  s.state = .connected →
    s.client.keepaliveProbes + (if cycled then 1 else 0) ≤ iotxMcKeepaliveProbeMax + 1

theorem ProbesInBound.lt (h : ProbesInBound cycled s) (hconn : s.state = .connected) :
    s.client.keepaliveProbes < 255 := by
  have := h hconn
  simp only [iotxMcKeepaliveProbeMax] at this
  omega

theorem ProbesInBound.step (h : ProbesInBound cycled s) {op : SessionOp}
    (horder : op.InOrder cycled) : ProbesInBound (op.cycledAfter cycled) (sessionStep s op) := by
  intro hconn
  obtain ⟨hcounts, hpings⟩ := probesStep h.lt op
  rcases hcounts hconn with ⟨-, hzero⟩ | ⟨hwas, hcount⟩
  · rw [hzero]
    split_ifs <;> simp
  have hbound := h hwas
  rw [hcount]
  cases op with
  | keepalive env =>
    rw [if_pos (show cycled = true from horder)] at hbound
    have hone : pingreqs (sessionExec s (.keepalive env)).2 ≤ 1 := hpings
    show _ + 0 ≤ _
    omega
  | cycle env sweep =>
    -- a cycle that finds all the probes used up disconnects
    have hle := (cycleStep_probes ((mqttCycleRound_probes s.client env sweep).2 hconn)).2.1
    show 0 + s.client.keepaliveProbes + 1 ≤ _
    omega
  | _ =>
    have hnone : pingreqs (sessionExec s _).2 = 0 := Nat.le_zero.mp hpings
    rw [hnone, zero_add]
    exact hbound

/-- The probes are in bound all along a run of yields in order, and what is left of the
run is in order too. -/
theorem ProbesInBound.run {before after : List SessionOp} :
    ∀ {cycled : Bool} {s : Session}, ProbesInBound cycled s →
      YieldsInOrder cycled (before ++ after) →
      ∃ cycled', ProbesInBound cycled' (before.foldl sessionStep s) ∧
        YieldsInOrder cycled' after := by
  induction before with
  | nil => exact fun h horder => ⟨_, h, horder⟩
  | cons op before ih =>
    intro cycled s h horder
    obtain ⟨hop, hrest⟩ := yieldsInOrder_cons.mp horder
    exact ih (h.step hop) hrest

/-- The client is connected and receives nothing. -/
def Unheard (s : Session) (op : SessionOp) : Prop :=
  s.state = .connected ∧ ¬ Receives s op

/-- The pings of a stretch without a received packet fit beside the probes it starts
with. -/
theorem pingreqsSent_unheard {after : List SessionOp} (quiet : List SessionOp) :
    ∀ {cycled : Bool} {s : Session}, ProbesInBound cycled s →
      YieldsInOrder cycled (quiet ++ after) → AllSteps sessionStep Unheard s quiet →
      s.state = .connected →
      pingreqsSent s quiet + s.client.keepaliveProbes ≤ iotxMcKeepaliveProbeMax + 1 := by
  induction quiet with
  | nil =>
    intro cycled s h _ _ hconn
    show 0 + s.client.keepaliveProbes ≤ _
    have := h hconn
    omega
  | cons op quiet ih =>
    intro cycled s h horder hquiet hconn
    obtain ⟨hop, hrest⟩ := yieldsInOrder_cons.mp horder
    obtain ⟨⟨-, hsilent⟩, hquiet⟩ := hquiet
    obtain ⟨hcounts, hpings⟩ := probesStep h.lt op
    have hbound := h hconn
    show pingreqs (sessionExec s op).2 + pingreqsSent (sessionStep s op) quiet + _ ≤ _
    by_cases hstay : (sessionStep s op).state = .connected
    · have hih := ih (h.step hop) hrest hquiet hstay
      obtain ⟨-, hcount⟩ := (hcounts hstay).resolve_left fun hr => hsilent hr.1
      omega
    -- the client has left the connected state: that was the last operation
    have hnil : quiet = [] := by
      cases quiet with
      | nil => rfl
      | cons op' quiet => exact absurd hquiet.1.1 hstay
    rw [hnil]
    cases op with
    | keepalive env =>
      rw [if_pos (show cycled = true from hop)] at hbound
      have hone : pingreqs (sessionExec s (.keepalive env)).2 ≤ 1 := hpings
      show pingreqs (sessionExec s (.keepalive env)).2 + 0 + _ ≤ _
      omega
    | _ =>
      have hnone : pingreqs (sessionExec s _).2 = 0 := Nat.le_zero.mp hpings
      rw [hnone]
      show 0 + 0 + _ ≤ _
      omega

/-! ## The delays between reconnections -/

/-- What a keepalive does about reconnecting: it leaves the matter alone, it finds the
connection lost and schedules the first attempt, or it makes an attempt. -/
inductive Attempt
  | none | lost | failed | succeeded
  deriving DecidableEq

/-- What it does about it once the ping has been dealt with. -/
def stateAttempt (s : Session) (env : KeepaliveEnv) : Attempt :=
  if s.state = .disconnectedReconnecting ∨ s.state = .connectBlock then
    if utilsTimeIsExpired s.reconnectNextTime env.reconnectNow = false then .none
    else if (iotxMcHandleReconnect s env).1 = successReturn then .succeeded
    else .failed
  else if s.state = .disconnected then .lost
  else .none

def attempt (s : Session) : SessionOp → Attempt
  | .keepalive env => stateAttempt (iotxMcKeepaliveSub s env).2.1 env
  | _ => .none

/-- The failed attempts in a row, after one that had `k` before it. -/
def Attempt.count (k : ℕ) : Attempt → ℕ
  | none => k
  | lost => 0
  | failed => k + 1
  | succeeded => 0

/-- The failed reconnections since the connection was last lost or made. -/
def failedReconnects : Session → ℕ → List SessionOp → ℕ
  | _, k, [] => k
  | s, k, op :: ops => failedReconnects (sessionStep s op) ((attempt s op).count k) ops

/-- The delay after `k` failed reconnections. -/
def backoffMs (k : ℕ) : ℕ :=
  min (iotxMcReconnectIntervalMinMs.toNat * 2 ^ k) iotxMcReconnectIntervalMaxMs.toNat

theorem backoffMs_mono : Monotone backoffMs := by
  intro k l hkl
  apply min_le_min_right
  exact Nat.mul_le_mul_left _ (Nat.pow_le_pow_right (by decide) hkl)

theorem backoffMs_le (k : ℕ) : backoffMs k ≤ iotxMcReconnectIntervalMaxMs.toNat :=
  min_le_right _ _

/-- `interval` is the `reconnect_time_interval_ms` that `k` failures leave. -/
structure IntervalAfter (k : ℕ) (interval : UInt32) : Prop where
  delay : min interval.toNat iotxMcReconnectIntervalMaxMs.toNat = backoffMs k
  le : interval.toNat ≤ 2 * iotxMcReconnectIntervalMaxMs.toNat

theorem intervalAfter_zero : IntervalAfter 0 iotxMcReconnectIntervalMinMs :=
  ⟨by decide, by decide⟩

variable {k : ℕ}

theorem IntervalAfter.toNat_mul_two {interval : UInt32} (h : IntervalAfter k interval) :
    (interval * 2).toNat = interval.toNat * 2 := by
  have hle : interval.toNat ≤ 2 * 60000 := h.le
  rw [UInt32.toNat_mul]
  show interval.toNat * 2 % 2 ^ 32 = _
  omega

theorem IntervalAfter.raised {interval : UInt32} (h : IntervalAfter k interval) :
    IntervalAfter (k + 1) (raisedInterval interval) := by
  have hmax : iotxMcReconnectIntervalMaxMs.toNat = 60000 := rfl
  have hdelay : min interval.toNat 60000 = min (1000 * 2 ^ k) 60000 := h.delay
  have hnext : backoffMs (k + 1) = min (1000 * 2 ^ k * 2) 60000 := by
    rw [backoffMs, pow_succ, ← mul_assoc]
    rfl
  have htwo := h.toNat_mul_two
  unfold raisedInterval
  by_cases hlt : interval < iotxMcReconnectIntervalMaxMs
  · have hlt' : interval.toNat < 60000 := UInt32.lt_iff_toNat_lt.mp hlt
    rw [if_pos hlt]
    constructor
    · rw [htwo, hnext, hmax]
      omega
    · rw [htwo, hmax]
      omega
  have hge : 60000 ≤ interval.toNat := not_lt.mp fun h => hlt (UInt32.lt_iff_toNat_lt.mpr h)
  rw [if_neg hlt]
  constructor
  · rw [hnext, hmax]
    omega
  · rw [hmax]
    omega

/-- What a step schedules when `k` reconnections have failed: the next attempt after the
delay for one failure more, or from the minimum again. -/
structure BacksOff (k : ℕ) (s : Session) (op : SessionOp) : Prop where
  failed : attempt s op = .failed → ∃ env, op = .keepalive env ∧
    (sessionStep s op).reconnectNextTime
      = utilsTimeCountdownMs env.reconnectNext (backoffMs (k + 1))
  lost : attempt s op = .lost → ∃ env, op = .keepalive env ∧
    (sessionStep s op).reconnectNextTime = utilsTimeCountdownMs env.reconnectNext (backoffMs 0)
  reset : attempt s op = .succeeded ∨ attempt s op = .lost →
    (sessionStep s op).reconnectTimeIntervalMs = iotxMcReconnectIntervalMinMs
  idle : attempt s op = .none → SameTimers s (sessionStep s op)
  unwrapped : (s.reconnectTimeIntervalMs * 2).toNat = s.reconnectTimeIntervalMs.toNat * 2

theorem iotxMcKeepaliveSub_timers (s : Session) (env : KeepaliveEnv) :
    SameTimers s (iotxMcKeepaliveSub s env).2.1 := by
  unfold iotxMcKeepaliveSub
  simp only
  split_ifs
  · exact SameTimers.refl s
  · exact SameTimers.refl s
  · exact ⟨rfl, rfl⟩
  · exact ⟨rfl, rfl⟩
  · exact ⟨rfl, rfl⟩

theorem iotxMcKeepaliveState_attempt (s : Session) (env : KeepaliveEnv) :
    let s' := (iotxMcKeepaliveState s env).1
    (stateAttempt s env = .none ∧ SameTimers s s') ∨
      (stateAttempt s env = .failed ∧ Postponed s s' env.reconnectNext) ∨
      (stateAttempt s env = .succeeded ∧
        s'.reconnectTimeIntervalMs = iotxMcReconnectIntervalMinMs) ∨
      (stateAttempt s env = .lost ∧ s'.reconnectTimeIntervalMs = iotxMcReconnectIntervalMinMs ∧
        s'.reconnectNextTime
          = utilsTimeCountdownMs env.reconnectNext iotxMcReconnectIntervalMinMs.toNat) := by
  unfold stateAttempt iotxMcKeepaliveState
  by_cases hwaits : s.state = .disconnectedReconnecting ∨ s.state = .connectBlock
  · simp only [if_pos hwaits]
    obtain ⟨-, hcases⟩ := iotxMcHandleReconnect_cases s env
    generalize iotxMcHandleReconnect s env = r at hcases ⊢
    obtain ⟨rc, s', actions⟩ := r
    simp only at hcases ⊢
    rcases hcases with ⟨hearly, heq⟩ | ⟨hdue, hok, -⟩ | ⟨hdue, hfail, hpost⟩
    · obtain ⟨rfl, rfl, rfl⟩ : rc = failReturn ∧ s' = s ∧ actions = [] := by simpa using heq
      rw [if_pos hearly, if_pos (by decide)]
      exact .inl ⟨rfl, SameTimers.refl s'⟩
    · rw [if_neg (by simp [hdue]), if_pos hok, if_neg (not_not.mpr hok)]
      exact .inr (.inr (.inl ⟨rfl, rfl⟩))
    · rw [if_neg (by simp [hdue]), if_neg hfail, if_pos hfail]
      exact .inr (.inl ⟨rfl, hpost⟩)
  simp only [if_neg hwaits]
  by_cases hlost : s.state = .disconnected
  · rw [if_pos hlost, if_pos hlost]
    exact .inr (.inr (.inr ⟨rfl, rfl, rfl⟩))
  · rw [if_neg hlost, if_neg hlost]
    exact .inl ⟨rfl, SameTimers.refl s⟩

section

variable (h : IntervalAfter k s.reconnectTimeIntervalMs)
include h

theorem BacksOff.of_idle {op : SessionOp} (hidle : attempt s op = .none)
    (hsame : SameTimers s (sessionStep s op)) :
    BacksOff k s op where
  failed := fun hf => absurd (hidle.symm.trans hf) (by decide)
  lost := fun hl => absurd (hidle.symm.trans hl) (by decide)
  reset := fun hr => by rw [hidle] at hr; simp at hr
  idle := fun _ => hsame
  unwrapped := h.toNat_mul_two

theorem backsOff_keepalive (env : KeepaliveEnv) :
    BacksOff k s (.keepalive env) ∧ IntervalAfter ((attempt s (.keepalive env)).count k)
      (sessionStep s (.keepalive env)).reconnectTimeIntervalMs := by
  have htimers := iotxMcKeepaliveSub_timers s env
  have hstep : sessionStep s (.keepalive env)
      = (iotxMcKeepaliveState (iotxMcKeepaliveSub s env).2.1 env).1 :=
    congrArg Prod.fst (sessionExec_keepalive s env)
  have hattempt : attempt s (.keepalive env)
      = stateAttempt (iotxMcKeepaliveSub s env).2.1 env := rfl
  have hcases := iotxMcKeepaliveState_attempt (iotxMcKeepaliveSub s env).2.1 env
  simp only [← hstep, ← hattempt] at hcases
  rcases hcases with ⟨ha, hsame⟩ | ⟨ha, hpost⟩ | ⟨ha, hreset⟩ | ⟨ha, hreset, hnext⟩
  · have hsame' : SameTimers s (sessionStep s (.keepalive env)) :=
      ⟨hsame.interval.trans htimers.interval, hsame.next.trans htimers.next⟩
    refine ⟨BacksOff.of_idle h ha hsame', ?_⟩
    rw [ha, hsame'.interval]
    exact h
  · have hraised := h.raised
    have hinterval := hpost.interval
    have hnext := hpost.next
    rw [htimers.interval] at hinterval hnext
    rw [hraised.delay] at hnext
    rw [ha, hinterval]
    refine ⟨⟨fun _ => ⟨env, rfl, hnext⟩, ?_, ?_, ?_, h.toNat_mul_two⟩, hraised⟩ <;> simp [ha]
  · rw [ha, hreset]
    refine ⟨⟨?_, ?_, fun _ => hreset, ?_, h.toNat_mul_two⟩, intervalAfter_zero⟩ <;> simp [ha]
  · rw [ha, hreset]
    refine ⟨⟨?_, fun _ => ⟨env, rfl, hnext⟩, fun _ => hreset, ?_, h.toNat_mul_two⟩,
      intervalAfter_zero⟩ <;> simp [ha]

theorem backsOff (op : SessionOp) :
    BacksOff k s op ∧
      IntervalAfter ((attempt s op).count k) (sessionStep s op).reconnectTimeIntervalMs := by
  have hidle : attempt s op = .none → SameTimers s (sessionStep s op) →
      BacksOff k s op ∧
        IntervalAfter ((attempt s op).count k) (sessionStep s op).reconnectTimeIntervalMs := by
    intro ha hsame
    refine ⟨BacksOff.of_idle h ha hsame, ?_⟩
    rw [ha, hsame.interval]
    exact h
  cases op with
  | keepalive env => exact backsOff_keepalive h env
  | connect env => exact hidle rfl (wrapperMqttConnect_probes s env).1
  | _ => exact hidle rfl ⟨rfl, rfl⟩

end

/-- Along every run the interval is that of the failures so far. -/
theorem intervalAfter_run (before : List SessionOp) :
    ∀ {k : ℕ} {s : Session}, IntervalAfter k s.reconnectTimeIntervalMs →
      IntervalAfter (failedReconnects s k before)
        (before.foldl sessionStep s).reconnectTimeIntervalMs := by
  induction before with
  | nil => exact fun h => h
  | cons op before ih => exact fun h => ih (backsOff h op).2

/-! ## Whole runs -/

/-- A client as `iotx_mc_init` leaves it. -/
structure Session.Initial (s : Session) : Prop where
  state : s.state = .initialized
  probes : s.client.keepaliveProbes = 0
  interval : s.reconnectTimeIntervalMs = iotxMcReconnectIntervalMinMs

/-- **Keep-alive and back-off.**  In every run of yields, with whatever else is done in between, a
stretch that is connected and receives nothing has at most `IOTX_MC_KEEPALIVE_PROBE_MAX + 1` pings;
and the delay after each of a row of failed reconnections is the doubled one, up to the maximum,
from the minimum again once the connection is made. -/
theorem keepAlive_and_backoff {s : Session} (hs : s.Initial) {ops : List SessionOp}
    (hyields : YieldsInOrder true ops) :
    (∀ before quiet after, ops = before ++ (quiet ++ after) →
      AllSteps sessionStep Unheard (before.foldl sessionStep s) quiet →
        pingreqsSent (before.foldl sessionStep s) quiet ≤ iotxMcKeepaliveProbeMax + 1) ∧
    (∀ before op after, ops = before ++ op :: after →
      BacksOff (failedReconnects s 0 before) (before.foldl sessionStep s) op) ∧
    Monotone backoffMs ∧ ∀ k, backoffMs k ≤ iotxMcReconnectIntervalMaxMs.toNat := by
  refine ⟨?_, ?_, backoffMs_mono, backoffMs_le⟩
  · rintro before quiet after rfl hquiet
    have hinit : ProbesInBound true s := by
      intro hconn
      rw [hs.state] at hconn
      cases hconn
    obtain ⟨cycled, hbound, horder⟩ := hinit.run hyields
    cases quiet with
    | nil => exact Nat.zero_le _
    | cons op quiet =>
      have hpings := pingreqsSent_unheard _ hbound horder hquiet hquiet.1.1
      omega
  · rintro before op after rfl
    have hinit : IntervalAfter 0 s.reconnectTimeIntervalMs := by
      rw [hs.interval]
      exact intervalAfter_zero
    exact (backsOff (intervalAfter_run before hinit) op).1

/-- At the time `now` a ping cannot be written, and no transport can be had. -/
def offline (now : UInt32) : YieldCall where
  keepalive := ⟨now, now, ⟨true, [.error]⟩, now, connectEnvWith .failed, now, false⟩
  first := ⟨⟨ReadEnv.served, fun _ => 0, 0, ⟨true, []⟩, false⟩, fun _ => ⟨0, [], 0⟩⟩
  more := []

/-- Two yields of a client that has connected: the first one loses the connection, and the
second one fails to make it again. -/
def lostYields : List SessionOp :=
  .connect (connectEnvWith (.established (memOf [0x20, 2, 0, 0] fun _ => 0))) ::
    [offline 70000, offline 71000].flatMap YieldCall.ops

/-- The ping that gets lost is the only one, and the reconnection that fails is the first. -/
theorem keepAlive_and_backoff_lostYields :
    pingreqsSent ((lostYields.take 1).foldl sessionStep freshSession)
        [.keepalive (offline 70000).keepalive] ≤ iotxMcKeepaliveProbeMax + 1 ∧
      BacksOff 0 ((lostYields.take 3).foldl sessionStep freshSession)
        (.keepalive (offline 71000).keepalive) := by
  have hyields : YieldsInOrder true lostYields := yieldsInOrder_flatMap _
  obtain ⟨hpings, hbacks, -⟩ :=
    keepAlive_and_backoff (s := freshSession) ⟨rfl, rfl, rfl⟩ hyields
  constructor
  · refine hpings (lostYields.take 1) [.keepalive (offline 70000).keepalive] (lostYields.drop 2)
      rfl ⟨⟨by decide, ?_⟩, trivial⟩
    rintro ⟨packetType, packet, -, hmem⟩
    have hacts : (sessionExec ((lostYields.take 1).foldl sessionStep freshSession)
        (.keepalive (offline 70000).keepalive)).2
          = [.send [0xC0, 0] mqttNetworkError, .disconnect] := by decide
    rw [hacts] at hmem
    simp at hmem
  · exact hbacks (lostYields.take 3) (.keepalive (offline 71000).keepalive) (lostYields.drop 4) rfl

example : attempt ((lostYields.take 3).foldl sessionStep freshSession)
      (.keepalive (offline 71000).keepalive) = .failed ∧
    (lostYields.foldl sessionStep freshSession).reconnectNextTime = 73000 := by decide

end Iotkit.Mqtt
