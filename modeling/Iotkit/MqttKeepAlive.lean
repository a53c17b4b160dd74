/-
# The advertised keep-alive

`_mqtt_connect` doubles `connect_data.keepAliveInterval` for the CONNECT it sends and
puts the user's value back as soon as `MQTTConnect` has returned.  The value is put
back inside the loop, so that the CONNECT of a second round goes out with the user's
value instead of the doubled one.
-/
import Iotkit.MqttSession

open GuardedRun

namespace Iotkit.Mqtt

open List

/-! ## The user's value -/

/-- `CONFIG_MQTT_KEEPALIVE_INTERVAL` and `CONFIG_MQTT_KEEPALIVE_INTERVAL_MIN`. -/
def configMqttKeepaliveInterval : ℕ := 60
def configMqttKeepaliveIntervalMin : ℕ := 30

/-- The `keepAliveInterval` that `iotx_mc_set_connect_params` stores for the one it is given. -/
def iotxMcSetConnectParams (keepAliveInterval : ℕ) : ℕ :=
  if keepAliveInterval < configMqttKeepaliveIntervalMin then configMqttKeepaliveInterval
  else if keepAliveInterval > configMqttKeepaliveIntervalMax then configMqttKeepaliveInterval
  else keepAliveInterval

/-- The `keepAliveInterval` after `iotx_mc_init`, which puts the seconds into an
`unsigned short`. -/
def iotxMcInitKeepAlive (keepaliveIntervalMs : UInt32) : ℕ :=
  iotxMcSetConnectParams ((keepaliveIntervalMs / 1000).toNat % 2 ^ 16)

theorem iotxMcSetConnectParams_range (k : ℕ) :
    30 ≤ iotxMcSetConnectParams k ∧ iotxMcSetConnectParams k ≤ 1200 := by
  unfold iotxMcSetConnectParams configMqttKeepaliveIntervalMin configMqttKeepaliveIntervalMax
    configMqttKeepaliveInterval
  constructor
  · split_ifs <;> omega
  · split_ifs <;> omega

/-- What every CONNECT is to advertise for the user's value. -/
def advertisedFor (userKeepAliveInterval : ℕ) : ℕ :=
  min (2 * userKeepAliveInterval) configMqttKeepaliveIntervalMax

/-! ## What a CONNECT packet advertises -/

/-- The keep-alive field as the receiver of a CONNECT packet finds it: behind the header
byte, the remaining length, the protocol name, its level and the flags. -/
def keepAliveField (packet : Bytes) : ℕ :=
  let body := memOf (VarLen.skip (packet.drop 1)) fun _ => 0
  readInt body (2 + readInt body 0 + 1 + 1)

theorem keepAliveField_connectPacket {options : ConnectData}
    (hk : options.keepAliveInterval < 2 ^ 16) :
    keepAliveField (connectPacket options) = options.keepAliveInterval := by
  -- both versions of the protocol begin with a name and a level
  obtain ⟨name, level, hprotocol, hname⟩ : ∃ name level,
      connectProtocol options.mqttVersion = writeCString name ++ [level] ∧
        name.strlen < 2 ^ 16 := by
    unfold connectProtocol
    split_ifs
    · exact ⟨⟨[0x4D, 0x51, 0x54, 0x54], by decide⟩, _, rfl, by decide⟩
    · exact ⟨⟨[0x4D, 0x51, 0x49, 0x73, 0x64, 0x70], by decide⟩, _, rfl, by decide⟩
  have hskip : ∃ rest, VarLen.skip ((connectPacket options).drop 1)
      = writeInt name.strlen ++ (name.bytes ++ ([level] ++ ([connectFlags options]
        ++ (writeInt options.keepAliveInterval ++ rest)))) := by
    rw [connectPacket, hprotocol]
    simp only [cons_append, append_assoc, drop_succ_cons, drop_zero]
    rw [mqttPacketEncode, VarLen.skip_append (VarLen.wellFormed_encode _), writeCString,
      append_assoc]
    exact ⟨_, rfl⟩
  obtain ⟨rest, hskip⟩ := hskip
  have hbody := (holdsBytes_memOf (VarLen.skip ((connectPacket options).drop 1)) fun _ => 0).holdsAt
  generalize hmem : memOf (VarLen.skip ((connectPacket options).drop 1)) (fun _ => 0) = body
    at hbody
  rw [hskip] at hbody
  simp only [holdsAt_append] at hbody
  obtain ⟨hlen, -, -, -, hfield, -⟩ := hbody
  simp only [writeInt, length_cons, length_nil, Nat.zero_add] at hfield
  simp only [keepAliveField, hmem]
  rw [readInt_writeInt hlen hname]
  exact readInt_writeInt hfield hk

/-- Every CONNECT packet among `actions` advertises `k`. -/
def Advertises (k : ℕ) (actions : List NetAction) : Prop :=
  ∀ packet rc, .send packet rc ∈ actions → IsConnect packet → keepAliveField packet = k

theorem advertises_nil (k : ℕ) : Advertises k [] := by
  intro packet rc hmem
  cases hmem

theorem advertises_append {k : ℕ} {as bs : List NetAction} :
    Advertises k (as ++ bs) ↔ Advertises k as ∧ Advertises k bs := by
  constructor
  · intro h
    exact ⟨fun packet rc hmem => h packet rc (mem_append_left _ hmem),
      fun packet rc hmem => h packet rc (mem_append_right _ hmem)⟩
  · rintro ⟨has, hbs⟩ packet rc hmem
    rcases mem_append.mp hmem with hmem | hmem
    · exact has packet rc hmem
    · exact hbs packet rc hmem

theorem advertises_of_forall {actions : List NetAction}
    (h : ∀ a ∈ actions, ∀ packet rc, a = .send packet rc → ¬ IsConnect packet) (k : ℕ) :
    Advertises k actions :=
  fun packet rc hmem hconnect => absurd hconnect (h _ hmem packet rc rfl)

theorem advertises_harmless {actions : List NetAction} (h : ∀ a ∈ actions, a.Harmless) (k : ℕ) :
    Advertises k actions :=
  advertises_of_forall (fun a ha => (h a ha).2) k

/-! ## One round of `_mqtt_connect` -/

theorem iotxMcSendPacket_setKeepAlive (s : Session) (k : ℕ) (writes : List WriteEvent) :
    iotxMcSendPacket (connectPacket (s.setKeepAlive k).connectData) writes
      = iotxMcSendPacket (connectPacket s.connectData) writes := by
  have hlen : (connectPacket (s.setKeepAlive k).connectData).length
      = (connectPacket s.connectData).length := by
    simp only [connectPacket, length_append, length_cons, writeInt]
    rfl
  rw [iotxMcSendPacket, iotxMcSendPacket, hlen]

/-- The verdict of `iotx_mc_wait_CONNACK` is neither an acceptance nor a rejection. -/
def Unanswered (rc : ℤ) : Prop :=
  ¬ (rc ≤ mqttConnackNotAuthorizedError ∧ mqttConanckUnacceptableProtocolVersionError ≤ rc) ∧
    rc ≠ successReturn

/-- A round is followed by another one: its CONNECT is sent in full and not answered. -/
structure Retries (s : Session) (env : RoundEnv) : Prop where
  fits : ConnectFits s env.send
  sent : iotxMcSendPacket (connectPacket s.connectData) (s.client.net.writes env.send.writes)
    = successReturn
  unanswered : Unanswered (iotxMcWaitConnack s.client env).1

variable {s : Session}

theorem retries_setKeepAlive {k : ℕ} {env : RoundEnv} :
    Retries (s.setKeepAlive k) env ↔ Retries s env := by
  constructor
  · rintro ⟨hfits, hsent, hwait⟩
    rw [iotxMcSendPacket_setKeepAlive] at hsent
    exact ⟨connectFits_setKeepAlive.mp hfits, hsent, hwait⟩
  · rintro ⟨hfits, hsent, hwait⟩
    refine ⟨connectFits_setKeepAlive.mpr hfits, ?_, hwait⟩
    rw [iotxMcSendPacket_setKeepAlive]
    exact hsent

/-- CONNECT is passed to the transport: it can be built, and the timer has not expired. -/
def PassesConnect (s : Session) (env : SendEnv) : Prop := ConnectFits s env ∧ env.writes ≠ []

/-- What `MQTTConnect` sends advertises the value in the field, if it sends anything. -/
theorem advertises_mqttConnect (hk : s.connectData.keepAliveInterval < 2 ^ 16) (env : SendEnv)
    (k : ℕ) :
    Advertises k (mqttConnect s env).2 ↔
      (PassesConnect s env → s.connectData.keepAliveInterval = k) := by
  rcases mqttConnect_cases s env with ⟨hfits, heq⟩ | ⟨hfits, rc, -, heq⟩
  · rw [heq, sendPacket]
    by_cases hwrites : env.writes = []
    · rw [hwrites]
      exact iff_of_true (advertises_nil k) fun h => absurd hwrites h.2
    rw [if_neg (by simpa using hwrites)]
    constructor
    · intro h _
      rw [← keepAliveField_connectPacket hk]
      exact h _ _ mem_cons_self (isConnect_connectPacket _)
    · intro h packet rc hmem _
      obtain ⟨rfl, -⟩ := NetAction.send.inj (mem_singleton.mp hmem)
      rw [keepAliveField_connectPacket hk]
      exact h ⟨hfits, hwrites⟩
  · rw [heq]
    exact iff_of_true (advertises_nil k) fun h => absurd h.1 hfits

theorem mqttConnect_success_iff (s : Session) (env : SendEnv) :
    (mqttConnect s env).1 = successReturn ↔ ConnectFits s env ∧
      iotxMcSendPacket (connectPacket s.connectData) (s.client.net.writes env.writes)
        = successReturn := by
  rcases mqttConnect_cases s env with ⟨hfits, heq⟩ | ⟨hfits, rc, hrc, heq⟩
  · rw [heq]
    exact ⟨fun h => ⟨hfits, h⟩, fun h => h.2⟩
  · rw [heq]
    exact iff_of_false hrc fun h => hfits h.1

theorem Retries.passesConnect {env : RoundEnv} (h : Retries s env) : PassesConnect s env.send := by
  refine ⟨h.fits, fun hwrites => ?_⟩
  have hsent := (mqttConnect_success ((mqttConnect_success_iff s env.send).mpr ⟨h.fits, h.sent⟩)).2
  rcases mqttConnect_cases s env.send with ⟨-, heq⟩ | ⟨hfits, -⟩
  · rw [heq, sendPacket, hwrites] at hsent
    cases hsent
  · exact hfits h.fits

theorem iotxMcWaitConnackLoop_recv (m : BufMode) (read : ℕ → ReadEnv) (left : ℕ) :
    ∀ net, ∀ a ∈ (iotxMcWaitConnackLoop m read left net).2.2.2, ∃ t p, a = .recv t p := by
  induction left with
  | zero =>
    intro net a ha
    unfold iotxMcWaitConnackLoop at ha
    simp only at ha
    split_ifs at ha
    · cases ha
    · exact ⟨_, _, mem_singleton.mp ha⟩
  | succ left ih =>
    intro net a ha
    unfold iotxMcWaitConnackLoop at ha
    simp only at ha
    split_ifs at ha
    · cases ha
    · exact ⟨_, _, mem_singleton.mp ha⟩
    · rcases mem_cons.mp ha with rfl | ha
      · exact ⟨_, _, rfl⟩
      · exact ih _ a ha

theorem advertises_iotxMcWaitConnack (c : Client) (env : RoundEnv) (k : ℕ) :
    Advertises k (iotxMcWaitConnack c env).2.2 := by
  refine advertises_of_forall (fun a ha packet rc hsend => ?_) k
  have hrecv := iotxMcWaitConnackLoop_recv c.recvBuf env.read waitConnackMax c.net a
  simp only [iotxMcWaitConnack] at ha
  split_ifs at ha
  · obtain ⟨t, p, rfl⟩ := hrecv ha
    cases hsend
  · obtain ⟨t, p, rfl⟩ := hrecv ha
    cases hsend

/-- One round: it ends the attempt, or it is followed by the rest of the rounds, which
start from the user's value. -/
theorem mqttConnectLoop_round (u : ℕ) (env : ℕ → RoundEnv) (now : UInt32) (left : ℕ)
    (s : Session) : let r := mqttConnectLoop u env now (left + 1) s
    (¬ Retries s (env left) ∧ r.2.1.connectData = (s.setKeepAlive u).connectData ∧
      ∃ after, r.2.2 = (mqttConnect s (env left).send).2 ++ after ∧ ∀ k, Advertises k after) ∨
    (Retries s (env left) ∧ ∃ net after,
      let r' := mqttConnectLoop u env now left ((s.setKeepAlive u).setNet net)
      r.2.1 = r'.2.1 ∧ (∀ k, Advertises k after) ∧
        r.2.2 = (mqttConnect s (env left).send).2 ++ after ++ r'.2.2) := by
  have hclosing : ∀ k, Advertises k [.disconnect] :=
    advertises_of_forall (by simp)
  simp only [mqttConnectLoop]
  by_cases hconn : (mqttConnect s (env left).send).1 ≠ successReturn
  · rw [if_pos hconn]
    refine .inl ⟨fun h => hconn ?_, rfl, _, rfl, hclosing⟩
    exact (mqttConnect_success_iff s _).mpr ⟨h.fits, h.sent⟩
  rw [if_neg hconn]
  obtain ⟨hfits, hsent⟩ := (mqttConnect_success_iff s _).mp (not_not.mp hconn)
  have hrecv := advertises_iotxMcWaitConnack (s.setKeepAlive u).client (env left)
  have hretries : Retries s (env left) ↔
      Unanswered (iotxMcWaitConnack (s.setKeepAlive u).client (env left)).1 :=
    ⟨fun h => h.unanswered, Retries.mk hfits hsent⟩
  generalize iotxMcWaitConnack (s.setKeepAlive u).client (env left) = w at hrecv hretries ⊢
  obtain ⟨rc, net, received⟩ := w
  simp only at hrecv hretries ⊢
  -- the ways out of the loop body: rejected, asked again, accepted
  by_cases hreject : rc ≤ mqttConnackNotAuthorizedError ∧
      mqttConanckUnacceptableProtocolVersionError ≤ rc
  · rw [if_pos hreject]
    refine .inl ⟨fun h => (hretries.mp h).1 hreject, rfl, received ++ [NetAction.disconnect], ?_,
      fun k => ?_⟩
    · rw [append_assoc]
    · exact advertises_append.mpr ⟨hrecv k, hclosing k⟩
  rw [if_neg hreject]
  by_cases hrc : rc ≠ successReturn
  · rw [if_pos hrc]
    refine .inr ⟨hretries.mpr ⟨hreject, hrc⟩, net.disconnect.connect (env left).reconnect,
      received ++ [NetAction.disconnect, .connect (env left).reconnect.ok], rfl, fun k => ?_, ?_⟩
    · exact advertises_append.mpr ⟨hrecv k, advertises_of_forall (by simp) k⟩
    · simp only [append_assoc]
  · rw [if_neg hrc]
    exact .inl ⟨fun h => (hretries.mp h).2 (not_not.mp hrc), rfl, received, rfl, hrecv⟩

variable {u : ℕ}

/-- The rounds that start from the user's value advertise it, and leave it in place. -/
theorem mqttConnectLoop_user (hu : u < 2 ^ 16) (env : ℕ → RoundEnv) (now : UInt32) (left : ℕ) :
    ∀ s : Session, s.connectData.keepAliveInterval = u →
      (mqttConnectLoop u env now left s).2.1.connectData.keepAliveInterval = u ∧
        Advertises u (mqttConnectLoop u env now left s).2.2 := by
  induction left with
  | zero => intro s hs; exact ⟨hs, advertises_nil u⟩
  | succ left ih =>
    intro s hs
    have hsent : Advertises u (mqttConnect s (env left).send).2 :=
      (advertises_mqttConnect (hs ▸ hu) _ _).mpr fun _ => hs
    rcases mqttConnectLoop_round u env now left s with
      ⟨-, hdata, after, hacts, hafter⟩ | ⟨-, net, after, hsess, hafter, hacts⟩
    · rw [hdata, hacts]
      exact ⟨rfl, advertises_append.mpr ⟨hsent, hafter u⟩⟩
    · obtain ⟨hkeep, hrest⟩ := ih ((s.setKeepAlive u).setNet net) rfl
      rw [hsess, hacts]
      exact ⟨hkeep, advertises_append.mpr ⟨advertises_append.mpr ⟨hsent, hafter u⟩, hrest⟩⟩

/-- `_mqtt_connect` passes CONNECT to the transport in a second round. -/
def Resends (s : Session) (env : ℕ → RoundEnv) : Prop :=
  Retries s (env 7) ∧ PassesConnect s (env 6).send

/-- Rounds in which no CONNECT gets passed to the transport advertise anything. -/
theorem advertises_of_not_passes {u : ℕ} {env : ℕ → RoundEnv} {now : UInt32} {left : ℕ}
    {s : Session} (hs : s.connectData.keepAliveInterval < 2 ^ 16)
    (h : ¬ PassesConnect s (env left).send) (k : ℕ) :
    Advertises k (mqttConnectLoop u env now (left + 1) s).2.2 := by
  rcases mqttConnectLoop_round u env now left s with
    ⟨-, -, after, hacts, hafter⟩ | ⟨hretries, -⟩
  · rw [hacts]
    refine advertises_append.mpr ⟨?_, hafter k⟩
    exact (advertises_mqttConnect hs _ _).mpr fun hp => absurd hp h
  · exact absurd hretries.passesConnect h

/-- `_mqtt_connect` puts the user's value back, and sends nothing but what it is to
advertise exactly if there is nothing to double or it does not send CONNECT again. -/
theorem mqttConnectRounds_advertises (hs : s.connectData.keepAliveInterval = u) (hmin : 30 ≤ u)
    (hmax : u ≤ 1200) (env : ℕ → RoundEnv) (now : UInt32) :
    (mqttConnectRounds s env now).2.1.connectData.keepAliveInterval = u ∧
      (Advertises (advertisedFor u) (mqttConnectRounds s env now).2.2 ↔
        u = configMqttKeepaliveIntervalMax ∨ ¬ Resends s env) := by
  -- doubling does not leave the range of `unsigned short`, and changes all but the maximum
  have hdoubled : min (u * 2 % 2 ^ 16) configMqttKeepaliveIntervalMax = advertisedFor u := by
    simp only [advertisedFor, configMqttKeepaliveIntervalMax]
    omega
  have hsame : advertisedFor u = u ↔ u = configMqttKeepaliveIntervalMax := by
    simp only [advertisedFor, configMqttKeepaliveIntervalMax]
    omega
  have hlt : advertisedFor u < 2 ^ 16 := by
    simp only [advertisedFor, configMqttKeepaliveIntervalMax]
    omega
  have hult : u < 2 ^ 16 := by omega
  simp only [mqttConnectRounds, hs, hdoubled, retryTimeLimit, Nat.add_sub_cancel]
  generalize hk : advertisedFor u = k at *
  have hfirst : Advertises k (mqttConnect (s.setKeepAlive k) (env 7).send).2 :=
    (advertises_mqttConnect (s := s.setKeepAlive k) hlt _ _).mpr fun _ => rfl
  rcases mqttConnectLoop_round u env now 7 (s.setKeepAlive k) with
    ⟨hretries, hdata, after, hacts, hafter⟩ | ⟨hretries, net, after, hsess, hafter, hacts⟩
  · rw [hdata, hacts]
    refine ⟨rfl, iff_of_true (advertises_append.mpr ⟨hfirst, hafter k⟩) (.inr fun h => ?_)⟩
    exact hretries (retries_setKeepAlive.mpr h.1)
  rw [hsess, hacts, advertises_append, advertises_append]
  -- the second round starts from the user's value, whatever the first one advertised
  generalize hs2 : ((s.setKeepAlive k).setKeepAlive u).setNet net = s2
  have hkeep2 : s2.connectData.keepAliveInterval = u := by rw [← hs2]; rfl
  have hpasses : PassesConnect s2 (env 6).send ↔ PassesConnect s (env 6).send := by
    rw [← hs2, PassesConnect, PassesConnect, connectFits_setNet, connectFits_setKeepAlive,
      connectFits_setKeepAlive]
  obtain ⟨hkeep, huser⟩ := mqttConnectLoop_user hult env now 7 s2 hkeep2
  refine ⟨hkeep, ?_⟩
  by_cases hp : PassesConnect s (env 6).send
  · -- the second CONNECT tells the two values apart
    have hresends : Resends s env := ⟨retries_setKeepAlive.mp hretries, hp⟩
    constructor
    · rintro ⟨-, hrest⟩
      refine .inl (hsame.mp ?_)
      have hsecond : Advertises k (mqttConnect s2 (env 6).send).2 := by
        rcases mqttConnectLoop_round u env now 6 s2 with
          ⟨-, -, after', hacts', -⟩ | ⟨-, net', after', -, -, hacts'⟩
        · rw [hacts'] at hrest
          exact (advertises_append.mp hrest).1
        · rw [hacts'] at hrest
          exact (advertises_append.mp (advertises_append.mp hrest).1).1
      rw [← hkeep2]
      exact ((advertises_mqttConnect (hkeep2 ▸ hult) _ _).mp hsecond (hpasses.mpr hp)).symm
    · rintro (hu | hnot)
      · have hku : k = u := hsame.mpr hu
        rw [hku] at hfirst ⊢
        exact ⟨⟨hfirst, hafter u⟩, huser⟩
      · exact absurd hresends hnot
  · refine iff_of_true ⟨⟨hfirst, hafter k⟩, ?_⟩ (.inr fun h => hp h.2)
    exact advertises_of_not_passes (hkeep2 ▸ hult) (fun h => hp (hpasses.mp h)) k

/-! ## Every step of every run -/

theorem advertises_transportConnectLoop (transport : ℕ → ConnectEvent) (left : ℕ) :
    ∀ net k, Advertises k (transportConnectLoop transport left net).2 := by
  induction left with
  | zero => exact fun _ k => advertises_nil k
  | succ left ih =>
    intro net k
    simp only [transportConnectLoop]
    split_ifs
    · exact advertises_of_forall (by simp) k
    · show Advertises k ([NetAction.connect false, .disconnect] ++ _)
      exact advertises_append.mpr ⟨advertises_of_forall (by simp) k, ih _ k⟩

/-- The transport that the attempts of `wrapper_mqtt_connect` leave behind. -/
def Session.overTransport (s : Session) (env : ConnectEnv) : Session :=
  s.setNet (transportConnectLoop env.transport 3 s.client.net).1

/-- A `wrapper_mqtt_connect` sends CONNECT at most once, or has nothing to double. -/
def ConnectsOnce (s : Session) (env : ConnectEnv) : Prop :=
  s.connectData.keepAliveInterval = configMqttKeepaliveIntervalMax ∨
    ¬ Resends (s.overTransport env) env.round

/-- `ConnectsOnce` for the `wrapper_mqtt_connect` an operation makes, if it makes one. -/
def SessionOp.ConnectsOnce (s : Session) : SessionOp → Prop
  | .connect env => Mqtt.ConnectsOnce s env
  | .keepalive env =>
    Reconnects s env → Mqtt.ConnectsOnce (s.setNet s.client.net.disconnect) env.connect
  | _ => True

/-- An operation sends no CONNECT but with the value for `u`, and leaves the user's value
`u` in place. -/
def KeepAliveStable (u : ℕ) (s : Session) (op : SessionOp) : Prop :=
  Advertises (advertisedFor u) (sessionExec s op).2 ∧
    (sessionStep s op).connectData.keepAliveInterval = u

theorem wrapperMqttConnect_advertises (hs : s.connectData.keepAliveInterval = u) (hmin : 30 ≤ u)
    (hmax : u ≤ 1200) (env : ConnectEnv) :
    (wrapperMqttConnect s env).2.1.connectData.keepAliveInterval = u ∧
      (Advertises (advertisedFor u) (wrapperMqttConnect s env).2.2 ↔ ConnectsOnce s env) := by
  have htried := advertises_transportConnectLoop env.transport 3 s.client.net (advertisedFor u)
  rw [ConnectsOnce, hs]
  simp only [wrapperMqttConnect, Session.overTransport]
  generalize transportConnectLoop env.transport 3 s.client.net = t at htried ⊢
  obtain ⟨net, tried⟩ := t
  obtain ⟨hkeep, hadv⟩ := mqttConnectRounds_advertises (s := s.setNet net) hs hmin hmax
    env.round env.now
  refine ⟨hkeep, ?_⟩
  rw [← hadv]
  exact advertises_append.trans (and_iff_right htried)

theorem iotxMcHandleReconnect_attempts {env : KeepaliveEnv}
    (hdue : utilsTimeIsExpired s.reconnectNextTime env.reconnectNow = true) :
    let r := iotxMcAttemptReconnect s env.connect
    (iotxMcHandleReconnect s env).2.1.connectData = r.2.1.connectData ∧
      (iotxMcHandleReconnect s env).2.2 = r.2.2 := by
  have hnot : ¬ utilsTimeIsExpired s.reconnectNextTime env.reconnectNow = false := by simp [hdue]
  simp only [iotxMcHandleReconnect, if_neg hnot]
  generalize iotxMcAttemptReconnect s env.connect = r
  obtain ⟨rc, s', actions⟩ := r
  by_cases hrc : rc = successReturn
  · simp only [if_pos hrc]
    exact ⟨rfl, trivial⟩
  · simp only [if_neg hrc, and_self]

/-- `iotx_mc_attempt_reconnect` closes the transport and makes one `wrapper_mqtt_connect`. -/
theorem iotxMcAttemptReconnect_advertises (hs : s.connectData.keepAliveInterval = u) (hmin : 30 ≤ u)
    (hmax : u ≤ 1200) (env : ConnectEnv) :
    (iotxMcAttemptReconnect s env).2.1.connectData.keepAliveInterval = u ∧
      (Advertises (advertisedFor u) (iotxMcAttemptReconnect s env).2.2 ↔
        ConnectsOnce (s.setNet s.client.net.disconnect) env) := by
  obtain ⟨hkeep, hadv⟩ := wrapperMqttConnect_advertises (s := s.setNet s.client.net.disconnect)
    hs hmin hmax env
  simp only [iotxMcAttemptReconnect]
  refine ⟨hkeep, ?_⟩
  rw [← singleton_append, advertises_append, hadv]
  exact and_iff_right (advertises_of_forall (by simp) _)

/-- Once the ping has been dealt with, a keepalive connects at most by the
`wrapper_mqtt_connect` of a reconnection. -/
theorem iotxMcKeepaliveState_advertises (hs : s.connectData.keepAliveInterval = u) (hmin : 30 ≤ u)
    (hmax : u ≤ 1200) (env : KeepaliveEnv) :
    (iotxMcKeepaliveState s env).1.connectData.keepAliveInterval = u ∧
      (Advertises (advertisedFor u) (iotxMcKeepaliveState s env).2.1 ↔
        SessionOp.ConnectsOnce s (.keepalive env)) := by
  have hclosing : Advertises (advertisedFor u) [.disconnect] := advertises_of_forall (by simp) _
  simp only [iotxMcKeepaliveState, SessionOp.ConnectsOnce]
  -- only a client that waits for its reconnection connects here
  by_cases hwaits : s.state = .disconnectedReconnecting ∨ s.state = .connectBlock
  · rw [if_pos hwaits]
    by_cases hdue : utilsTimeIsExpired s.reconnectNextTime env.reconnectNow = true
    · obtain ⟨hkeep, hadv⟩ := iotxMcAttemptReconnect_advertises hs hmin hmax env.connect
      obtain ⟨hdata, hacts⟩ := iotxMcHandleReconnect_attempts hdue
      have hrec : (Reconnects s env → ConnectsOnce (s.setNet s.client.net.disconnect) env.connect)
          ↔ ConnectsOnce (s.setNet s.client.net.disconnect) env.connect :=
        ⟨fun h => h ⟨hwaits, hdue⟩, fun h _ => h⟩
      rw [hrec, ← hadv, ← hacts, ← hkeep, ← hdata]
      generalize iotxMcHandleReconnect s env = r
      obtain ⟨rc, s', actions⟩ := r
      simp only
      split_ifs
      · exact ⟨rfl, Iff.rfl⟩
      · exact ⟨rfl, Iff.rfl⟩
      · exact ⟨rfl, Iff.rfl⟩
    · have hrec : iotxMcHandleReconnect s env = (failReturn, s, []) :=
        if_pos (by simpa using hdue)
      rw [hrec]
      exact ⟨hs, iff_of_true (advertises_nil _) fun h => absurd h.2 hdue⟩
  · -- any other client closes its connection at most
    rw [if_neg hwaits]
    have hnot : Reconnects s env → ConnectsOnce (s.setNet s.client.net.disconnect) env.connect :=
      fun h => absurd h.1 hwaits
    split_ifs
    · exact ⟨hs, iff_of_true hclosing hnot⟩
    · exact ⟨hs, iff_of_true (advertises_nil _) hnot⟩

theorem iotxMcKeepaliveSub_connectData (s : Session) (env : KeepaliveEnv) :
    (iotxMcKeepaliveSub s env).2.1.connectData = s.connectData := by
  unfold iotxMcKeepaliveSub
  simp only
  split_ifs <;> rfl

/-- The ping sends no CONNECT, and a client that pings does not reconnect. -/
theorem iotxMcKeepalive_advertises (hs : s.connectData.keepAliveInterval = u) (hmin : 30 ≤ u)
    (hmax : u ≤ 1200) (env : KeepaliveEnv) :
    (iotxMcKeepalive s env).1.connectData.keepAliveInterval = u ∧
      (Advertises (advertisedFor u) (iotxMcKeepalive s env).2.1 ↔
        SessionOp.ConnectsOnce s (.keepalive env)) := by
  have hpinged := advertises_harmless (harmless_iotxMcKeepaliveSub s env) (advertisedFor u)
  obtain ⟨hkeep, hadv⟩ := iotxMcKeepaliveState_advertises (s := (iotxMcKeepaliveSub s env).2.1)
    (by rw [iotxMcKeepaliveSub_connectData]; exact hs) hmin hmax env
  simp only [iotxMcKeepalive]
  refine ⟨hkeep, ?_⟩
  rw [advertises_append, and_iff_right hpinged, hadv]
  rcases iotxMcKeepaliveSub_state s env with ⟨-, hsub⟩ | ⟨hconn, hsub⟩
  · rw [hsub]
  · -- a connected client is not waiting to reconnect, nor is it after the ping
    refine iff_of_true (fun h => ?_) fun h => ?_
    · rcases hsub with hsub | hsub <;> rcases h.1 with h | h <;> rw [hsub] at h <;> cases h
    · rcases h.1 with h | h <;> rw [hconn] at h <;> cases h

theorem keepAliveStable_iff (hs : s.connectData.keepAliveInterval = u) (hmin : 30 ≤ u)
    (hmax : u ≤ 1200) (op : SessionOp) :
    (sessionStep s op).connectData.keepAliveInterval = u ∧
      (KeepAliveStable u s op ↔ op.ConnectsOnce s) := by
  suffices h : (sessionStep s op).connectData.keepAliveInterval = u ∧
      (Advertises (advertisedFor u) (sessionExec s op).2 ↔ op.ConnectsOnce s) by
    exact ⟨h.1, (and_iff_left h.1).trans h.2⟩
  cases op with
  | connect env => exact wrapperMqttConnect_advertises hs hmin hmax env
  | keepalive env => exact iotxMcKeepalive_advertises hs hmin hmax env
  | disconnect env =>
    refine ⟨hs, iff_of_true (advertises_append.mpr ⟨?_, ?_⟩) trivial⟩
    swap
    · exact advertises_of_forall (by simp) _
    split_ifs
    · exact advertises_harmless (harmless_sendZero (by decide) _ _ _) _
    · exact advertises_nil _
  | cycle env sweep => exact ⟨hs, iff_of_true (advertises_nil _) trivial⟩
  | publish ptr req env => exact ⟨hs, iff_of_true (advertises_nil _) trivial⟩
  | subscribe req env => exact ⟨hs, iff_of_true (advertises_nil _) trivial⟩
  | unsubscribe topicFilter env => exact ⟨hs, iff_of_true (advertises_nil _) trivial⟩

/-- **The keep-alive is stable.**  From the value that `iotx_mc_init` has accepted, no step of a run
sends a CONNECT that advertises anything but twice the value (or the maximum) and every step leaves
it, exactly if no step with a value below the maximum sends CONNECT again after one that was not
answered. -/
theorem keepAlive_stable_iff (keepaliveIntervalMs : UInt32) (s : Session)
    (hs : s.connectData.keepAliveInterval = iotxMcInitKeepAlive keepaliveIntervalMs)
    (ops : List SessionOp) :
    AllSteps sessionStep (KeepAliveStable (iotxMcInitKeepAlive keepaliveIntervalMs)) s ops ↔
      AllSteps sessionStep (fun s op => op.ConnectsOnce s) s ops := by
  obtain ⟨hmin, hmax⟩ := iotxMcSetConnectParams_range ((keepaliveIntervalMs / 1000).toNat % 2 ^ 16)
  change 30 ≤ iotxMcInitKeepAlive keepaliveIntervalMs at hmin
  change iotxMcInitKeepAlive keepaliveIntervalMs ≤ 1200 at hmax
  induction ops generalizing s with
  | nil => exact Iff.rfl
  | cons op ops ih =>
    obtain ⟨hkeep, hstable⟩ := keepAliveStable_iff hs hmin hmax op
    rw [allSteps_cons, allSteps_cons, hstable, ih _ hkeep]

/-- A client with the default value that connects by the first CONNACK. -/
theorem keepAlive_stable_connect :
    AllSteps sessionStep (KeepAliveStable (iotxMcInitKeepAlive 60000)) freshSession
      [.connect (connectEnvWith (.established (memOf [0x20, 2, 0, 0] fun _ => 0)))] := by
  refine (keepAlive_stable_iff 60000 freshSession (by decide) _).mpr ⟨.inr ?_, trivial⟩
  rintro ⟨⟨-, -, -, hrc⟩, -⟩
  exact hrc (by decide)

/-- CONNACK does not arrive in the first round of `_mqtt_connect`, and arrives in the second. -/
def lateConnack : ConnectEnv where
  transport := fun _ => .established (memOf [0x20, 2, 0, 0] fun _ => 0)
  round := fun left =>
    { send := ⟨true, [.wrote 100]⟩
      read := fun _ => { ReadEnv.served with header := if left = 7 then .short 0 else .full }
      rest := fun _ => 0
      reconnect := .established (memOf [0x20, 2, 0, 0] fun _ => 0) }
  now := 0

/-- The first CONNECT advertises 120 s and the second 60 s, the value of the user. -/
theorem keepAlive_drifts :
    (sessionExec freshSession (.connect lateConnack)).2
        = [.connect true, .send [0x10, 13, 0, 4, 0x4D, 0x51, 0x54, 0x54, 4, 2, 0, 120, 0, 1, 0x61]
            successReturn]
          ++ List.replicate 11 (.recv 0 [])
          ++ [.disconnect, .connect true,
            .send [0x10, 13, 0, 4, 0x4D, 0x51, 0x54, 0x54, 4, 2, 0, 60, 0, 1, 0x61] successReturn,
            .recv 2 [0x20, 2, 0, 0]] ∧
      (sessionStep freshSession (.connect lateConnack)).state = .connected ∧
      freshSession.connectData.keepAliveInterval = iotxMcInitKeepAlive 60000 ∧
      ¬ KeepAliveStable (iotxMcInitKeepAlive 60000) freshSession (.connect lateConnack) := by
  refine ⟨by decide +kernel, by decide +kernel, by decide, fun h => ?_⟩
  have hadv := h.1 [0x10, 13, 0, 4, 0x4D, 0x51, 0x54, 0x54, 4, 2, 0, 60, 0, 1, 0x61] successReturn
  exact absurd (hadv (by decide +kernel) (by decide)) (by decide)

end Iotkit.Mqtt
