/-
# Connecting, keeping alive and reconnecting

`MQTTSerialize_connect` (`MQTTConnectClient.c`) and, from `iotx_mqtt_client.c`,
`MQTTConnect`, `iotx_mc_wait_CONNACK`, `_mqtt_connect`, `wrapper_mqtt_connect`,
`iotx_mc_keepalive` with its reconnection, and `iotx_mc_disconnect`.

Next to its result each function returns what it did to the transport, as a list of
`NetAction`s in the order in which they happened.
-/
import Iotkit.MqttSubscribe

namespace Iotkit.Mqtt

/-! ## The CONNECT packet -/

/-- Whether an `MQTTString` is there: one of its two pointers is not `NULL`. -/
def MqttString.present (s : MqttString) : Bool := s.cstring.isSome || !s.lenstring.isEmpty

/-- The length of a string in either form. -/
def mqttStrlen (s : MqttString) : ℕ :=
  match s.cstring with
  | some cstring => cstring.strlen
  | none => s.lenstring.length

/-- The bytes of a string in either form. -/
def writeMqttString (s : MqttString) : Bytes :=
  if 0 < s.lenstring.length then writeInt s.lenstring.length ++ s.lenstring
  else
    match s.cstring with
    | some cstring => writeCString cstring
    | none => writeInt 0

/-- The will of a connection. -/
structure WillOptions where
  topicName : MqttString
  message : MqttString
  retained : ℕ
  qos : ℕ

/-- `MQTTPacket_connectData`; `keepAliveInterval` is an `unsigned short`, in seconds. -/
structure ConnectData where
  mqttVersion : ℕ
  clientID : MqttString
  keepAliveInterval : ℕ
  cleansession : ℕ
  willFlag : ℕ
  will : WillOptions
  username : MqttString
  password : MqttString

variable (options : ConnectData)

/-- The remaining length of a CONNECT packet. -/
def mqttSerializeConnectLength : ℕ :=
  let len := if options.mqttVersion = 3 then 12 else if options.mqttVersion = 4 then 10 else 0
  let len := len + mqttStrlen options.clientID + 2
  let len := if options.willFlag ≠ 0 then
    len + mqttStrlen options.will.topicName + 2 + mqttStrlen options.will.message + 2 else len
  let len := if options.username.present then len + mqttStrlen options.username + 2 else len
  if options.password.present then len + mqttStrlen options.password + 2 else len

/-- The protocol name and level of a CONNECT packet. -/
def connectProtocol (mqttVersion : ℕ) : Bytes :=
  if mqttVersion = 4 then writeCString ⟨[0x4D, 0x51, 0x54, 0x54], by decide⟩ ++ [4]
  else writeCString ⟨[0x4D, 0x51, 0x49, 0x73, 0x64, 0x70], by decide⟩ ++ [3]

/-- The flags byte of a CONNECT packet, put together from `MQTT_CONN_FLAG_*`. -/
def connectFlags : UInt8 :=
  let all : UInt8 := if options.cleansession ≠ 0 then 0x02 else 0
  let all : UInt8 := if options.willFlag ≠ 0 then
    all ||| (0x04 : UInt8) ||| UInt8.ofNat ((options.will.qos &&& 0x03) <<< 3)
      ||| (if options.will.retained ≠ 0 then (0x20 : UInt8) else 0) else all
  let all : UInt8 := if options.username.present then all ||| 0x80 else all
  if options.password.present then all ||| 0x40 else all

/-- The bytes `MQTTSerialize_connect` writes. -/
def connectPacket : Bytes :=
  mqttHeaderSet .connect 0 0 0 :: mqttPacketEncode (mqttSerializeConnectLength options)
    ++ connectProtocol options.mqttVersion ++ [connectFlags options]
    ++ writeInt options.keepAliveInterval ++ writeMqttString options.clientID
    ++ (if options.willFlag ≠ 0 then
        writeMqttString options.will.topicName ++ writeMqttString options.will.message else [])
    ++ (if options.username.present then writeMqttString options.username else [])
    ++ (if options.password.present then writeMqttString options.password else [])

/-- `MQTTSerialize_connect` into a buffer of `buflen` bytes. -/
def mqttSerializeConnect (buflen : ℕ) (options : ConnectData) : ℤ × Bytes :=
  if mqttPacketLen (mqttSerializeConnectLength options) > buflen then
    (mqttPacketBufferTooShort, [])
  else ((connectPacket options).length, connectPacket options)

/-- The bytes of a packet are those of a CONNECT packet by its type field. -/
def IsConnect (packet : Bytes) : Prop :=
  mqttHeaderGetType (packet.headD 0) = MsgType.connect.code

instance (packet : Bytes) : Decidable (IsConnect packet) :=
  inferInstanceAs (Decidable (_ = _))

theorem isConnect_connectPacket : IsConnect (connectPacket options) := by
  simp only [IsConnect, connectPacket, List.cons_append, List.headD_cons]
  decide

theorem connectPacket_ne_nil : connectPacket options ≠ [] := by
  simp [connectPacket]

/-! ## The transport -/

/-- What connection code does to the transport: calls of `ipstack.connect` with their
success, calls of `ipstack.disconnect`, packets passed to `ipstack.write` with the
verdict of `iotx_mc_send_packet`, and successful calls of `iotx_mc_read_packet` with
the packet type and the packet they report. -/
inductive NetAction
  | connect (ok : Bool)
  | disconnect
  | send (packet : Bytes) (rc : ℤ)
  | recv (packetType : ℕ) (packet : Bytes)
  deriving DecidableEq

/-- What one `ipstack.connect` does: a connection is established on which the peer
sends `bytes`, or none is. -/
inductive ConnectEvent
  | established (bytes : Memory)
  | failed

def ConnectEvent.ok : ConnectEvent → Bool
  | established _ => true
  | failed => false

/-- `iotx_net_connect`: the handle of an earlier connection is overwritten. -/
def Net.connect (net : Net) : ConnectEvent → Net
  | .established bytes => ⟨true, bytes, 0⟩
  | .failed => { net with established := false }

def Net.disconnect (net : Net) : Net := { net with established := false }

@[simp] theorem Net.established_connect (net : Net) (ev : ConnectEvent) :
    (net.connect ev).established = ev.ok := by
  cases ev <;> rfl

/-- What the writes of one packet do: on a handle that is not valid the HAL reports an
error for each of them. -/
def Net.writes (net : Net) (writes : List WriteEvent) : List WriteEvent :=
  if net.established then writes else writes.map fun _ => .error

/-- `iotx_mc_send_packet` over the transport.  Nothing is passed to the transport if
the timer has expired before the first write. -/
def sendPacket (net : Net) (packet : Bytes) (writes : List WriteEvent) :
    ℤ × List NetAction :=
  let rc := iotxMcSendPacket packet (net.writes writes)
  (rc, if writes.isEmpty then [] else [.send packet rc])

/-- Nothing but the empty packet is sent over a handle that is not valid. -/
theorem established_of_sendPacket {net : Net} {packet : Bytes} {writes : List WriteEvent}
    (hne : packet ≠ []) (h : (sendPacket net packet writes).1 = successReturn) :
    net.established = true ∧
      (sendPacket net packet writes).2 = [.send packet successReturn] := by
  have hlen : packet.length ≠ 0 := by simpa using hne
  have hsent : iotxMcSendPacketLoop packet.length (net.writes writes) 0 = packet.length := by
    by_contra hne'
    simp [sendPacket, iotxMcSendPacket, hne'] at h
  cases writes with
  | nil => exact absurd hsent (by simpa [Net.writes, iotxMcSendPacketLoop] using hlen.symm)
  | cons ev evs =>
    constructor
    · by_contra hest
      rw [Bool.not_eq_true] at hest
      apply hlen
      rw [← hsent]
      simp [Net.writes, hest, iotxMcSendPacketLoop]
    · have h' : iotxMcSendPacket packet (net.writes (ev :: evs)) = successReturn := h
      simp [sendPacket, h']

/-! ## `_mqtt_connect` -/

/-- The client with the part of `iotx_mc_client_t` that only connection code uses. -/
structure Session where
  client : Client
  connectData : ConnectData
  nextPingTime : UInt32
  reconnectNextTime : UInt32
  reconnectTimeIntervalMs : UInt32

variable (s : Session)

/-- `iotx_mc_get_client_state`. -/
def Session.state : McState := s.client.clientState

/-- `iotx_mc_set_client_state`. -/
def Session.setState (state : McState) : Session :=
  { s with client := { s.client with clientState := state } }

/-- The session over another state of its transport. -/
def Session.setNet (net : Net) : Session :=
  { s with client := { s.client with net := net } }

/-- The session with another `connect_data.keepAliveInterval`. -/
def Session.setKeepAlive (keepAliveInterval : ℕ) : Session :=
  { s with connectData := { s.connectData with keepAliveInterval := keepAliveInterval } }

@[simp] theorem Session.net_setNet (net : Net) :
    (s.setNet net).client.net = net := rfl
@[simp] theorem Session.net_setKeepAlive (k : ℕ) :
    (s.setKeepAlive k).client.net = s.client.net := rfl

/-- A CONNECT packet is made and sent. -/
def mqttConnect (env : SendEnv) : ℤ × List NetAction :=
  let len := mqttPacketLen (mqttSerializeConnectLength s.connectData)
  if s.client.sendBuf.allocFails env.alloc then (failReturn, [])
  else
    match mqttSerializeConnect (s.client.sendBuf.sendSize len) s.connectData with
    | (len, packet) =>
      if len ≤ 0 then (mqttConnectPacketError, [])
      else
        match sendPacket s.client.net packet env.writes with
        | (rc, actions) =>
          if rc ≠ successReturn then (mqttNetworkError, actions) else (successReturn, actions)

/-- The return code of a CONNACK packet. -/
def iotxMcHandleRecvConnack (buf : Memory) : ℤ :=
  match mqttDeserializeConnack buf with
  | (rc, connackRc) =>
    if rc ≠ 1 then mqttConnectAckPacketError
    else if connackRc = 0 then successReturn
    else if connackRc = 1 then mqttConanckUnacceptableProtocolVersionError
    else if connackRc = 2 then mqttConnackIdentifierRejectedError
    else if connackRc = 3 then mqttConnackServerUnavailableError
    else if connackRc = 4 then mqttConnackBadUserdataError
    else if connackRc = 5 then mqttConnackNotAuthorizedError
    else mqttConnackUnknownError

def waitConnackMax : ℕ := 10

/-- What one round of `_mqtt_connect` meets: the sending of CONNECT, the read of each
packet while it waits for CONNACK, the memory behind the CONNACK in the read buffer,
and the `ipstack.connect` before the next round. -/
structure RoundEnv where
  send : SendEnv
  read : ℕ → ReadEnv
  rest : Memory
  reconnect : ConnectEvent

/-- The loop of `iotx_mc_wait_CONNACK`, with `left` more packets to look at: return
value, the CONNACK packet, the transport and what was done to it.  One packet more
than `WAIT_CONNACK_MAX` is read before the wait is given up. -/
def iotxMcWaitConnackLoop (m : BufMode) (read : ℕ → ReadEnv) :
    ℕ → Net → ℤ × Bytes × Net × List NetAction
  | left, net =>
    let r := iotxMcReadPacket m net (read left)
    if r.rc ≠ successReturn then (r.rc, [], r.net, [])
    else
      let action := NetAction.recv r.packetType r.buf
      match left with
      | 0 => (mqttNetworkError, [], r.net, [action])
      | left + 1 =>
        if r.packetType = MsgType.connack.code then (successReturn, r.buf, r.net, [action])
        else
          match iotxMcWaitConnackLoop m read left r.net with
          | (rc, connack, net, actions) => (rc, connack, net, action :: actions)

variable (c : Client)

/-- Packets are read until a CONNACK or the limit. -/
def iotxMcWaitConnack (env : RoundEnv) : ℤ × Net × List NetAction :=
  match iotxMcWaitConnackLoop c.recvBuf env.read waitConnackMax c.net with
  | (rc, connack, net, actions) =>
    if rc ≠ successReturn then (rc, net, actions)
    else (iotxMcHandleRecvConnack (memOf connack env.rest), net, actions)

def retryTimeLimit : ℕ := 8 + 1

/-- The loop of `_mqtt_connect`, with `left` more rounds allowed, and what follows it.
The clock shows `now` when the next ping is scheduled. -/
def mqttConnectLoop (userKeepAliveInterval : ℕ) (env : ℕ → RoundEnv) (now : UInt32) :
    ℕ → Session → ℤ × Session × List NetAction
  | 0, s => (mqttConnectError, s, [])
  | left + 1, s =>
    let (rc, sent) := mqttConnect s (env left).send
    let s := s.setKeepAlive userKeepAliveInterval
    if rc ≠ successReturn then
      (rc, s.setNet s.client.net.disconnect, sent ++ [.disconnect])
    else
      let (rc, net, received) := iotxMcWaitConnack s.client (env left)
      if rc ≤ mqttConnackNotAuthorizedError ∧ mqttConanckUnacceptableProtocolVersionError ≤ rc then
        (mqttConnectError, s.setNet net.disconnect, sent ++ received ++ [.disconnect])
      else if rc ≠ successReturn then
        -- the result of `ipstack.connect` is not looked at here
        let ev := (env left).reconnect
        let (rc, s, actions) := mqttConnectLoop userKeepAliveInterval env now left
          (s.setNet (net.disconnect.connect ev))
        (rc, s, sent ++ received ++ [.disconnect, .connect ev.ok] ++ actions)
      else
        let c := { s.client with net := net, keepaliveProbes := 0, clientState := .connected }
        (successReturn,
          { s with
            client := c,
            nextPingTime := utilsTimeCountdownMs now (s.connectData.keepAliveInterval * 1000) },
          sent ++ received)

def configMqttKeepaliveIntervalMax : ℕ := 1200

/-- `_mqtt_connect`. -/
def mqttConnectRounds (env : ℕ → RoundEnv) (now : UInt32) :
    ℤ × Session × List NetAction :=
  let userKeepAliveInterval := s.connectData.keepAliveInterval
  let doubled := userKeepAliveInterval * 2 % 2 ^ 16
  mqttConnectLoop userKeepAliveInterval env now (retryTimeLimit - 1)
    (s.setKeepAlive (min doubled configMqttKeepaliveIntervalMax))

/-! ## `wrapper_mqtt_connect` -/

/-- What one `wrapper_mqtt_connect` meets: its three `ipstack.connect` calls, the
rounds of `_mqtt_connect`, and the clock at its end. -/
structure ConnectEnv where
  transport : ℕ → ConnectEvent
  round : ℕ → RoundEnv
  now : UInt32

/-- The loop of `wrapper_mqtt_connect` over `ipstack.connect`, with `left` more
attempts; its error codes are overwritten by the caller. -/
def transportConnectLoop (transport : ℕ → ConnectEvent) : ℕ → Net → Net × List NetAction
  | 0, net => (net, [])
  | left + 1, net =>
    let ev := transport left
    if ev.ok then (net.connect ev, [.connect true])
    else
      let (net, actions) := transportConnectLoop transport left (net.connect ev).disconnect
      (net, .connect false :: .disconnect :: actions)

/-- `wrapper_mqtt_connect`: `_mqtt_connect` is entered whether or not the transport
could be connected. -/
def wrapperMqttConnect (env : ConnectEnv) : ℤ × Session × List NetAction :=
  let (net, tried) := transportConnectLoop env.transport 3 s.client.net
  let (rc, s, actions) := mqttConnectRounds (s.setNet net) env.round env.now
  (rc, s, tried ++ actions)

/-! ## Keepalive and reconnection -/

/-- What one `iotx_mc_keepalive` meets: the clock when it looks at the ping timer and
when it sets it, the sending of PINGREQ, the clock when it looks at the reconnect timer,
the reconnection, the clock when it sets that timer, and whether an API call made by a
user callback lost the connection. -/
structure KeepaliveEnv where
  pingNow : UInt32
  pingNext : UInt32
  ping : SendEnv
  reconnectNow : UInt32
  connect : ConnectEnv
  reconnectNext : UInt32
  callbackLoses : Bool

/-- A packet of type `type` without content, sent as `MQTTKeepalive` and
`MQTTDisconnect` send theirs; `err` is returned if it does not fit. -/
def sendZero (type : MsgType) (err : ℤ) (env : SendEnv) : ℤ × List NetAction :=
  if c.sendBuf.allocFails env.alloc then (failReturn, [])
  else
    match mqttSerializeZero (c.sendBuf.sendSize 0) type with
    | (len, packet) => if len ≤ 0 then (err, []) else sendPacket c.net packet env.writes

/-- A PINGREQ packet is sent. -/
def mqttKeepalive (env : SendEnv) : ℤ × List NetAction :=
  sendZero c .pingreq mqttPingPacketError env

variable (env : KeepaliveEnv)

/-- The probe that is due, or none. -/
def iotxMcKeepaliveSub : ℤ × Session × List NetAction :=
  if s.state ≠ .connected then (successReturn, s, [])
  else if utilsTimeIsExpired s.nextPingTime env.pingNow = false then (successReturn, s, [])
  else
    let s := { s with nextPingTime :=
      utilsTimeCountdownMs env.pingNext (s.connectData.keepAliveInterval * 1000) }
    let (rc, sent) := mqttKeepalive s.client env.ping
    if rc ≠ successReturn then
      (rc, if rc = mqttNetworkError then s.setState .disconnected else s, sent)
    else
      let probes := (s.client.keepaliveProbes + 1) % 2 ^ 8
      (successReturn, { s with client := { s.client with keepaliveProbes := probes } }, sent)

/-- One attempt to connect again. -/
def iotxMcAttemptReconnect (env : ConnectEnv) : ℤ × Session × List NetAction :=
  let (rc, s, actions) := wrapperMqttConnect (s.setNet s.client.net.disconnect) env
  (rc, s, .disconnect :: actions)

/-- `IOTX_MC_RECONNECT_INTERVAL_MIN_MS` and `IOTX_MC_RECONNECT_INTERVAL_MAX_MS`. -/
def iotxMcReconnectIntervalMinMs : UInt32 := 1000
def iotxMcReconnectIntervalMaxMs : UInt32 := 60000

/-- The attempt that is due, or none. -/
def iotxMcHandleReconnect : ℤ × Session × List NetAction :=
  if utilsTimeIsExpired s.reconnectNextTime env.reconnectNow = false then (failReturn, s, [])
  else
    let (rc, s, actions) := iotxMcAttemptReconnect s env.connect
    if rc = successReturn then (successReturn, s.setState .connected, actions)
    else
      let interval := if s.reconnectTimeIntervalMs < iotxMcReconnectIntervalMaxMs
        then s.reconnectTimeIntervalMs * 2 else iotxMcReconnectIntervalMaxMs
      let intervalMs := if iotxMcReconnectIntervalMaxMs < interval
        then iotxMcReconnectIntervalMaxMs else interval
      (rc,
        { s with
          reconnectTimeIntervalMs := interval,
          reconnectNextTime := utilsTimeCountdownMs env.reconnectNext intervalMs.toNat },
        actions)

/-- `iotx_mc_reconnect_callback` and `iotx_mc_disconnect_callback`; `msg` is `NULL`. -/
def connectionCallback (eventType : EventType) : List Invocation :=
  callHandleEvent c eventType (.packetId 0)

/-- `iotx_mc_keepalive` from the point where the ping has been dealt with. -/
def iotxMcKeepaliveState :
    Session × List NetAction × List Invocation :=
  if s.state = .disconnectedReconnecting ∨ s.state = .connectBlock then
    let (rc, s, actions) := iotxMcHandleReconnect s env
    if rc ≠ successReturn then (s, actions, [])
    else
      let calls := connectionCallback s.client .reconnect
      let s := if env.callbackLoses ∧ calls ≠ [] then s.setState .disconnected else s
      ({ s with reconnectTimeIntervalMs := iotxMcReconnectIntervalMinMs }, actions, calls)
  else if s.state = .disconnected then
    let s' := s.setNet s.client.net.disconnect
    ({ s'.setState .disconnectedReconnecting with
        reconnectTimeIntervalMs := iotxMcReconnectIntervalMinMs,
        reconnectNextTime := utilsTimeCountdownMs env.reconnectNext
          iotxMcReconnectIntervalMinMs.toNat },
      [.disconnect], connectionCallback s.client .disconnect)
  else (s, [], [])

/-- The keepalive of a cycle. -/
def iotxMcKeepalive :
    Session × List NetAction × List Invocation :=
  let (_, s, pinged) := iotxMcKeepaliveSub s env
  let (s, actions, calls) := iotxMcKeepaliveState s env
  (s, pinged ++ actions, calls)

/-- A DISCONNECT packet is sent. -/
def mqttDisconnect (env : SendEnv) : ℤ × List NetAction :=
  sendZero c .disconnect failReturn env

/-- The session is given up. -/
def iotxMcDisconnect (env : SendEnv) : Session × List NetAction :=
  let sent := if s.state = .connected then (mqttDisconnect s.client env).2 else []
  ((s.setNet s.client.net.disconnect).setState .initialized, sent ++ [.disconnect])

end Iotkit.Mqtt
