/-
# The MQTT client state and its receive path

The part of `iotx_mc_client_t` that the receive path touches, the handlers of
received packets (`iotx_mc_handle_recv_PUBACK`, `_SUBACK`, `_PUBLISH`, `_UNSUBACK`),
message delivery, and `iotx_mc_cycle` (`iotx_mqtt_client.c`), in the default build
(dynamic memory, no topic compression, no QoS 2 packets).

Function pointers and context pointers are addresses, `0` being `NULL`.  Calls of
user callbacks are outputs, listed in the order in which they are made.
-/
import Iotkit.MqttTransport
import Iotkit.MqttTopic

namespace Iotkit.Mqtt

/-! ## State -/

/-- `iotx_mc_state_t`. -/
inductive McState
  | invalid | initialized | connected | disconnected | disconnectedReconnecting | connectBlock
  deriving DecidableEq, Repr

/-- `iotx_mc_node_t`. -/
inductive NodeState
  | normanl | invalid
  deriving DecidableEq, Repr

/-- `iotx_mqtt_event_handle_t`. -/
structure EventHandle where
  hFp : ℕ
  pcontext : ℕ
  deriving DecidableEq

/-- `iotx_mc_topic_handle_t`. -/
structure TopicHandle where
  topicFilter : CString
  handle : EventHandle
  deriving DecidableEq

/-- `iotx_mc_pub_info_t`; `ptr` tells nodes apart and stands for the node's address. -/
structure PubInfo where
  ptr : ℕ
  pubStartTime : UInt32
  nodeState : NodeState
  msgId : ℕ
  buf : Bytes
  deriving DecidableEq

/-- `iotx_mqtt_event_type_t`. -/
inductive EventType
  | undef | disconnect | reconnect | subcribeSuccess | subcribeTimeout | subcribeNack
  | unsubcribeSuccess | unsubcribeTimeout | unsubcribeNack | publishSuccess
  | publishTimeout | publishNack | publishReceived | bufferOverflow
  deriving DecidableEq, Repr

/-- `mqtt_sub_sync_node_t`. -/
structure SubSyncNode where
  packetId : ℕ
  ackType : EventType
  deriving DecidableEq

/-- `iotx_mqtt_topic_info_t` as handed to a handler; the two pointers are offsets
into the read buffer. -/
structure TopicInfo where
  packetId : ℕ
  qos : ℕ
  dup : ℕ
  retain : ℕ
  ptopic : ℕ
  topicLen : ℕ
  payload : ℕ
  payloadLen : ℕ
  deriving DecidableEq

/-- The `msg` member of an event message. -/
inductive EventMsg
  | packetId (id : ℕ)
  | topicInfo (info : TopicInfo)
  | text
  deriving DecidableEq

/-- One call of a user callback. -/
structure Invocation where
  handle : EventHandle
  eventType : EventType
  msg : EventMsg
  deriving DecidableEq

/-- `iotx_mc_client_t`. -/
structure Client where
  clientState : McState
  packetId : ℕ
  requestTimeoutMs : ℕ
  keepaliveProbes : ℕ
  recvBuf : BufMode
  sendBuf : BufMode
  net : Net
  listPubWaitAck : List PubInfo
  listSubHandle : List TopicHandle
  listSubSyncAck : List SubSyncNode
  handleEvent : EventHandle

/-- A connected client that has done nothing yet. -/
def idleClient : Client where
  clientState := .connected
  packetId := 0
  requestTimeoutMs := 2000
  keepaliveProbes := 0
  recvBuf := .dynBuf 1024
  sendBuf := .dynBuf 1024
  net := ⟨true, fun _ => 0, 0⟩
  listPubWaitAck := []
  listSubHandle := []
  listSubSyncAck := []
  handleEvent := ⟨0, 0⟩

variable (c : Client)

/-- Calling `handle_event`, if one was given. -/
def callHandleEvent (eventType : EventType) (msg : EventMsg) : List Invocation :=
  if c.handleEvent.hFp ≠ 0 then [⟨c.handleEvent, eventType, msg⟩] else []

/-! ## Acknowledgements -/

def iotxMcMaskPubInfoFrom (l : List PubInfo) (msgId : ℕ) : List PubInfo :=
  l.map fun node => if node.msgId = msgId then { node with nodeState := .invalid } else node

variable (buf : Memory)

/-- `iotx_mc_handle_recv_PUBACK`; `mypacketid` is the content of its uninitialised
local variable. -/
def iotxMcHandleRecvPuback (mypacketid : ℕ) :
    ℤ × Client × List Invocation :=
  match mqttDeserializeAck buf mypacketid with
  | (rc, _, packetid) =>
    if rc ≠ 1 then (mqttPublishAckPacketError, c, [])
    else
      (successReturn,
        { c with listPubWaitAck := iotxMcMaskPubInfoFrom c.listPubWaitAck packetid },
        callHandleEvent c .publishSuccess (.packetId packetid))

def iotxMqttEventHandleSub (l : List SubSyncNode) (packetId : ℕ) (eventType : EventType) :
    List SubSyncNode :=
  l.map fun node => if node.packetId = packetId then { node with ackType := eventType } else node

def mutliSubscirbeMax : ℕ := 5

/-- The flag loop of `iotx_mc_handle_recv_SUBACK`: each return code overwrites it. -/
def subackFailFlag (granted : Bytes) : ℤ :=
  granted.foldl (fun _ q => if q = 0x80 then 1 else 0) (-1)

def iotxMcHandleRecvSuback (mypacketid : ℕ) :
    ℤ × Client × List Invocation :=
  match mqttDeserializeSuback buf mutliSubscirbeMax mypacketid with
  | (rc, packetid, granted) =>
    if rc < 0 then (mqttSubscribeAckPacketError, c, [])
    else
      let eventType :=
        if subackFailFlag granted = 1 then EventType.subcribeNack
        else EventType.subcribeSuccess
      (successReturn,
        { c with listSubSyncAck := iotxMqttEventHandleSub c.listSubSyncAck packetid eventType },
        callHandleEvent c eventType (.packetId packetid))

def iotxMcHandleRecvUnsuback : ℤ × Client × List Invocation :=
  match mqttDeserializeUnsuback buf 0 with
  | (rc, packetid) =>
    if rc ≠ 1 then (mqttUnsubscribeAckPacketError, c, [])
    else (successReturn, c, callHandleEvent c .unsubcribeSuccess (.packetId packetid))

/-! ## Delivery of a PUBLISH -/

/-- The test `iotx_mc_deliver_message` makes on every entry. -/
def topicSelects (topicName : MqttString) (node : TopicHandle) : Bool :=
  mqttPacketEquals topicName node.topicFilter
    || iotxMcIsTopicMatched node.topicFilter.bytes topicName.lenstring

/-- The list traversal of `iotx_mc_deliver_message`, with the calls made so far and
`flag_matched`. -/
def iotxMcDeliverMessageLoop (topicName : MqttString) (msg : TopicInfo) :
    List TopicHandle → List Invocation → Bool → List Invocation × Bool
  | [], calls, flagMatched => (calls, flagMatched)
  | node :: rest, calls, flagMatched =>
    if topicSelects topicName node then
      if node.handle.hFp ≠ 0 then
        iotxMcDeliverMessageLoop topicName msg rest
          (calls ++ [⟨node.handle, .publishReceived, .topicInfo msg⟩]) true
      else iotxMcDeliverMessageLoop topicName msg rest calls flagMatched
    else iotxMcDeliverMessageLoop topicName msg rest calls flagMatched

def iotxMcDeliverMessage (topicName : MqttString) (msg : TopicInfo) :
    List Invocation :=
  match iotxMcDeliverMessageLoop topicName msg c.listSubHandle [] false with
  | (calls, flagMatched) =>
    if flagMatched = false then calls ++ callHandleEvent c .publishReceived (.topicInfo msg)
    else calls

/-- What the allocator and the network do while an acknowledgement is sent. -/
structure SendEnv where
  alloc : Bool
  writes : List WriteEvent

/-- `MQTTPuback` in a build without QoS 2 packets. -/
def mqttPuback (msgId : ℕ) (type : MsgType) (env : SendEnv) : ℤ :=
  if type ≠ .puback then mqttPublishAckTypeError
  else if c.sendBuf.allocFails env.alloc then failReturn
  else
    match mqttSerializeAck (c.sendBuf.sendSize 0) .puback 0 msgId with
    | (len, bytes) =>
      if len ≤ 0 then mqttPublishAckPacketError
      else if iotxMcSendPacket bytes env.writes ≠ successReturn then mqttNetworkError
      else successReturn

/-- The message `iotx_mc_handle_recv_PUBLISH` hands to `iotx_mc_deliver_message`, or
the error it returns instead.  `payload_len` is a `uint32_t`. -/
def recvPublishMessage : Except ℤ TopicInfo :=
  let fields := mqttDeserializePublish buf
  if fields.rc ≠ 1 then .error mqttPublishPacketError
  else
    match fields.topicData with
    | none => .error mqttPublishPacketError
    | some topicData =>
      if fields.topicLen = 0 then .error mqttPublishPacketError
      else
        .ok { packetId := fields.packetid, qos := fields.qos, dup := fields.dup,
              retain := fields.retained, ptopic := topicData, topicLen := fields.topicLen,
              payload := fields.payload, payloadLen := (fields.payloadlen % 2 ^ 32).toNat }

def iotxMcHandleRecvPublish (env : SendEnv) :
    ℤ × Client × List Invocation :=
  match recvPublishMessage buf with
  | .error rc => (rc, c, [])
  | .ok msg =>
    let topicName : MqttString := ⟨none, memSlice buf msg.ptopic msg.topicLen⟩
    let calls := iotxMcDeliverMessage c topicName msg
    if msg.qos = 0 then (successReturn, c, calls)
    else if msg.qos = 1 then (mqttPuback c msg.packetId .puback env, c, calls)
    else if msg.qos = 2 then (mqttPuback c msg.packetId .pubrec env, c, calls)
    else (mqttPublishQosError, c, calls)

theorem iotxMcHandleRecvPublish_client (env : SendEnv) :
    (iotxMcHandleRecvPublish c buf env).2.1 = c := by
  unfold iotxMcHandleRecvPublish
  split
  · rfl
  · simp only; split_ifs <;> rfl

/-! ## `iotx_mc_cycle` -/

def iotxMcKeepaliveProbeMax : ℕ := 2

/-- What surrounds one `iotx_mc_cycle`: the reads of its packet, the memory that
follows the packet in the read buffer, the content of uninitialised locals, the
sending of an acknowledgement, and whether an API call made by a user callback lost
the connection. -/
structure CycleEnv where
  read : ReadEnv
  rest : Memory
  mypacketid : ℕ
  ack : SendEnv
  callbackLoses : Bool

/-- The packet switch of `iotx_mc_cycle`. -/
def iotxMcCycleSwitch (packetType : ℕ) (buf : Memory) (env : CycleEnv) :
    ℤ × Client × List Invocation :=
  if packetType = MsgType.connack.code then (successReturn, c, [])
  else if packetType = MsgType.puback.code then iotxMcHandleRecvPuback c buf env.mypacketid
  else if packetType = MsgType.suback.code then iotxMcHandleRecvSuback c buf env.mypacketid
  else if packetType = MsgType.publish.code then iotxMcHandleRecvPublish c buf env.ack
  else if packetType = MsgType.unsuback.code then iotxMcHandleRecvUnsuback c buf
  else if packetType = MsgType.pingresp.code then (successReturn, c, [])
  else (failReturn, c, [])

/-- The effect on the client state of the API calls that user callbacks make. -/
def afterCallbacks (env : CycleEnv) (c : Client) (calls : List Invocation) : Client :=
  if env.callbackLoses ∧ calls ≠ [] then { c with clientState := .disconnected } else c

/-- `iotx_mc_cycle`: return value, client afterwards, calls of user callbacks. -/
def iotxMcCycle (env : CycleEnv) : ℤ × Client × List Invocation :=
  if c.clientState ≠ .connected then (mqttStateError, c, [])
  else
    let c := if iotxMcKeepaliveProbeMax < c.keepaliveProbes
      then { c with clientState := .disconnected, keepaliveProbes := 0 } else c
    let r := iotxMcReadPacket c.recvBuf c.net env.read
    let c := { c with net := r.net }
    if r.rc ≠ successReturn then
      (mqttNetworkError,
        if r.rc = mqttNetworkError then { c with clientState := .disconnected } else c, [])
    else if r.packetType = MsgType.reserved.code then
      let calls := if r.overflow then callHandleEvent c .bufferOverflow .text else []
      (successReturn, afterCallbacks env c calls, calls)
    else
      match iotxMcCycleSwitch { c with keepaliveProbes := 0 } r.packetType
          (memOf r.buf env.rest) env with
      | (rc, c, calls) => (rc, afterCallbacks env c calls, calls)

end Iotkit.Mqtt
