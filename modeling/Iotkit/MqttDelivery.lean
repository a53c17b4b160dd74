/-
# The messages of a connection

The packets that `MQTTPublish` makes come to the receiver as one stream of bytes, and every
`iotx_mc_cycle` reads on from where the last one stopped.  To the handlers the stream is a queue of
messages: a cycle of a connected client takes the first, and hands it to those that are subscribed
at that moment.
-/
import Iotkit.MqttAcks
import Iotkit.MqttPublishRoundTrip
import Iotkit.MqttSubscribe

namespace Iotkit.Mqtt

open List

/-! ## The receiver -/

/-- The receiver runs `iotx_mc_cycle`, or its application subscribes or unsubscribes. -/
inductive ReceiverOp
  | cycle (env : CycleEnv)
  | subscribe (req : SubRequest) (env : SubEnv)
  | unsubscribe (topicFilter : CString) (env : SubEnv)

def ReceiverOp.isCycle : ReceiverOp → Bool
  | .cycle _ => true
  | _ => false

/-- A handler and the message it is called with, the pointers followed. -/
structure Delivery where
  handle : EventHandle
  topic : Bytes
  payload : Bytes
  qos : ℕ
  retain : ℕ
  packetId : ℕ

def Invocation.delivery (buf : Memory) (call : Invocation) : Option Delivery :=
  match call.msg with
  | .topicInfo msg =>
    some ⟨call.handle, memSlice buf msg.ptopic msg.topicLen,
      memSlice buf msg.payload msg.payloadLen, msg.qos, msg.retain, msg.packetId⟩
  | _ => none

/-- The client after an operation, and what it delivers from its read buffer. -/
def receiverStep (c : Client) : ReceiverOp → Client × List Delivery
  | .cycle env =>
    let buf := memOf (iotxMcReadPacket c.recvBuf c.net env.read).buf env.rest
    ((iotxMcCycle c env).2.1, (iotxMcCycle c env).2.2.filterMap (·.delivery buf))
  | .subscribe req env => ((wrapperMqttSubscribe c req env).2, [])
  | .unsubscribe topicFilter env => ((wrapperMqttUnsubscribe c topicFilter env).2, [])

/-- What each of the operations delivers. -/
def deliveries (c : Client) : List ReceiverOp → List (List Delivery)
  | [] => []
  | op :: ops => (receiverStep c op).2 :: deliveries (receiverStep c op).1 ops

/-! ## The queue -/

/-- The message of a request, for every handler that it should reach. -/
def deliveriesOf (c : Client) (req : PubRequest) : List Delivery :=
  (expectedCalls c req.topicName.bytes (receivedInfo req)).map fun call =>
    ⟨call.handle, req.topicName.bytes, req.payload, req.qos, req.retain,
      if 0 < req.qos then req.packetId else 0⟩

/-- What each of the operations should deliver, the requests being a queue. -/
def queueDeliveries (c : Client) (reqs : List PubRequest) : List ReceiverOp → List (List Delivery)
  | [] => []
  | op :: ops =>
    if op.isCycle ∧ c.clientState = .connected then
      (reqs.take 1).flatMap (deliveriesOf c) ::
        queueDeliveries (receiverStep c op).1 (reqs.drop 1) ops
    else [] :: queueDeliveries (receiverStep c op).1 reqs ops

/-- A request that the protocol allows, with room in the buffers of both sides. -/
structure PubRequest.Sendable (sender : Client) (m : BufMode) (req : PubRequest) : Prop where
  topic : iotxMcCheckTopic req.topicName .topicName = successReturn
  qos : req.qos ≤ 1
  retain : req.retain ≤ 1
  remLen : req.remLen ≤ 268435455
  size : mqttDynbufSendMargin + (req.topicName.strlen + req.payload.length) ≤
    sender.sendBuf.sendSize (req.topicName.strlen + req.payload.length)
  fits : (publishPacket sender req).2.length ≤ m.recvMax

/-- The packets of the requests lie in front of a receiver, by its buffer, its network and its
subscriptions. -/
structure Incoming (sender : Client) (reqs : List PubRequest) (m : BufMode) (net : Net)
    (l : List TopicHandle) : Prop where
  buffer : m.HoldsFixedHeader
  established : net.established = true
  subs : SubListInv l
  sendable : ∀ req ∈ reqs, req.Sendable sender m
  stream : HoldsAt net.bytes net.pos (reqs.flatMap fun req => (publishPacket sender req).2)

section Steps

variable {sender c : Client} {req : PubRequest} {reqs : List PubRequest}

theorem Incoming.afterRequest {r : ℤ × Client}
    (h : Incoming sender reqs r.2.recvBuf r.2.net r.2.listSubHandle) (msgId : ℕ) :
    let c' := (afterRequest msgId r).2
    Incoming sender reqs c'.recvBuf c'.net c'.listSubHandle := by
  unfold Mqtt.afterRequest
  split_ifs
  · exact h
  · exact h
  · exact h

/-- What the application does leaves the stream. -/
theorem Incoming.request (h : Incoming sender reqs c.recvBuf c.net c.listSubHandle)
    {op : ReceiverOp} (hop : op.isCycle = false) :
    (receiverStep c op).2 = [] ∧
      let c' := (receiverStep c op).1
      Incoming sender reqs c'.recvBuf c'.net c'.listSubHandle := by
  cases op with
  | cycle env => exact absurd hop Bool.noConfusion
  | subscribe req env =>
    refine ⟨rfl, ?_⟩
    simp only [receiverStep, wrapperMqttSubscribe]
    split_ifs
    · exact h
    · exact h
    · exact h
    · apply Incoming.afterRequest
      rcases mqttSubscribe_cases (iotxMcGetNextPacketid c).2 req (iotxMcGetNextPacketid c).1
          env with ⟨-, hc⟩ | ⟨-, hfp, hc⟩
      · rw [hc]
        exact h
      · rw [hc]
        exact { h with subs := h.subs.linkHandler hfp }
  | unsubscribe topicFilter env =>
    refine ⟨rfl, ?_⟩
    simp only [receiverStep, wrapperMqttUnsubscribe]
    split_ifs
    · exact h
    · exact h
    · apply Incoming.afterRequest
      rcases mqttUnsubscribe_cases (iotxMcGetNextPacketid c).2 topicFilter
          (iotxMcGetNextPacketid c).1 env with ⟨-, hc⟩ | ⟨-, hc⟩
      · rw [hc]
        exact h
      · rw [hc]
        exact { h with subs := h.subs.filter _ }

theorem iotxMcHandleRecvPublish_ok (hsubs : SubListInv c.listSubHandle) {buf : Memory}
    {msg : TopicInfo} (hmsg : recvPublishMessage buf = .ok msg) (env : SendEnv) :
    (iotxMcHandleRecvPublish c buf env).2 =
      (c, expectedCalls c (memSlice buf msg.ptopic msg.topicLen) msg) := by
  rw [iotxMcHandleRecvPublish, hmsg, ← iotxMcDeliverMessage_eq hsubs]
  dsimp only
  split_ifs
  · rfl
  · rfl
  · rfl
  · rfl

/-- The calls for a message, with the pointers into a buffer that holds its packet. -/
theorem filterMap_expectedCalls {buf : Memory}
    (hname : memSlice buf (receivedInfo req).ptopic (receivedInfo req).topicLen =
      req.topicName.bytes)
    (hpayload : memSlice buf (receivedInfo req).payload (receivedInfo req).payloadLen =
      req.payload) :
    (expectedCalls c req.topicName.bytes (receivedInfo req)).filterMap (·.delivery buf) =
      deliveriesOf c req := by
  rw [deliveriesOf, ← filterMap_eq_map]
  apply filterMap_congr
  intro call hcall
  have hmsg : call.msg = .topicInfo (receivedInfo req) := by
    rcases mem_append.mp hcall with hcall | hcall
    · obtain ⟨e, -, rfl⟩ := mem_map.mp hcall
      rfl
    · split_ifs at hcall
      · exact (mem_callHandleEvent hcall).2
      · exact absurd hcall not_mem_nil
  rw [Invocation.delivery, hmsg]
  dsimp only
  rw [hname, hpayload]
  rfl

/-- A cycle takes the first packet from the stream. -/
theorem Incoming.cycle (h : Incoming sender (req :: reqs) c.recvBuf c.net c.listSubHandle)
    {env : CycleEnv} (hread : env.read = .served) (hconn : c.clientState = .connected) :
    (receiverStep c (.cycle env)).2 = deliveriesOf c req ∧
      let c' := (receiverStep c (.cycle env)).1
      Incoming sender reqs c'.recvBuf c'.net c'.listSubHandle := by
  obtain ⟨htopic, hqos, hretain, hremLen, hsize, hfits⟩ := h.sendable req mem_cons_self
  obtain ⟨hfirst, hrest⟩ := (holdsAt_append _ _ _ _).mp h.stream
  dsimp only at hfirst hrest
  rw [(publishPacket_eq hsize).1] at hfits hfirst hrest
  dsimp only at hfits hfirst hrest
  have hlt : req.remLen < 128 ^ 4 := by omega
  have hlen : (req.header :: (mqttPacketEncode req.remLen ++ req.body)).length =
      req.remLen + fixedHeaderLen req.remLen := by
    rw [length_cons, length_append, req.length_body, fixedHeaderLen]
    omega
  have hstream := hfirst.memSlice_eq
  rw [hlen] at hfits hstream hrest
  -- an accepted topic has at least its slash
  obtain ⟨hhead, hmax⟩ := accepted_head_length htopic
  have hpos : 0 < req.topicName.strlen := by
    apply length_pos_iff.mpr
    intro hnil
    rw [hnil] at hhead
    exact absurd hhead (by decide)
  obtain ⟨hmsg, hname, hpayload⟩ := recvPublishMessage_publish hqos hretain hpos
    (by rw [configMqttTopicMaxlen] at hmax; omega) hlt
    (holdsBytes_memOf (req.header :: (mqttPacketEncode req.remLen ++ req.body)) env.rest).holdsAt
  have htype : mqttHeaderGetType req.header = MsgType.publish.code :=
    (mqttHeaderSet_publish hqos hretain).1
  have hpkt := iotxMcReadPacket_fits h.buffer h.established hlt hstream hfits
  rw [htype, ← hread] at hpkt
  have htakes : Takes c env .publish (req.header :: (mqttPacketEncode req.remLen ++ req.body)) :=
    ⟨hconn, congrArg ReadResult.rc hpkt, congrArg ReadResult.packetType hpkt,
      congrArg ReadResult.buf hpkt⟩
  obtain ⟨state, hcycle⟩ := iotxMcCycle_takes htakes (by decide)
  have hnext : Incoming sender reqs c.recvBuf
      (c.net.advance (req.remLen + fixedHeaderLen req.remLen)) c.listSubHandle :=
    ⟨h.buffer, h.established, h.subs, fun r hr => h.sendable r (mem_cons_of_mem _ hr), hrest⟩
  rw [hpkt] at hcycle
  dsimp only at hcycle
  have hrecv := @iotxMcHandleRecvPublish_ok { c with
    clientState := state
    keepaliveProbes := 0
    net := c.net.advance (req.remLen + fixedHeaderLen req.remLen) } h.subs _ _ hmsg env.ack
  change (iotxMcCycleSwitch _ MsgType.publish.code _ env).2 = _ at hrecv
  rw [hrecv, hname] at hcycle
  rw [receiverStep, hcycle, hpkt]
  refine ⟨filterMap_expectedCalls hname hpayload, ?_⟩
  dsimp only [afterCallbacks]
  split_ifs
  · exact hnext
  · exact hnext

end Steps

/-- **Delivery in order.**  Whatever requests are published one after the other that the protocol
allows and for which the buffers of both sides have room (`PubRequest.Sendable`, and a read buffer
that `HoldsFixedHeader`), and whatever the application of the receiver does between its cycles: each
cycle of the connected receiver delivers the next message, with the topic, the payload and the flags
of its request, once to every handler that it is for; nothing is delivered besides. -/
theorem deliveries_eq_queueDeliveries {sender receiver : Client} {reqs : List PubRequest}
    (h : Incoming sender reqs receiver.recvBuf receiver.net receiver.listSubHandle)
    (ops : List ReceiverOp) (hserved : ∀ env, .cycle env ∈ ops → env.read = .served)
    (hcount : ops.countP ReceiverOp.isCycle ≤ reqs.length) :
    deliveries receiver ops = queueDeliveries receiver reqs ops := by
  induction ops generalizing receiver reqs with
  | nil => rfl
  | cons op ops ih =>
    have hserved' : ∀ env, .cycle env ∈ ops → env.read = .served :=
      fun env hmem => hserved env (mem_cons_of_mem _ hmem)
    rw [countP_cons] at hcount
    rw [deliveries, queueDeliveries]
    cases hop : op.isCycle with
    | false =>
      obtain ⟨hdel, hnext⟩ := h.request hop
      rw [if_neg (fun hc => Bool.noConfusion hc.1), hdel, ih hnext hserved' (by omega)]
    | true =>
      obtain ⟨env, rfl⟩ : ∃ env, op = .cycle env := by
        cases op with
        | cycle env => exact ⟨env, rfl⟩
        | subscribe req env => exact absurd hop Bool.noConfusion
        | unsubscribe topicFilter env => exact absurd hop Bool.noConfusion
      rw [hop, if_pos rfl] at hcount
      by_cases hconn : receiver.clientState = .connected
      · rw [if_pos ⟨rfl, hconn⟩]
        cases reqs with
        | nil => exact absurd hcount (Nat.not_succ_le_zero _)
        | cons req reqs =>
          obtain ⟨hdel, hnext⟩ := h.cycle (hserved env mem_cons_self) hconn
          rw [hdel, ih hnext hserved' (Nat.le_of_succ_le_succ hcount)]
          simp
      · -- a client that is not connected reads nothing
        have hcycle : iotxMcCycle receiver env = (mqttStateError, receiver, []) := if_pos hconn
        rw [if_neg (fun hc => hconn hc.2), receiverStep, hcycle]
        exact congrArg _ (ih h hserved' (Nat.le_of_succ_le hcount))

/-- The first message goes to the default handler, the second to the one that has subscribed. -/
theorem deliveries_eq_queueDeliveries_two :
    let reqs := [requestQos1, requestQos0]
    let stream := reqs.flatMap fun req => (publishPacket idleClient req).2
    let receiver := { defaultHandlerClient with net := ⟨true, memOf stream fun _ => 0, 0⟩ }
    let cycle : ReceiverOp := .cycle ⟨.served, fun _ => 0, 0, ⟨true, []⟩, false⟩
    let ops := [cycle, .subscribe ⟨filterPlus, 0, 2, 0⟩ subEnvServed, cycle]
    deliveries receiver ops = queueDeliveries receiver reqs ops ∧
      (queueDeliveries receiver reqs ops).map (·.map (·.handle.hFp)) = [[1], [], [2]] := by
  intro reqs stream receiver cycle ops
  have hsend : ∀ req ∈ reqs, req.Sendable idleClient receiver.recvBuf :=
    forall_mem_cons.mpr ⟨⟨by decide, by decide, by decide, by decide, by decide, by decide⟩,
      forall_mem_singleton.mpr ⟨by decide, by decide, by decide, by decide, by decide,
        by decide⟩⟩
  have hincoming : Incoming idleClient reqs receiver.recvBuf receiver.net receiver.listSubHandle :=
    ⟨show 5 ≤ BufMode.recvSize (.dynBuf 1024) 0 by decide, rfl,
      ⟨nodup_nil, fun e he => absurd he not_mem_nil⟩, hsend,
      (holdsBytes_memOf stream fun _ => 0).holdsAt⟩
  refine ⟨deliveries_eq_queueDeliveries hincoming ops ?_ (by decide), by decide⟩
  simp [ops, cycle]

end Iotkit.Mqtt
