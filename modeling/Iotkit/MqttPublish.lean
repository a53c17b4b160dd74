/-
# Publishing

`iotx_mc_get_next_packetid`, `iotx_mc_push_pubInfo_to`, `MQTTPublish`,
`wrapper_mqtt_publish`, `MQTTRePublish` and the sweep `MQTTPubInfoProc`
(`iotx_mqtt_client.c`), with what each does to `list_pub_wait_ack`.

All of them hold `lock_list_pub` from the first to the last access to the list, so
each is one step.
-/
import Iotkit.MqttClient

namespace Iotkit.Mqtt

open List

/-! ## Packet ids -/

def iotxMcPacketIdMax : ℕ := 65535

def iotxMcGetNextPacketid (c : Client) : ℕ × Client :=
  let id := if c.packetId = iotxMcPacketIdMax then 1 else c.packetId + 1
  (id, { c with packetId := id })

/-! ## `MQTTPublish` -/

def iotxMcRepubNumMax : ℕ := 20

/-- The arguments of a publish: the topic name and the fields of the
`iotx_mqtt_topic_info_t` that are read.  `packet_id` is a `uint16_t`, and the buffer
size is computed as an `int`. -/
structure PubRequest where
  topicName : CString
  qos : ℕ
  retain : ℕ
  packetId : ℕ
  payload : Bytes
  packetId_lt : packetId < 2 ^ 16
  size_lt : mqttDynbufSendMargin + (topicName.strlen + payload.length) < 2 ^ 31

/-- What the allocator, the clock and the network do during one `MQTTPublish`. -/
structure PubEnv where
  alloc : Bool
  nodeAlloc : Bool
  now : UInt32
  writes : List WriteEvent

/-- The node `iotx_mc_push_pubInfo_to` makes for the packet `buf`. -/
def newPubInfo (ptr msgId : ℕ) (now : UInt32) (buf : Bytes) : PubInfo :=
  { ptr := ptr, pubStartTime := now, nodeState := .normanl, msgId := msgId, buf := buf }

/-- `iotx_mc_push_pubInfo_to`: the list with the new node, if the packet fits, the
list is not full and memory can be had. -/
def iotxMcPushPubInfoTo (l : List PubInfo) (bufSizeSend : ℕ) (node : PubInfo)
    (nodeAlloc : Bool) : Option (List PubInfo) :=
  if bufSizeSend < node.buf.length then none
  else if iotxMcRepubNumMax ≤ l.length then none
  else if nodeAlloc = false then none
  else some (l ++ [node])

/-- What `MQTTPublish` serializes the request into. -/
def publishPacket (c : Client) (req : PubRequest) : ℤ × Bytes :=
  mqttSerializePublish (c.sendBuf.sendSize (req.topicName.strlen + req.payload.length))
    0 req.qos req.retain req.packetId req.topicName req.payload

/-- `MQTTPublish`; `ptr` is the address of the node it allocates. -/
def mqttPublish (c : Client) (ptr : ℕ) (req : PubRequest) (env : PubEnv) : ℤ × Client :=
  if c.sendBuf.allocFails env.alloc then (failReturn, c)
  else
    let (len, bytes) := publishPacket c req
    if len ≤ 0 then (mqttPublishPacketError, c)
    else if 0 < req.qos then
      let node := newPubInfo ptr req.packetId env.now bytes
      match iotxMcPushPubInfoTo c.listPubWaitAck
          (c.sendBuf.sendSize (req.topicName.strlen + req.payload.length)) node env.nodeAlloc with
      | none => (mqttPushToListError, c)
      | some l =>
        if iotxMcSendPacket bytes env.writes ≠ successReturn then
          -- `list_del` of the node just added
          (mqttNetworkError, { c with listPubWaitAck := l.filter (fun n => n.ptr ≠ node.ptr) })
        else (successReturn, { c with listPubWaitAck := l })
    else if iotxMcSendPacket bytes env.writes ≠ successReturn then (mqttNetworkError, c)
    else (successReturn, c)

/-- The request with the packet id `id`, stored into a `uint16_t`. -/
def PubRequest.withPacketId (req : PubRequest) (id : ℕ) : PubRequest :=
  { req with packetId := id % 2 ^ 16, packetId_lt := Nat.mod_lt _ (by decide) }

/-- How the wrappers end: an error is returned, a network error also marks the client
disconnected, and a success returns the packet id. -/
def afterRequest (msgId : ℕ) (r : ℤ × Client) : ℤ × Client :=
  if r.1 ≠ successReturn then
    (r.1, if r.1 = mqttNetworkError then { r.2 with clientState := .disconnected } else r.2)
  else ((msgId : ℤ), r.2)

/-- `wrapper_mqtt_publish` once the topic and the client state have been checked. -/
def wrapperMqttPublishChecked (c : Client) (ptr : ℕ) (req : PubRequest) (env : PubEnv) :
    ℤ × Client :=
  let ack := req.qos = 1 ∨ req.qos = 2
  let (id, c) := if ack then iotxMcGetNextPacketid c else (0, c)
  let req := if ack then req.withPacketId id else req
  if req.qos = 2 then (mqttPublishQosError, c)
  else afterRequest (id % 2 ^ 16) (mqttPublish c ptr req env)

/-- `wrapper_mqtt_publish`: the return value and the client. -/
def wrapperMqttPublish (c : Client) (ptr : ℕ) (req : PubRequest) (env : PubEnv) : ℤ × Client :=
  if iotxMcCheckTopic req.topicName .topicName ≠ 0 then (mqttTopicFormatError, c)
  else if c.clientState ≠ .connected then (mqttStateError, c)
  else wrapperMqttPublishChecked c ptr req env

theorem afterRequest_frame (msgId : ℕ) (r : ℤ × Client) :
    (afterRequest msgId r).2.listPubWaitAck = r.2.listPubWaitAck ∧
      (afterRequest msgId r).2.packetId = r.2.packetId := by
  unfold afterRequest
  split_ifs <;> exact ⟨rfl, rfl⟩

/-! ## The sweep -/

/-- `utils_time_spend`, on the wrapping millisecond clock. -/
def utilsTimeSpend (now start : UInt32) : ℕ := (now - start).toNat

/-- What the clock and the network do while the sweep looks at one node. -/
structure RepubEnv where
  now : UInt32
  writes : List WriteEvent
  restart : UInt32

/-- One `MQTTRePublish`: the node it is for, the bytes it is given, what the network
does with them. -/
structure Retransmission where
  ptr : ℕ
  buf : Bytes
  writes : List WriteEvent

def mqttRePublish (buf : Bytes) (writes : List WriteEvent) : ℤ :=
  if iotxMcSendPacket buf writes ≠ successReturn then mqttNetworkError else successReturn

/-- The traversal of `MQTTPubInfoProc`: the client state and the list afterwards, and
the retransmissions made. -/
def mqttPubInfoProcLoop (requestTimeoutMs : ℕ) (env : ℕ → RepubEnv) (state : McState) :
    List PubInfo → McState × List PubInfo × List Retransmission
  | [] => (state, [], [])
  | node :: rest =>
    if node.nodeState = .invalid then mqttPubInfoProcLoop requestTimeoutMs env state rest
    else if state ≠ .connected ∨
        utilsTimeSpend (env node.ptr).now node.pubStartTime ≤ requestTimeoutMs * 2 then
      let (s, l, ts) := mqttPubInfoProcLoop requestTimeoutMs env state rest
      (s, node :: l, ts)
    else
      let t : Retransmission := ⟨node.ptr, node.buf, (env node.ptr).writes⟩
      let node := { node with pubStartTime := (env node.ptr).restart }
      if mqttRePublish t.buf t.writes = mqttNetworkError then
        (.disconnected, node :: rest, [t])
      else
        let (s, l, ts) := mqttPubInfoProcLoop requestTimeoutMs env state rest
        (s, node :: l, t :: ts)

/-- `MQTTPubInfoProc`: the client afterwards and the retransmissions made. -/
def mqttPubInfoProc (c : Client) (env : ℕ → RepubEnv) : Client × List Retransmission :=
  match mqttPubInfoProcLoop c.requestTimeoutMs env c.clientState c.listPubWaitAck with
  | (s, l, ts) => ({ c with clientState := s, listPubWaitAck := l }, ts)

/-! ## What publishing does to the list -/

theorem filter_ptr_append {l : List PubInfo} {node : PubInfo}
    (h : ∀ n ∈ l, n.ptr ≠ node.ptr) :
    (l ++ [node]).filter (fun n => n.ptr ≠ node.ptr) = l := by
  rw [filter_append, filter_eq_self.mpr (by simpa using h)]
  simp

/-- What `MQTTPublish` can do to the list: with a label not in use, an error changes
nothing, and a success adds a node with the serialized packet if an acknowledgement is
asked for. -/
theorem mqttPublish_list {c : Client} {ptr : ℕ} (hfresh : ∀ n ∈ c.listPubWaitAck, n.ptr ≠ ptr)
    (req : PubRequest) (env : PubEnv) :
    (((mqttPublish c ptr req env).1 ≠ successReturn ∨ req.qos = 0) ∧
      (mqttPublish c ptr req env).2 = c) ∨
    ((mqttPublish c ptr req env).1 = successReturn ∧ 0 < req.qos ∧
      (mqttPublish c ptr req env).2 = { c with listPubWaitAck := c.listPubWaitAck ++
        [newPubInfo ptr req.packetId env.now (publishPacket c req).2] }) := by
  unfold mqttPublish
  by_cases halloc : c.sendBuf.allocFails env.alloc = true
  · rw [if_pos halloc]
    exact Or.inl ⟨Or.inl (by simp), rfl⟩
  rw [if_neg halloc]
  generalize hpkt : publishPacket c req = pkt
  obtain ⟨len, bytes⟩ := pkt
  simp only
  by_cases hlen : len ≤ 0
  · rw [if_pos hlen]
    exact Or.inl ⟨Or.inl (by simp), rfl⟩
  rw [if_neg hlen]
  by_cases hqos : 0 < req.qos
  · rw [if_pos hqos]
    simp only [iotxMcPushPubInfoTo]
    split
    · exact Or.inl ⟨Or.inl (by simp), rfl⟩
    · rename_i l hpush
      have hl : l = c.listPubWaitAck ++ [newPubInfo ptr req.packetId env.now bytes] := by
        split_ifs at hpush
        exact (Option.some.inj hpush).symm
      by_cases hsend : iotxMcSendPacket bytes env.writes ≠ successReturn
      · rw [if_pos hsend]
        refine Or.inl ⟨Or.inl (by simp), ?_⟩
        -- `list_del` takes out the node that was just added and no other
        rw [hl, filter_ptr_append hfresh]
      · rw [if_neg hsend, hl]
        exact .inr ⟨rfl, hqos, rfl⟩
  · rw [if_neg hqos]
    have hzero : req.qos = 0 := by omega
    split_ifs
    · exact .inl ⟨.inr hzero, rfl⟩
    · exact .inl ⟨.inr hzero, rfl⟩

/-! ## What the sweep does to the list -/

/-- A node without its start time, the only thing the sweep changes in it. -/
def PubInfo.untimed (n : PubInfo) : PubInfo := { n with pubStartTime := 0 }

@[simp] theorem PubInfo.untimed_nodeState (n : PubInfo) : n.untimed.nodeState = n.nodeState := rfl

section

variable (timeout : ℕ) (env : ℕ → RepubEnv) (state : McState) (l : List PubInfo)
include timeout env state l

theorem mqttPubInfoProcLoop_sublist :
    ((mqttPubInfoProcLoop timeout env state l).2.1.map PubInfo.untimed).Sublist
      (l.map PubInfo.untimed) := by
  induction l with
  | nil => exact List.Sublist.refl _
  | cons node rest ih =>
    simp only [mqttPubInfoProcLoop]
    split_ifs
    · exact ih.cons _
    · exact ih.cons_cons _
    · exact List.Sublist.refl _
    · exact ih.cons_cons _

theorem mqttPubInfoProcLoop_keeps {m : PubInfo} (hm : m ∈ l.map PubInfo.untimed)
    (hnormal : m.nodeState = .normanl) :
    m ∈ (mqttPubInfoProcLoop timeout env state l).2.1.map PubInfo.untimed := by
  induction l with
  | nil => exact hm
  | cons node rest ih =>
    rw [map_cons, mem_cons] at hm
    simp only [mqttPubInfoProcLoop]
    split_ifs with hinv
    · rcases hm with rfl | hm
      · rw [PubInfo.untimed_nodeState, hinv] at hnormal
        exact absurd hnormal (by decide)
      · exact ih hm
    · exact mem_cons.mpr (hm.imp id ih)
    · exact mem_cons.mpr hm
    · exact mem_cons.mpr (hm.imp id ih)

theorem mqttPubInfoProcLoop_sends :
    ∀ t ∈ (mqttPubInfoProcLoop timeout env state l).2.2,
      ∃ n ∈ l, n.nodeState = .normanl ∧ t = ⟨n.ptr, n.buf, (env n.ptr).writes⟩ := by
  induction l with
  | nil => intro t ht; exact absurd ht (by simp [mqttPubInfoProcLoop])
  | cons node rest ih =>
    have hrest : ∀ t ∈ (mqttPubInfoProcLoop timeout env state rest).2.2,
        ∃ n ∈ node :: rest, n.nodeState = .normanl ∧ t = ⟨n.ptr, n.buf, (env n.ptr).writes⟩ := by
      intro t ht
      obtain ⟨n, hn, h⟩ := ih t ht
      exact ⟨n, mem_cons_of_mem _ hn, h⟩
    have hnormal : ¬ node.nodeState = .invalid → node.nodeState = .normanl := by
      cases node.nodeState <;> simp
    simp only [mqttPubInfoProcLoop]
    split_ifs with hinv
    · exact hrest
    · exact hrest
    · exact forall_mem_singleton.mpr ⟨node, mem_cons_self, hnormal hinv, rfl⟩
    · exact forall_mem_cons.mpr ⟨⟨node, mem_cons_self, hnormal hinv, rfl⟩, hrest⟩

end

/-- No retransmission of a sweep over `l` can fail: the client is not connected, so
that none is made, or the network takes every packet. -/
def SweepServed (state : McState) (l : List PubInfo) (env : ℕ → RepubEnv) : Prop :=
  state = .connected → ∀ n ∈ l, iotxMcSendPacket n.buf (env n.ptr).writes = successReturn

theorem mqttPubInfoProcLoop_cleans {timeout : ℕ} {env : ℕ → RepubEnv} {state : McState}
    {l : List PubInfo} (h : SweepServed state l env) :
    ∀ n ∈ (mqttPubInfoProcLoop timeout env state l).2.1, n.nodeState ≠ .invalid := by
  induction l with
  | nil => intro n hn; exact absurd hn (by simp [mqttPubInfoProcLoop])
  | cons node rest ih =>
    have ih := ih fun hc n hn => h hc n (mem_cons_of_mem _ hn)
    simp only [mqttPubInfoProcLoop]
    split_ifs with hinv hkeep hfail
    · exact ih
    · exact forall_mem_cons.mpr ⟨hinv, ih⟩
    · have hconn : state = .connected := by
        by_contra hne
        exact hkeep (.inl hne)
      have hsent := h hconn node mem_cons_self
      simp [mqttRePublish, hsent] at hfail
    · exact forall_mem_cons.mpr ⟨hinv, ih⟩

end Iotkit.Mqtt
