/-
# A received PUBLISH and the packet it came in

`MQTTDeserialize_publish` checks that the topic ends inside the packet, but for QoS above 0 it reads
the packet id behind the topic without checking that two bytes are left: the payload length then
becomes negative, and `iotx_mc_handle_recv_PUBLISH` stores it as a `uint32_t`.
-/
import Iotkit.MqttClient

namespace Iotkit.Mqtt

/-! ## What the reader stores -/

theorem iotxMcDecodePacketLoop_value_le (reads : ℕ → ReadEvent) (left : ℕ) :
    ∀ (len multiplier value : ℕ) (net : Net),
      (iotxMcDecodePacketLoop reads left len multiplier value net).2.1 + multiplier
        ≤ value + multiplier * 128 ^ left := by
  induction left with
  | zero => intro len multiplier value net; simp [iotxMcDecodePacketLoop]
  | succ left ih =>
    intro len multiplier value net
    have hpos : 1 ≤ 128 ^ left := Nat.one_le_pow _ _ (by decide)
    have hmul : multiplier * 128 ^ (left + 1) = 128 * (multiplier * 128 ^ left) := by
      rw [Nat.pow_succ]; ring
    have hle : multiplier ≤ multiplier * 128 ^ left := Nat.le_mul_of_pos_right _ hpos
    have hdigit : ∀ c : UInt8, (c &&& 127).toNat * multiplier ≤ 127 * multiplier := by
      intro c
      apply Nat.mul_le_mul_right
      rw [toNat_and_127]
      omega
    rw [iotxMcDecodePacketLoop]
    generalize ipstackRead net 1 (reads len) = r
    obtain ⟨rc, i, net'⟩ := r
    have hlow := hdigit (i.headD 0)
    have hrest := ih (len + 1) (multiplier * 128)
      (value + (i.headD 0 &&& 127).toNat * multiplier) net'
    have hassoc : multiplier * 128 * 128 ^ left = 128 * (multiplier * 128 ^ left) := by ring
    simp only
    generalize (i.headD 0 &&& 127).toNat * multiplier = low at *
    split_ifs
    · show value + multiplier ≤ _
      omega
    · show value + multiplier ≤ _
      omega
    · omega
    · show value + low + multiplier ≤ _
      omega

/-- A packet of total length `pkt.length` as `iotx_mc_read_packet` stores it. -/
structure StoredPacket (pkt : Bytes) (header : UInt8) (body : Bytes) : Prop where
  eq : pkt = header :: (mqttPacketEncode body.length ++ body)
  lt : body.length < 128 ^ 4

theorem iotxMcReadOversized_packetType (m : BufMode) (net : Net) (env : ReadEnv)
    (size len remLen : ℕ) :
    (iotxMcReadOversized m net env size len remLen).packetType = MsgType.reserved.code := by
  unfold iotxMcReadOversized
  simp only
  split_ifs <;> rfl

theorem iotxMcReadRest_stored {m : BufMode} {net : Net} {env : ReadEnv} {h : UInt8} {remLen : ℕ}
    (hlt : remLen < 128 ^ 4) (hrc : (iotxMcReadRest m net env [h] remLen).rc = successReturn)
    (htype : (iotxMcReadRest m net env [h] remLen).packetType ≠ MsgType.reserved.code) :
    ∃ body, StoredPacket (iotxMcReadRest m net env [h] remLen).buf h body ∧
      (iotxMcReadRest m net env [h] remLen).packetType = mqttHeaderGetType h := by
  unfold iotxMcReadRest at *
  by_cases halloc : m.allocFails env.alloc1 = true
  · simp only [if_pos halloc] at hrc
    cases hrc
  simp only [if_neg halloc] at *
  by_cases hover : 0 < remLen ∧ m.recvSize (remLen + fixedHeaderLen remLen)
      < remLen + fixedHeaderLen remLen
  · rw [if_pos hover, iotxMcReadOversized_packetType] at htype
    exact absurd rfl htype
  rw [if_neg hover] at *
  have hbody := @length_body_of_checks net remLen env.body
  generalize ipstackRead net remLen env.body = r at *
  obtain ⟨rc, body, net'⟩ := r
  simp only at *
  by_cases herr : 0 < remLen ∧ rc < 0
  · rw [if_pos herr] at hrc
    cases hrc
  rw [if_neg herr] at *
  by_cases hshort : 0 < remLen ∧ rc ≠ remLen
  · rw [if_pos hshort] at hrc
    cases hrc
  rw [if_neg hshort] at *
  replace hbody := hbody herr hshort
  refine ⟨body, ⟨?_, hbody ▸ hlt⟩, rfl⟩
  rw [hbody]
  simp

/-- Whatever the stream and the schedule of reads, a packet that is passed on was stored
whole, with its length field in canonical form. -/
theorem iotxMcReadPacket_stored {m : BufMode} {net : Net} {env : ReadEnv}
    (hrc : (iotxMcReadPacket m net env).rc = successReturn)
    (htype : (iotxMcReadPacket m net env).packetType ≠ MsgType.reserved.code) :
    ∃ header body, StoredPacket (iotxMcReadPacket m net env).buf header body ∧
      (iotxMcReadPacket m net env).packetType = mqttHeaderGetType header := by
  obtain ⟨h, net', remLen, hlt, heq⟩ : ∃ h net' remLen, remLen < 128 ^ 4 ∧
      iotxMcReadPacket m net env = iotxMcReadRest m net' env [h] remLen := by
    unfold iotxMcReadPacket at *
    by_cases halloc : m.allocFails env.alloc0 = true
    · rw [if_pos halloc] at hrc
      cases hrc
    rw [if_neg halloc] at *
    have hheader := length_ipstackRead net 1 env.header
    generalize ipstackRead net 1 env.header = r₁ at *
    obtain ⟨rc₁, header, net₁⟩ := r₁
    have hval := iotxMcDecodePacketLoop_value_le env.length 4 0 1 0 net₁
    cases hdec : iotxMcDecodePacket net₁ env.length with
    | mk rc₂ rest =>
      rw [show iotxMcDecodePacketLoop env.length 4 0 1 0 net₁ = _ from hdec] at hval
      simp only [hdec] at *
      split_ifs at hrc htype ⊢ with h0 h1 h2
      · exact absurd rfl htype
      · cases hrc
      · have hzero : rc₂ = 0 := hrc
        omega
      · obtain ⟨-, ⟨hneg, -⟩ | hone⟩ := hheader
        · omega
        · obtain ⟨h, rfl⟩ : ∃ h, header = [h] := List.length_eq_one_iff.mp (by omega)
          exact ⟨h, rest.2, rest.1, by omega, rfl⟩
  rw [heq] at hrc htype ⊢
  obtain ⟨body, hstored, hty⟩ := iotxMcReadRest_stored hlt hrc htype
  exact ⟨h, body, hstored, hty⟩

/-! ## What the handler makes of it -/

/-- The topic length field of a PUBLISH body. -/
def topicLenOf (body : Bytes) : ℕ :=
  256 * (body.getD 0 0).toNat + (body.getD 1 0).toNat

/-- For QoS above 0 the packet has room for a packet id behind the topic. -/
def RoomForPacketId (header : UInt8) (body : Bytes) : Prop :=
  0 < mqttHeaderGetQos header → 2 + topicLenOf body + 2 ≤ body.length

/-- Topic and payload lie within a packet of `total` bytes, and the payload is all that
is left behind the topic and, for QoS above 0, the packet id. -/
structure TopicInfo.InPacket (total : ℕ) (msg : TopicInfo) : Prop where
  topic : msg.ptopic + msg.topicLen ≤ total
  payload : msg.payload + msg.payloadLen ≤ total
  left : msg.ptopic + msg.topicLen + (if 0 < msg.qos then 2 else 0) + msg.payloadLen = total

variable {pkt : Bytes} {header : UInt8} {body : Bytes}

section

variable (h : StoredPacket pkt header body)
include h

theorem StoredPacket.length :
    pkt.length = 1 + (mqttPacketEncode body.length).length + body.length := by
  rw [h.eq]
  simp
  omega

theorem StoredPacket.header_eq (rest : Memory) : memOf pkt rest 0 = header := by
  rw [h.eq]
  simp [memOf]

theorem StoredPacket.decode (rest : Memory) :
    mqttPacketDecodeBuf (memOf pkt rest) 1
      = ((mqttPacketEncode body.length).length, body.length) := by
  refine mqttPacketDecodeBuf_encode h.lt fun i hi => ?_
  have hlen := h.length
  rw [holdsBytes_memOf pkt rest (1 + i) (by omega)]
  have heq := h.eq
  subst heq
  simp [Nat.add_comm 1, List.getElem_append_left hi]

theorem StoredPacket.body_at (rest : Memory) {j : ℕ} (hj : j < body.length) :
    memOf pkt rest (1 + (mqttPacketEncode body.length).length + j) = body.getD j 0 := by
  have hlen := h.length
  rw [holdsBytes_memOf pkt rest _ (by omega)]
  have heq := h.eq
  subst heq
  simp [Nat.add_comm 1, Nat.add_right_comm, List.getElem_append_right, hj]

end

variable {buf : Memory}

/-- What `MQTTDeserialize_publish` leaves behind if it reads the topic at all: the only
bound it has checked is the end of the topic. -/
theorem mqttDeserializePublish_topic {n mylen : ℕ} (hdec : mqttPacketDecodeBuf buf 1 = (n, mylen))
    {topicData : ℕ} (htopic : (mqttDeserializePublish buf).topicData = some topicData) :
    let fields := mqttDeserializePublish buf
    let topicLen := readInt buf (1 + n)
    let idLen := if 0 < mqttHeaderGetQos (buf 0) then 2 else 0
    1 < mylen ∧ 2 + topicLen ≤ mylen ∧ topicData = 1 + n + 2 ∧
      fields.qos = mqttHeaderGetQos (buf 0) ∧ fields.topicLen = topicLen ∧
      fields.payload = 1 + n + 2 + topicLen + idLen ∧
      fields.payloadlen = ((1 + n + mylen : ℕ) : ℤ) - fields.payload := by
  by_cases htype : mqttHeaderGetType (buf 0) ≠ MsgType.publish.code
  · simp [mqttDeserializePublish, htype] at htopic
  by_cases hlong : 1 < mylen
  · by_cases hfits : 1 + n + 2 + readInt buf (1 + n) ≤ 1 + n + mylen
    · by_cases hqos : 0 < mqttHeaderGetQos (buf 0)
      · simp [mqttDeserializePublish, htype, hdec, hlong, hfits, hqos] at htopic ⊢
        omega
      · simp [mqttDeserializePublish, htype, hdec, hlong, hfits, hqos] at htopic ⊢
        omega
    · simp [mqttDeserializePublish, htype, hdec, hlong, hfits] at htopic
  · simp [mqttDeserializePublish, htype, hdec, hlong] at htopic

theorem StoredPacket.readInt_topicLen (h : StoredPacket pkt header body) (rest : Memory)
    (hlong : 1 < body.length) :
    readInt (memOf pkt rest) (1 + (mqttPacketEncode body.length).length) = topicLenOf body := by
  have h0 := h.body_at rest (show 0 < body.length by omega)
  have h1 := h.body_at rest hlong
  rw [Nat.add_zero] at h0
  rw [readInt, topicLenOf, h0, h1]

/-- A message is made only of a PUBLISH whose topic was read and is not empty. -/
theorem recvPublishMessage_ok {msg : TopicInfo} (h : recvPublishMessage buf = .ok msg) :
    ∃ topicData, (mqttDeserializePublish buf).topicData = some topicData ∧
      msg.ptopic = topicData ∧ msg.qos = (mqttDeserializePublish buf).qos ∧
      msg.topicLen = (mqttDeserializePublish buf).topicLen ∧
      msg.payload = (mqttDeserializePublish buf).payload ∧
      msg.payloadLen = ((mqttDeserializePublish buf).payloadlen % 2 ^ 32).toNat := by
  unfold recvPublishMessage at h
  generalize mqttDeserializePublish buf = fields at h ⊢
  by_cases hrc : fields.rc ≠ 1
  · simp [hrc] at h
  cases htd : fields.topicData with
  | none => simp [hrc, htd] at h
  | some topicData =>
    by_cases hempty : fields.topicLen = 0
    · simp [hrc, htd, hempty] at h
    · simp only [hrc, htd, hempty, if_false, Except.ok.injEq] at h
      subst h
      exact ⟨topicData, rfl, rfl, rfl, rfl, rfl, rfl⟩

/-- A `uint32_t` holds the distance from an offset to the end exactly when the offset is
not past the end; otherwise it wraps around. -/
theorem offset_add_wrapped_eq_iff {total offset : ℕ} (htotal : total < 2 ^ 32)
    (hoffset : offset ≤ total + 2) :
    offset + (((total : ℤ) - offset) % 2 ^ 32).toNat = total ↔ offset ≤ total := by
  omega

/-- A message made of a stored PUBLISH stays inside the packet exactly when there is
room for the packet id. -/
theorem recvPublishMessage_inPacket_iff (h : StoredPacket pkt header body) {rest : Memory}
    {msg : TopicInfo} (hmsg : recvPublishMessage (memOf pkt rest) = .ok msg) :
    msg.InPacket pkt.length ↔ RoomForPacketId header body := by
  obtain ⟨topicData, htd, hptopic, hqos, htl, hpl, hpll⟩ := recvPublishMessage_ok hmsg
  obtain ⟨hlong, hfits, hstart, hq, ht, hp, hlen⟩ := mqttDeserializePublish_topic (h.decode rest) htd
  rw [h.readInt_topicLen rest hlong] at hfits ht hp
  rw [h.header_eq rest] at hq hp
  have htotal := h.length
  have hlt := h.lt
  have hfield := VarLen.length_encode_le 3 body.length hlt
  change (mqttPacketEncode body.length).length ≤ 4 at hfield
  rw [hlen, ← hpl, ← htotal] at hpll
  rw [hq] at hqos
  rw [ht] at htl
  rw [hp] at hpl
  rw [hstart] at hptopic
  have hsmall : pkt.length < 2 ^ 32 := by omega
  have hqos2 : (if 0 < msg.qos then 2 else 0) ≤ 2 := by split_ifs <;> omega
  -- the payload starts behind the topic and the packet id
  have hoffset : msg.payload = msg.ptopic + msg.topicLen + (if 0 < msg.qos then 2 else 0) := by
    rw [hpl, hptopic, htl, hqos]
  have hend : msg.payload + msg.payloadLen = pkt.length ↔ msg.payload ≤ pkt.length := by
    rw [hpll]
    exact offset_add_wrapped_eq_iff hsmall (by omega)
  have hroom : RoomForPacketId header body ↔ msg.payload ≤ pkt.length := by
    unfold RoomForPacketId
    rw [hoffset, hptopic, htl, hqos]
    by_cases hpos : 0 < mqttHeaderGetQos header
    · rw [if_pos hpos]
      constructor
      · intro hr
        have := hr hpos
        omega
      · intro hle _
        omega
    rw [if_neg hpos]
    constructor
    · intro _
      omega
    · intro _ hp'
      exact absurd hp' hpos
  rw [hroom, ← hend]
  constructor
  · intro hin
    rw [hoffset]
    exact hin.left
  · intro heq
    exact ⟨by omega, by omega, hoffset ▸ heq⟩

theorem iotxMcDeliverMessageLoop_msg (topicName : MqttString) (msg : TopicInfo) :
    ∀ (l : List TopicHandle) (calls : List Invocation) (flagMatched : Bool),
      (∀ call ∈ calls, call.msg = .topicInfo msg) →
      ∀ call ∈ (iotxMcDeliverMessageLoop topicName msg l calls flagMatched).1,
        call.msg = .topicInfo msg := by
  intro l
  induction l with
  | nil => intro calls flagMatched hcalls; exact hcalls
  | cons node rest ih =>
    intro calls flagMatched hcalls
    unfold iotxMcDeliverMessageLoop
    split_ifs
    · exact ih _ _ (List.forall_mem_append.mpr ⟨hcalls, List.forall_mem_singleton.mpr rfl⟩)
    · exact ih _ _ hcalls
    · exact ih _ _ hcalls

theorem iotxMcDeliverMessage_msg (c : Client) (topicName : MqttString) (msg : TopicInfo) :
    ∀ call ∈ iotxMcDeliverMessage c topicName msg, call.msg = .topicInfo msg := by
  have hloop := iotxMcDeliverMessageLoop_msg topicName msg c.listSubHandle [] false (by simp)
  intro call hcall
  unfold iotxMcDeliverMessage callHandleEvent at hcall
  simp only at hcall
  split_ifs at hcall
  · rcases List.mem_append.mp hcall with hcall | hcall
    · exact hloop call hcall
    · rw [List.mem_singleton.mp hcall]
  · rw [List.append_nil] at hcall
    exact hloop call hcall
  · exact hloop call hcall

/-- Every call a received PUBLISH leads to hands over the message made of it. -/
theorem iotxMcHandleRecvPublish_calls {c : Client} {env : SendEnv}
    (hcalls : (iotxMcHandleRecvPublish c buf env).2.2 ≠ []) :
    ∃ msg, recvPublishMessage buf = .ok msg ∧
      ∀ call ∈ (iotxMcHandleRecvPublish c buf env).2.2, call.msg = .topicInfo msg := by
  unfold iotxMcHandleRecvPublish at *
  cases hmsg : recvPublishMessage buf with
  | error rc => simp [hmsg] at hcalls
  | ok msg =>
    refine ⟨msg, rfl, ?_⟩
    have hdeliver := iotxMcDeliverMessage_msg c ⟨none, memSlice buf msg.ptopic msg.topicLen⟩ msg
    simp only
    split_ifs <;> exact hdeliver

/-- **A delivered PUBLISH.** For whatever packet of type PUBLISH `iotx_mc_read_packet` stores: if it
is delivered, topic and payload lie inside the packet, with the payload all that is left, exactly
when the packet has room for its packet id. -/
theorem recvPublish_in_packet_iff (m : BufMode) (net : Net) (renv : ReadEnv) (rest : Memory)
    (c : Client) (env : SendEnv)
    (hrc : (iotxMcReadPacket m net renv).rc = successReturn)
    (htype : (iotxMcReadPacket m net renv).packetType = MsgType.publish.code)
    (hcalls : (iotxMcHandleRecvPublish c (memOf (iotxMcReadPacket m net renv).buf rest) env).2.2
      ≠ []) :
    let pkt := (iotxMcReadPacket m net renv).buf
    ∃ header body, StoredPacket pkt header body ∧
      ((∀ call ∈ (iotxMcHandleRecvPublish c (memOf pkt rest) env).2.2,
          ∀ msg, call.msg = .topicInfo msg → msg.InPacket pkt.length) ↔
        RoomForPacketId header body) := by
  intro pkt
  obtain ⟨header, body, hstored, -⟩ := iotxMcReadPacket_stored hrc (by rw [htype]; decide)
  refine ⟨header, body, hstored, ?_⟩
  obtain ⟨msg, hmsg, hall⟩ := iotxMcHandleRecvPublish_calls hcalls
  rw [← recvPublishMessage_inPacket_iff hstored hmsg]
  constructor
  · intro h
    obtain ⟨call, hcall⟩ := List.exists_mem_of_ne_nil _ hcalls
    exact h call hcall msg (hall call hcall)
  · intro h call hcall msg' hmsg'
    have heq : msg' = msg := by
      rw [hall call hcall] at hmsg'
      exact (EventMsg.topicInfo.inj hmsg').symm
    rw [heq]
    exact h

/-- A client with a default handler. -/
def defaultHandlerClient : Client := { idleClient with handleEvent := ⟨1, 0⟩ }

/-- A QoS 1 PUBLISH on `/a` with the packet id 7 and the payload `x`. -/
def publishQos1 : Net := ⟨true, memOf [0x32, 7, 0, 2, 0x2F, 0x61, 0, 7, 0x78] fun _ => 0, 0⟩

/-- A QoS 1 PUBLISH on `/a` that ends behind the topic. -/
def publishQos1Cut : Net := ⟨true, memOf [0x32, 4, 0, 2, 0x2F, 0x61] fun _ => 0, 0⟩

theorem recvPublish_in_packet_qos1 :
    let pkt := (iotxMcReadPacket (.dynBuf 1024) publishQos1 ReadEnv.served).buf
    ∃ header body, StoredPacket pkt header body ∧
      ((∀ call ∈ (iotxMcHandleRecvPublish defaultHandlerClient (memOf pkt fun _ => 0)
            ⟨true, [.wrote 4]⟩).2.2,
          ∀ msg, call.msg = .topicInfo msg → msg.InPacket pkt.length) ↔
        RoomForPacketId header body) :=
  recvPublish_in_packet_iff (.dynBuf 1024) publishQos1 ReadEnv.served (fun _ => 0)
    defaultHandlerClient ⟨true, [.wrote 4]⟩ (by decide) (by decide) (by decide)

/-- The cut packet of 6 bytes is delivered with a payload of 4294967294 bytes. -/
theorem recvPublish_past_packet_cut :
    let r := iotxMcReadPacket (.dynBuf 1024) publishQos1Cut ReadEnv.served
    r.rc = successReturn ∧ r.packetType = MsgType.publish.code ∧ r.buf.length = 6 ∧
      (iotxMcHandleRecvPublish defaultHandlerClient (memOf r.buf fun _ => 0) ⟨true, []⟩).2.2
        = [⟨⟨1, 0⟩, .publishReceived, .topicInfo ⟨0, 1, 0, 0, 4, 2, 8, 4294967294⟩⟩] ∧
      ¬ TopicInfo.InPacket r.buf.length ⟨0, 1, 0, 0, 4, 2, 8, 4294967294⟩ := by
  refine ⟨by decide, by decide, by decide, by decide, fun h => ?_⟩
  exact absurd h.left (by decide)

end Iotkit.Mqtt
