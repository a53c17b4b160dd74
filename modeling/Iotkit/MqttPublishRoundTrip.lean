/-
# A PUBLISH that is sent and received

`MQTTPublish` computes the size of its buffer from the topic and the payload, and
`MQTTSerialize_publish` the length of the packet; the receiver takes the packet apart again.  A
packet that the protocol allows is written whole into its buffer, and what the receiver makes of it
is what was sent, but for the duplicate flag, which `MQTTPublish` never sets, and the packet id,
which a PUBLISH of QoS 0 does not carry.
-/
import Iotkit.MqttPublish
import Iotkit.MqttReadBuffer
import Iotkit.MqttTopicMatch

namespace Iotkit.Mqtt

/-! ## What is written -/

variable (req : PubRequest)

/-- The remaining length of the PUBLISH for a request. -/
def PubRequest.remLen : ℕ :=
  mqttSerializePublishLength req.qos req.topicName req.payload.length

/-- The body of the PUBLISH for a request. -/
def PubRequest.body : Bytes :=
  writeCString req.topicName ++ (if 0 < req.qos then writeInt req.packetId else []) ++ req.payload

/-- The header byte of the PUBLISH for a request. -/
def PubRequest.header : UInt8 := mqttHeaderSet .publish 0 req.qos req.retain

theorem PubRequest.length_body : req.body.length = req.remLen := by
  rw [PubRequest.body, PubRequest.remLen, mqttSerializePublishLength]
  split_ifs
  · simp [writeCString, writeInt, CString.strlen]
    omega
  · simp [writeCString, writeInt, CString.strlen]
    omega

/-- **Serializing.**  The buffer with its margin of 64 bytes holds every PUBLISH that the protocol
allows. -/
theorem publishPacket_eq {c : Client} {req : PubRequest}
    (hsize : mqttDynbufSendMargin + (req.topicName.strlen + req.payload.length) ≤
      c.sendBuf.sendSize (req.topicName.strlen + req.payload.length)) :
    publishPacket c req = (((req.header :: (mqttPacketEncode req.remLen ++ req.body)).length : ℤ),
        req.header :: (mqttPacketEncode req.remLen ++ req.body)) ∧
      mqttPacketLen req.remLen ≤
        c.sendBuf.sendSize (req.topicName.strlen + req.payload.length) := by
  have hfits : mqttPacketLen req.remLen ≤
      c.sendBuf.sendSize (req.topicName.strlen + req.payload.length) := by
    refine le_trans ?_ hsize
    have hlen : req.remLen ≤ req.topicName.strlen + req.payload.length + 4 := by
      rw [PubRequest.remLen, mqttSerializePublishLength]
      split_ifs
      · omega
      · omega
    rw [mqttDynbufSendMargin, mqttPacketLen]
    split_ifs
    · omega
    · omega
    · omega
    · omega
  refine ⟨?_, hfits⟩
  rw [publishPacket, mqttSerializePublish]
  refine (if_neg (not_lt.mpr hfits)).trans ?_
  simp [PubRequest.body, PubRequest.header, PubRequest.remLen]

/-! ## What is read -/

theorem mqttHeaderSet_publish {qos retain : ℕ} (hqos : qos ≤ 1) (hretain : retain ≤ 1) :
    let header := mqttHeaderSet .publish 0 qos retain
    mqttHeaderGetType header = MsgType.publish.code ∧ mqttHeaderGetDup header = 0 ∧
      mqttHeaderGetQos header = qos ∧ mqttHeaderGetRetain header = retain := by
  rcases Nat.le_one_iff_eq_zero_or_eq_one.mp hqos with rfl | rfl
  · rcases Nat.le_one_iff_eq_zero_or_eq_one.mp hretain with rfl | rfl
    · decide
    · decide
  · rcases Nat.le_one_iff_eq_zero_or_eq_one.mp hretain with rfl | rfl
    · decide
    · decide

/-- The message that the receiver makes of the PUBLISH for a request. -/
def receivedInfo : TopicInfo :=
  let start := fixedHeaderLen req.remLen + 2
  let idLen := if 0 < req.qos then 2 else 0
  { packetId := if 0 < req.qos then req.packetId else 0, qos := req.qos, dup := 0,
    retain := req.retain, ptopic := start, topicLen := req.topicName.strlen,
    payload := start + req.topicName.strlen + idLen, payloadLen := req.payload.length }

/-- **Deserializing.**  The receiver finds the topic, the payload and the flags in the packet. -/
theorem recvPublishMessage_publish {req : PubRequest} (hqos : req.qos ≤ 1) (hretain : req.retain ≤ 1)
    (htopic : 0 < req.topicName.strlen) (hlen : req.topicName.strlen < 2 ^ 16)
    (hremLen : req.remLen < 128 ^ 4) {buf : Memory}
    (hbuf : HoldsAt buf 0 (req.header :: (mqttPacketEncode req.remLen ++ req.body))) :
    recvPublishMessage buf = .ok (receivedInfo req) ∧
      memSlice buf (receivedInfo req).ptopic (receivedInfo req).topicLen = req.topicName.bytes ∧
      memSlice buf (receivedInfo req).payload (receivedInfo req).payloadLen = req.payload := by
  obtain ⟨htype, hdup, hq, hr⟩ := mqttHeaderSet_publish hqos hretain
  change mqttHeaderGetType req.header = _ at htype
  change mqttHeaderGetDup req.header = _ at hdup
  change mqttHeaderGetQos req.header = _ at hq
  change mqttHeaderGetRetain req.header = _ at hr
  rw [holdsAt_cons, holdsAt_append, zero_add] at hbuf
  obtain ⟨hheader, henc, hbody⟩ := hbuf
  rw [PubRequest.body, writeCString, holdsAt_append, holdsAt_append, holdsAt_append] at hbody
  obtain ⟨⟨⟨hint, hname⟩, hid⟩, hpayload⟩ := hbody
  -- the fields of the packet, as the deserializer finds them one behind the other
  have hdec := mqttPacketDecodeBuf_encode hremLen henc
  have htl := readInt_writeInt hint hlen
  have hlong : 1 < req.remLen ∧ 2 + req.topicName.strlen ≤ req.remLen := by
    rw [PubRequest.remLen, mqttSerializePublishLength]
    split_ifs
    · exact ⟨by omega, by omega⟩
    · exact ⟨by omega, by omega⟩
  have hstart : 1 + (mqttPacketEncode req.remLen).length + (writeInt req.topicName.strlen).length =
      fixedHeaderLen req.remLen + 2 := rfl
  rw [hstart] at hname
  have hfields : mqttDeserializePublish buf =
      { rc := 1, dup := 0, qos := req.qos, retained := req.retain,
        packetid := (receivedInfo req).packetId, topicLen := req.topicName.strlen,
        topicData := some (receivedInfo req).ptopic, payload := (receivedInfo req).payload,
        payloadlen := (req.payload.length : ℤ) } := by
    rw [mqttDeserializePublish]
    simp only [hheader, htype, hdec, htl, hdup, hq, hr]
    rw [if_neg (by simp), if_neg (by omega), if_neg (by omega)]
    -- only a PUBLISH of QoS 1 has a packet id in front of its payload
    by_cases hpos : 0 < req.qos
    · rw [if_pos hpos] at hid
      have hpacketId := readInt_writeInt hid req.packetId_lt
      have hlenBody : req.remLen = 2 + req.topicName.strlen + req.payload.length + 2 := if_pos hpos
      rw [List.length_append, ← add_assoc, hstart, fixedHeaderLen] at hpacketId
      simp only [receivedInfo, if_pos hpos, fixedHeaderLen, PublishFields.mk.injEq, true_and]
      exact ⟨hpacketId, by omega⟩
    · have hlenBody : req.remLen = 2 + req.topicName.strlen + req.payload.length := if_neg hpos
      simp only [receivedInfo, if_neg hpos, fixedHeaderLen, PublishFields.mk.injEq, true_and]
      omega
  have hmsg : recvPublishMessage buf = .ok (receivedInfo req) := by
    -- the length is kept in 32 bits, and the payload is shorter
    have hsmall : ((req.payload.length : ℤ) % 2 ^ 32).toNat = req.payload.length := by
      have hlt := req.size_lt
      omega
    rw [recvPublishMessage, hfields]
    dsimp only
    rw [if_neg (by simp), if_neg htopic.ne', hsmall]
    rfl
  refine ⟨hmsg, hname.memSlice_eq, ?_⟩
  -- where the payload begins
  have hpos : 1 + (mqttPacketEncode req.remLen).length + (writeInt req.topicName.strlen ++
      req.topicName.bytes ++ if 0 < req.qos then writeInt req.packetId else []).length =
      (receivedInfo req).payload := by
    rw [List.length_append, List.length_append, ← add_assoc, ← add_assoc, hstart]
    show _ = fixedHeaderLen req.remLen + 2 + req.topicName.strlen + if 0 < req.qos then 2 else 0
    split_ifs
    · rfl
    · rfl
  rw [hpos] at hpayload
  exact hpayload.memSlice_eq

/-! ## There and back -/

theorem mqttPublish_ne_packetError {c : Client} {req : PubRequest}
    (h : 0 < (publishPacket c req).1) (ptr : ℕ) (env : PubEnv) :
    (mqttPublish c ptr req env).1 ≠ mqttPublishPacketError := by
  rw [mqttPublish]
  generalize publishPacket c req = packet at h
  obtain ⟨len, bytes⟩ := packet
  dsimp only at h ⊢
  rw [if_neg (not_le.mpr h)]
  have hfail : failReturn ≠ mqttPublishPacketError := by decide
  have hlist : mqttPushToListError ≠ mqttPublishPacketError := by decide
  have hnet : mqttNetworkError ≠ mqttPublishPacketError := by decide
  have hok : successReturn ≠ mqttPublishPacketError := by decide
  by_cases halloc : c.sendBuf.allocFails env.alloc = true
  · rw [if_pos halloc]
    exact hfail
  rw [if_neg halloc]
  by_cases hsend : iotxMcSendPacket bytes env.writes ≠ successReturn
  · rw [if_pos hsend]
    split_ifs
    · split
      · exact hlist
      · exact hnet
    · exact hnet
  rw [if_neg hsend]
  split_ifs
  · split
    · exact hlist
    · exact hok
  · exact hok

theorem holdsAt_of_front {p l : Bytes} (h : p <+: l) (rest : Memory) :
    HoldsAt (memOf l rest) 0 p := by
  obtain ⟨q, rfl⟩ := h
  exact ((holdsAt_append _ _ _ _).mp (holdsBytes_memOf (p ++ q) rest).holdsAt).1

/-- **Round trip of a PUBLISH.**  With a send buffer that has its margin, a PUBLISH that the
protocol allows is serialized into the buffer; read back into a buffer that holds it, it is
delivered with the topic, the payload and the flags that were sent. -/
theorem publish_roundTrip {c : Client} {req : PubRequest}
    (htopic : iotxMcCheckTopic req.topicName .topicName = successReturn) (hqos : req.qos ≤ 1)
    (hretain : req.retain ≤ 1) (hremLen : req.remLen ≤ 268435455)
    (hsize : mqttDynbufSendMargin + (req.topicName.strlen + req.payload.length) ≤
      c.sendBuf.sendSize (req.topicName.strlen + req.payload.length)) :
    let packet := (publishPacket c req).2
    (∀ ptr env, (mqttPublish c ptr req env).1 ≠ mqttPublishPacketError) ∧
    (publishPacket c req).1 = packet.length ∧
    packet.length = 1 + (mqttPacketEncode req.remLen).length + req.remLen ∧
    packet.length ≤ c.sendBuf.sendSize (req.topicName.strlen + req.payload.length) ∧
    ∀ (m : BufMode) (b : WriteBuffer UInt8) (net : Net), m.Fits b → packet.length ≤ m.recvMax →
      net.established = true → memSlice net.bytes net.pos packet.length = packet →
      let out := iotxMcReadPacketInto m b net (.reads true true true)
      out.1.rc = successReturn ∧ out.1.packetType = MsgType.publish.code ∧
      ∀ (receiver : Client) (rest : Memory) (env : SendEnv),
        let buf := memOf out.2.cells rest
        ∃ msg, recvPublishMessage buf = .ok msg ∧
          (iotxMcHandleRecvPublish receiver buf env).2.2 =
            iotxMcDeliverMessage receiver ⟨none, req.topicName.bytes⟩ msg ∧
          msg.dup = 0 ∧ msg.qos = req.qos ∧ msg.retain = req.retain ∧
          msg.packetId = (if 0 < req.qos then req.packetId else 0) ∧
          memSlice buf msg.ptopic msg.topicLen = req.topicName.bytes ∧
          memSlice buf msg.payload msg.payloadLen = req.payload := by
  obtain ⟨hpacket, hfits⟩ := publishPacket_eq hsize
  have hlt : req.remLen < 128 ^ 4 := by omega
  obtain ⟨hhead, hmax⟩ := accepted_head_length htopic
  -- an accepted topic begins with a slash
  have hpos : 0 < req.topicName.strlen := by
    apply List.length_pos_iff.mpr
    intro hnil
    rw [hnil] at hhead
    exact nomatch hhead
  have hlen : (req.header :: (mqttPacketEncode req.remLen ++ req.body)).length =
      1 + (mqttPacketEncode req.remLen).length + req.remLen := by
    rw [List.length_cons, List.length_append, req.length_body]
    omega
  have hpositive : 0 < (publishPacket c req).1 := by
    rw [hpacket]
    omega
  have herror := mqttPublish_ne_packetError hpositive
  rw [hpacket]
  refine ⟨herror, rfl, hlen, ?_, fun m b net hb hmaxlen hest hstream => ?_⟩
  · rw [hlen]
    exact (length_encode_le_mqttPacketLen req.remLen hlt).trans hfits
  · have hfixed : (req.header :: (mqttPacketEncode req.remLen ++ req.body)).length =
        req.remLen + fixedHeaderLen req.remLen := by
      rw [hlen, fixedHeaderLen, add_comm]
    rw [hfixed] at hstream
    -- what the reader takes from the stream is the packet
    obtain ⟨hout, hfront⟩ :=
      iotxMcReadPacketInto_fits hb hest hlt hstream (hfixed ▸ hmaxlen)
    have hrc := congrArg ReadResult.rc hout
    have htype := congrArg ReadResult.packetType hout
    refine ⟨hrc, htype.trans (mqttHeaderSet_publish hqos hretain).1, fun receiver rest env => ?_⟩
    obtain ⟨hmsg, hname, hpayload⟩ := recvPublishMessage_publish hqos hretain hpos
      (by rw [configMqttTopicMaxlen] at hmax; omega) hlt (holdsAt_of_front hfront rest)
    refine ⟨receivedInfo req, hmsg, ?_, rfl, rfl, rfl, rfl, hname, hpayload⟩
    rw [iotxMcHandleRecvPublish, hmsg]
    dsimp only
    rw [hname]
    split_ifs
    · rfl
    · rfl
    · rfl
    · rfl

theorem iotxMcDecodePacketLoop_tooLong (reads : ℕ → ReadEvent) (hreads : ∀ k, reads k = .full)
    (left : ℕ) {net : Net} (hest : net.established = true)
    (hmore : ∀ i < left, net.bytes (net.pos + i) &&& 128 ≠ 0) (len multiplier value : ℕ) :
    (iotxMcDecodePacketLoop reads left len multiplier value net).1 = mqttPacketReadError := by
  induction left generalizing net len multiplier value with
  | zero => rfl
  | succ left ih =>
    have hfirst := hmore 0 (Nat.zero_lt_succ _)
    have hbyte : (memSlice net.bytes net.pos 1).headD 0 = net.bytes (net.pos + 0) := rfl
    rw [iotxMcDecodePacketLoop, hreads, ipstackRead_full hest (by decide)]
    dsimp only
    rw [if_neg (by decide), if_neg (by decide), hbyte, if_pos hfirst]
    apply ih
    · exact hest
    · intro i hi
      have h := hmore (i + 1) (Nat.succ_lt_succ hi)
      rwa [Net.advance_bytes, Net.advance_pos, add_assoc, add_comm 1]

/-- A PUBLISH on `/a` of QoS 1 with the packet id 7. -/
def requestQos1 : PubRequest where
  topicName := ⟨[0x2F, 0x61], CString.nul_notMem_slashA⟩
  qos := 1
  retain := 0
  packetId := 7
  payload := [0x78]
  packetId_lt := by decide
  size_lt := show 64 + (2 + 1) < 2 ^ 31 by decide

/-- The PUBLISH of QoS 1. -/
theorem publish_roundTrip_qos1 :
    let packet := (publishPacket defaultHandlerClient requestQos1).2
    packet.length ≤ defaultHandlerClient.sendBuf.sendSize 3 ∧
    let out := iotxMcReadPacketInto (.dynBuf 1024) ⟨[], false⟩ publishQos1 (.reads true true true)
    out.1.rc = successReturn ∧
      ∃ msg, recvPublishMessage (memOf out.2.cells fun _ => 0) = .ok msg ∧ msg.packetId = 7 ∧
        memSlice (memOf out.2.cells fun _ => 0) msg.payload msg.payloadLen = [0x78] := by
  have hsize : mqttDynbufSendMargin + (requestQos1.topicName.strlen + requestQos1.payload.length) ≤
      defaultHandlerClient.sendBuf.sendSize
        (requestQos1.topicName.strlen + requestQos1.payload.length) := by decide
  obtain ⟨-, -, -, hfits, hrecv⟩ :=
    publish_roundTrip (by decide) le_rfl (Nat.zero_le 1) (by decide) hsize
  refine ⟨hfits, ?_⟩
  obtain ⟨hrc, -, hmsg⟩ := hrecv (.dynBuf 1024) ⟨[], false⟩ publishQos1 trivial (by decide) rfl
    (by decide)
  obtain ⟨msg, hok, -, -, -, -, hid, -, hpayload⟩ := hmsg idleClient (fun _ => 0) ⟨true, []⟩
  exact ⟨hrc, msg, hok, hid, hpayload⟩

/-- A PUBLISH on `/a` of QoS 0 for which the caller has set the packet id 5. -/
def requestQos0 : PubRequest where
  topicName := ⟨[0x2F, 0x61], CString.nul_notMem_slashA⟩
  qos := 0
  retain := 0
  packetId := 5
  payload := [0x78]
  packetId_lt := by decide
  size_lt := show 64 + (2 + 1) < 2 ^ 31 by decide

/-- A PUBLISH on `/a` of QoS 0 with `n` zeros. -/
def requestZeros (n : ℕ) (h : n < 2 ^ 30) : PubRequest where
  topicName := ⟨[0x2F, 0x61], CString.nul_notMem_slashA⟩
  qos := 0
  retain := 0
  packetId := 0
  payload := List.replicate n 0
  packetId_lt := by decide
  size_lt := by
    rw [List.length_replicate]
    show 64 + (2 + n) < 2 ^ 31
    omega

/-- A remaining length of five bytes is written but not read. -/
theorem readPacket_requestZeros {n : ℕ} (h : n < 2 ^ 30) (hn : n + 4 = 268435456) :
    (iotxMcReadPacket (.dynBuf (2 ^ 30))
      ⟨true, memOf (publishPacket { idleClient with sendBuf := .dynBuf (2 ^ 30) }
        (requestZeros n h)).2 fun _ => 0, 0⟩ (.reads true true true)).rc = mqttPacketReadError := by
  have hlen : (requestZeros n h).payload.length = n := List.length_replicate
  have hremLen : (requestZeros n h).remLen = 268435456 := by
    show 2 + 2 + (requestZeros n h).payload.length = 268435456
    omega
  -- the length field takes five bytes
  have henc : mqttPacketEncode 268435456 = [128, 128, 128, 128, 1] := by decide +kernel
  have hsize : mqttDynbufSendMargin + (2 + (requestZeros n h).payload.length) ≤
      (BufMode.dynBuf (2 ^ 30)).sendSize (2 + (requestZeros n h).payload.length) := by
    rw [hlen]
    show 64 + (2 + n) ≤ min (64 + (2 + n)) (2 ^ 30)
    omega
  obtain ⟨hpacket, -⟩ := @publishPacket_eq { idleClient with sendBuf := .dynBuf (2 ^ 30) }
    (requestZeros n h) hsize
  rw [hpacket, hremLen, henc]
  have hbuf := (holdsBytes_memOf ((requestZeros n h).header :: ([128, 128, 128, 128, 1] ++
    (requestZeros n h).body)) fun _ => 0).holdsAt
  generalize memOf ((requestZeros n h).header :: ([128, 128, 128, 128, 1] ++
    (requestZeros n h).body)) (fun _ => 0) = buf at hbuf ⊢
  simp only [holdsAt_cons, holdsAt_append] at hbuf
  obtain ⟨-, ⟨h1, h2, h3, h4, -⟩, -⟩ := hbuf
  -- each of the first four says that one more follows
  have hmore : ∀ i < 4, buf (1 + i) &&& 128 ≠ 0 := by
    intro i hi
    interval_cases i
    · rw [h1]
      decide
    · rw [h2]
      decide
    · rw [h3]
      decide
    · rw [h4]
      decide
  have hest : (Net.advance ⟨true, buf, 0⟩ 1).established = true := rfl
  have hdec := iotxMcDecodePacketLoop_tooLong (ReadEnv.reads true true true).length (fun _ => rfl) 4
    hest hmore 0 1 0
  have hfull := @ipstackRead_full ⟨true, buf, 0⟩ rfl 1 (by decide)
  rw [iotxMcReadPacket, ReadEnv.reads_alloc0, if_neg (by decide), ReadEnv.reads_header, hfull]
  dsimp only
  rw [if_neg (by decide), if_neg (by decide), iotxMcDecodePacket]
  generalize iotxMcDecodePacketLoop (ReadEnv.reads true true true).length 4 0 1 0
    (Net.advance ⟨true, buf, 0⟩ 1) = d at hdec ⊢
  obtain ⟨rc, value, net⟩ := d
  rw [hdec, if_pos (by decide)]

/-- The packet id of a PUBLISH of QoS 0 and a duplicate flag do not arrive; a small buffer and a
remaining length of five bytes are not read. -/
theorem publish_not_roundTrip :
    (∃ msg, recvPublishMessage (memOf (publishPacket idleClient requestQos0).2 fun _ => 0) = .ok msg ∧
      msg.dup ≠ 1 ∧ msg.packetId ≠ requestQos0.packetId) ∧
    (iotxMcReadPacket (.dynBuf 4) publishQos1 (.reads true true true)).packetType ≠
      MsgType.publish.code ∧
    (iotxMcReadPacket (.dynBuf (2 ^ 30))
      ⟨true, memOf (publishPacket { idleClient with sendBuf := .dynBuf (2 ^ 30) }
        (requestZeros 268435452 (by decide))).2 fun _ => 0, 0⟩
      (.reads true true true)).rc ≠ successReturn := by
  refine ⟨⟨receivedInfo requestQos0, by decide, by decide, by decide⟩, by decide, ?_⟩
  rw [readPacket_requestZeros _ rfl]
  decide

end Iotkit.Mqtt
