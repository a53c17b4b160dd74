/-
# Acknowledgements that are too short, and the verdict of a SUBACK

On a packet that does not hold a packet id `MQTTDeserialize_ack` and `MQTTDeserialize_suback` return
the number of length bytes, and leave the packet id of the caller as it was; the handlers take this
for a success.  `iotx_mc_handle_recv_SUBACK` keeps a flag for the return code it has looked at last.
-/
import Iotkit.MqttReadBuffer

namespace Iotkit.Mqtt

open List

/-! ## A packet that a cycle takes -/

/-- The client is connected and reads this packet in a cycle. -/
structure Takes (c : Client) (env : CycleEnv) (type : MsgType) (pkt : Bytes) : Prop where
  connected : c.clientState = .connected
  rc : (iotxMcReadPacket c.recvBuf c.net env.read).rc = successReturn
  packetType : (iotxMcReadPacket c.recvBuf c.net env.read).packetType = type.code
  buf : (iotxMcReadPacket c.recvBuf c.net env.read).buf = pkt

variable {c : Client} {env : CycleEnv} {type : MsgType} {pkt : Bytes}

/-- The packet switch comes behind the check of the probes, whatever that says. -/
theorem iotxMcCycle_takes (h : Takes c env type pkt) (htype : type ≠ .reserved) :
    ∃ state, let r := iotxMcCycleSwitch { c with clientState := state, keepaliveProbes := 0, net :=
        (iotxMcReadPacket c.recvBuf c.net env.read).net } type.code (memOf pkt env.rest) env
      iotxMcCycle c env = (r.1, afterCallbacks env r.2.1 r.2.2, r.2.2) := by
  have hcode : type.code ≠ MsgType.reserved.code := by
    intro hc
    cases type with
    | reserved => exact htype rfl
    | _ => exact absurd hc (by decide)
  obtain ⟨hconn, hrc, hpacketType, hbuf⟩ := h
  rw [iotxMcCycle, if_neg (not_not.mpr hconn)]
  by_cases hprobes : iotxMcKeepaliveProbeMax < c.keepaliveProbes
  · rw [if_pos hprobes]
    rw [if_neg (not_not.mpr hrc), hpacketType, if_neg hcode, hbuf]
    exact ⟨.disconnected, rfl⟩
  · rw [if_neg hprobes]
    rw [if_neg (not_not.mpr hrc), hpacketType, if_neg hcode, hbuf]
    exact ⟨c.clientState, rfl⟩

theorem iotxMcCycle_of_takes (h : Takes c env type pkt) (htype : type ≠ .reserved) :
    ∃ c' : Client, c'.listPubWaitAck = c.listPubWaitAck ∧ c'.listSubSyncAck = c.listSubSyncAck ∧
      c'.handleEvent = c.handleEvent ∧
      let r := iotxMcCycleSwitch c' type.code (memOf pkt env.rest) env
      (iotxMcCycle c env).2.2 = r.2.2 ∧
        (iotxMcCycle c env).2.1.listPubWaitAck = r.2.1.listPubWaitAck ∧
        (iotxMcCycle c env).2.1.listSubSyncAck = r.2.1.listSubSyncAck := by
  have hafter : ∀ (c : Client) calls,
      (afterCallbacks env c calls).listPubWaitAck = c.listPubWaitAck ∧
        (afterCallbacks env c calls).listSubSyncAck = c.listSubSyncAck := by
    intro c calls
    rw [afterCallbacks]
    split_ifs
    · exact ⟨rfl, rfl⟩
    · exact ⟨rfl, rfl⟩
  obtain ⟨state, hcycle⟩ := iotxMcCycle_takes h htype
  refine ⟨{ c with clientState := state, keepaliveProbes := 0, net :=
    (iotxMcReadPacket c.recvBuf c.net env.read).net }, rfl, rfl, rfl, ?_⟩
  rw [hcycle]
  exact ⟨rfl, hafter _ _⟩

/-! ## Acknowledgements -/

/-- The packets that acknowledge a request. -/
def IsAck (type : MsgType) : Prop := type = .puback ∨ type = .suback ∨ type = .unsuback

/-- The events that report the success of a request. -/
def SuccessEvent (eventType : EventType) : Prop :=
  eventType = .publishSuccess ∨ eventType = .subcribeSuccess ∨ eventType = .unsubcribeSuccess

/-- A packet marks no node of the publish list and reports no success. -/
def Harmless (type : MsgType) (pkt : Bytes) : Prop :=
  ∀ (c : Client) (env : CycleEnv), Takes c env type pkt →
    (iotxMcCycle c env).2.1.listPubWaitAck = c.listPubWaitAck ∧
      ∀ call ∈ (iotxMcCycle c env).2.2, ¬ SuccessEvent call.eventType

/-- A cycle has used no other packet id than `id`. -/
structure UsesId (c : Client) (id : ℕ) (r : ℤ × Client × List Invocation) : Prop where
  calls : ∀ call ∈ r.2.2, call.msg = .packetId id
  pub : r.2.1.listPubWaitAck = c.listPubWaitAck ∨
    r.2.1.listPubWaitAck = iotxMcMaskPubInfoFrom c.listPubWaitAck id
  sub : r.2.1.listSubSyncAck = c.listSubSyncAck ∨
    ∃ eventType, r.2.1.listSubSyncAck = iotxMqttEventHandleSub c.listSubSyncAck id eventType

/-- The packet id that is used is two bytes of the body. -/
def IdInside (type : MsgType) (pkt body : Bytes) : Prop :=
  ∃ (i : ℕ) (h : i + 1 < body.length), ∀ (c : Client) (env : CycleEnv), Takes c env type pkt →
    UsesId c (256 * (body[i].toNat) + (body[i + 1].toNat)) (iotxMcCycle c env)

/-- The packet id that the deserializers leave for their caller, whose variable holds
`mypacketid`. -/
def ackId (body : Bytes) (mypacketid : ℕ) : ℕ :=
  if body.length < 2 then mypacketid else topicLenOf body

/-- The event of `iotx_mc_handle_recv_SUBACK`. -/
def subackEvent (codes : Bytes) : EventType :=
  if subackFailFlag codes = 1 then .subcribeNack else .subcribeSuccess

section Stored

variable {pkt : Bytes} {header : UInt8} {body : Bytes}

theorem length_encode_short (h : body.length < 2) : (mqttPacketEncode body.length).length = 1 := by
  have hcases : body.length = 0 ∨ body.length = 1 := by omega
  rcases hcases with h | h
  · rw [h]
    decide
  · rw [h]
    decide

section

variable (h : StoredPacket pkt header body)
include h

theorem mqttDeserializeAck_stored (rest : Memory) (mypacketid : ℕ) :
    mqttDeserializeAck (memOf pkt rest) mypacketid =
      (1, mqttHeaderGetType header, ackId body mypacketid) := by
  rw [mqttDeserializeAck, h.decode, h.header_eq, ackId]
  dsimp only
  by_cases hshort : body.length < 2
  · rw [if_pos hshort, if_pos hshort, length_encode_short hshort]
    rfl
  · rw [if_neg hshort, if_neg hshort, h.readInt_topicLen rest (by omega)]

theorem mqttDeserializeSuback_stored (hheader : mqttHeaderGetType header = MsgType.suback.code)
    (rest : Memory) (maxcount mypacketid : ℕ) :
    mqttDeserializeSuback (memOf pkt rest) maxcount mypacketid =
      if maxcount < body.length - 2 then (-1, ackId body mypacketid, (body.drop 2).take maxcount)
      else (1, ackId body mypacketid, body.drop 2) := by
  rw [mqttDeserializeSuback, h.decode, h.header_eq, ackId]
  dsimp only
  rw [if_neg (not_not.mpr hheader)]
  by_cases hshort : body.length < 2
  · have hnil : body.drop 2 = [] := drop_eq_nil_of_le hshort.le
    rw [if_pos hshort, if_pos hshort, length_encode_short hshort, if_neg (by omega), hnil]
    rfl
  have hcodes : memSlice (memOf pkt rest) (1 + (mqttPacketEncode body.length).length + 2)
      (body.length - 2) = body.drop 2 := by
    have hpkt := (holdsBytes_memOf pkt rest).holdsAt
    rw [h.eq, holdsAt_cons, holdsAt_append, ← take_append_drop 2 body, holdsAt_append,
      take_append_drop, length_take_of_le (Nat.le_of_not_lt hshort), ← h.eq,
      Nat.zero_add] at hpkt
    have hslice := hpkt.2.2.2.memSlice_eq
    rwa [length_drop] at hslice
  rw [if_neg hshort, if_neg hshort, h.readInt_topicLen rest (by omega), hcodes, length_drop]

theorem iotxMcHandleRecvPuback_stored (c : Client) (rest : Memory) (mypacketid : ℕ) :
    iotxMcHandleRecvPuback c (memOf pkt rest) mypacketid = let id := ackId body mypacketid
      (successReturn, { c with listPubWaitAck := iotxMcMaskPubInfoFrom c.listPubWaitAck id },
        callHandleEvent c .publishSuccess (.packetId id)) := by
  rw [iotxMcHandleRecvPuback, mqttDeserializeAck_stored h]
  rfl

theorem iotxMcHandleRecvSuback_stored (hheader : mqttHeaderGetType header = MsgType.suback.code)
    (c : Client) (rest : Memory) (mypacketid : ℕ) :
    iotxMcHandleRecvSuback c (memOf pkt rest) mypacketid = let id := ackId body mypacketid
      let eventType := subackEvent (body.drop 2)
      if mutliSubscirbeMax < body.length - 2 then (mqttSubscribeAckPacketError, c, [])
      else
        (successReturn,
          { c with listSubSyncAck := iotxMqttEventHandleSub c.listSubSyncAck id eventType },
          callHandleEvent c eventType (.packetId id)) := by
  rw [iotxMcHandleRecvSuback, mqttDeserializeSuback_stored h hheader]
  by_cases hmany : mutliSubscirbeMax < body.length - 2
  · rw [if_pos hmany, if_pos hmany]
    rfl
  · rw [if_neg hmany, if_neg hmany]
    rfl

theorem iotxMcHandleRecvUnsuback_stored (hheader : mqttHeaderGetType header = MsgType.unsuback.code)
    (c : Client) (rest : Memory) :
    iotxMcHandleRecvUnsuback c (memOf pkt rest) =
      (successReturn, c, callHandleEvent c .unsubcribeSuccess (.packetId (ackId body 0))) := by
  rw [iotxMcHandleRecvUnsuback, mqttDeserializeUnsuback, mqttDeserializeAck_stored h]
  dsimp only
  rw [if_pos hheader]
  rfl

end

theorem mem_callHandleEvent {c : Client} {eventType : EventType} {msg : EventMsg}
    {call : Invocation} (h : call ∈ callHandleEvent c eventType msg) :
    call.eventType = eventType ∧ call.msg = msg := by
  rw [callHandleEvent] at h
  split_ifs at h
  · rw [mem_singleton.mp h]
    exact ⟨rfl, rfl⟩
  · exact absurd h not_mem_nil

/-- What the switch does with an acknowledgement uses the id that the deserializer leaves. -/
theorem iotxMcCycleSwitch_usesId (h : StoredPacket pkt header body) {type : MsgType}
    (htype : IsAck type) (hheader : mqttHeaderGetType header = type.code)
    (hlong : 2 ≤ body.length) (c : Client) (env : CycleEnv) :
    UsesId c (topicLenOf body) (iotxMcCycleSwitch c type.code (memOf pkt env.rest) env) := by
  have hid : ∀ mypacketid, ackId body mypacketid = topicLenOf body :=
    fun mypacketid => if_neg (Nat.not_lt.mpr hlong)
  rcases htype with rfl | rfl | rfl
  · have hswitch := iotxMcHandleRecvPuback_stored h c env.rest env.mypacketid
    rw [hid] at hswitch
    show UsesId c _ (iotxMcHandleRecvPuback c _ _)
    rw [hswitch]
    exact ⟨fun call hcall => (mem_callHandleEvent hcall).2, .inr rfl, .inl rfl⟩
  · have hswitch := iotxMcHandleRecvSuback_stored h hheader c env.rest env.mypacketid
    rw [hid] at hswitch
    show UsesId c _ (iotxMcHandleRecvSuback c _ _)
    rw [hswitch]
    split_ifs
    · exact ⟨fun call hcall => absurd hcall not_mem_nil, .inl rfl, .inl rfl⟩
    · exact ⟨fun call hcall => (mem_callHandleEvent hcall).2, .inl rfl, .inr ⟨_, rfl⟩⟩
  · have hswitch := iotxMcHandleRecvUnsuback_stored h hheader c env.rest
    rw [hid] at hswitch
    show UsesId c _ (iotxMcHandleRecvUnsuback c _)
    rw [hswitch]
    exact ⟨fun call hcall => (mem_callHandleEvent hcall).2, .inl rfl, .inl rfl⟩

theorem iotxMcCycleSwitch_short (h : StoredPacket pkt header body) {type : MsgType}
    (htype : IsAck type) (hheader : mqttHeaderGetType header = type.code)
    (hshort : body.length < 2) (c : Client) (env : CycleEnv) :
    ∃ eventType id, SuccessEvent eventType ∧
      (iotxMcCycleSwitch c type.code (memOf pkt env.rest) env).2.2 =
        callHandleEvent c eventType (.packetId id) := by
  rcases htype with rfl | rfl | rfl
  · refine ⟨.publishSuccess, ackId body env.mypacketid, .inl rfl, ?_⟩
    show (iotxMcHandleRecvPuback c _ _).2.2 = _
    rw [iotxMcHandleRecvPuback_stored h]
  · refine ⟨.subcribeSuccess, ackId body env.mypacketid, .inr (.inl rfl), ?_⟩
    have hnil : body.drop 2 = [] := drop_eq_nil_of_le hshort.le
    show (iotxMcHandleRecvSuback c _ _).2.2 = _
    rw [iotxMcHandleRecvSuback_stored h hheader, hnil]
    rw [if_neg (by rw [mutliSubscirbeMax]; omega)]
    rfl
  · refine ⟨.unsubcribeSuccess, ackId body 0, .inr (.inr rfl), ?_⟩
    show (iotxMcHandleRecvUnsuback c _).2.2 = _
    rw [iotxMcHandleRecvUnsuback_stored h hheader]

theorem takes_served (h : StoredPacket pkt header body) {type : MsgType}
    (hheader : mqttHeaderGetType header = type.code) (hlen : pkt.length ≤ 1024) :
    Takes { defaultHandlerClient with net := ⟨true, memOf pkt fun _ => 0, 0⟩ }
      ⟨.served, fun _ => 0, 0, ⟨true, []⟩, false⟩ type pkt := by
  have hpkt : pkt.length = body.length + fixedHeaderLen body.length := by
    rw [h.length, fixedHeaderLen, Nat.add_comm]
  have hstream : memSlice (memOf pkt fun _ => 0) 0 (body.length + fixedHeaderLen body.length) =
      header :: (mqttPacketEncode body.length ++ body) := by
    rw [← hpkt, ← h.eq]
    exact (holdsBytes_memOf pkt fun _ => 0).holdsAt.memSlice_eq
  have hbuffer : (BufMode.dynBuf 1024).HoldsFixedHeader := by
    show 5 ≤ (BufMode.dynBuf 1024).recvSize 0
    decide
  have hread := @iotxMcReadPacket_fits _ ⟨true, memOf pkt fun _ => 0, 0⟩ _ _ _ hbuffer rfl h.lt
    hstream (hpkt ▸ hlen)
  exact ⟨rfl, congrArg ReadResult.rc hread, (congrArg ReadResult.packetType hread).trans hheader,
    (congrArg ReadResult.buf hread).trans h.eq.symm⟩

end Stored

/-- **Short acknowledgements.**  An acknowledgement is harmless, and the packet id that is used comes
from it, exactly when it is long enough to hold a packet id. -/
theorem ack_sound_iff {type : MsgType} (htype : IsAck type) {header : UInt8}
    (hheader : mqttHeaderGetType header = type.code) {body : Bytes}
    (hbody : body.length ≤ 268435455) :
    let pkt := header :: (mqttPacketEncode body.length ++ body)
    ((body.length < 2 → Harmless type pkt) ↔ 2 ≤ body.length) ∧
      (IdInside type pkt body ↔ 2 ≤ body.length) := by
  intro pkt
  have hstored : StoredPacket pkt header body := ⟨rfl, by omega⟩
  have hreserved : type ≠ .reserved := by
    rintro rfl
    rcases htype with h | h | h <;> exact nomatch h
  refine ⟨⟨fun hharmless => ?_, fun hlong hshort => absurd hlong (Nat.not_le.mpr hshort)⟩,
    ⟨fun hinside => ?_, fun hlong => ⟨0, hlong, fun c env htakes => ?_⟩⟩⟩
  · -- a short acknowledgement that is received shows the harm
    by_contra hnot
    have hshort := Nat.lt_of_not_le hnot
    have hlen : pkt.length ≤ 1024 := by
      rw [hstored.length, length_encode_short hshort]
      omega
    have htakes := takes_served hstored hheader hlen
    obtain ⟨c', -, -, hhandle, hcalls, -, -⟩ := iotxMcCycle_of_takes htakes hreserved
    obtain ⟨eventType, id, hsuccess, hswitch⟩ :=
      iotxMcCycleSwitch_short hstored htype hheader hshort c' ⟨.served, fun _ => 0, 0, ⟨true, []⟩, false⟩
    have hset : c'.handleEvent.hFp ≠ 0 := by
      rw [hhandle]
      exact Nat.one_ne_zero
    have hcall := (hharmless hshort _ _ htakes).2
    rw [hcalls, hswitch, callHandleEvent, if_pos hset] at hcall
    exact hcall _ mem_cons_self hsuccess
  · obtain ⟨i, hi, -⟩ := hinside
    omega
  · -- the packet id is the first two bytes of the body
    obtain ⟨c', hpub, hsub, -, hcalls, hpub', hsub'⟩ := iotxMcCycle_of_takes htakes hreserved
    have hid : 256 * body[0].toNat + body[0 + 1].toNat = topicLenOf body := by
      rw [topicLenOf, getD_eq_getElem, getD_eq_getElem]
    obtain ⟨huses, hlist, hsync⟩ := iotxMcCycleSwitch_usesId hstored htype hheader hlong c' env
    rw [hid]
    refine ⟨fun call hcall => huses call (hcalls ▸ hcall), ?_, ?_⟩
    · rw [hpub', ← hpub]
      exact hlist
    · rw [hsub', ← hsub]
      exact hsync

/-- A PUBACK with a packet id. -/
theorem ack_sound_puback :
    let body : Bytes := [0, 7]
    let pkt := 0x40 :: (mqttPacketEncode body.length ++ body)
    ((body.length < 2 → Harmless .puback pkt) ↔ 2 ≤ body.length) ∧
      (IdInside .puback pkt body ↔ 2 ≤ body.length) :=
  ack_sound_iff (.inl rfl) (by decide) (by decide)

/-- A client with a handler that waits for the acknowledgement 5 and finds a PUBACK without a packet
id in its stream. -/
def shortAckClient : Client :=
  { defaultHandlerClient with
    net := ⟨true, memOf [0x40, 0] fun _ => 0, 0⟩
    listPubWaitAck := [⟨0, 0, .normanl, 5, []⟩] }

/-- With 5 left in the uninitialised variable the PUBACK invalidates the node and is reported. -/
theorem shortAck_harmful :
    let env : CycleEnv := ⟨.served, fun _ => 0, 5, ⟨true, []⟩, false⟩
    Takes shortAckClient env .puback [0x40, 0] ∧
      (iotxMcCycle shortAckClient env).2.1.listPubWaitAck = [⟨0, 0, .invalid, 5, []⟩] ∧
      (iotxMcCycle shortAckClient env).2.2 = [⟨⟨1, 0⟩, .publishSuccess, .packetId 5⟩] := by
  intro env
  exact ⟨⟨rfl, by decide, by decide, by decide⟩, by decide, by decide⟩

/-! ## The verdict of a SUBACK -/

theorem subackFailFlag_eq {codes : Bytes} (hne : codes ≠ []) :
    subackFailFlag codes = if codes.getLast hne = 0x80 then 1 else 0 := by
  obtain ⟨front, last, rfl⟩ := (eq_nil_or_concat' codes).resolve_left hne
  rw [subackFailFlag, foldl_append, getLast_concat]
  rfl

/-- The event that the return codes of a SUBACK call for. -/
def subackVerdict (codes : Bytes) : EventType :=
  if 0x80 ∈ codes then .subcribeNack else .subcribeSuccess

/-- **The verdict of a SUBACK.**  Exactly one event is raised for its packet id, and it is the one
that the return codes call for exactly when a failure, if there is one, comes last. -/
theorem suback_verdict_iff {header : UInt8}
    (hheader : mqttHeaderGetType header = MsgType.suback.code) {id : ℕ} (hid : id < 2 ^ 16)
    {codes : Bytes} (hne : codes ≠ []) (hfit : codes.length ≤ mutliSubscirbeMax) :
    let body := writeInt id ++ codes
    let pkt := header :: (mqttPacketEncode body.length ++ body)
    (∀ (c : Client) (rest : Memory) (mypacketid : ℕ),
      iotxMcHandleRecvSuback c (memOf pkt rest) mypacketid = (successReturn,
          { c with
            listSubSyncAck :=
              iotxMqttEventHandleSub c.listSubSyncAck id (subackVerdict codes) },
          callHandleEvent c (subackVerdict codes) (.packetId id))) ↔
      (0x80 ∈ codes → codes.getLast hne = 0x80) := by
  intro body pkt
  have hlen : body.length = 2 + codes.length := by
    rw [length_append]
    rfl
  have hstored : StoredPacket pkt header body := by
    rw [mutliSubscirbeMax] at hfit
    exact ⟨rfl, by omega⟩
  have hdrop : body.drop 2 = codes := rfl
  have hackId : ∀ mypacketid, ackId body mypacketid = id := by
    intro mypacketid
    rw [ackId, if_neg (by omega), topicLenOf]
    show 256 * (UInt8.ofNat (id / 256)).toNat + (UInt8.ofNat (id % 256)).toNat = id
    rw [UInt8.toNat_ofNat', UInt8.toNat_ofNat']
    omega
  -- the flag says what the last code says
  have hevent : subackEvent codes = subackVerdict codes ↔
      (0x80 ∈ codes → codes.getLast hne = 0x80) := by
    rw [subackEvent, subackVerdict, subackFailFlag_eq hne]
    by_cases hlast : codes.getLast hne = 0x80
    · have hmem : 0x80 ∈ codes := hlast ▸ getLast_mem hne
      simp [hlast, hmem]
    · by_cases hmem : 0x80 ∈ codes
      · simp [hlast, hmem]
      · simp [hlast, hmem]
  have hresult : ∀ (c : Client) rest mypacketid,
      iotxMcHandleRecvSuback c (memOf pkt rest) mypacketid = (successReturn,
          { c with
            listSubSyncAck := iotxMqttEventHandleSub c.listSubSyncAck id (subackEvent codes) },
          callHandleEvent c (subackEvent codes) (.packetId id)) := by
    intro c rest mypacketid
    rw [iotxMcHandleRecvSuback_stored hstored hheader, hdrop, hackId]
    exact if_neg (by omega)
  rw [← hevent]
  constructor
  · intro h
    -- a client with a handler tells the two events apart
    have hcalls := congrArg (fun r => r.2.2) (h defaultHandlerClient (fun _ => 0) 0)
    rw [hresult] at hcalls
    exact congrArg Invocation.eventType (List.cons.inj hcalls).1
  · intro h c rest mypacketid
    rw [hresult, h]

/-- A SUBACK for two filters of which the second one fails. -/
theorem suback_verdict_last :
    let body := writeInt 7 ++ [0, 0x80]
    let pkt := 0x90 :: (mqttPacketEncode body.length ++ body)
    (∀ (c : Client) (rest : Memory) (mypacketid : ℕ),
      iotxMcHandleRecvSuback c (memOf pkt rest) mypacketid = (successReturn,
          { c with
            listSubSyncAck :=
              iotxMqttEventHandleSub c.listSubSyncAck 7 (subackVerdict [0, 0x80]) },
          callHandleEvent c (subackVerdict [0, 0x80]) (.packetId 7))) ↔
      ((0x80 : UInt8) ∈ [0, 0x80] → [(0 : UInt8), 0x80].getLast (cons_ne_nil _ _) = 0x80) :=
  suback_verdict_iff (by decide) (by decide) (cons_ne_nil _ _) (by decide)

/-- A failure that a success follows is reported as a success. -/
theorem suback_failure_masked :
    (0x80 : UInt8) ∈ [0x80, 0] ∧
      (iotxMcHandleRecvSuback defaultHandlerClient (memOf [0x90, 4, 0, 7, 0x80, 0] fun _ => 0) 0).2.2 =
        [⟨⟨1, 0⟩, .subcribeSuccess, .packetId 7⟩] := by
  decide

end Iotkit.Mqtt
