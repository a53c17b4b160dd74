/-
# QoS 1 messages are kept until they are acknowledged

Runs of `MQTTPublish`, PUBACK receptions, sweeps and connection changes in any order.  A node of
`list_pub_wait_ack` is labelled by the number of the call that made it.  A PUBACK too short for a
packet id acknowledges the nodes whose id happens to be in an uninitialised variable.
-/
import Iotkit.GuardedRun
import Iotkit.MqttPublish

namespace Iotkit.Mqtt

open GuardedRun List

/-! ## Runs -/

/-- The packet id that the PUBACK in `buf` carries, if it has room for one. -/
def pubackId (buf : Memory) : Option ℕ :=
  match mqttPacketDecodeBuf buf 1 with
  | (n, mylen) => if mylen < 2 then none else some (readInt buf (1 + n))

/-- One step of a run.  `setClientState` stands for what the rest of the client does
to the connection state. -/
inductive PubOp
  | publish (req : PubRequest) (env : PubEnv)
  | recvPuback (buf : Memory) (mypacketid : ℕ)
  | pubInfoProc (env : ℕ → RepubEnv)
  | setClientState (state : McState)

/-- The packet id that a step acknowledges. -/
def PubOp.acks : PubOp → Option ℕ
  | recvPuback buf _ => pubackId buf
  | _ => none

/-- A PUBACK that is handled has room for a packet id. -/
def PubOp.CarriesId : PubOp → Prop
  | recvPuback buf _ => pubackId buf ≠ none
  | _ => True

/-- The client, the number of `MQTTPublish` calls so far, and all retransmissions so
far. -/
structure PubRun where
  client : Client
  calls : ℕ
  log : List Retransmission

/-- The client as `iotx_mc_init` leaves it: no message waits. -/
def PubRun.start (c : Client) : PubRun := ⟨{ c with listPubWaitAck := [] }, 0, []⟩

/-- The messages that wait for an acknowledgement. -/
abbrev PubRun.list (s : PubRun) : List PubInfo := s.client.listPubWaitAck

/-- One step. -/
def pubStep (s : PubRun) : PubOp → PubRun
  | .publish req env =>
    { s with client := (mqttPublish s.client s.calls req env).2, calls := s.calls + 1 }
  | .recvPuback buf mypacketid =>
    { s with client := (iotxMcHandleRecvPuback s.client buf mypacketid).2.1 }
  | .pubInfoProc env =>
    { s with client := (mqttPubInfoProc s.client env).1,
             log := s.log ++ (mqttPubInfoProc s.client env).2 }
  | .setClientState state => { s with client := { s.client with clientState := state } }

/-- A run. -/
def pubRun (s : PubRun) (ops : List PubOp) : PubRun := ops.foldl pubStep s

/-- The retransmissions of the node `ptr`. -/
def PubRun.sentFor (s : PubRun) (ptr : ℕ) : List Retransmission :=
  s.log.filter fun t => t.ptr = ptr

/-! ## What a step can do -/

/-- The labels of calls still to come are not in use. -/
structure Fresh (s : PubRun) : Prop where
  node : ∀ n ∈ s.list, n.ptr < s.calls
  sent : ∀ t ∈ s.log, t.ptr < s.calls

variable {s : PubRun}

theorem Fresh.ptr_ne (hf : Fresh s) : ∀ n ∈ s.client.listPubWaitAck, n.ptr ≠ s.calls :=
  fun n hn => Nat.ne_of_lt (hf.node n hn)

/-- `n` is `m` at a later time: the same message, and not valid again once invalid. -/
structure PubInfo.Continues (n m : PubInfo) : Prop where
  ptr : n.ptr = m.ptr
  msgId : n.msgId = m.msgId
  buf : n.buf = m.buf
  stays : m.nodeState = .invalid → n.nodeState = .invalid

theorem PubInfo.Continues.refl (n : PubInfo) : n.Continues n := ⟨rfl, rfl, rfl, id⟩

variable {n : PubInfo}

theorem PubInfo.Continues.of_untimed {m : PubInfo} (h : n.untimed = m.untimed) : n.Continues m := by
  have hfields := h
  simp only [PubInfo.untimed, PubInfo.mk.injEq, true_and] at hfields
  obtain ⟨hptr, hstate, hid, hbuf⟩ := hfields
  exact ⟨hptr, hid, hbuf, fun hm => hstate.trans hm⟩

theorem mem_iotxMcMaskPubInfoFrom {l : List PubInfo} {msgId : ℕ}
    (h : n ∈ iotxMcMaskPubInfoFrom l msgId) : ∃ m ∈ l, n.Continues m := by
  obtain ⟨m, hm, rfl⟩ := mem_map.mp h
  refine ⟨m, hm, ?_⟩
  split_ifs
  · exact ⟨rfl, rfl, rfl, fun _ => rfl⟩
  · exact PubInfo.Continues.refl m

/-- A PUBACK leaves the list alone or masks one id in it: the one it carries, if it
carries one. -/
theorem iotxMcHandleRecvPuback_list (c : Client) (buf : Memory) (mypacketid : ℕ) :
    let l := (iotxMcHandleRecvPuback c buf mypacketid).2.1.listPubWaitAck
    (∃ id, pubackId buf = some id ∧ l = iotxMcMaskPubInfoFrom c.listPubWaitAck id) ∨
      (pubackId buf = none ∧
        (l = c.listPubWaitAck ∨ l = iotxMcMaskPubInfoFrom c.listPubWaitAck mypacketid)) := by
  unfold iotxMcHandleRecvPuback mqttDeserializeAck pubackId
  generalize mqttPacketDecodeBuf buf 1 = d
  obtain ⟨n, mylen⟩ := d
  by_cases hlen : mylen < 2
  · right
    simp only [if_pos hlen, true_and]
    split_ifs
    · exact .inl rfl
    · exact .inr rfl
  · left
    simp [hlen]

theorem iotxMcHandleRecvPuback_continues {c : Client} {buf : Memory} {mypacketid : ℕ}
    (hn : n ∈ (iotxMcHandleRecvPuback c buf mypacketid).2.1.listPubWaitAck) :
    ∃ m ∈ c.listPubWaitAck, n.Continues m := by
  rcases iotxMcHandleRecvPuback_list c buf mypacketid with
    ⟨id, -, hl⟩ | ⟨-, hl | hl⟩ <;> rw [hl] at hn
  · exact mem_iotxMcMaskPubInfoFrom hn
  · exact ⟨n, hn, PubInfo.Continues.refl n⟩
  · exact mem_iotxMcMaskPubInfoFrom hn

theorem mqttPubInfoProc_continues {c : Client} {env : ℕ → RepubEnv}
    (hn : n ∈ (mqttPubInfoProc c env).1.listPubWaitAck) :
    ∃ m ∈ c.listPubWaitAck, n.Continues m := by
  have hsub := mqttPubInfoProcLoop_sublist c.requestTimeoutMs env c.clientState c.listPubWaitAck
  obtain ⟨m, hm, heq⟩ := mem_map.mp (hsub.subset (mem_map_of_mem hn))
  exact ⟨m, hm, PubInfo.Continues.of_untimed heq.symm⟩

theorem pubStep_node (hf : Fresh s) (op : PubOp) (hn : n ∈ (pubStep s op).list) :
    (∃ m ∈ s.list, n.Continues m) ∨ n.ptr = s.calls ∧ (pubStep s op).calls = s.calls + 1 := by
  cases op with
  | publish req env =>
    simp only [pubStep, PubRun.list] at hn
    rcases mqttPublish_list hf.ptr_ne req env with ⟨-, hc⟩ | ⟨-, -, hc⟩
    · rw [hc] at hn
      exact .inl ⟨n, hn, PubInfo.Continues.refl n⟩
    · rw [hc] at hn
      rcases mem_append.mp hn with hn | hn
      · exact .inl ⟨n, hn, PubInfo.Continues.refl n⟩
      · rw [mem_singleton.mp hn]
        exact .inr ⟨rfl, rfl⟩
  | recvPuback buf mypacketid => exact .inl (iotxMcHandleRecvPuback_continues hn)
  | pubInfoProc env => exact .inl (mqttPubInfoProc_continues hn)
  | setClientState state => exact .inl ⟨n, hn, PubInfo.Continues.refl n⟩

theorem pubStep_log (s : PubRun) (op : PubOp) :
    ∃ new, (pubStep s op).log = s.log ++ new ∧
      ∀ t ∈ new, ∃ m ∈ s.list, m.nodeState = .normanl ∧ t.ptr = m.ptr ∧ t.buf = m.buf := by
  cases op with
  | publish req env => exact ⟨[], by simp [pubStep], by simp⟩
  | recvPuback buf mypacketid => exact ⟨[], by simp [pubStep], by simp⟩
  | pubInfoProc env =>
    refine ⟨(mqttPubInfoProc s.client env).2, rfl, fun t ht => ?_⟩
    obtain ⟨m, hm, hnormal, rfl⟩ := mqttPubInfoProcLoop_sends _ _ _ _ t ht
    exact ⟨m, hm, hnormal, rfl, rfl⟩
  | setClientState state => exact ⟨[], by simp [pubStep], by simp⟩

theorem calls_le_pubStep (s : PubRun) (op : PubOp) : s.calls ≤ (pubStep s op).calls := by
  cases op <;> simp [pubStep]

theorem Fresh.step (hf : Fresh s) (op : PubOp) : Fresh (pubStep s op) := by
  have hle := calls_le_pubStep s op
  constructor
  · intro n hn
    rcases pubStep_node hf op hn with ⟨m, hm, hcont⟩ | ⟨hptr, hcalls⟩
    · rw [hcont.ptr]
      exact lt_of_lt_of_le (hf.node m hm) hle
    · omega
  · intro t ht
    obtain ⟨new, hlog, hnew⟩ := pubStep_log s op
    rw [hlog] at ht
    rcases mem_append.mp ht with ht | ht
    · exact lt_of_lt_of_le (hf.sent t ht) hle
    · obtain ⟨m, hm, -, hp, -⟩ := hnew t ht
      rw [hp]
      exact lt_of_lt_of_le (hf.node m hm) hle

theorem fresh_start (c : Client) : Fresh (PubRun.start c) := by
  constructor
  · intro n hn
    cases hn
  · intro t ht
    cases ht

theorem fresh_run (hf : Fresh s) (ops : List PubOp) : Fresh (pubRun s ops) :=
  inv_foldl Fresh (fun _ op hf => hf.step op) hf ops

/-! ## The life of one message -/

section Message

variable {ptr msgId : ℕ} {bytes : Bytes}

/-- The label `ptr` belongs to the message `bytes` with the id `msgId`, in the list and
in everything that was retransmitted. -/
structure Owns (ptr msgId : ℕ) (bytes : Bytes) (s : PubRun) : Prop where
  fresh : Fresh s
  called : ptr < s.calls
  node : ∀ n ∈ s.list, n.ptr = ptr → n.msgId = msgId ∧ n.buf = bytes
  sent : ∀ t ∈ s.log, t.ptr = ptr → t.buf = bytes

variable {s : PubRun}

theorem Owns.step (h : Owns ptr msgId bytes s) (op : PubOp) :
    Owns ptr msgId bytes (pubStep s op) := by
  refine ⟨h.fresh.step op, lt_of_lt_of_le h.called (calls_le_pubStep s op), ?_, ?_⟩
  · intro n hn hptr
    rcases pubStep_node h.fresh op hn with ⟨m, hm, hcont⟩ | ⟨hnew, -⟩
    · rw [hcont.msgId, hcont.buf]
      exact h.node m hm (hcont.ptr.symm.trans hptr)
    · exact absurd h.called (by omega)
  · intro t ht hptr
    obtain ⟨new, hlog, hnew⟩ := pubStep_log s op
    rw [hlog] at ht
    rcases mem_append.mp ht with ht | ht
    · exact h.sent t ht hptr
    · obtain ⟨m, hm, -, hp, hb⟩ := hnew t ht
      rw [hb]
      exact (h.node m hm (hp.symm.trans hptr)).2

theorem Owns.run (h : Owns ptr msgId bytes s) (ops : List PubOp) :
    Owns ptr msgId bytes (pubRun s ops) :=
  inv_foldl (Owns ptr msgId bytes) (fun _ op h => h.step op) h ops

/-- The message waits for its acknowledgement. -/
def Waits (ptr msgId : ℕ) (bytes : Bytes) (s : PubRun) : Prop :=
  ∃ n ∈ s.list, n.ptr = ptr ∧ n.msgId = msgId ∧ n.nodeState = .normanl ∧ n.buf = bytes

/-- The only step after which a waiting message does not wait any more is a PUBACK
that carries its id or none. -/
theorem Waits.step (hf : Fresh s) (h : Waits ptr msgId bytes s) {op : PubOp} (hid : op.CarriesId)
    (hack : op.acks ≠ some msgId) : Waits ptr msgId bytes (pubStep s op) := by
  obtain ⟨n, hn, hptr, hmsg, hnormal, hbuf⟩ := h
  cases op with
  | publish req env =>
    refine ⟨n, ?_, hptr, hmsg, hnormal, hbuf⟩
    simp only [pubStep, PubRun.list]
    rcases mqttPublish_list hf.ptr_ne req env with ⟨-, hc⟩ | ⟨-, -, hc⟩ <;> rw [hc]
    · exact hn
    · exact mem_append_left _ hn
  | recvPuback buf mypacketid =>
    refine ⟨n, ?_, hptr, hmsg, hnormal, hbuf⟩
    simp only [pubStep, PubRun.list]
    rcases iotxMcHandleRecvPuback_list s.client buf mypacketid with ⟨id, hsome, hl⟩ | ⟨hnone, -⟩
    · rw [hl]
      refine mem_map.mpr ⟨n, hn, if_neg ?_⟩
      rintro rfl
      exact hack (hmsg ▸ hsome)
    · exact absurd hnone hid
  | pubInfoProc env =>
    have hkept := mqttPubInfoProcLoop_keeps s.client.requestTimeoutMs env
      s.client.clientState s.client.listPubWaitAck (mem_map_of_mem hn) hnormal
    obtain ⟨m, hm, heq⟩ := mem_map.mp hkept
    simp only [PubInfo.untimed, PubInfo.mk.injEq, true_and] at heq
    obtain ⟨hp, hs, hi, hb⟩ := heq
    exact ⟨m, hm, hp.trans hptr, hi.trans hmsg, hs.trans hnormal, hb.trans hbuf⟩
  | setClientState state => exact ⟨n, hn, hptr, hmsg, hnormal, hbuf⟩

theorem Waits.run (hf : Fresh s) (h : Waits ptr msgId bytes s) {ops : List PubOp}
    (hid : ∀ op ∈ ops, op.CarriesId) (hack : ∀ op ∈ ops, op.acks ≠ some msgId) :
    Waits ptr msgId bytes (pubRun s ops) := by
  induction ops generalizing s with
  | nil => exact h
  | cons op ops ih =>
    exact ih (hf.step op) (h.step hf (hid op (by simp)) (hack op (by simp)))
      (fun o ho => hid o (by simp [ho])) (fun o ho => hack o (by simp [ho]))

/-- The message has been acknowledged: its node, if still there, is invalid. -/
structure Acked (ptr : ℕ) (s : PubRun) : Prop where
  fresh : Fresh s
  called : ptr < s.calls
  invalid : ∀ n ∈ s.list, n.ptr = ptr → n.nodeState = .invalid

theorem Owns.acked (h : Owns ptr msgId bytes s) {op : PubOp} (hack : op.acks = some msgId) :
    Acked ptr (pubStep s op) := by
  refine ⟨h.fresh.step op, lt_of_lt_of_le h.called (calls_le_pubStep s op), fun n hn hptr => ?_⟩
  cases op with
  | publish req env => exact absurd hack (by simp [PubOp.acks])
  | pubInfoProc env => exact absurd hack (by simp [PubOp.acks])
  | setClientState state => exact absurd hack (by simp [PubOp.acks])
  | recvPuback buf mypacketid =>
    simp only [pubStep, PubRun.list] at hn
    rcases iotxMcHandleRecvPuback_list s.client buf mypacketid with ⟨id, hsome, hl⟩ | ⟨hnone, -⟩
    · obtain rfl : id = msgId := Option.some.inj (hsome.symm.trans hack)
      rw [hl] at hn
      obtain ⟨m, hm, rfl⟩ := mem_map.mp hn
      have hm' : m.ptr = ptr := by
        split_ifs at hptr <;> exact hptr
      rw [if_pos (h.node m hm hm').1]
    · exact absurd (hnone.symm.trans hack) (by simp)

theorem Acked.step (h : Acked ptr s) (op : PubOp) : Acked ptr (pubStep s op) := by
  refine ⟨h.fresh.step op, lt_of_lt_of_le h.called (calls_le_pubStep s op), fun n hn hptr => ?_⟩
  rcases pubStep_node h.fresh op hn with ⟨m, hm, hcont⟩ | ⟨hnew, -⟩
  · exact hcont.stays (h.invalid m hm (hcont.ptr.symm.trans hptr))
  · exact absurd h.called (by omega)

theorem Acked.run (h : Acked ptr s) (ops : List PubOp) : Acked ptr (pubRun s ops) :=
  inv_foldl (Acked ptr) (fun _ op h => h.step op) h ops

theorem Acked.sentFor_step (h : Acked ptr s) (op : PubOp) :
    (pubStep s op).sentFor ptr = s.sentFor ptr := by
  obtain ⟨new, hlog, hnew⟩ := pubStep_log s op
  unfold PubRun.sentFor
  rw [hlog, filter_append, append_right_eq_self, filter_eq_nil_iff]
  intro t ht hptr
  obtain ⟨m, hm, hnormal, hp, -⟩ := hnew t ht
  have hinv := h.invalid m hm (hp.symm.trans (of_decide_eq_true hptr))
  rw [hnormal] at hinv
  exact absurd hinv (by decide)

theorem Acked.sentFor_run (h : Acked ptr s) (ops : List PubOp) :
    (pubRun s ops).sentFor ptr = s.sentFor ptr := by
  induction ops generalizing s with
  | nil => rfl
  | cons op ops ih => exact (ih (h.step op)).trans (h.sentFor_step op)

/-- The node of the message is out of the list for good. -/
structure Removed (ptr : ℕ) (s : PubRun) : Prop where
  fresh : Fresh s
  called : ptr < s.calls
  gone : ∀ n ∈ s.list, n.ptr ≠ ptr

theorem Acked.removed (h : Acked ptr s) {env : ℕ → RepubEnv}
    (hserved : SweepServed s.client.clientState s.list env) :
    Removed ptr (pubStep s (.pubInfoProc env)) := by
  have hstep := h.step (.pubInfoProc env)
  refine ⟨hstep.fresh, hstep.called, fun n hn hptr => ?_⟩
  exact mqttPubInfoProcLoop_cleans hserved n hn (hstep.invalid n hn hptr)

theorem Removed.step (h : Removed ptr s) (op : PubOp) : Removed ptr (pubStep s op) := by
  refine ⟨h.fresh.step op, lt_of_lt_of_le h.called (calls_le_pubStep s op), fun n hn hptr => ?_⟩
  rcases pubStep_node h.fresh op hn with ⟨m, hm, hcont⟩ | ⟨hnew, -⟩
  · exact h.gone m hm (hcont.ptr.symm.trans hptr)
  · exact absurd h.called (by omega)

theorem Removed.run (h : Removed ptr s) (ops : List PubOp) : Removed ptr (pubRun s ops) :=
  inv_foldl (Removed ptr) (fun _ op h => h.step op) h ops

end Message

theorem publish_owns_waits {s : PubRun} (hf : Fresh s) {req : PubRequest} {env : PubEnv}
    (hqos : 0 < req.qos) (hok : (mqttPublish s.client s.calls req env).1 = successReturn) :
    let s' := pubStep s (.publish req env)
    let bytes := (publishPacket s.client req).2
    Owns s.calls req.packetId bytes s' ∧ Waits s.calls req.packetId bytes s' := by
  intro s' bytes
  have hlist : s'.list = s.list ++ [newPubInfo s.calls req.packetId env.now bytes] := by
    rcases mqttPublish_list hf.ptr_ne req env with ⟨hno | hzero, -⟩ | ⟨-, -, hc⟩
    · exact absurd hok hno
    · omega
    · simp only [s', pubStep, PubRun.list, hc, bytes]
  refine ⟨⟨hf.step _, by simp [s', pubStep], ?_, ?_⟩, ?_⟩
  · intro n hn hptr
    rw [hlist] at hn
    rcases mem_append.mp hn with hn | hn
    · exact absurd hptr (hf.ptr_ne n hn)
    · rw [mem_singleton.mp hn]
      exact ⟨rfl, rfl⟩
  · intro t ht hptr
    exact absurd (hf.sent t ht) (by omega)
  · refine ⟨newPubInfo s.calls req.packetId env.now bytes, ?_, rfl, rfl, rfl, rfl⟩
    rw [hlist]
    simp

/-- What is promised of a message `bytes` with the id `msgId` that the `ptr`-th
`MQTTPublish` sent from `s`, over the steps `after` it. -/
structure AtLeastOnce (ptr msgId : ℕ) (bytes : Bytes) (s : PubRun) (after : List PubOp) :
    Prop where
  /-- It waits in the list, byte for byte, until a PUBACK with its id is handled. -/
  waits : (∀ op ∈ after, op.acks ≠ some msgId) → Waits ptr msgId bytes (pubRun s after)
  /-- Every retransmission of it sends exactly its bytes. -/
  resends : ∀ t ∈ (pubRun s after).log, t.ptr = ptr →
    t.buf = bytes ∧ sentBytes t.buf t.writes <+: bytes ∧
      (iotxMcSendPacket t.buf t.writes = successReturn → sentBytes t.buf t.writes = bytes)
  /-- After the PUBACK it is not sent again. -/
  silent : ∀ upto ack rest, after = upto ++ ack :: rest → ack.acks = some msgId →
    (pubRun s after).sentFor ptr = (pubRun s (upto ++ [ack])).sentFor ptr
  /-- After the PUBACK, the first sweep that no failed send breaks off removes it for
  good. -/
  removed : ∀ upto ack mid env rest,
    after = upto ++ ack :: (mid ++ PubOp.pubInfoProc env :: rest) → ack.acks = some msgId →
    (let s' := pubRun s (upto ++ ack :: mid)
     SweepServed s'.client.clientState s'.list env) →
    ∀ n ∈ (pubRun s after).list, n.ptr ≠ ptr

theorem atLeastOnce_of_owns {ptr msgId : ℕ} {bytes : Bytes} {s : PubRun}
    (howns : Owns ptr msgId bytes s) (hwaits : Waits ptr msgId bytes s) {after : List PubOp}
    (hid : ∀ op ∈ after, op.CarriesId) : AtLeastOnce ptr msgId bytes s after where
  waits hack := hwaits.run howns.fresh hid hack
  resends t ht hptr := by
    have hbuf := (howns.run after).sent t ht hptr
    refine ⟨hbuf, ?_, fun hsent => ?_⟩
    · rw [hbuf]
      exact take_prefix _ _
    · rw [sentBytes_of_success hsent, hbuf]
  silent upto ack rest hafter hack := by
    have hacked := (howns.run upto).acked hack
    have hsplit : pubRun s after = pubRun (pubStep (pubRun s upto) ack) rest := by
      simp [pubRun, hafter]
    have hupto : pubRun s (upto ++ [ack]) = pubStep (pubRun s upto) ack := by
      simp [pubRun]
    rw [hsplit, hupto]
    exact hacked.sentFor_run rest
  removed upto ack mid env rest hafter hack hserved := by
    have hacked := ((howns.run upto).acked hack).run mid
    have hmid : pubRun s (upto ++ ack :: mid) = pubRun (pubStep (pubRun s upto) ack) mid := by
      simp [pubRun]
    have hsplit : pubRun s after
        = pubRun (pubStep (pubRun (pubStep (pubRun s upto) ack) mid) (.pubInfoProc env)) rest := by
      simp [pubRun, hafter]
    rw [hmid] at hserved
    rw [hsplit]
    exact ((hacked.removed hserved).run rest).gone

/-- **At least once.**  In every state of every run: a `MQTTPublish` that fails leaves
the list of waiting messages as it was; one that succeeds with an acknowledgement asked
for keeps what `AtLeastOnce` promises over every continuation whose PUBACKs all have
room for a packet id. -/
theorem qos1_at_least_once (c : Client) (before : List PubOp) (req : PubRequest) (env : PubEnv) :
    let s := pubRun (PubRun.start c) before
    let rc := (mqttPublish s.client s.calls req env).1
    let s' := pubStep s (.publish req env)
    (rc ≠ successReturn → s'.list = s.list) ∧
      (rc = successReturn → 0 < req.qos → ∀ after : List PubOp, (∀ op ∈ after, op.CarriesId) →
        AtLeastOnce s.calls req.packetId (publishPacket s.client req).2 s' after) := by
  intro s rc s'
  have hf : Fresh s := fresh_run (fresh_start c) before
  constructor
  · intro herr
    rcases mqttPublish_list hf.ptr_ne req env with ⟨-, hc⟩ | ⟨hok, -⟩
    · simp only [s', pubStep, PubRun.list, hc]
    · exact absurd hok herr
  · intro hok hqos after hid
    obtain ⟨howns, hwaits⟩ := publish_owns_waits hf hqos hok
    exact atLeastOnce_of_owns howns hwaits hid

/-! ## One message -/

/-- A QoS 1 message with the packet id 1 on the topic `/a`. -/
def pubRequestA : PubRequest where
  topicName := ⟨[0x2F, 0x61], CString.nul_notMem_slashA⟩
  qos := 1
  retain := 0
  packetId := 1
  payload := [0x78]
  packetId_lt := by decide
  size_lt := by decide

/-- Memory can be had and the network takes the packet. -/
def pubEnvServed : PubEnv := ⟨true, true, 0, [.wrote 100]⟩

/-- A PUBACK for the packet id 1. -/
def pubackOne : PubOp := .recvPuback (memOf [0x40, 2, 0, 1] fun _ => 0) 0

/-- A PUBACK without a packet id, handled while the uninitialised variable holds 1. -/
def pubackShort : PubOp := .recvPuback (memOf [0x40, 0] fun _ => 0) 1

theorem qos1_at_least_once_pubRequestA :
    let s := PubRun.start idleClient
    (mqttPublish s.client s.calls pubRequestA pubEnvServed).1 = successReturn ∧
      AtLeastOnce 0 1 (publishPacket s.client pubRequestA).2
        (pubStep s (.publish pubRequestA pubEnvServed)) [pubackOne] := by
  have hok : (mqttPublish idleClient 0 pubRequestA pubEnvServed).1 = successReturn := by decide
  refine ⟨hok, ?_⟩
  refine (qos1_at_least_once idleClient [] pubRequestA pubEnvServed).2 hok (by decide) _ ?_
  intro op hop
  rw [mem_singleton.mp hop]
  show pubackId _ ≠ none
  decide

/-- The short PUBACK ends the wait of a message it does not acknowledge. -/
theorem qos1_lost_by_short_puback :
    let s := pubStep (PubRun.start idleClient) (.publish pubRequestA pubEnvServed)
    (mqttPublish idleClient 0 pubRequestA pubEnvServed).1 = successReturn ∧
      (∀ op ∈ [pubackShort], op.acks ≠ some pubRequestA.packetId) ∧
      ∀ n ∈ (pubRun s [pubackShort]).list, n.nodeState ≠ .normanl := by
  decide

end Iotkit.Mqtt
