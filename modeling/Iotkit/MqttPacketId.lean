/-
# Packet ids in flight

`iotx_mc_get_next_packetid` counts from 1 to 65535 and starts again at 1, whether or not an id is
still waiting for its acknowledgement.  Every allocation is numbered, and every node of
`list_pub_wait_ack` is labelled with the step that made it.
-/
import Iotkit.MqttAtLeastOnce
import Iotkit.MqttSubscribe

namespace Iotkit.Mqtt

open GuardedRun List

/-! ## The counter -/

/-- The id after `id`. -/
def nextPacketid (id : ℕ) : ℕ := if id = iotxMcPacketIdMax then 1 else id + 1

theorem iotxMcGetNextPacketid_eq (c : Client) :
    iotxMcGetNextPacketid c
      = (nextPacketid c.packetId, { c with packetId := nextPacketid c.packetId }) := by
  unfold iotxMcGetNextPacketid nextPacketid
  rfl

/-- The id of the `k`-th allocation, 0 before the first. -/
def idAt : ℕ → ℕ
  | 0 => 0
  | k + 1 => k % iotxMcPacketIdMax + 1

theorem idAt_succ (k : ℕ) : idAt (k + 1) = nextPacketid (idAt k) := by
  cases k with
  | zero => rfl
  | succ k =>
    unfold nextPacketid
    by_cases hlast : idAt (k + 1) = iotxMcPacketIdMax
    · rw [if_pos hlast]
      simp only [idAt, iotxMcPacketIdMax] at hlast ⊢
      omega
    · rw [if_neg hlast]
      simp only [idAt, iotxMcPacketIdMax] at hlast ⊢
      omega

theorem idAt_le (k : ℕ) : idAt k ≤ iotxMcPacketIdMax := by
  cases k with
  | zero => exact Nat.zero_le _
  | succ k => exact Nat.mod_lt _ (by decide)

/-- Two allocations give the same id only if they are a turn of the counter apart. -/
theorem idAt_apart {j k : ℕ} (hj : 1 ≤ j) (hk : 1 ≤ k) (hne : j ≠ k) (h : idAt j = idAt k) :
    j + iotxMcPacketIdMax ≤ k ∨ k + iotxMcPacketIdMax ≤ j := by
  obtain ⟨j, rfl⟩ : ∃ i, j = i + 1 := ⟨j - 1, by omega⟩
  obtain ⟨k, rfl⟩ : ∃ i, k = i + 1 := ⟨k - 1, by omega⟩
  simp only [idAt, iotxMcPacketIdMax] at *
  omega

/-! ## Runs -/

/-- One step of a run.  `setClientState` stands for what the rest of the client does to
the connection state. -/
inductive IdOp
  | publish (req : PubRequest) (env : PubEnv)
  | subscribe (req : SubRequest) (env : SubEnv)
  | unsubscribe (topicFilter : CString) (env : SubEnv)
  | recvPuback (buf : Memory) (mypacketid : ℕ)
  | pubInfoProc (env : ℕ → RepubEnv)
  | setClientState (state : McState)

/-- The client after a step; `label` is the label of a node the step makes. -/
def IdOp.exec (c : Client) (label : ℕ) : IdOp → Client
  | publish req env => (wrapperMqttPublish c label req env).2
  | subscribe req env => (wrapperMqttSubscribe c req env).2
  | unsubscribe topicFilter env => (wrapperMqttUnsubscribe c topicFilter env).2
  | recvPuback buf mypacketid => (iotxMcHandleRecvPuback c buf mypacketid).2.1
  | pubInfoProc env => (mqttPubInfoProc c env).1
  | setClientState state => { c with clientState := state }

/-- The client, the numbers of steps and of allocations so far, and the number of the
allocation that each step made, if it made one. -/
structure IdRun where
  client : Client
  steps : ℕ
  allocs : ℕ
  allocAt : ℕ → Option ℕ

/-- The client as `wrapper_mqtt_init` leaves it. -/
def IdRun.start (c : Client) : IdRun :=
  ⟨{ c with packetId := 0, listPubWaitAck := [] }, 0, 0, fun _ => none⟩

/-- The messages that wait for an acknowledgement. -/
abbrev IdRun.list (s : IdRun) : List PubInfo := s.client.listPubWaitAck

/-- One step; it made an allocation if the counter has moved. -/
def idStep (s : IdRun) (op : IdOp) : IdRun :=
  let c := op.exec s.client s.steps
  if c.packetId = s.client.packetId then { s with client := c, steps := s.steps + 1 }
  else
    { client := c, steps := s.steps + 1, allocs := s.allocs + 1,
      allocAt := Function.update s.allocAt s.steps (some (s.allocs + 1)) }

/-- A run. -/
def idRun (s : IdRun) (ops : List IdOp) : IdRun := ops.foldl idStep s

/-! ## What a step can do -/

/-- What a step with the label `label` makes of the id counter and of the list. -/
structure IdOp.Effect (c : Client) (label : ℕ) (c' : Client) : Prop where
  counter : c'.packetId = c.packetId ∨ c'.packetId = nextPacketid c.packetId
  labels : (c'.listPubWaitAck.map PubInfo.ptr).Sublist (c.listPubWaitAck.map PubInfo.ptr ++ [label])
  node : ∀ n ∈ c'.listPubWaitAck, (∃ m ∈ c.listPubWaitAck, n.Continues m) ∨
    (n.ptr = label ∧
      (c'.packetId ≠ c.packetId → n.msgId = nextPacketid c.packetId % 2 ^ 16))

variable {c : Client} {label : ℕ}

theorem IdOp.Effect.of_list_eq {c' : Client}
    (hcounter : c'.packetId = c.packetId ∨ c'.packetId = nextPacketid c.packetId)
    (hlist : c'.listPubWaitAck = c.listPubWaitAck) : IdOp.Effect c label c' := by
  refine ⟨hcounter, ?_, fun n hn => .inl ⟨n, hlist ▸ hn, PubInfo.Continues.refl n⟩⟩
  rw [hlist]
  exact sublist_append_left _ _

theorem mqttSubscribe_frame (c : Client) (req : SubRequest) (msgId : ℕ) (env : SubEnv) :
    (mqttSubscribe c req msgId env).2.listPubWaitAck = c.listPubWaitAck ∧
      (mqttSubscribe c req msgId env).2.packetId = c.packetId := by
  rcases mqttSubscribe_cases c req msgId env with ⟨-, hc⟩ | ⟨-, -, hc⟩ <;> rw [hc] <;>
    exact ⟨rfl, rfl⟩

theorem mqttUnsubscribe_frame (c : Client) (topicFilter : CString) (msgId : ℕ) (env : SubEnv) :
    (mqttUnsubscribe c topicFilter msgId env).2.listPubWaitAck = c.listPubWaitAck ∧
      (mqttUnsubscribe c topicFilter msgId env).2.packetId = c.packetId := by
  rcases mqttUnsubscribe_cases c topicFilter msgId env with ⟨-, hc⟩ | ⟨-, hc⟩ <;> rw [hc] <;>
    exact ⟨rfl, rfl⟩

theorem wrapperMqttSubscribe_frame (c : Client) (req : SubRequest) (env : SubEnv) :
    let c' := (wrapperMqttSubscribe c req env).2
    c'.listPubWaitAck = c.listPubWaitAck ∧
      (c'.packetId = c.packetId ∨ c'.packetId = nextPacketid c.packetId) := by
  have hsub := mqttSubscribe_frame { c with packetId := nextPacketid c.packetId } req
    (nextPacketid c.packetId) env
  unfold wrapperMqttSubscribe
  simp only [iotxMcGetNextPacketid_eq]
  split_ifs
  · exact ⟨rfl, .inl rfl⟩
  · exact ⟨rfl, .inr rfl⟩
  · exact ⟨rfl, .inr rfl⟩
  · rw [(afterRequest_frame _ _).1, (afterRequest_frame _ _).2]
    exact ⟨hsub.1, .inr hsub.2⟩

theorem wrapperMqttUnsubscribe_frame (c : Client) (topicFilter : CString) (env : SubEnv) :
    let c' := (wrapperMqttUnsubscribe c topicFilter env).2
    c'.listPubWaitAck = c.listPubWaitAck ∧ c'.packetId = nextPacketid c.packetId := by
  have hsub := mqttUnsubscribe_frame { c with packetId := nextPacketid c.packetId } topicFilter
    (nextPacketid c.packetId) env
  unfold wrapperMqttUnsubscribe
  simp only [iotxMcGetNextPacketid_eq]
  split_ifs
  · exact ⟨rfl, rfl⟩
  · exact ⟨rfl, rfl⟩
  · rw [(afterRequest_frame _ _).1, (afterRequest_frame _ _).2]
    exact hsub

/-- The effect of `MQTTPublish` after the counter may have been moved for it. -/
theorem mqttPublish_effect {c' : Client} (hfresh : ∀ n ∈ c.listPubWaitAck, n.ptr ≠ label)
    (hlist : c'.listPubWaitAck = c.listPubWaitAck)
    (hcounter : c'.packetId = c.packetId ∨ c'.packetId = nextPacketid c.packetId) {req : PubRequest}
    (hid : c'.packetId ≠ c.packetId → req.packetId = nextPacketid c.packetId % 2 ^ 16)
    (env : PubEnv) (msgId : ℕ) :
    IdOp.Effect c label (afterRequest msgId (mqttPublish c' label req env)).2 := by
  obtain ⟨hafter, hafterId⟩ := afterRequest_frame msgId (mqttPublish c' label req env)
  rcases mqttPublish_list (hlist ▸ hfresh) req env with ⟨-, hc⟩ | ⟨-, -, hc⟩
  · refine IdOp.Effect.of_list_eq ?_ ?_
    · rw [hafterId, hc]
      exact hcounter
    · rw [hafter, hc]
      exact hlist
  refine ⟨?_, ?_, fun n hn => ?_⟩
  · rw [hafterId, hc]
    exact hcounter
  · rw [hafter, hc, hlist, map_append]
    exact List.Sublist.refl _
  · rw [hafter, hc, hlist] at hn
    rcases mem_append.mp hn with hn | hn
    · exact .inl ⟨n, hn, PubInfo.Continues.refl n⟩
    · rw [mem_singleton.mp hn, hafterId, hc]
      exact .inr ⟨rfl, hid⟩

/-- `wrapper_mqtt_publish` allocates an id for a QoS 1 message before it makes a node
with it, and makes none for a QoS 2 message. -/
theorem wrapperMqttPublish_effect (hfresh : ∀ n ∈ c.listPubWaitAck, n.ptr ≠ label)
    (req : PubRequest) (env : PubEnv) :
    IdOp.Effect c label (wrapperMqttPublish c label req env).2 := by
  unfold wrapperMqttPublish
  by_cases htopic : iotxMcCheckTopic req.topicName .topicName ≠ 0
  · rw [if_pos htopic]
    exact IdOp.Effect.of_list_eq (.inl rfl) rfl
  rw [if_neg htopic]
  by_cases hconn : c.clientState ≠ .connected
  · rw [if_pos hconn]
    exact IdOp.Effect.of_list_eq (.inl rfl) rfl
  rw [if_neg hconn]
  unfold wrapperMqttPublishChecked
  by_cases hack : req.qos = 1 ∨ req.qos = 2
  · simp only [if_pos hack, iotxMcGetNextPacketid_eq]
    by_cases htwo : (req.withPacketId (nextPacketid c.packetId)).qos = 2
    · rw [if_pos htwo]
      exact IdOp.Effect.of_list_eq (.inr rfl) rfl
    · rw [if_neg htwo]
      exact mqttPublish_effect hfresh (by rfl) (.inr rfl) (fun _ => rfl) env _
  · simp only [if_neg hack]
    rw [if_neg fun h => hack (Or.inr h)]
    exact mqttPublish_effect hfresh rfl (.inl rfl) (fun h => absurd rfl h) env _

theorem iotxMcMaskPubInfoFrom_labels (l : List PubInfo) (msgId : ℕ) :
    (iotxMcMaskPubInfoFrom l msgId).map PubInfo.ptr = l.map PubInfo.ptr := by
  unfold iotxMcMaskPubInfoFrom
  rw [map_map]
  refine map_congr_left fun n _ => ?_
  simp only [Function.comp_apply]
  split_ifs <;> rfl

theorem iotxMcHandleRecvPuback_labels (c : Client) (buf : Memory) (mypacketid : ℕ) :
    (iotxMcHandleRecvPuback c buf mypacketid).2.1.listPubWaitAck.map PubInfo.ptr
      = c.listPubWaitAck.map PubInfo.ptr := by
  rcases iotxMcHandleRecvPuback_list c buf mypacketid with
    ⟨id, -, hl⟩ | ⟨-, hl | hl⟩ <;> rw [hl]
  · exact iotxMcMaskPubInfoFrom_labels _ _
  · exact iotxMcMaskPubInfoFrom_labels _ _

theorem iotxMcHandleRecvPuback_packetId (c : Client) (buf : Memory) (mypacketid : ℕ) :
    (iotxMcHandleRecvPuback c buf mypacketid).2.1.packetId = c.packetId := by
  unfold iotxMcHandleRecvPuback
  simp only
  split_ifs <;> rfl

theorem mqttPubInfoProc_labels (c : Client) (env : ℕ → RepubEnv) :
    ((mqttPubInfoProc c env).1.listPubWaitAck.map PubInfo.ptr).Sublist
      (c.listPubWaitAck.map PubInfo.ptr) := by
  have hsub := (mqttPubInfoProcLoop_sublist c.requestTimeoutMs env c.clientState
    c.listPubWaitAck).map PubInfo.ptr
  rw [map_map, map_map] at hsub
  exact hsub

theorem IdOp.exec_effect (hfresh : ∀ n ∈ c.listPubWaitAck, n.ptr ≠ label) (op : IdOp) :
    IdOp.Effect c label (op.exec c label) := by
  cases op with
  | publish req env => exact wrapperMqttPublish_effect hfresh req env
  | subscribe req env =>
    obtain ⟨hlist, hcounter⟩ := wrapperMqttSubscribe_frame c req env
    exact IdOp.Effect.of_list_eq hcounter hlist
  | unsubscribe topicFilter env =>
    obtain ⟨hlist, hcounter⟩ := wrapperMqttUnsubscribe_frame c topicFilter env
    exact IdOp.Effect.of_list_eq (.inr hcounter) hlist
  | recvPuback buf mypacketid =>
    refine ⟨.inl (iotxMcHandleRecvPuback_packetId c buf mypacketid), ?_,
      fun n hn => .inl (iotxMcHandleRecvPuback_continues hn)⟩
    show List.Sublist (List.map _ (iotxMcHandleRecvPuback c buf mypacketid).2.1.listPubWaitAck) _
    rw [iotxMcHandleRecvPuback_labels]
    exact sublist_append_left _ _
  | pubInfoProc env =>
    refine ⟨.inl rfl, ?_, fun n hn => .inl (mqttPubInfoProc_continues hn)⟩
    exact (mqttPubInfoProc_labels c env).trans (sublist_append_left _ _)
  | setClientState state => exact IdOp.Effect.of_list_eq (.inl rfl) rfl

/-! ## Two messages in flight -/

/-- What holds along every run: the counter is at the number of allocations, nodes and
allocations belong to steps already taken, a node whose step allocated an id carries
that id, and no allocation belongs to two steps. -/
structure IdInv (s : IdRun) : Prop where
  counter : s.client.packetId = idAt s.allocs
  labels : (s.list.map PubInfo.ptr).Nodup
  taken : ∀ n ∈ s.list, n.ptr < s.steps
  alloc : ∀ p k, s.allocAt p = some k → p < s.steps ∧ 1 ≤ k ∧ k ≤ s.allocs
  node : ∀ n ∈ s.list, ∀ k, s.allocAt n.ptr = some k → n.msgId = idAt k
  inj : ∀ p q k, s.allocAt p = some k → s.allocAt q = some k → p = q

theorem idInv_start (c : Client) : IdInv (IdRun.start c) where
  counter := rfl
  labels := nodup_nil
  taken n hn := by cases hn
  alloc p k h := by cases h
  node n hn := by cases hn
  inj p q k h := by cases h

theorem IdInv.labels_step {s : IdRun} (h : IdInv s) (op : IdOp) :
    ((op.exec s.client s.steps).listPubWaitAck.map PubInfo.ptr).Nodup ∧
      ∀ n ∈ (op.exec s.client s.steps).listPubWaitAck, n.ptr < s.steps + 1 := by
  have hfresh : ∀ n ∈ s.client.listPubWaitAck, n.ptr ≠ s.steps :=
    fun n hn => Nat.ne_of_lt (h.taken n hn)
  have heff := op.exec_effect hfresh
  refine ⟨?_, fun n hn => ?_⟩
  · refine heff.labels.nodup (List.Nodup.append h.labels (nodup_singleton _) ?_)
    simpa using hfresh
  · rcases heff.node n hn with ⟨m, hm, hcont⟩ | ⟨hptr, -⟩
    · rw [hcont.ptr]
      exact Nat.lt_succ_of_lt (h.taken m hm)
    · omega

theorem update_eq_some {f : ℕ → Option ℕ} {a b p k : ℕ}
    (h : Function.update f a (some b) p = some k) : p = a ∧ k = b ∨ p ≠ a ∧ f p = some k := by
  by_cases hp : p = a
  · rw [hp, Function.update_self] at h
    exact .inl ⟨hp, (Option.some.inj h).symm⟩
  · rw [Function.update_of_ne hp] at h
    exact .inr ⟨hp, h⟩

theorem IdInv.step {s : IdRun} (h : IdInv s) (op : IdOp) : IdInv (idStep s op) := by
  obtain ⟨hlabels, htaken⟩ := h.labels_step op
  have heff := op.exec_effect fun n hn => Nat.ne_of_lt (h.taken n hn)
  have hnone : s.allocAt s.steps = none := by
    cases hk : s.allocAt s.steps with
    | none => rfl
    | some k => exact absurd (h.alloc _ _ hk).1 (lt_irrefl _)
  unfold idStep
  simp only
  by_cases hsame : (op.exec s.client s.steps).packetId = s.client.packetId
  · rw [if_pos hsame]
    refine ⟨hsame.trans h.counter, hlabels, htaken, fun p k hk => ?_, fun n hn k hk => ?_, h.inj⟩
    · obtain ⟨hp, hk⟩ := h.alloc p k hk
      exact ⟨Nat.lt_succ_of_lt hp, hk⟩
    · -- a node of the list was there before, or it is new and has no allocated id
      rcases heff.node n hn with ⟨m, hm, hcont⟩ | ⟨hptr, -⟩
      · rw [hcont.msgId]
        exact h.node m hm k (hcont.ptr ▸ hk)
      · simp only [hptr, hnone] at hk
        cases hk
  · -- an id was allocated, with the number of allocations as its number
    rw [if_neg hsame]
    have hnext : idAt (s.allocs + 1) = nextPacketid s.client.packetId := by
      rw [idAt_succ, h.counter]
    have hmod : nextPacketid s.client.packetId % 2 ^ 16 = nextPacketid s.client.packetId := by
      have hle := idAt_le (s.allocs + 1)
      rw [hnext] at hle
      exact Nat.mod_eq_of_lt (lt_of_le_of_lt hle (by decide))
    refine ⟨?_, hlabels, htaken, fun p k hk => ?_, fun n hn k hk => ?_, fun p q k hp hq => ?_⟩
    · rw [hnext]
      exact heff.counter.resolve_left hsame
    · rcases update_eq_some hk with ⟨rfl, rfl⟩ | ⟨-, hk⟩
      · exact ⟨Nat.lt_succ_self _, by omega, le_rfl⟩
      · obtain ⟨hp, hk⟩ := h.alloc p k hk
        exact ⟨Nat.lt_succ_of_lt hp, hk.1, Nat.le_succ_of_le hk.2⟩
    · rcases heff.node n hn with ⟨m, hm, hcont⟩ | ⟨hptr, hid⟩
      · have hlt := h.taken m hm
        rw [hcont.ptr] at hk
        rcases update_eq_some hk with ⟨heq, -⟩ | ⟨-, hk⟩
        · exact absurd heq (Nat.ne_of_lt hlt)
        · rw [hcont.msgId]
          exact h.node m hm k hk
      · rcases update_eq_some hk with ⟨-, rfl⟩ | ⟨hne, -⟩
        · rw [hid hsame, hmod, hnext]
        · exact absurd hptr hne
    · -- two allocations at the same place are the same one
      rcases update_eq_some hp with ⟨rfl, rfl⟩ | ⟨-, hp⟩ <;>
        rcases update_eq_some hq with ⟨rfl, hk⟩ | ⟨-, hq⟩
      · rfl
      · exact absurd (h.alloc _ _ hq).2.2 (by omega)
      · exact absurd (h.alloc _ _ hp).2.2 (by omega)
      · exact h.inj p q k hp hq

theorem idInv_run (c : Client) (ops : List IdOp) : IdInv (idRun (IdRun.start c) ops) :=
  inv_foldl IdInv (fun _ op h => h.step op) (idInv_start c) ops

theorem IdInv.next_range {s : IdRun} (h : IdInv s) :
    1 ≤ (iotxMcGetNextPacketid s.client).1 ∧
      (iotxMcGetNextPacketid s.client).1 ≤ iotxMcPacketIdMax := by
  have hid : (iotxMcGetNextPacketid s.client).1 = idAt (s.allocs + 1) := by
    rw [iotxMcGetNextPacketid_eq, idAt_succ, h.counter]
  rw [hid]
  exact ⟨by simp [idAt], idAt_le _⟩

/-! ## What one PUBACK acknowledges -/

/-- The PUBACK in `buf` acknowledges `n`: it waits before, and its node is invalid afterwards. -/
def Client.Acknowledges (c : Client) (buf : Memory) (mypacketid : ℕ) (n : PubInfo) : Prop :=
  n.nodeState = .normanl ∧
    ∃ m ∈ (iotxMcHandleRecvPuback c buf mypacketid).2.1.listPubWaitAck,
      m.ptr = n.ptr ∧ m.nodeState = .invalid

/-- Masking an id makes exactly the waiting nodes with this id invalid. -/
theorem mask_invalid_iff {l : List PubInfo} (hl : (l.map PubInfo.ptr).Nodup) {n : PubInfo}
    (hn : n ∈ l) (hnormal : n.nodeState = .normanl) (id : ℕ) :
    (∃ m ∈ iotxMcMaskPubInfoFrom l id, m.ptr = n.ptr ∧ m.nodeState = .invalid) ↔
      n.msgId = id := by
  constructor
  · rintro ⟨m, hm, hptr, hinvalid⟩
    obtain ⟨n', hn', rfl⟩ := mem_map.mp hm
    -- the masked node is `n` itself, as the labels are distinct
    have hsame : n' = n := by
      refine inj_on_of_nodup_map hl hn' hn ?_
      split_ifs at hptr <;> exact hptr
    subst hsame
    by_contra hne
    rw [if_neg hne, hnormal] at hinvalid
    cases hinvalid
  · intro hid
    exact ⟨_, mem_map_of_mem hn, by rw [if_pos hid]; exact ⟨rfl, rfl⟩⟩

/-- The messages that one PUBACK acknowledges have one id: the one it carries, if it has room
for one. -/
theorem IdInv.acknowledges {s : IdRun} (h : IdInv s) (buf : Memory) (mypacketid : ℕ) :
    ∃ id, (∀ i, pubackId buf = some i → i = id ∧ ∀ n ∈ s.list,
        (s.client.Acknowledges buf mypacketid n ↔ n.nodeState = .normanl ∧ n.msgId = id)) ∧
      ∀ n ∈ s.list, s.client.Acknowledges buf mypacketid n → n.msgId = id := by
  unfold Client.Acknowledges
  rcases iotxMcHandleRecvPuback_list s.client buf mypacketid with
    ⟨id, hid, hl⟩ | ⟨hnone, hl | hl⟩
  · refine ⟨id, fun i hi => ⟨Option.some.inj (hi.symm.trans hid), fun n hn => ?_⟩,
      fun n hn hack => ?_⟩
    · rw [hl]
      exact and_congr_right fun hnormal => mask_invalid_iff h.labels hn hnormal id
    · rw [hl] at hack
      exact (mask_invalid_iff h.labels hn hack.1 id).mp hack.2
  · -- a PUBACK that is refused changes no node
    refine ⟨0, fun i hi => absurd (hnone.symm.trans hi) (by simp), fun n hn hack => ?_⟩
    obtain ⟨hnormal, m, hm, hptr, hinvalid⟩ := hack
    rw [hl] at hm
    rw [inj_on_of_nodup_map h.labels hm hn hptr, hnormal] at hinvalid
    cases hinvalid
  · refine ⟨mypacketid, fun i hi => absurd (hnone.symm.trans hi) (by simp), fun n hn hack => ?_⟩
    rw [hl] at hack
    exact (mask_invalid_iff h.labels hn hack.1 mypacketid).mp hack.2

/-- If both messages allocated their ids, the allocations are a turn of the counter apart. -/
def IdRun.Apart (s : IdRun) (n m : PubInfo) : Prop :=
  ∀ j k, s.allocAt n.ptr = some j → s.allocAt m.ptr = some k →
    j + iotxMcPacketIdMax ≤ k ∨ k + iotxMcPacketIdMax ≤ j

/-- Two messages of the list with one id are apart. -/
theorem IdInv.apart {s : IdRun} (h : IdInv s) :
    s.list.Pairwise fun n m => n.msgId = m.msgId → s.Apart n m := by
  have hne : s.list.Pairwise fun n m => n.ptr ≠ m.ptr := pairwise_map.mp h.labels
  refine hne.imp_of_mem fun {n m} hn hm hptr hid j k hj hk => ?_
  refine idAt_apart (h.alloc _ _ hj).2.1 (h.alloc _ _ hk).2.1 ?_ ?_
  · rintro rfl
    exact hptr (h.inj _ _ _ hj hk)
  · rw [← h.node n hn j hj, ← h.node m hm k hk]
    exact hid

/-- **Ids in flight.**  In every state of every run the next id is between 1 and 65535; a PUBACK
acknowledges exactly the waiting messages with the id it carries; and two messages that wait with
one id, or that one PUBACK acknowledges, and allocated their ids, have their allocations at least
65535 apart. -/
theorem in_flight_ids_apart (c : Client) (ops : List IdOp) :
    let s := idRun (IdRun.start c) ops
    (1 ≤ (iotxMcGetNextPacketid s.client).1 ∧
        (iotxMcGetNextPacketid s.client).1 ≤ iotxMcPacketIdMax) ∧
      (∀ buf mypacketid id, pubackId buf = some id → ∀ n ∈ s.list,
        (s.client.Acknowledges buf mypacketid n ↔ n.nodeState = .normanl ∧ n.msgId = id)) ∧
      (s.list.Pairwise fun n m => n.nodeState = .normanl → m.nodeState = .normanl →
        n.msgId = m.msgId → s.Apart n m) ∧
      ∀ buf mypacketid, s.list.Pairwise fun n m => s.client.Acknowledges buf mypacketid n →
        s.client.Acknowledges buf mypacketid m → s.Apart n m := by
  intro s
  have hinv : IdInv s := idInv_run c ops
  refine ⟨hinv.next_range, fun buf mypacketid id hid => ?_, ?_, fun buf mypacketid => ?_⟩
  · obtain ⟨i, hacks, -⟩ := hinv.acknowledges buf mypacketid
    obtain ⟨rfl, hiff⟩ := hacks id hid
    exact hiff
  · exact hinv.apart.imp fun happart _ _ hid => happart hid
  · obtain ⟨i, -, hone⟩ := hinv.acknowledges buf mypacketid
    refine hinv.apart.imp_of_mem fun hn hm happart hackn hackm => happart ?_
    rw [hone _ hn hackn, hone _ hm hackm]

/-! ## A whole turn of the counter -/

/-- A QoS 1 message on the topic `/a`. -/
def publishA : IdOp := .publish pubRequestA pubEnvServed

/-- A subscription of `/a`. -/
def subscribeA : IdOp := .subscribe ⟨filterA, 0, 1, 0⟩ subEnvServed

/-- The first message waits, `/a` is subscribed, and the counter stands at `id`. -/
def turningClient (id : ℕ) : Client :=
  { idleClient with
    packetId := id
    listPubWaitAck := [newPubInfo 0 1 0 (publishPacket idleClient pubRequestA).2]
    listSubHandle := [⟨filterA, ⟨1, 0⟩⟩] }

theorem subscribeA_exec {id : ℕ} (h : id < iotxMcPacketIdMax) (label : ℕ) :
    subscribeA.exec (turningClient id) label = turningClient (id + 1) := by
  have hnext : nextPacketid id = id + 1 := if_neg (Nat.ne_of_lt h)
  have hmoved : wrapperMqttSubscribe (turningClient id) ⟨filterA, 0, 1, 0⟩ subEnvServed
      = ((nextPacketid id : ℤ), turningClient (nextPacketid id)) := by rfl
  rw [subscribeA, IdOp.exec, hmoved, hnext]

theorem idRun_subscribeA (n : ℕ) :
    ∀ (s : IdRun) (id : ℕ), s.client = turningClient id → id + n ≤ iotxMcPacketIdMax →
      (idRun s (List.replicate n subscribeA)).client = turningClient (id + n) ∧
        (idRun s (List.replicate n subscribeA)).steps = s.steps + n := by
  induction n with
  | zero => intro s id hc _; exact ⟨hc, rfl⟩
  | succ n ih =>
    intro s id hc hle
    have hexec : subscribeA.exec s.client s.steps = turningClient (id + 1) := by
      rw [hc]
      exact subscribeA_exec (by omega) _
    have hclient : (idStep s subscribeA).client = turningClient (id + 1) := by
      unfold idStep
      simp only [hexec]
      split_ifs <;> rfl
    have hsteps : (idStep s subscribeA).steps = s.steps + 1 := by
      unfold idStep
      simp only
      split_ifs <;> rfl
    obtain ⟨hrun, hrunSteps⟩ := ih (idStep s subscribeA) (id + 1) hclient (by omega)
    rw [replicate_succ]
    refine ⟨?_, ?_⟩
    · rw [show id + (n + 1) = id + 1 + n by omega]
      exact hrun
    · rw [show s.steps + (n + 1) = s.steps + 1 + n by omega, ← hsteps]
      exact hrunSteps

/-- The messages that wait after a whole turn of the counter between two publishes. -/
theorem list_after_turn (n : ℕ) (hn : 2 + n = iotxMcPacketIdMax) :
    (idRun (IdRun.start idleClient)
      (publishA :: subscribeA :: (List.replicate n subscribeA ++ [publishA]))).list
        = [newPubInfo 0 1 0 (publishPacket idleClient pubRequestA).2,
          newPubInfo iotxMcPacketIdMax 1 0 (publishPacket idleClient pubRequestA).2] := by
  have hstart : (idRun (IdRun.start idleClient) [publishA, subscribeA]).client
      = turningClient 2 := rfl
  obtain ⟨hclient, hsteps⟩ := idRun_subscribeA n _ 2 hstart (le_of_eq hn)
  have hlabel : (idRun (IdRun.start idleClient) [publishA, subscribeA]).steps = 2 := rfl
  rw [hlabel, hn] at hsteps
  rw [hn] at hclient
  have hrun : idRun (IdRun.start idleClient)
      (publishA :: subscribeA :: (List.replicate n subscribeA ++ [publishA]))
        = idStep (idRun (idRun (IdRun.start idleClient) [publishA, subscribeA])
            (List.replicate n subscribeA)) publishA := by
    simp only [idRun, foldl_cons, foldl_append, foldl_nil]
  have hlist : (publishA.exec (turningClient iotxMcPacketIdMax) iotxMcPacketIdMax).listPubWaitAck
      = [newPubInfo 0 1 0 (publishPacket idleClient pubRequestA).2,
        newPubInfo iotxMcPacketIdMax 1 0 (publishPacket idleClient pubRequestA).2] := by
    rfl
  rw [hrun, idStep, hclient, hsteps]
  split_ifs <;> exact hlist

/-- One message that is not acknowledged, 65534 subscriptions, one more message. -/
def reusingRun : List IdOp :=
  publishA :: subscribeA :: (List.replicate 65533 subscribeA ++ [publishA])

/-- The PUBACK of the id 1. -/
def ackOfOne (i : ℕ) : UInt8 := [0x40, 2, 0, 1].getD i 0

/-- After a run that ends with the list of `list_after_turn` two messages wait with the same id,
and one PUBACK acknowledges both. -/
theorem IdInv.reused {s : IdRun} (h : IdInv s) {n m : PubInfo} (hlist : s.list = [n, m])
    (hn : n.nodeState = .normanl ∧ n.msgId = 1) (hm : m.nodeState = .normanl ∧ m.msgId = 1) :
    ∃ n ∈ s.list, ∃ m ∈ s.list, n.ptr ≠ m.ptr ∧
      n.nodeState = .normanl ∧ m.nodeState = .normanl ∧ n.msgId = m.msgId ∧
        ∀ mypacketid, s.client.Acknowledges ackOfOne mypacketid n ∧
          s.client.Acknowledges ackOfOne mypacketid m := by
  have hnmem : n ∈ s.list := hlist ▸ mem_cons_self
  have hmmem : m ∈ s.list := hlist ▸ mem_cons_of_mem _ mem_cons_self
  have hptr := h.labels
  rw [hlist] at hptr
  refine ⟨n, hnmem, m, hmmem, by simpa using hptr, hn.1, hm.1, hn.2.trans hm.2.symm,
    fun mypacketid => ?_⟩
  obtain ⟨i, hacks, -⟩ := h.acknowledges ackOfOne mypacketid
  obtain ⟨rfl, hiff⟩ := hacks 1 rfl
  exact ⟨(hiff n hnmem).mpr hn, (hiff m hmmem).mpr hm⟩

/-- After `reusingRun` two messages wait with the same id, and one PUBACK acknowledges both. -/
theorem in_flight_id_reused :
    let s := idRun (IdRun.start idleClient) reusingRun
    ∃ n ∈ s.list, ∃ m ∈ s.list, n.ptr ≠ m.ptr ∧
      n.nodeState = .normanl ∧ m.nodeState = .normanl ∧ n.msgId = m.msgId ∧
        ∀ mypacketid, s.client.Acknowledges ackOfOne mypacketid n ∧
          s.client.Acknowledges ackOfOne mypacketid m := by
  rw [reusingRun]
  exact (idInv_run idleClient _).reused (list_after_turn 65533 rfl) ⟨rfl, rfl⟩ ⟨rfl, rfl⟩

end Iotkit.Mqtt
