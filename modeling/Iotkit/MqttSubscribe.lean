/-
# Subscribing, unsubscribing and message delivery

`iotx_mc_check_handle_is_identical`, `MQTTSubscribe`, `MQTTUnsubscribe` and their wrappers
(`iotx_mqtt_client.c`, build without `SUB_PERSISTENCE_ENABLED`).

`MQTTUnsubscribe` compares with a string one byte too long, the terminating NUL: equality never
holds, and matching removes the entries whose last wildcard takes the NUL.
-/
import Iotkit.GuardedRun
import Iotkit.MqttPublish

namespace Iotkit.Mqtt

open GuardedRun List

/-! ## `MQTTSubscribe` -/

structure SubRequest where
  topicFilter : CString
  qos : ℕ
  messageHandler : ℕ
  pcontext : ℕ

def SubRequest.handler (req : SubRequest) : TopicHandle :=
  ⟨req.topicFilter, ⟨req.messageHandler, req.pcontext⟩⟩

/-- What the allocator and the network do during `MQTTSubscribe` or `MQTTUnsubscribe`:
the allocation of the handler and of its topic filter, the send buffer, the writes. -/
structure SubEnv where
  handlerAlloc : Bool
  filterAlloc : Bool
  alloc : Bool
  writes : List WriteEvent

variable (a b : TopicHandle)

/-- `iotx_mc_check_handle_is_identical_ex`: 0 if the topic filters are the same. -/
def iotxMcCheckHandleIsIdenticalEx : ℤ :=
  if a.topicFilter.strlen ≠ b.topicFilter.strlen then 1
  else if a.topicFilter.bytes ≠ b.topicFilter.bytes then 1
  else 0

/-- `iotx_mc_check_handle_is_identical`: 0 if the entries are the same. -/
def iotxMcCheckHandleIsIdentical : ℤ :=
  if iotxMcCheckHandleIsIdenticalEx a b ≠ 0 then 1
  else if a.handle.hFp ≠ b.handle.hFp then 1
  else if a.handle.pcontext ≠ b.handle.pcontext then 1
  else 0

/-- Linking the new entry, unless an identical one is in the list. -/
def linkHandler (l : List TopicHandle) (handler : TopicHandle) : List TopicHandle :=
  if l.any fun node => iotxMcCheckHandleIsIdentical node handler = 0 then l else l ++ [handler]

variable (c : Client)

def mqttSubscribe (req : SubRequest) (msgId : ℕ) (env : SubEnv) : ℤ × Client :=
  if req.messageHandler = 0 then (failReturn, c)
  else if env.handlerAlloc = false then (failReturn, c)
  else if env.filterAlloc = false then (failReturn, c)
  else if c.sendBuf.allocFails env.alloc then (failReturn, c)
  else
    let (len, bytes) := mqttSerializeSubscribe (c.sendBuf.sendSize req.topicFilter.strlen) 0
      (msgId % 2 ^ 16) req.topicFilter req.qos
    if len ≤ 0 then (mqttSubscribePacketError, c)
    else if iotxMcSendPacket bytes env.writes ≠ successReturn then (mqttNetworkError, c)
    else (successReturn, { c with listSubHandle := linkHandler c.listSubHandle req.handler })

def wrapperMqttSubscribe (req : SubRequest) (env : SubEnv) : ℤ × Client :=
  if req.topicFilter.strlen = 0 ∨ req.messageHandler = 0 then (nullValueError, c)
  else
    let (msgId, c) := iotxMcGetNextPacketid c
    if c.clientState ≠ .connected then (mqttStateError, c)
    else if iotxMcCheckTopic req.topicFilter .topicFilter ≠ 0 then (mqttTopicFormatError, c)
    else afterRequest msgId (mqttSubscribe c req msgId env)

/-! ## `MQTTUnsubscribe` -/

variable (topicFilter : CString)

/-- The string `MQTTUnsubscribe` looks for: `lenstring.len` is `strlen + 1`. -/
def curTopic : MqttString := ⟨none, topicFilter.withNul⟩

def mqttUnsubscribe (msgId : ℕ) (env : SubEnv) :
    ℤ × Client :=
  if env.handlerAlloc = false then (failReturn, c)
  else if env.filterAlloc = false then (failReturn, c)
  else if c.sendBuf.allocFails env.alloc then (failReturn, c)
  else
    let (len, bytes) := mqttSerializeUnsubscribe (c.sendBuf.sendSize topicFilter.strlen) 0
      (msgId % 2 ^ 16) topicFilter
    if len ≤ 0 then (mqttUnsubscribePacketError, c)
    else if iotxMcSendPacket bytes env.writes ≠ successReturn then (mqttNetworkError, c)
    else
      (successReturn,
        { c with listSubHandle :=
            c.listSubHandle.filter fun node => !topicSelects (curTopic topicFilter) node })

def wrapperMqttUnsubscribe (env : SubEnv) : ℤ × Client :=
  let (msgId, c) := iotxMcGetNextPacketid c
  if iotxMcCheckTopic topicFilter .topicFilter ≠ 0 then (mqttTopicFormatError, c)
  else if c.clientState ≠ .connected then (mqttStateError, c)
  else afterRequest msgId (mqttUnsubscribe c topicFilter msgId env)

/-! ## What they do to the list -/

theorem iotxMcCheckHandleIsIdenticalEx_eq_zero_iff :
    iotxMcCheckHandleIsIdenticalEx a b = 0 ↔ a.topicFilter = b.topicFilter := by
  unfold iotxMcCheckHandleIsIdenticalEx
  by_cases h : a.topicFilter = b.topicFilter
  · simp [h]
  · have hbytes : a.topicFilter.bytes ≠ b.topicFilter.bytes := fun hb => h (CString.ext hb)
    rw [if_pos hbytes]
    simp [h]

theorem iotxMcCheckHandleIsIdentical_eq_zero_iff :
    iotxMcCheckHandleIsIdentical a b = 0 ↔ a = b := by
  have hex := iotxMcCheckHandleIsIdenticalEx_eq_zero_iff a b
  obtain ⟨fa, hfpa, hctxa⟩ := a
  obtain ⟨fb, hfpb, hctxb⟩ := b
  unfold iotxMcCheckHandleIsIdentical
  simp only [TopicHandle.mk.injEq, EventHandle.mk.injEq]
  simp only at hex
  split_ifs with hfilter hfp hctx
  · simp [← hex, hfilter]
  · simp [hfp]
  · simp [hctx]
  · simp [hex.mp (not_not.mp hfilter), not_not.mp hfp, not_not.mp hctx]

theorem linkHandler_eq (l : List TopicHandle) (handler : TopicHandle) :
    linkHandler l handler = if handler ∈ l then l else l ++ [handler] := by
  have hany : (l.any fun node => iotxMcCheckHandleIsIdentical node handler = 0) = true ↔
      handler ∈ l := by
    simp [iotxMcCheckHandleIsIdentical_eq_zero_iff]
  unfold linkHandler
  exact if_congr hany rfl rfl

theorem mqttSubscribe_cases (req : SubRequest) (msgId : ℕ) (env : SubEnv) :
    ((mqttSubscribe c req msgId env).1 ≠ successReturn ∧ (mqttSubscribe c req msgId env).2 = c) ∨
      ((mqttSubscribe c req msgId env).1 = successReturn ∧ req.messageHandler ≠ 0 ∧
        (mqttSubscribe c req msgId env).2
          = { c with listSubHandle := linkHandler c.listSubHandle req.handler }) := by
  unfold mqttSubscribe
  simp only
  split_ifs with hfp
  all_goals first
    | exact Or.inl ⟨by simp, rfl⟩
    | exact .inr ⟨rfl, hfp, rfl⟩

/-- `MQTTPacket_equals` is never true of the string with its NUL, and so
`MQTTUnsubscribe` removes the entries that match it. -/
theorem topicSelects_curTopic (node : TopicHandle) :
    topicSelects (curTopic topicFilter) node
      = iotxMcIsTopicMatched node.topicFilter.bytes topicFilter.withNul := by
  have hne : mqttPacketEquals (curTopic topicFilter) node.topicFilter = false := by
    have : topicFilter.withNul ≠ node.topicFilter.bytes := by
      intro h
      apply node.topicFilter.nul_notMem
      rw [← h]
      simp [CString.withNul]
    simp [mqttPacketEquals, curTopic, this]
  rw [topicSelects, hne, Bool.false_or]
  rfl

theorem mqttUnsubscribe_cases (msgId : ℕ) (env : SubEnv) :
    ((mqttUnsubscribe c topicFilter msgId env).1 ≠ successReturn ∧
        (mqttUnsubscribe c topicFilter msgId env).2 = c) ∨
      ((mqttUnsubscribe c topicFilter msgId env).1 = successReturn ∧
        (mqttUnsubscribe c topicFilter msgId env).2
          = { c with listSubHandle := c.listSubHandle.filter fun node =>
                !iotxMcIsTopicMatched node.topicFilter.bytes topicFilter.withNul }) := by
  unfold mqttUnsubscribe
  simp only [topicSelects_curTopic]
  split_ifs
  all_goals first
    | exact Or.inl ⟨by simp, rfl⟩
    | exact .inr ⟨rfl, rfl⟩

/-! ## Runs -/

/-- One step: a subscription, an unsubscription, or a received PUBLISH. -/
inductive SubOp
  | subscribe (req : SubRequest) (msgId : ℕ) (env : SubEnv)
  | unsubscribe (topicFilter : CString) (msgId : ℕ) (env : SubEnv)
  | recvPublish (buf : Memory) (env : SendEnv)

def subStep : SubOp → Client
  | .subscribe req msgId env => (mqttSubscribe c req msgId env).2
  | .unsubscribe topicFilter msgId env => (mqttUnsubscribe c topicFilter msgId env).2
  | .recvPublish buf env => (iotxMcHandleRecvPublish c buf env).2.1

/-- A run from the state `iotx_mc_init` leaves, with no subscriptions. -/
def subRun (ops : List SubOp) : Client :=
  ops.foldl subStep { c with listSubHandle := [] }

/-! ## Unsubscribing -/

theorem filter_eq_filter_iff {α : Type*} (p q : α → Bool) (l : List α) :
    l.filter p = l.filter q ↔ ∀ x ∈ l, p x = q x := by
  have hle : ∀ p q : α → Bool, l.filter p = l.filter q → ∀ x ∈ l, p x = true → q x = true := by
    intro p q h x hx hp
    have hmem : x ∈ l.filter q := h ▸ mem_filter.mpr ⟨hx, hp⟩
    exact (mem_filter.mp hmem).2
  constructor
  · intro h x hx
    exact Bool.eq_iff_iff.mpr ⟨hle p q h x hx, hle q p h.symm x hx⟩
  · exact filter_congr

/-- **Unsubscribing.**  A successful `MQTTUnsubscribe` of `topicFilter` takes out the
entries with this filter and no others exactly when every entry with this filter ends in
a wildcard and no other entry matches the filter with its NUL. -/
theorem unsubscribe_removes_exactly_iff (c : Client) (ops : List SubOp) (topicFilter : CString)
    (msgId : ℕ) (env : SubEnv)
    (hok : (mqttUnsubscribe (subRun c ops) topicFilter msgId env).1 = successReturn) :
    (mqttUnsubscribe (subRun c ops) topicFilter msgId env).2.listSubHandle
        = (subRun c ops).listSubHandle.filter (fun e => e.topicFilter ≠ topicFilter) ↔
      ∀ e ∈ (subRun c ops).listSubHandle,
        (e.topicFilter = topicFilter → endsInWildcard topicFilter.bytes = true) ∧
          (e.topicFilter ≠ topicFilter →
            iotxMcIsTopicMatched e.topicFilter.bytes topicFilter.withNul = false) := by
  rcases mqttUnsubscribe_cases (subRun c ops) topicFilter msgId env with ⟨hno, -⟩ | ⟨-, hc⟩
  · exact absurd hok hno
  rw [hc]
  simp only
  rw [filter_eq_filter_iff]
  refine forall₂_congr fun e _ => ?_
  by_cases he : e.topicFilter = topicFilter
  · have hself := iotxMcIsTopicMatched_self_withNul topicFilter.bytes topicFilter.nul_notMem
    rw [he, CString.withNul, hself]
    simp
  · simp [he]

/-- The filter `/a`. -/
def filterA : CString := ⟨[0x2F, 0x61], CString.nul_notMem_slashA⟩

/-- The filter `/+`. -/
def filterPlus : CString := ⟨[0x2F, 0x2B], by decide⟩

/-- The filter `/b/c`. -/
def filterBC : CString := ⟨[0x2F, 0x62, 0x2F, 0x63], by decide⟩

/-- Memory can be had and the network takes the packet. -/
def subEnvServed : SubEnv := ⟨true, true, true, [.wrote 100]⟩

/-- A subscription of `topicFilter` with the handler 1. -/
def subscribeOp : SubOp :=
  .subscribe ⟨topicFilter, 0, 1, 0⟩ 1 subEnvServed

theorem unsubscribe_removes_exactly_plus :
    let c := subRun idleClient [subscribeOp filterPlus, subscribeOp filterBC]
    iotxMcCheckTopic filterPlus .topicFilter = 0 ∧
      (mqttUnsubscribe c filterPlus 2 subEnvServed).1 = successReturn ∧
      (mqttUnsubscribe c filterPlus 2 subEnvServed).2.listSubHandle
        = c.listSubHandle.filter (fun e => e.topicFilter ≠ filterPlus) := by
  have hok : (mqttUnsubscribe (subRun idleClient [subscribeOp filterPlus, subscribeOp filterBC])
      filterPlus 2 subEnvServed).1 = successReturn := by decide
  refine ⟨by decide, hok, ?_⟩
  exact (unsubscribe_removes_exactly_iff idleClient [subscribeOp filterPlus, subscribeOp filterBC]
    filterPlus 2 subEnvServed hok).mpr (by decide)

/-- Unsubscribing `/a` keeps the entry with the filter `/a` and takes out `/+`. -/
theorem unsubscribe_not_exactly_a :
    let c := subRun idleClient [subscribeOp filterA, subscribeOp filterPlus]
    iotxMcCheckTopic filterA .topicFilter = 0 ∧
      (mqttUnsubscribe c filterA 2 subEnvServed).1 = successReturn ∧
      (∃ e ∈ (mqttUnsubscribe c filterA 2 subEnvServed).2.listSubHandle,
        e.topicFilter = filterA) ∧
      (∃ e ∈ c.listSubHandle, e.topicFilter = filterPlus) ∧
      ∀ e ∈ (mqttUnsubscribe c filterA 2 subEnvServed).2.listSubHandle,
        e.topicFilter ≠ filterPlus := by
  decide

/-! ## The list along runs, and delivery -/

/-- What every reachable subscription list has: no entry twice, and a handler in every
entry. -/
structure SubListInv (l : List TopicHandle) : Prop where
  nodup : l.Nodup
  handler : ∀ e ∈ l, e.handle.hFp ≠ 0

theorem SubListInv.linkHandler {l : List TopicHandle} (h : SubListInv l) {handler : TopicHandle}
    (hfp : handler.handle.hFp ≠ 0) : SubListInv (linkHandler l handler) := by
  rw [linkHandler_eq]
  split_ifs with hmem
  · exact h
  · refine ⟨?_, ?_⟩
    · exact List.Nodup.append h.nodup (nodup_singleton _) (by simpa using hmem)
    · exact forall_mem_append.mpr ⟨h.handler, forall_mem_singleton.mpr hfp⟩

theorem SubListInv.filter {l : List TopicHandle} (h : SubListInv l) (p : TopicHandle → Bool) :
    SubListInv (l.filter p) :=
  ⟨h.nodup.filter p, fun e he => h.handler e (mem_filter.mp he).1⟩

theorem SubListInv.subStep {c : Client} (h : SubListInv c.listSubHandle) (op : SubOp) :
    SubListInv (subStep c op).listSubHandle := by
  cases op with
  | subscribe req msgId env =>
    rcases mqttSubscribe_cases c req msgId env with ⟨-, hc⟩ | ⟨-, hfp, hc⟩
    · rwa [Mqtt.subStep, hc]
    · rw [Mqtt.subStep, hc]
      exact h.linkHandler hfp
  | unsubscribe topicFilter msgId env =>
    rcases mqttUnsubscribe_cases c topicFilter msgId env with ⟨-, hc⟩ | ⟨-, hc⟩
    · rwa [Mqtt.subStep, hc]
    · rw [Mqtt.subStep, hc]
      exact h.filter _
  | recvPublish buf env =>
    rwa [Mqtt.subStep, iotxMcHandleRecvPublish_client]

theorem subListInv_subRun (ops : List SubOp) :
    SubListInv (subRun c ops).listSubHandle :=
  inv_foldl (fun c : Client => SubListInv c.listSubHandle) (fun _ op h => h.subStep op)
    ⟨nodup_nil, by simp⟩ ops

variable (topic : Bytes)

/-- The filter equals the topic, or matches it. -/
def EqualsOrMatches (e : TopicHandle) : Prop :=
  e.topicFilter.bytes = topic ∨ iotxMcIsTopicMatched e.topicFilter.bytes topic = true

instance (topic : Bytes) (e : TopicHandle) : Decidable (EqualsOrMatches topic e) :=
  inferInstanceAs (Decidable (_ ∨ _))

/-- The call of a handler with the message. -/
def publishReceived (msg : TopicInfo) (handle : EventHandle) : Invocation :=
  ⟨handle, .publishReceived, .topicInfo msg⟩

theorem topicSelects_eq (e : TopicHandle) :
    topicSelects ⟨none, topic⟩ e = decide (EqualsOrMatches topic e) := by
  have heq : mqttPacketEquals ⟨none, topic⟩ e.topicFilter = decide (e.topicFilter.bytes = topic) := by
    unfold mqttPacketEquals CString.strlen
    by_cases h : e.topicFilter.bytes = topic
    · simp [h]
    · simp [h, Ne.symm h]
  rw [topicSelects, heq]
  by_cases h : e.topicFilter.bytes = topic <;> simp [EqualsOrMatches, h]

/-- The traversal calls the handlers of the entries it selects, in list order. -/
theorem iotxMcDeliverMessageLoop_eq (msg : TopicInfo) :
    ∀ (l : List TopicHandle) (calls : List Invocation) (flagMatched : Bool),
      (∀ e ∈ l, e.handle.hFp ≠ 0) →
      iotxMcDeliverMessageLoop ⟨none, topic⟩ msg l calls flagMatched
        = (calls ++ (l.filter (EqualsOrMatches topic ·)).map (publishReceived msg ·.handle),
          flagMatched || l.any (EqualsOrMatches topic ·)) := by
  intro l
  induction l with
  | nil => intro calls flagMatched _; simp [iotxMcDeliverMessageLoop]
  | cons e rest ih =>
    intro calls flagMatched hfp
    have hrest : ∀ e ∈ rest, e.handle.hFp ≠ 0 := fun e he => hfp e (mem_cons_of_mem _ he)
    rw [iotxMcDeliverMessageLoop, topicSelects_eq]
    by_cases hsel : EqualsOrMatches topic e
    · rw [if_pos (decide_eq_true hsel), if_pos (hfp e mem_cons_self), ih _ _ hrest]
      simp [hsel, publishReceived]
    · rw [if_neg (by simpa using hsel), ih _ _ hrest]
      simp [hsel]

/-- The calls that a delivered message leads to. -/
def expectedCalls (msg : TopicInfo) : List Invocation :=
  let matched := c.listSubHandle.filter (EqualsOrMatches topic ·)
  matched.map (publishReceived msg ·.handle)
    ++ if matched = [] then callHandleEvent c .publishReceived (.topicInfo msg) else []

theorem iotxMcDeliverMessage_eq {c : Client} (h : SubListInv c.listSubHandle)
    (topic : Bytes) (msg : TopicInfo) :
    iotxMcDeliverMessage c ⟨none, topic⟩ msg = expectedCalls c topic msg := by
  unfold iotxMcDeliverMessage expectedCalls
  rw [iotxMcDeliverMessageLoop_eq topic msg _ _ _ h.handler]
  simp only [nil_append, Bool.false_or]
  by_cases hnone : c.listSubHandle.filter (EqualsOrMatches topic ·) = []
  · have hany : (c.listSubHandle.any (EqualsOrMatches topic ·)) = false := by
      simpa [filter_eq_nil_iff] using hnone
    rw [hany, if_pos rfl, if_pos hnone]
  · have hany : (c.listSubHandle.any (EqualsOrMatches topic ·)) = true := by
      simpa [filter_eq_nil_iff] using hnone
    rw [hany, if_neg (by decide), if_neg hnone, append_nil]

/-- **Subscriptions and dispatch.**  In every state of every run: no two entries have the same
filter, handler and context; a `MQTTSubscribe` that fails leaves the list; and a received PUBLISH
calls the handler of every entry whose filter equals or matches the topic, once and in list order,
and the default handler exactly when there is none. -/
theorem subscriptions_and_dispatch (c : Client) (ops : List SubOp) :
    let c' := subRun c ops
    (c'.listSubHandle.map fun e => (e.topicFilter, e.handle.hFp, e.handle.pcontext)).Nodup ∧
      (∀ req msgId env, (mqttSubscribe c' req msgId env).1 ≠ successReturn →
        (mqttSubscribe c' req msgId env).2.listSubHandle = c'.listSubHandle) ∧
      ∀ buf env msg, recvPublishMessage buf = .ok msg →
        (iotxMcHandleRecvPublish c' buf env).2.2
          = expectedCalls c' (memSlice buf msg.ptopic msg.topicLen) msg := by
  intro c'
  have hinv : SubListInv c'.listSubHandle := subListInv_subRun c ops
  refine ⟨?_, ?_, ?_⟩
  · refine hinv.nodup.map fun a b hab => ?_
    obtain ⟨fa, hfpa, hctxa⟩ := a
    obtain ⟨fb, hfpb, hctxb⟩ := b
    simpa using hab
  · intro req msgId env herr
    rcases mqttSubscribe_cases c' req msgId env with ⟨-, hc⟩ | ⟨hok, -⟩
    · rw [hc]
    · exact absurd hok herr
  · intro buf env msg hmsg
    rw [← iotxMcDeliverMessage_eq hinv]
    simp only [iotxMcHandleRecvPublish, hmsg]
    split_ifs <;> rfl

/-- A QoS 0 PUBLISH on `/a` with the payload `x`. -/
def publishOnA : ℕ → UInt8 := memOf [0x30, 5, 0, 2, 0x2F, 0x61, 0x78] fun _ => 0

theorem subscriptions_and_dispatch_a :
    let c := subRun idleClient [subscribeOp filterA, subscribeOp filterBC, subscribeOp filterPlus]
    recvPublishMessage publishOnA = .ok ⟨0, 0, 0, 0, 4, 2, 6, 1⟩ ∧
      (iotxMcHandleRecvPublish c publishOnA ⟨true, []⟩).2.2
        = expectedCalls c [0x2F, 0x61] ⟨0, 0, 0, 0, 4, 2, 6, 1⟩ ∧
      (expectedCalls c [0x2F, 0x61] ⟨0, 0, 0, 0, 4, 2, 6, 1⟩).length = 2 := by
  have hmsg : recvPublishMessage publishOnA = .ok ⟨0, 0, 0, 0, 4, 2, 6, 1⟩ := by rfl
  refine ⟨hmsg, ?_, by decide⟩
  exact (subscriptions_and_dispatch idleClient
    [subscribeOp filterA, subscribeOp filterBC, subscribeOp filterPlus]).2.2
      publishOnA ⟨true, []⟩ _ hmsg

end Iotkit.Mqtt
