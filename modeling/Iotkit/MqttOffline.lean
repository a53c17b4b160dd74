/-
# Subscriptions made before the connection

`iotx_mqtt_offline_subscribe` and `iotx_mqtt_deal_offline_subs` (`mqtt_api.c`) in the build with
dynamic memory, which keeps a list, and in the one without, which keeps a table of slots.  What
`wrapper_mqtt_subscribe` says on the connection is not looked at: a subscription that it turns down
is gone, and success is returned.
-/
import Iotkit.MqttSubscribe
import Iotkit.Upsert

open GuardedRun

namespace Iotkit.Mqtt

open List

/-! ## Return codes -/

abbrev errorMalloc : ℤ := -1014
abbrev mqttTopicLenTooShort : ℤ := -45
abbrev mqttOfflineListLenTooShort : ℤ := -46

/-- `CONFIG_MQTT_TOPIC_MAXLEN` without dynamic memory. -/
def configMqttTopicMaxlenStatic : ℕ := 50

/-! ## The calls -/

/-- A call of `iotx_mqtt_offline_subscribe`: its arguments, of which a `NULL` filter is
`none` and a `NULL` function is 0, and whether the memory for an entry and for its filter
can be had. -/
structure OfflineCall where
  topicFilter : Option CString
  qos : ℕ
  topicHandleFunc : ℕ
  pcontext : ℕ
  nodeAlloc : Bool
  filterAlloc : Bool

/-- The subscription a call asks for, unless one of its arguments is `NULL`. -/
def OfflineCall.request (call : OfflineCall) : Option SubRequest :=
  match call.topicFilter with
  | none => none
  | some topicFilter =>
    if call.topicHandleFunc = 0 then none
    else some ⟨topicFilter, call.qos, call.topicHandleFunc, call.pcontext⟩

/-- The comparison of the filters of an entry and of a call: `strlen` and `memcmp`. -/
def sameFilter (node req : SubRequest) : Prop :=
  node.topicFilter.strlen = req.topicFilter.strlen ∧ node.topicFilter.bytes = req.topicFilter.bytes

instance (node req : SubRequest) : Decidable (sameFilter node req) :=
  inferInstanceAs (Decidable (_ ∧ _))

/-- An entry after a repeated call for its filter. -/
def SubRequest.refresh (node req : SubRequest) : SubRequest :=
  { node with qos := req.qos, messageHandler := req.messageHandler, pcontext := req.pcontext }

/-- What `iotx_mqtt_deal_offline_subs` leaves behind: its return value, the subscriptions
and the client afterwards, and the calls of `wrapper_mqtt_subscribe` with their return
values. -/
structure Drained (S C : Type) where
  rc : ℤ
  subs : S
  client : C
  attempts : List (SubRequest × ℤ)

/-! ## With dynamic memory -/

/-- `offline_sub_list_t`. -/
structure OfflineSubList where
  init : Bool
  offlineSubList : List SubRequest

def offlineSubsListInit (s : OfflineSubList) : OfflineSubList := if s.init then s else ⟨true, []⟩

def offlineSubsListDeinit (_ : OfflineSubList) : OfflineSubList := ⟨false, []⟩

/-- The scan of `iotx_mqtt_offline_subscribe` for an entry with the filter. -/
def refreshNode (req : SubRequest) : List SubRequest → Option (List SubRequest)
  | [] => none
  | node :: l =>
    if sameFilter node req then some (node.refresh req :: l)
    else (refreshNode req l).map (node :: ·)

def iotxMqttOfflineSubscribe (s : OfflineSubList) (call : OfflineCall) : ℤ × OfflineSubList :=
  match call.request with
  | none => (nullValueError, s)
  | some req =>
    let s := offlineSubsListInit s
    match refreshNode req s.offlineSubList with
    | some l => (successReturn, { s with offlineSubList := l })
    | none =>
      if call.nodeAlloc = false then (errorMalloc, s)
      else if call.filterAlloc = false then (errorMalloc, s)
      else (successReturn, { s with offlineSubList := s.offlineSubList ++ [req] })

/-- The loop of `iotx_mqtt_deal_offline_subs`; `subscribe` is `wrapper_mqtt_subscribe`. -/
def dealNodes {C : Type} (subscribe : C → SubRequest → ℤ × C) :
    List SubRequest → C → C × List (SubRequest × ℤ)
  | [], c => (c, [])
  | node :: l, c =>
    let (rc, c) := subscribe c node
    let (c, attempts) := dealNodes subscribe l c
    (c, (node, rc) :: attempts)

def iotxMqttDealOfflineSubs {C : Type} (subscribe : C → SubRequest → ℤ × C)
    (s : OfflineSubList) (c : C) : Drained OfflineSubList C :=
  if s.init = false then ⟨successReturn, s, c, []⟩
  else
    let (c, attempts) := dealNodes subscribe s.offlineSubList c
    ⟨successReturn, offlineSubsListDeinit { s with offlineSubList := [] }, c, attempts⟩

/-! ## Without dynamic memory -/

/-- A slot of the table. -/
structure OfflineSlot where
  sub : SubRequest
  used : Bool

/-- A slot that is all zero. -/
def OfflineSlot.zero : OfflineSlot := ⟨⟨⟨[], CString.nul_notMem_nil⟩, 0, 0, 0⟩, false⟩

/-- `offline_sub_list_t`. -/
structure OfflineSubTable where
  init : Bool
  offlineSubList : List OfflineSlot

/-- The table that is all zero. -/
def zeroTable (maxNum : ℕ) : OfflineSubTable := ⟨false, List.replicate maxNum .zero⟩

/-- `_offline_subs_list_init`. -/
def offlineSubsTableInit (maxNum : ℕ) (s : OfflineSubTable) : OfflineSubTable :=
  if s.init then s else { zeroTable maxNum with init := true }

/-- The first loop of `iotx_mqtt_offline_subscribe`: a used slot with the filter. -/
def refreshSlot (req : SubRequest) : List OfflineSlot → Option (List OfflineSlot)
  | [] => none
  | slot :: slots =>
    if slot.used = true ∧ sameFilter slot.sub req then
      some ({ slot with sub := slot.sub.refresh req } :: slots)
    else (refreshSlot req slots).map (slot :: ·)

/-- Its second loop: a slot that is not used. -/
def fillSlot (req : SubRequest) : List OfflineSlot → Option (List OfflineSlot)
  | [] => none
  | slot :: slots =>
    if slot.used = false then some (⟨req, true⟩ :: slots)
    else (fillSlot req slots).map (slot :: ·)

/-- `iotx_mqtt_offline_subscribe`. -/
def iotxMqttOfflineSubscribeStatic (maxNum : ℕ) (s : OfflineSubTable) (call : OfflineCall) :
    ℤ × OfflineSubTable :=
  match call.request with
  | none => (nullValueError, s)
  | some req =>
    let s := offlineSubsTableInit maxNum s
    if req.topicFilter.strlen ≥ configMqttTopicMaxlenStatic then (mqttTopicLenTooShort, s)
    else
      match refreshSlot req s.offlineSubList with
      | some slots => (successReturn, { s with offlineSubList := slots })
      | none =>
        match fillSlot req s.offlineSubList with
        | some slots => (successReturn, { s with offlineSubList := slots })
        | none => (mqttOfflineListLenTooShort, s)

/-- The loop of `iotx_mqtt_deal_offline_subs`. -/
def dealSlots {C : Type} (subscribe : C → SubRequest → ℤ × C) :
    List OfflineSlot → C → C × List (SubRequest × ℤ)
  | [], c => (c, [])
  | slot :: slots, c =>
    if slot.used then
      let (rc, c) := subscribe c slot.sub
      let (c, attempts) := dealSlots subscribe slots c
      (c, (slot.sub, rc) :: attempts)
    else dealSlots subscribe slots c

/-- `iotx_mqtt_deal_offline_subs`; `_offline_subs_list_deinit` sets the table to zero. -/
def iotxMqttDealOfflineSubsStatic (maxNum : ℕ) {C : Type} (subscribe : C → SubRequest → ℤ × C)
    (s : OfflineSubTable) (c : C) : Drained OfflineSubTable C :=
  if s.init = false then ⟨successReturn, s, c, []⟩
  else
    let (c, attempts) := dealSlots subscribe s.offlineSubList c
    ⟨successReturn, zeroTable maxNum, c, attempts⟩

/-! ## What both builds are for -/

/-- A place that subscriptions are kept in until the client connects. -/
structure OfflineStore where
  State : Type
  zero : State
  subscribe : State → OfflineCall → ℤ × State
  held : State → List SubRequest
  deal {C : Type} : (C → SubRequest → ℤ × C) → State → C → Drained State C

/-- The two builds of `mqtt_api.c`. -/
inductive OfflineBuild
  | dynmem
  | static (maxNum : ℕ)

def OfflineBuild.store : OfflineBuild → OfflineStore
  | dynmem =>
    { State := OfflineSubList
      zero := ⟨false, []⟩
      subscribe := iotxMqttOfflineSubscribe
      held := fun s => s.offlineSubList
      deal := iotxMqttDealOfflineSubs }
  | static maxNum =>
    { State := OfflineSubTable
      zero := zeroTable maxNum
      subscribe := iotxMqttOfflineSubscribeStatic maxNum
      held := fun s => (s.offlineSubList.filter (·.used)).map (·.sub)
      deal := iotxMqttDealOfflineSubsStatic maxNum }

namespace OfflineStore

variable (b : OfflineStore)

def step (s : b.State) (call : OfflineCall) : b.State := (b.subscribe s call).2

/-- The subscriptions after the calls, of which the first meets memory that is all zero. -/
def run (calls : List OfflineCall) : b.State := calls.foldl b.step b.zero

/-- The calls that are answered with success. -/
def acceptedCalls : b.State → List OfflineCall → List OfflineCall
  | _, [] => []
  | s, call :: calls =>
    if (b.subscribe s call).1 = successReturn then call :: acceptedCalls (b.step s call) calls
    else acceptedCalls (b.step s call) calls

/-- What the accepted calls ask for. -/
def accepted (calls : List OfflineCall) : List SubRequest :=
  (b.acceptedCalls b.zero calls).filterMap OfflineCall.request

/-- A rejected call leaves what is held as it is. -/
def RejectedKeeps (s : b.State) (call : OfflineCall) : Prop :=
  (b.subscribe s call).1 ≠ successReturn → b.held (b.step s call) = b.held s

/-- A subscription that fails is reported by the return value, or it is still held. -/
def ReportedOrKept {C : Type} (d : Drained b.State C) : Prop :=
  ∀ attempt ∈ d.attempts, attempt.2 < 0 → d.rc ≠ successReturn ∨ attempt.1 ∈ b.held d.subs

end OfflineStore

/-- Every accepted filter is held once, in the order of the first accepted calls and with
the values of the last one. -/
structure HoldsAccepted (accepted held : List SubRequest) : Prop where
  once : (held.map (·.topicFilter)).Nodup
  order : held.map (·.topicFilter) = (accepted.map (·.topicFilter)).eraseDups
  last : ∀ req, req ∈ held ↔ ∃ before after, accepted = before ++ req :: after ∧
    ∀ later ∈ after, later.topicFilter ≠ req.topicFilter

/-- None of the subscriptions is turned down, made one after the other. -/
def AllSubscribed {C : Type} (subscribe : C → SubRequest → ℤ × C) (c : C)
    (held : List SubRequest) : Prop :=
  AllSteps (fun c req => (subscribe c req).2) (fun c req => 0 ≤ (subscribe c req).1) c held

/-- The filters fit the table and its slots. -/
def BelowCapacity (maxNum : ℕ) (reqs : List SubRequest) : Prop :=
  (∀ req ∈ reqs, req.topicFilter.strlen < configMqttTopicMaxlenStatic) ∧
    (reqs.map (·.topicFilter)).eraseDups.length ≤ maxNum

/-! ## Both builds update in place or add at the end -/

theorem SubRequest.refresh_eq {node req : SubRequest} (h : sameFilter node req) :
    node.refresh req = req := by
  have hfilter : node.topicFilter = req.topicFilter := by
    cases hn : node.topicFilter
    cases hr : req.topicFilter
    simpa [sameFilter, hn, hr] using h.2
  rw [SubRequest.refresh, hfilter]

theorem sameFilter_iff (node req : SubRequest) :
    sameFilter node req ↔ node.topicFilter = req.topicFilter := by
  constructor
  · intro h
    rw [← SubRequest.refresh_eq h]
    rfl
  · intro h
    rw [sameFilter, h]
    exact ⟨rfl, rfl⟩

variable (req : SubRequest)

theorem refreshNode_eq (l : List SubRequest) :
    refreshNode req l = Upsert.update (·.topicFilter) req l := by
  induction l with
  | nil => rfl
  | cons node l ih =>
    rw [refreshNode, Upsert.update, ih]
    by_cases h : sameFilter node req
    · rw [if_pos h, if_pos ((sameFilter_iff node req).mp h), SubRequest.refresh_eq h]
    · rw [if_neg h, if_neg fun hf => h ((sameFilter_iff node req).mpr hf)]

/-- The slots of a table that holds `held`: the used ones come first. -/
def slotsOf (held : List SubRequest) (free : ℕ) : List OfflineSlot :=
  held.map (⟨·, true⟩) ++ List.replicate free .zero

theorem held_slotsOf (held : List SubRequest) (free : ℕ) :
    ((slotsOf held free).filter (·.used)).map (·.sub) = held := by
  have hfree : (List.replicate free OfflineSlot.zero).filter (·.used) = [] := by
    rw [filter_replicate, if_neg (by decide)]
  rw [slotsOf, filter_append, hfree, append_nil, filter_map, map_map]
  simp [Function.comp_def]

variable {maxNum : ℕ} {held : List SubRequest} {s : OfflineSubTable}

theorem held_static {free : ℕ} (hslots : s.offlineSubList = slotsOf held free) :
    (OfflineBuild.static maxNum).store.held s = held := by
  show (s.offlineSubList.filter (·.used)).map (·.sub) = held
  rw [hslots, held_slotsOf]

theorem refreshSlot_slotsOf (held : List SubRequest) (free : ℕ) :
    refreshSlot req (slotsOf held free)
      = (Upsert.update (·.topicFilter) req held).map (slotsOf · free) := by
  induction held with
  | nil =>
    rw [Upsert.update, Option.map_none]
    induction free with
    | zero => rfl
    | succ free ih =>
      rw [slotsOf] at ih ⊢
      rw [replicate_succ, map_nil, nil_append, refreshSlot,
        if_neg fun h => absurd h.1 (by decide)]
      exact congrArg (Option.map _) ih
  | cons node held ih =>
    have hcons : slotsOf (node :: held) free = ⟨node, true⟩ :: slotsOf held free := rfl
    rw [hcons, refreshSlot, ih, Upsert.update]
    by_cases h : sameFilter node req
    · rw [if_pos ⟨rfl, h⟩, if_pos ((sameFilter_iff node req).mp h), SubRequest.refresh_eq h]
      rfl
    · rw [if_neg fun h' => h h'.2, if_neg fun hf => h ((sameFilter_iff node req).mpr hf),
        Option.map_map, Option.map_map]
      rfl

theorem fillSlot_slotsOf (held : List SubRequest) (free : ℕ) :
    fillSlot req (slotsOf held free)
      = if free = 0 then none else some (slotsOf (held ++ [req]) (free - 1)) := by
  induction held with
  | nil =>
    cases free with
    | zero => rfl
    | succ free => rfl
  | cons node held ih =>
    have hcons : slotsOf (node :: held) free = ⟨node, true⟩ :: slotsOf held free := rfl
    rw [hcons, fillSlot, if_neg (by simp), ih]
    split_ifs
    · rfl
    · rfl

/-! ## Each call, in each build -/

/-- What a store has to do: a call that is accepted puts what it asks for in the place of
the entry with its filter or behind all others, a rejected one leaves what is held alone,
and connecting makes one subscription for each entry, returns success and holds nothing. -/
structure OfflineStore.Refines (b : OfflineStore) (Inv : b.State → Prop) : Prop where
  zero : Inv b.zero ∧ b.held b.zero = []
  call : ∀ s call, Inv s → Inv (b.step s call) ∧
    ((b.subscribe s call).1 = successReturn ∧ (∃ req, call.request = some req ∧
        b.held (b.step s call) = Upsert.upsert (·.topicFilter) req (b.held s)) ∨
      (b.subscribe s call).1 ≠ successReturn ∧ b.held (b.step s call) = b.held s)
  deal : ∀ {C : Type} (subscribe : C → SubRequest → ℤ × C) s c, Inv s →
    let d := b.deal subscribe s c
    (d.client, d.attempts) = dealNodes subscribe (b.held s) c ∧
      d.rc = successReturn ∧ b.held d.subs = []

/-- A list that has not been initialized holds nothing. -/
def OfflineListInv (s : OfflineSubList) : Prop := s.init = false → s.offlineSubList = []

theorem offlineSubsListInit_eq {s : OfflineSubList} (h : OfflineListInv s) :
    offlineSubsListInit s = ⟨true, s.offlineSubList⟩ := by
  obtain ⟨init, l⟩ := s
  cases init with
  | false => rw [show l = [] from h rfl]; rfl
  | true => rfl

theorem refines_dynmem : OfflineBuild.dynmem.store.Refines OfflineListInv := by
  refine ⟨⟨fun _ => rfl, rfl⟩, fun s call hinv => ?_, fun subscribe s c hinv => ?_⟩
  · show OfflineListInv (iotxMqttOfflineSubscribe s call).2 ∧
      ((iotxMqttOfflineSubscribe s call).1 = successReturn ∧ (∃ req, call.request = some req ∧
        (iotxMqttOfflineSubscribe s call).2.offlineSubList
          = Upsert.upsert (·.topicFilter) req s.offlineSubList) ∨
      (iotxMqttOfflineSubscribe s call).1 ≠ successReturn ∧
        (iotxMqttOfflineSubscribe s call).2.offlineSubList = s.offlineSubList)
    unfold iotxMqttOfflineSubscribe
    -- a list that has been initialized meets the invariant, whatever it holds
    have hinit : ∀ l, OfflineListInv ⟨true, l⟩ := fun l (htrue : true = false) => absurd htrue (by decide)
    have hmalloc : errorMalloc ≠ successReturn := by decide
    cases call.request with
    | none =>
      have hnull : nullValueError ≠ successReturn := by decide
      exact ⟨hinv, .inr ⟨hnull, rfl⟩⟩
    | some req =>
      simp only [offlineSubsListInit_eq hinv, refreshNode_eq]
      cases hup : Upsert.update (·.topicFilter) req s.offlineSubList with
      | some l =>
        have hl : l = Upsert.upsert (·.topicFilter) req s.offlineSubList := by
          rw [Upsert.upsert, hup]
          rfl
        exact ⟨hinit l, .inl ⟨rfl, req, rfl, hl⟩⟩
      | none =>
        have hl : s.offlineSubList ++ [req] =
            Upsert.upsert (·.topicFilter) req s.offlineSubList := by
          rw [Upsert.upsert, hup]
          rfl
        simp only
        split_ifs
        · exact ⟨hinit _, .inr ⟨hmalloc, rfl⟩⟩
        · exact ⟨hinit _, .inr ⟨hmalloc, rfl⟩⟩
        · exact ⟨hinit _, .inl ⟨rfl, req, rfl, hl⟩⟩
  · obtain ⟨init, l⟩ := s
    cases init with
    | false =>
      have hl : l = [] := hinv rfl
      subst hl
      exact ⟨rfl, rfl, rfl⟩
    | true => exact ⟨rfl, rfl, rfl⟩

/-- A table holds its entries in the first slots, and one that has not been initialized
holds nothing. -/
def OfflineTableInv (maxNum : ℕ) (s : OfflineSubTable) : Prop :=
  ∃ held, held.length ≤ maxNum ∧ s.offlineSubList = slotsOf held (maxNum - held.length) ∧
    (s.init = false → held = [])

theorem offlineSubsTableInit_eq (hslots : s.offlineSubList = slotsOf held (maxNum - held.length))
    (hinit : s.init = false → held = []) :
    offlineSubsTableInit maxNum s = ⟨true, slotsOf held (maxNum - held.length)⟩ := by
  obtain ⟨init, l⟩ := s
  cases init with
  | false => rw [hinit rfl]; rfl
  | true => exact congrArg _ hslots

theorem dealSlots_slotsOf {C : Type} (subscribe : C → SubRequest → ℤ × C) (held : List SubRequest)
    (free : ℕ) : ∀ c, dealSlots subscribe (slotsOf held free) c = dealNodes subscribe held c := by
  induction held with
  | nil =>
    intro c
    rw [dealNodes, slotsOf, map_nil, nil_append]
    induction free with
    | zero => rfl
    | succ free ih =>
      rw [replicate_succ, dealSlots]
      exact ih
  | cons node held ih =>
    intro c
    have hcons : slotsOf (node :: held) free = ⟨node, true⟩ :: slotsOf held free := rfl
    rw [hcons, dealSlots, dealNodes]
    simp only [ih, if_true]

/-- What the static build does to a table that holds `held`. -/
theorem iotxMqttOfflineSubscribeStatic_cases
    (hslots : s.offlineSubList = slotsOf held (maxNum - held.length))
    (hinit : s.init = false → held = []) (call : OfflineCall) :
    let r := iotxMqttOfflineSubscribeStatic maxNum s call
    (∃ req, call.request = some req ∧ req.topicFilter.strlen < configMqttTopicMaxlenStatic ∧
      (req.topicFilter ∈ held.map (·.topicFilter) ∨ held.length < maxNum) ∧
      r = (successReturn, ⟨true, slotsOf (Upsert.upsert (·.topicFilter) req held)
        (maxNum - (Upsert.upsert (·.topicFilter) req held).length)⟩)) ∨
    ((∀ req, call.request = some req → req.topicFilter.strlen < configMqttTopicMaxlenStatic →
        req.topicFilter ∉ held.map (·.topicFilter) ∧ maxNum ≤ held.length) ∧
      r.1 ≠ successReturn ∧ (r.2 = s ∨ r.2 = ⟨true, slotsOf held (maxNum - held.length)⟩)) := by
  unfold iotxMqttOfflineSubscribeStatic
  cases call.request with
  | none => exact .inr ⟨nofun, show nullValueError ≠ successReturn by decide, .inl rfl⟩
  | some req =>
    simp only [offlineSubsTableInit_eq hslots hinit]
    by_cases hlen : req.topicFilter.strlen ≥ configMqttTopicMaxlenStatic
    · rw [if_pos hlen]
      refine .inr ⟨?_, show mqttTopicLenTooShort ≠ successReturn by decide, .inr rfl⟩
      rintro _ ⟨⟩ hlt
      exact absurd hlen (Nat.not_le.mpr hlt)
    rw [if_neg hlen, refreshSlot_slotsOf, fillSlot_slotsOf]
    cases hup : Upsert.update (·.topicFilter) req held with
    | some l =>
      -- a repeated filter is refreshed even in a full table
      have hmem : req.topicFilter ∈ held.map (·.topicFilter) := by
        by_contra hnot
        rw [(Upsert.update_eq_none_iff _ req held).mpr hnot] at hup
        cases hup
      have hl : Upsert.upsert (·.topicFilter) req held = l := by rw [Upsert.upsert, hup]; rfl
      refine .inl ⟨req, rfl, Nat.not_le.mp hlen, .inl hmem, ?_⟩
      rw [Upsert.length_upsert, if_pos hmem, hl]
      rfl
    | none =>
      have hnot : req.topicFilter ∉ held.map (·.topicFilter) :=
        (Upsert.update_eq_none_iff _ req held).mp hup
      have hl : Upsert.upsert (·.topicFilter) req held = held ++ [req] :=
        Upsert.upsert_of_notMem _ hnot
      simp only [Option.map_none]
      by_cases hfull : maxNum - held.length = 0
      · rw [if_pos hfull]
        refine .inr ⟨?_, show mqttOfflineListLenTooShort ≠ successReturn by decide,
          .inr rfl⟩
        rintro _ ⟨⟩ -
        exact ⟨hnot, by omega⟩
      · rw [if_neg hfull]
        refine Or.inl ⟨req, rfl, Nat.not_le.mp hlen, Or.inr (by omega), ?_⟩
        rw [Upsert.length_upsert, if_neg hnot, hl, Nat.sub_sub]

theorem iotxMqttDealOfflineSubsStatic_cases
    (hslots : s.offlineSubList = slotsOf held (maxNum - held.length))
    (hinit : s.init = false → held = []) {C : Type} (subscribe : C → SubRequest → ℤ × C) (c : C) :
    let d := iotxMqttDealOfflineSubsStatic maxNum subscribe s c
    (d.client, d.attempts) = dealNodes subscribe held c ∧ d.rc = successReturn ∧
      d.subs.offlineSubList = slotsOf [] maxNum := by
  simp only [iotxMqttDealOfflineSubsStatic]
  by_cases hzero : s.init = false
  · rw [if_pos hzero]
    rw [hinit hzero] at hslots ⊢
    exact ⟨rfl, rfl, hslots⟩
  · rw [if_neg hzero, hslots, dealSlots_slotsOf]
    exact ⟨rfl, rfl, rfl⟩

theorem refines_static (maxNum : ℕ) :
    (OfflineBuild.static maxNum).store.Refines (OfflineTableInv maxNum) := by
  refine ⟨⟨⟨[], Nat.zero_le _, rfl, fun _ => rfl⟩, held_slotsOf [] maxNum⟩,
    fun s call hinv => ?_, fun subscribe s c hinv => ?_⟩
  · obtain ⟨held, hle, hslots, hinit⟩ := hinv
    have hheld : (OfflineBuild.static maxNum).store.held s = held := held_static hslots
    rw [hheld]
    rcases iotxMqttOfflineSubscribeStatic_cases hslots hinit call with
      ⟨req, hreq, -, hroom, heq⟩ | ⟨-, hno, hsame⟩
    · have hlen : (Upsert.upsert (·.topicFilter) req held).length ≤ maxNum := by
        rw [Upsert.length_upsert]
        split_ifs with hmem
        · exact hle
        · exact hroom.resolve_left hmem
      have hstep : (OfflineBuild.static maxNum).store.step s call
          = (iotxMqttOfflineSubscribeStatic maxNum s call).2 := rfl
      rw [hstep, heq]
      refine ⟨⟨_, hlen, rfl, nofun⟩, .inl ⟨?_, req, hreq, held_slotsOf _ _⟩⟩
      exact congrArg Prod.fst heq
    · have hstep : (OfflineBuild.static maxNum).store.step s call
          = (iotxMqttOfflineSubscribeStatic maxNum s call).2 := rfl
      rw [hstep]
      rcases hsame with hsame | hsame
      · rw [hsame]
        exact ⟨⟨held, hle, hslots, hinit⟩, .inr ⟨hno, hheld⟩⟩
      · rw [hsame]
        exact ⟨⟨held, hle, rfl, nofun⟩, .inr ⟨hno, held_slotsOf _ _⟩⟩
  · obtain ⟨held, hle, hslots, hinit⟩ := hinv
    obtain ⟨hattempts, hrc, hsubs⟩ := iotxMqttDealOfflineSubsStatic_cases hslots hinit subscribe c
    have hheld : (OfflineBuild.static maxNum).store.held s = held := held_static hslots
    exact ⟨hattempts.trans (by rw [hheld]), hrc, held_static hsubs⟩

/-! ## Runs of calls -/

namespace OfflineStore

variable {b : OfflineStore} {Inv : b.State → Prop}

theorem Refines.run (h : b.Refines Inv) (calls : List OfflineCall) : Inv (b.run calls) :=
  inv_foldl Inv (fun s call hs => (h.call s call hs).1) h.zero.1 calls

theorem run_append_singleton (calls : List OfflineCall) (call : OfflineCall) :
    b.run (calls ++ [call]) = b.step (b.run calls) call := by
  rw [OfflineStore.run, foldl_append]
  rfl

theorem acceptedCalls_append (s : b.State) (calls more : List OfflineCall) :
    b.acceptedCalls s (calls ++ more)
      = b.acceptedCalls s calls ++ b.acceptedCalls (calls.foldl b.step s) more := by
  induction calls generalizing s with
  | nil => rfl
  | cons call calls ih =>
    rw [cons_append, acceptedCalls, acceptedCalls, ih]
    split_ifs
    · rfl
    · rfl

theorem accepted_append_singleton (calls : List OfflineCall) (call : OfflineCall) :
    b.accepted (calls ++ [call]) = b.accepted calls ++
      if (b.subscribe (b.run calls) call).1 = successReturn then call.request.toList else [] := by
  have hlast : b.acceptedCalls (b.run calls) [call]
      = if (b.subscribe (b.run calls) call).1 = successReturn then [call] else [] := rfl
  rw [accepted, acceptedCalls_append, filterMap_append]
  apply congrArg (b.accepted calls ++ ·)
  show (b.acceptedCalls (b.run calls) [call]).filterMap OfflineCall.request = _
  rw [hlast]
  split_ifs
  · cases h : call.request <;> simp [h]
  · rfl

section

variable (h : b.Refines Inv) (calls : List OfflineCall)
include h calls

theorem Refines.held_run :
    b.held (b.run calls) = Upsert.upserts (·.topicFilter) (b.accepted calls) := by
  induction calls using List.reverseRecOn with
  | nil => exact h.zero.2
  | append_singleton calls call ih =>
    rw [run_append_singleton, accepted_append_singleton]
    rcases (h.call (b.run calls) call (h.run calls)).2 with ⟨hok, req, hreq, hheld⟩ | ⟨hno, hheld⟩
    · rw [if_pos hok, hreq, hheld, ih]
      exact (Upsert.upserts_append_singleton _ _ _).symm
    · rw [if_neg hno, hheld, append_nil, ih]

theorem Refines.holdsAccepted : HoldsAccepted (b.accepted calls) (b.held (b.run calls)) := by
  rw [h.held_run]
  exact ⟨Upsert.nodup_upserts _ _, Upsert.map_key_upserts _ _, fun req => Upsert.mem_upserts _⟩

theorem Refines.rejectedKeeps : AllSteps b.step b.RejectedKeeps b.zero calls := by
  suffices hall : ∀ s, Inv s → AllSteps b.step b.RejectedKeeps s calls from hall _ h.zero.1
  induction calls with
  | nil => exact fun _ _ => trivial
  | cons call calls ih =>
    intro s hs
    obtain ⟨hinv, hcall⟩ := h.call s call hs
    refine ⟨fun hno => ?_, ih _ hinv⟩
    rcases hcall with ⟨hok, -⟩ | ⟨-, hheld⟩
    · exact absurd hok hno
    · exact hheld

end

end OfflineStore

/-! ## Connecting -/

theorem map_fst_dealNodes {C : Type} (subscribe : C → SubRequest → ℤ × C) (held : List SubRequest) :
    ∀ c, (dealNodes subscribe held c).2.map Prod.fst = held := by
  induction held with
  | nil => exact fun _ => rfl
  | cons node held ih => exact fun c => congrArg (node :: ·) (ih _)

theorem dealNodes_succeeds_iff {C : Type} (subscribe : C → SubRequest → ℤ × C)
    (held : List SubRequest) : ∀ c,
    (∀ attempt ∈ (dealNodes subscribe held c).2, 0 ≤ attempt.2) ↔
      AllSubscribed subscribe c held := by
  induction held with
  | nil => exact fun c => iff_of_true (by simp [dealNodes]) trivial
  | cons node held ih =>
    intro c
    rw [dealNodes, AllSubscribed, allSteps_cons, forall_mem_cons]
    exact and_congr_right fun _ => ih _

theorem OfflineStore.Refines.reportedOrKept_iff {b : OfflineStore} {Inv : b.State → Prop}
    (h : b.Refines Inv) {C : Type} (subscribe : C → SubRequest → ℤ × C) {s : b.State}
    (hs : Inv s) (c : C) :
    b.ReportedOrKept (b.deal subscribe s c) ↔ AllSubscribed subscribe c (b.held s) := by
  obtain ⟨hattempts, hrc, hsubs⟩ := h.deal subscribe s c hs
  rw [← dealNodes_succeeds_iff, ← hattempts]
  constructor
  · -- success is returned and nothing is held, so a failed attempt has no way out
    intro hrep attempt hmem
    by_contra hneg
    rcases hrep attempt hmem (Int.not_le.mp hneg) with hrc' | hkept
    · exact hrc' hrc
    · rw [hsubs] at hkept
      cases hkept
  · intro hall attempt hmem hneg
    exact absurd (hall attempt hmem) (Int.not_le.mpr hneg)

/-! ## The two builds below the capacity of the table -/

theorem BelowCapacity.of_append {maxNum : ℕ} {reqs more : List SubRequest}
    (h : BelowCapacity maxNum (reqs ++ more)) : BelowCapacity maxNum reqs := by
  refine ⟨fun req hreq => h.1 req (mem_append_left _ hreq), le_trans ?_ h.2⟩
  rw [map_append, eraseDups_append, length_append]
  exact Nat.le_add_right _ _

theorem accepted_static {maxNum : ℕ} (calls : List OfflineCall)
    (h : BelowCapacity maxNum (calls.filterMap OfflineCall.request)) :
    (OfflineBuild.static maxNum).store.accepted calls = calls.filterMap OfflineCall.request := by
  induction calls using List.reverseRecOn with
  | nil => rfl
  | append_singleton calls call ih =>
    rw [filterMap_append] at h ⊢
    have hprev := ih h.of_append
    rw [OfflineStore.accepted_append_singleton, hprev]
    apply congrArg (calls.filterMap OfflineCall.request ++ ·)
    have hrun := (refines_static maxNum).held_run calls
    obtain ⟨held, hle, hslots, hinit⟩ := (refines_static maxNum).run calls
    rw [held_static hslots, hprev] at hrun
    rcases iotxMqttOfflineSubscribeStatic_cases hslots hinit call with
      ⟨req, hreq, -, -, heq⟩ | ⟨hroom, hno, -⟩
    · have hok : ((OfflineBuild.static maxNum).store.subscribe
          ((OfflineBuild.static maxNum).store.run calls) call).1 = successReturn :=
        congrArg Prod.fst heq
      rw [if_pos hok, hreq]
      simp [hreq]
    have hno' : ((OfflineBuild.static maxNum).store.subscribe
        ((OfflineBuild.static maxNum).store.run calls) call).1 ≠ successReturn := hno
    rw [if_neg hno']
    cases hreq : call.request with
    | none => simp [hreq]
    | some req =>
      have hlast : [call].filterMap OfflineCall.request = [req] := by simp [hreq]
      rw [hlast] at h
      obtain ⟨hnew, hfull⟩ := hroom req hreq (h.1 req (by simp))
      -- one filter more than the table has slots
      have hkeys := congrArg List.length (Upsert.map_key_upserts
        (fun req : SubRequest => req.topicFilter)
        (calls.filterMap OfflineCall.request ++ [req]))
      rw [length_map, Upsert.upserts_append_singleton, ← hrun, Upsert.length_upsert,
        if_neg hnew] at hkeys
      have := h.2
      omega

theorem accepted_dynmem {calls : List OfflineCall}
    (h : ∀ call ∈ calls, call.nodeAlloc = true ∧ call.filterAlloc = true) :
    OfflineBuild.dynmem.store.accepted calls = calls.filterMap OfflineCall.request := by
  induction calls using List.reverseRecOn with
  | nil => rfl
  | append_singleton calls call ih =>
    rw [OfflineStore.accepted_append_singleton, filterMap_append,
      ih fun call hcall => h call (mem_append_left _ hcall)]
    apply congrArg (calls.filterMap OfflineCall.request ++ ·)
    obtain ⟨hnode, hfilter⟩ := h call (by simp)
    generalize OfflineBuild.dynmem.store.run calls = s
    have hok : call.request ≠ none →
        (OfflineBuild.dynmem.store.subscribe s call).1 = successReturn := by
      intro hreq
      show (iotxMqttOfflineSubscribe s call).1 = successReturn
      unfold iotxMqttOfflineSubscribe
      cases hcall : call.request with
      | none => exact absurd hcall hreq
      | some req =>
        simp only [hnode, hfilter, Bool.true_eq_false, if_false]
        cases refreshNode req (offlineSubsListInit s).offlineSubList <;> rfl
    cases hreq : call.request with
    | none => simp [hreq]
    | some req =>
      rw [if_pos (hok (by simp [hreq]))]
      simp [hreq]

/-- Below the capacity of the table, the static build makes for the calls that the other
build accepts the subscriptions that the other build makes, and if memory can be had it
makes them for all the calls. -/
def SameSubscriptions (maxNum : ℕ) (calls : List OfflineCall) {C : Type}
    (subscribe : C → SubRequest → ℤ × C) (c : C) : Prop :=
  let dynmem := OfflineBuild.dynmem.store
  let table := (OfflineBuild.static maxNum).store
  let attempts := (dynmem.deal subscribe (dynmem.run calls) c).attempts
  BelowCapacity maxNum (dynmem.accepted calls) →
    (table.deal subscribe (table.run (dynmem.acceptedCalls dynmem.zero calls)) c).attempts
        = attempts ∧
      ((∀ call ∈ calls, call.nodeAlloc = true ∧ call.filterAlloc = true) →
        (table.deal subscribe (table.run calls) c).attempts = attempts)

theorem sameSubscriptions (maxNum : ℕ) (calls : List OfflineCall) {C : Type}
    (subscribe : C → SubRequest → ℤ × C) (c : C) : SameSubscriptions maxNum calls subscribe c := by
  intro hcap
  have hsame : ∀ calls', (OfflineBuild.static maxNum).store.accepted calls'
        = OfflineBuild.dynmem.store.accepted calls →
      ((OfflineBuild.static maxNum).store.deal subscribe
          ((OfflineBuild.static maxNum).store.run calls') c).attempts
        = (OfflineBuild.dynmem.store.deal subscribe
          (OfflineBuild.dynmem.store.run calls) c).attempts := by
    intro calls' haccepted
    have htable := ((refines_static maxNum).deal subscribe _ c
      ((refines_static maxNum).run calls')).1
    have hdynmem := (refines_dynmem.deal subscribe _ c (refines_dynmem.run calls)).1
    rw [(refines_static maxNum).held_run] at htable
    rw [refines_dynmem.held_run] at hdynmem
    rw [haccepted, ← hdynmem] at htable
    exact congrArg Prod.snd htable
  refine ⟨hsame _ (accepted_static _ hcap), fun hmem => hsame _ ?_⟩
  rw [accepted_dynmem hmem] at hcap ⊢
  exact accepted_static _ hcap

/-! ## What `wrapper_mqtt_subscribe` turns down -/

/-- `wrapper_mqtt_subscribe` in an environment for each of its calls. -/
def subscribeWith (c : Client × (ℕ → SubEnv)) (req : SubRequest) : ℤ × (Client × (ℕ → SubEnv)) :=
  let (rc, client) := wrapperMqttSubscribe c.1 req (c.2 0)
  (rc, client, fun k => c.2 (k + 1))

/-- A connected client makes the subscription: the filter is well formed, memory can be
had, and the packet fits the send buffer and is sent. -/
structure Subscribable (sendBuf : BufMode) (req : SubRequest) (env : SubEnv) : Prop where
  args : ¬ (req.topicFilter.strlen = 0 ∨ req.messageHandler = 0)
  filter : iotxMcCheckTopic req.topicFilter .topicFilter = 0
  handlerAlloc : env.handlerAlloc = true
  filterAlloc : env.filterAlloc = true
  bufAlloc : sendBuf.allocFails env.alloc = false
  fits : mqttPacketLen (2 + (2 + req.topicFilter.strlen + 1))
    ≤ sendBuf.sendSize req.topicFilter.strlen
  sent : iotxMcSendPacket (mqttSerializeSubscribe (sendBuf.sendSize req.topicFilter.strlen) 0 1
    req.topicFilter req.qos).2 env.writes = successReturn

theorem mqttSerializeSubscribe_id (buflen id : ℕ) (req : SubRequest) (writes : List WriteEvent) :
    let r := mqttSerializeSubscribe buflen 0 id req.topicFilter req.qos
    (r.1 ≤ 0 ↔ ¬ mqttPacketLen (2 + (2 + req.topicFilter.strlen + 1)) ≤ buflen) ∧
      iotxMcSendPacket r.2 writes = iotxMcSendPacket
        (mqttSerializeSubscribe buflen 0 1 req.topicFilter req.qos).2 writes := by
  simp only [mqttSerializeSubscribe]
  by_cases hfits : mqttPacketLen (2 + (2 + req.topicFilter.strlen + 1)) > buflen
  · rw [if_pos hfits, if_pos hfits]
    exact ⟨iff_of_true (by decide) (Nat.not_le.mpr hfits), rfl⟩
  · rw [if_neg hfits, if_neg hfits]
    refine ⟨iff_of_false ?_ (not_not.mpr (Nat.not_lt.mp hfits)), ?_⟩
    · simp only [cons_append, length_cons]
      omega
    · simp [iotxMcSendPacket, writeInt]

theorem mqttSubscribe_success_iff (c : Client) {req : SubRequest}
    (hargs : ¬ (req.topicFilter.strlen = 0 ∨ req.messageHandler = 0))
    (htopic : iotxMcCheckTopic req.topicFilter .topicFilter = 0) (msgId : ℕ) (env : SubEnv) :
    (mqttSubscribe c req msgId env).1 = successReturn ↔ Subscribable c.sendBuf req env := by
  obtain ⟨hfits, hsent⟩ := mqttSerializeSubscribe_id (c.sendBuf.sendSize req.topicFilter.strlen)
    (msgId % 2 ^ 16) req env.writes
  unfold mqttSubscribe
  rw [if_neg fun h => hargs (Or.inr h)]
  generalize mqttSerializeSubscribe (c.sendBuf.sendSize req.topicFilter.strlen) 0 (msgId % 2 ^ 16)
    req.topicFilter req.qos = r at hfits hsent ⊢
  obtain ⟨len, bytes⟩ := r
  simp only at hfits hsent ⊢
  -- the memory for the handler and its filter, and for the packet
  by_cases hhandler : env.handlerAlloc = false
  · rw [if_pos hhandler]
    exact iff_of_false (by simp) fun h => by simp [h.handlerAlloc] at hhandler
  rw [if_neg hhandler]
  by_cases hfilter : env.filterAlloc = false
  · rw [if_pos hfilter]
    exact iff_of_false (by simp) fun h => by simp [h.filterAlloc] at hfilter
  rw [if_neg hfilter]
  by_cases halloc : c.sendBuf.allocFails env.alloc = true
  · rw [if_pos halloc]
    exact iff_of_false (by simp) fun h => by simp [h.bufAlloc] at halloc
  rw [if_neg halloc]
  -- the packet is built, and then sent
  by_cases hlen : len ≤ 0
  · rw [if_pos hlen]
    exact iff_of_false (by simp) fun h => hfits.mp hlen h.fits
  rw [if_neg hlen]
  by_cases hwritten : iotxMcSendPacket bytes env.writes ≠ successReturn
  · rw [if_pos hwritten]
    exact iff_of_false (by simp) fun h => hwritten (hsent.trans h.sent)
  · rw [if_neg hwritten]
    refine iff_of_true rfl ⟨hargs, htopic, by simpa using hhandler, by simpa using hfilter,
      by simpa using halloc, ?_, hsent.symm.trans (not_not.mp hwritten)⟩
    by_contra hnot
    exact hlen (hfits.mpr hnot)

theorem mqttSubscribe_rc_le (c : Client) (req : SubRequest) (msgId : ℕ) (env : SubEnv) :
    (mqttSubscribe c req msgId env).1 ≤ 0 := by
  unfold mqttSubscribe
  simp only
  split_ifs
  all_goals simp

/-- A subscription is made exactly if the client is connected and it can be made; the
client then stays connected, with the send buffer it had. -/
theorem wrapperMqttSubscribe_cases (c : Client) (req : SubRequest) (env : SubEnv) :
    let r := wrapperMqttSubscribe c req env
    (c.clientState = .connected ∧ Subscribable c.sendBuf req env ∧ 0 ≤ r.1 ∧
      r.2.clientState = .connected ∧ r.2.sendBuf = c.sendBuf) ∨
    (¬ (c.clientState = .connected ∧ Subscribable c.sendBuf req env) ∧ r.1 < 0) := by
  unfold wrapperMqttSubscribe
  by_cases hargs : req.topicFilter.strlen = 0 ∨ req.messageHandler = 0
  · rw [if_pos hargs]
    exact .inr ⟨fun h => h.2.args hargs, show nullValueError < 0 by decide⟩
  rw [if_neg hargs]
  simp only
  have hstate : (iotxMcGetNextPacketid c).2.clientState = c.clientState := rfl
  have hbuf : (iotxMcGetNextPacketid c).2.sendBuf = c.sendBuf := rfl
  generalize iotxMcGetNextPacketid c = next at hstate hbuf ⊢
  obtain ⟨msgId, c'⟩ := next
  simp only at hstate hbuf ⊢
  by_cases hconn : c'.clientState ≠ .connected
  · rw [if_pos hconn]
    exact .inr ⟨fun h => hconn (hstate.trans h.1), show mqttStateError < 0 by decide⟩
  rw [if_neg hconn]
  by_cases htopic : iotxMcCheckTopic req.topicFilter .topicFilter ≠ 0
  · rw [if_pos htopic]
    exact .inr ⟨fun h => htopic h.2.filter, show mqttTopicFormatError < 0 by decide⟩
  rw [if_neg htopic]
  have hsub := mqttSubscribe_success_iff c' hargs (not_not.mp htopic) msgId env
  rw [hbuf] at hsub
  have hle := mqttSubscribe_rc_le c' req msgId env
  have hcases := mqttSubscribe_cases c' req msgId env
  generalize mqttSubscribe c' req msgId env = r at hsub hle hcases ⊢
  rw [afterRequest]
  by_cases hok : r.1 ≠ successReturn
  · rw [if_pos hok]
    exact .inr ⟨fun h => hok (hsub.mpr h.2), lt_of_le_of_ne hle hok⟩
  rw [if_neg hok]
  obtain ⟨-, -, hclient⟩ := hcases.resolve_left fun h => hok h.1
  refine .inl ⟨hstate.symm.trans (not_not.mp hconn), hsub.mp (not_not.mp hok),
    Int.natCast_nonneg _, ?_, ?_⟩
  · rw [hclient]
    exact not_not.mp hconn
  · rw [hclient]
    exact hbuf

/-- With `wrapper_mqtt_subscribe`, all is subscribed exactly if there is nothing to
subscribe, or the client is connected and each subscription can be made. -/
theorem allSubscribed_subscribeWith (held : List SubRequest) : ∀ (c : Client) (env : ℕ → SubEnv),
    AllSubscribed subscribeWith (c, env) held ↔ held = [] ∨ c.clientState = .connected ∧
      ∀ k (h : k < held.length), Subscribable c.sendBuf held[k] (env k) := by
  induction held with
  | nil => exact fun c env => iff_of_true trivial (.inl rfl)
  | cons req held ih =>
    intro c env
    rw [AllSubscribed, allSteps_cons]
    show 0 ≤ (wrapperMqttSubscribe c req (env 0)).1 ∧ AllSubscribed subscribeWith
      ((wrapperMqttSubscribe c req (env 0)).2, fun k => env (k + 1)) held ↔ _
    rw [ih]
    -- a client that has made a subscription is in the state for the next one
    rcases wrapperMqttSubscribe_cases c req (env 0) with
      ⟨hconn, hreq, hrc, hconn', hbuf⟩ | ⟨hnot, hrc⟩
    · rw [hbuf]
      constructor
      · rintro ⟨-, hrest⟩
        refine .inr ⟨hconn, fun k hk => ?_⟩
        cases k with
        | zero => exact hreq
        | succ k =>
          rcases hrest with rfl | ⟨-, hall⟩
          · simp at hk
          · exact hall k (Nat.lt_of_succ_lt_succ hk)
      · rintro (hnil | ⟨-, hall⟩)
        · cases hnil
        · exact ⟨hrc, .inr ⟨hconn', fun k hk => hall (k + 1) (Nat.succ_lt_succ hk)⟩⟩
    · refine iff_of_false (fun h => absurd h.1 (Int.not_le.mpr hrc)) ?_
      rintro (hnil | ⟨hconn, hall⟩)
      · cases hnil
      · exact hnot ⟨hconn, hall 0 (Nat.succ_pos _)⟩

/-- **Offline subscriptions.**  In both builds, for every sequence of calls: every accepted filter
is held once with the values of its last call and in the order of the first ones, a rejected call
changes nothing, and on connection one subscription is made for each entry; below the capacity of
the table both builds make the same ones.  One that fails is reported or kept exactly if none fails,
whatever `wrapper_mqtt_subscribe` does; and that of the client makes them all exactly if it is
connected and each can be made. -/
theorem offline_subscriptions_iff (build : OfflineBuild) (maxNum : ℕ) (calls : List OfflineCall)
    {C : Type} (subscribe : C → SubRequest → ℤ × C) (c : C) (client : Client) (env : ℕ → SubEnv) :
    let b := build.store
    let held := b.held (b.run calls)
    (HoldsAccepted (b.accepted calls) held ∧ AllSteps b.step b.RejectedKeeps b.zero calls ∧
      (b.deal subscribe (b.run calls) c).attempts.map Prod.fst = held ∧
      SameSubscriptions maxNum calls subscribe c) ∧
    (b.ReportedOrKept (b.deal subscribe (b.run calls) c) ↔ AllSubscribed subscribe c held) ∧
    (b.ReportedOrKept (b.deal subscribeWith (b.run calls) (client, env)) ↔
      held = [] ∨ client.clientState = .connected ∧
        ∀ k (h : k < held.length), Subscribable client.sendBuf held[k] (env k)) := by
  obtain ⟨Inv, h⟩ : ∃ Inv, build.store.Refines Inv := by
    cases build with
    | dynmem => exact ⟨_, refines_dynmem⟩
    | static maxNum => exact ⟨_, refines_static maxNum⟩
  have hattempts := congrArg Prod.snd (h.deal subscribe (build.store.run calls) c (h.run calls)).1
  refine ⟨⟨h.holdsAccepted calls, h.rejectedKeeps calls, ?_, sameSubscriptions maxNum calls _ c⟩,
    h.reportedOrKept_iff subscribe (h.run calls) c, ?_⟩
  · exact (congrArg (List.map Prod.fst) hattempts).trans (map_fst_dealNodes subscribe _ c)
  · rw [h.reportedOrKept_iff subscribeWith (h.run calls)]
    exact allSubscribed_subscribeWith _ client env

/-- A call for the filter `/a`. -/
def callForA (qos : ℕ) : OfflineCall :=
  ⟨some ⟨[0x2F, 0x61], CString.nul_notMem_slashA⟩, qos, 7, 0, true, true⟩

example : (OfflineBuild.dynmem.store.held (OfflineBuild.dynmem.store.run
    [callForA 0, callForA 1])).map (·.qos) = [1] := by decide

/-- The write of SUBSCRIBE fails.  The filter is gone, and success is returned. -/
theorem offline_subscription_dropped :
    let b := OfflineBuild.dynmem.store
    let d := b.deal subscribeWith (b.run [callForA 1])
      (idleClient, fun _ => ⟨true, true, true, [.error]⟩)
    b.held (b.run [callForA 1]) = [⟨⟨[0x2F, 0x61], by decide⟩, 1, 7, 0⟩] ∧
      d.attempts = [(⟨⟨[0x2F, 0x61], by decide⟩, 1, 7, 0⟩, mqttNetworkError)] ∧
      d.rc = successReturn ∧ b.held d.subs = [] ∧ ¬ b.ReportedOrKept d := by
  intro b d
  have hattempts : d.attempts = [(⟨⟨[0x2F, 0x61], by decide⟩, 1, 7, 0⟩, mqttNetworkError)] := rfl
  refine ⟨rfl, hattempts, rfl, rfl, fun hrep => ?_⟩
  rcases hrep _ (by rw [hattempts]; exact mem_cons_self) (by decide) with hrc | hkept
  · exact hrc rfl
  · cases hkept

end Iotkit.Mqtt
