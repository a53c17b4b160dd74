/-
# Synchronous subscription

`wrapper_mqtt_subscribe_sync` (`iotx_mqtt_client.c`): a caller subscribes, puts a node with its
packet id into `list_sub_sync_ack`, and polls the list until the node is marked or the timer has
expired.  Callers are numbered; a step is what one does between two points at which others can
come in.

The poll looks at the head of the list only: its `break` stands outside the `if` that finds the
caller's node.
-/
import Iotkit.MqttSubscribe

namespace Iotkit.Mqtt

open GuardedRun List

/-! ## Callers -/

/-- Where a caller stands: outside, at the top of the loop, before the node is added,
before the poll, at the loop condition, before the clean-up. -/
inductive SyncPc
  | idle | top | add | poll | test | clean
  deriving DecidableEq

/-- A caller: its local variables `ret` and `subed`, and, to state what it is promised,
the packet ids its call has been given and whether a success has been recorded for the
current one. -/
structure Caller where
  pc : SyncPc
  ret : ℤ
  subed : Bool
  ids : List ℕ
  success : Bool

def Caller.out : Caller := ⟨.idle, -1, false, [], false⟩

def Caller.entered : Caller := ⟨.top, -1, false, [], false⟩

structure SyncState where
  client : Client
  callers : ℕ → Caller

variable (s : SyncState)

abbrev SyncState.list : List SubSyncNode := s.client.listSubSyncAck

def SyncState.start (c : Client) : SyncState :=
  ⟨{ c with listSubSyncAck := [] }, fun _ => Caller.out⟩

def SyncState.set (t : ℕ) (k : Caller) : SyncState :=
  { s with callers := Function.update s.callers t k }

def SyncState.setList (l : List SubSyncNode) : SyncState :=
  { s with client := { s.client with listSubSyncAck := l } }

/-- One step of a run.  `other` is anything that leaves `list_sub_sync_ack` alone. -/
inductive SyncOp
  | call (t : ℕ)
  | subscribe (t : ℕ) (req : SubRequest) (env : SubEnv) (inYieldCb : Bool)
  | addNode (t : ℕ) (alloc : Bool)
  | event (packetId : ℕ) (eventType : EventType)
  | other (c : Client)
  | poll (t : ℕ)
  | timer (t : ℕ) (expired : Bool)
  | cleanup (t : ℕ)

/-! ## Steps -/

/-- The request with a QoS out of range replaced by 0. -/
def SubRequest.clampQos (req : SubRequest) : SubRequest :=
  { req with qos := if 2 < req.qos then 0 else req.qos }

/-- The first part of the loop body: subscribe if there is no packet id, and leave at
once if this is a user callback. -/
def subscribeExec (t : ℕ) (req : SubRequest) (env : SubEnv) (inYieldCb : Bool) :
    SyncState × Option (ℕ × ℤ) :=
  let k := s.callers t
  if k.ret < 0 then
    let (ret, c) := wrapperMqttSubscribe s.client req.clampQos env
    let s := { s with client := c }
    if inYieldCb then (s.set t Caller.out, some (t, ret))
    else
      (s.set t { k with
        pc := .add, ret := ret, success := false,
        ids := if 0 ≤ ret then ret.toNat :: k.ids else k.ids }, none)
  else (s.set t { k with pc := .add }, none)

/-- The second part: add a node for the packet id. -/
def addNodeExec (t : ℕ) (alloc : Bool) : SyncState :=
  let k := s.callers t
  if k.subed = false ∧ 0 ≤ k.ret ∧ alloc = true then
    (s.setList (s.list ++ [⟨k.ret.toNat, .undef⟩])).set t { k with pc := .poll, subed := true }
  else s.set t { k with pc := .poll }

/-- The poll: only the head of the list is looked at. -/
def pollExec (t : ℕ) : SyncState × Option (ℕ × ℤ) :=
  let k := s.callers t
  match s.list with
  | [] => (s.set t { k with pc := .test }, none)
  | node :: rest =>
    if (node.packetId : ℤ) = k.ret then
      if node.ackType = .subcribeSuccess then
        ((s.setList rest).set t Caller.out, some (t, k.ret))
      else if node.ackType = .subcribeNack ∨ node.ackType = .subcribeTimeout then
        ((s.setList rest).set t { k with pc := .test, ret := -1, subed := false }, none)
      else (s.set t { k with pc := .test }, none)
    else (s.set t { k with pc := .test }, none)

/-- The clean-up after the timeout. -/
def cleanupExec (t : ℕ) : SyncState × Option (ℕ × ℤ) :=
  let k := s.callers t
  ((s.setList (s.list.filter fun node => (node.packetId : ℤ) ≠ k.ret)).set t Caller.out,
    some (t, -1))

/-- A success is recorded for a caller if a node with its packet id is in the list. -/
def Caller.record (l : List SubSyncNode) (packetId : ℕ) (eventType : EventType) (k : Caller) :
    Caller :=
  if eventType = .subcribeSuccess ∧ k.ret = packetId ∧ l.any (fun n => n.packetId = packetId)
  then { k with success := true } else k

/-- One step, with the return of a caller if there is one.  A caller takes a step only
where it stands. -/
def syncExec : SyncOp → SyncState × Option (ℕ × ℤ)
  | .call t => if (s.callers t).pc = .idle then (s.set t Caller.entered, none) else (s, none)
  | .subscribe t req env inYieldCb =>
    if (s.callers t).pc = .top then subscribeExec s t req env inYieldCb else (s, none)
  | .addNode t alloc =>
    if (s.callers t).pc = .add then (addNodeExec s t alloc, none) else (s, none)
  | .event packetId eventType =>
    ({ s.setList (iotxMqttEventHandleSub s.list packetId eventType) with
        callers := fun t => (s.callers t).record s.list packetId eventType }, none)
  | .other c => ({ s with client := { c with listSubSyncAck := s.list } }, none)
  | .poll t => if (s.callers t).pc = .poll then pollExec s t else (s, none)
  | .timer t expired =>
    if (s.callers t).pc = .test then
      (s.set t { s.callers t with pc := if expired then .clean else .top }, none)
    else (s, none)
  | .cleanup t => if (s.callers t).pc = .clean then cleanupExec s t else (s, none)

def syncStep (op : SyncOp) : SyncState := (syncExec s op).1

/-- What is asked of a step: a subscription is not made from a user callback, and its
packet id is not in use by a call or a node; and a caller for which a success was
recorded finds its node at the head of the list, with the success. -/
def Orderly : SyncOp → Prop
  | .subscribe t req env inYieldCb =>
    (s.callers t).pc = .top → (s.callers t).ret < 0 → inYieldCb = false ∧
      ∀ id : ℕ, (wrapperMqttSubscribe s.client req.clampQos env).1 = id →
        (∀ u, id ∉ (s.callers u).ids) ∧ ∀ n ∈ s.list, n.packetId ≠ id
  | .poll t => (s.callers t).pc = .poll → (s.callers t).success = true →
      ∃ node rest, s.list = node :: rest ∧ (node.packetId : ℤ) = (s.callers t).ret ∧
        node.ackType = .subcribeSuccess
  | _ => True

/-! ## The invariant -/

variable {t : ℕ}

@[simp] theorem SyncState.set_callers_self (t : ℕ) (k : Caller) :
    (s.set t k).callers t = k := Function.update_self ..
theorem SyncState.set_callers_of_ne {u : ℕ} (k : Caller) (h : u ≠ t) :
    (s.set t k).callers u = s.callers u := Function.update_of_ne h ..

/-- What holds along orderly runs: only callers in a call have packet ids, among them
the current one; no packet id belongs to two callers or two nodes; a node with a packet
id of a caller is the caller's current node; and a node marked with success has had its
success recorded. -/
structure SyncInv (s : SyncState) : Prop where
  idle : ∀ t, (s.callers t).pc = .idle → (s.callers t).ids = []
  current : ∀ t, (s.callers t).pc ≠ .idle → 0 ≤ (s.callers t).ret →
    (s.callers t).ret.toNat ∈ (s.callers t).ids
  disjoint : ∀ t u id, id ∈ (s.callers t).ids → id ∈ (s.callers u).ids → t = u
  nodup : (s.list.map SubSyncNode.packetId).Nodup
  owned : ∀ n ∈ s.list, ∀ t, n.packetId ∈ (s.callers t).ids →
    (s.callers t).ret = n.packetId ∧ (s.callers t).subed = true
  recorded : ∀ n ∈ s.list, n.ackType = .subcribeSuccess → ∀ t,
    n.packetId ∈ (s.callers t).ids → (s.callers t).success = true

theorem syncInv_start (c : Client) : SyncInv (SyncState.start c) where
  idle _ _ := rfl
  current _ h _ := absurd rfl h
  disjoint _ _ _ h := by cases h
  nodup := nodup_nil
  owned _ hn := by cases hn
  recorded _ hn := by cases hn

/-- What the invariant says of a single caller, when the list is `l`. -/
structure Caller.Fits (k : Caller) (l : List SubSyncNode) : Prop where
  idle : k.pc = .idle → k.ids = []
  current : k.pc ≠ .idle → 0 ≤ k.ret → k.ret.toNat ∈ k.ids
  owned : ∀ n ∈ l, n.packetId ∈ k.ids → k.ret = n.packetId ∧ k.subed = true
  recorded : ∀ n ∈ l, n.ackType = .subcribeSuccess → n.packetId ∈ k.ids → k.success = true

variable {s : SyncState}

/-- The invariant is kept when nodes are taken out and one caller moves on, with packet
ids that were its own or nobody's. -/
theorem SyncInv.moves (h : SyncInv s) {k : Caller} {l : List SubSyncNode} (hl : l.Sublist s.list)
    (hk : k.Fits l) (hids : ∀ id ∈ k.ids, id ∈ (s.callers t).ids ∨ ∀ u, id ∉ (s.callers u).ids) :
    SyncInv ((s.setList l).set t k) := by
  have hother : ∀ u, u ≠ t → ((s.setList l).set t k).callers u = s.callers u :=
    fun u hu => SyncState.set_callers_of_ne _ k hu
  -- a packet id of the caller that moves is not one of another caller
  have hapart : ∀ u id, u ≠ t → id ∈ k.ids → id ∉ (s.callers u).ids := by
    intro u id hu hid hu'
    rcases hids id hid with hown | hnobody
    · exact hu (h.disjoint u t id hu' hown)
    · exact hnobody u hu'
  refine ⟨fun u hu => ?_, fun u hu hr => ?_, fun u v id hu hv => ?_, ?_, fun n hn u hu => ?_,
    fun n hn hs u hu => ?_⟩
  · by_cases hut : u = t
    · subst hut
      rw [SyncState.set_callers_self] at hu ⊢
      exact hk.idle hu
    · rw [hother u hut] at hu ⊢
      exact h.idle u hu
  · by_cases hut : u = t
    · subst hut
      rw [SyncState.set_callers_self] at hu hr ⊢
      exact hk.current hu hr
    · rw [hother u hut] at hu hr ⊢
      exact h.current u hu hr
  · by_cases hut : u = t <;> by_cases hvt : v = t
    · rw [hut, hvt]
    · rw [hut, SyncState.set_callers_self] at hu
      rw [hother v hvt] at hv
      exact absurd hv (hapart v id hvt hu)
    · rw [hvt, SyncState.set_callers_self] at hv
      rw [hother u hut] at hu
      exact absurd hu (hapart u id hut hv)
    · rw [hother u hut] at hu
      rw [hother v hvt] at hv
      exact h.disjoint u v id hu hv
  · exact (hl.map _).nodup h.nodup
  · by_cases hut : u = t
    · subst hut
      rw [SyncState.set_callers_self] at hu ⊢
      exact hk.owned n hn hu
    · rw [hother u hut] at hu ⊢
      exact h.owned n (hl.subset hn) u hu
  · by_cases hut : u = t
    · subst hut
      rw [SyncState.set_callers_self] at hu ⊢
      exact hk.recorded n hn hs hu
    · rw [hother u hut] at hu ⊢
      exact h.recorded n (hl.subset hn) hs u hu

theorem SyncInv.congr {s' : SyncState} (h : SyncInv s) (hlist : s'.list = s.list)
    (hcallers : s'.callers = s.callers) : SyncInv s' := by
  refine ⟨?_, ?_, ?_, ?_, ?_, ?_⟩
  · rw [hcallers]; exact h.idle
  · rw [hcallers]; exact h.current
  · rw [hcallers]; exact h.disjoint
  · rw [hlist]; exact h.nodup
  · rw [hlist, hcallers]; exact h.owned
  · rw [hlist, hcallers]; exact h.recorded

theorem Caller.fits_nil {k : Caller} (hids : k.ids = []) (hret : k.ret < 0)
    (l : List SubSyncNode) : k.Fits l := by
  refine ⟨fun _ => hids, fun _ h => absurd h (by omega), ?_, ?_⟩
  · simp [hids]
  · simp [hids]

theorem SyncInv.set_pc (h : SyncInv s) (hpc : (s.callers t).pc ≠ .idle) {pc : SyncPc}
    (hpc' : pc ≠ .idle) : SyncInv (s.set t { s.callers t with pc := pc }) := by
  have hfits : Caller.Fits { s.callers t with pc := pc } s.list :=
    ⟨fun h => absurd h hpc', fun _ hr => h.current t hpc hr,
      fun n hn hid => h.owned n hn t hid, fun n hn hs hid => h.recorded n hn hs t hid⟩
  exact h.moves (List.Sublist.refl _) hfits fun _ hid => .inl hid

theorem wrapperMqttSubscribe_listSubSyncAck (c : Client) (req : SubRequest) (env : SubEnv) :
    (wrapperMqttSubscribe c req env).2.listSubSyncAck = c.listSubSyncAck := by
  have hsub : ∀ c : Client, ∀ msgId,
      (mqttSubscribe c req msgId env).2.listSubSyncAck = c.listSubSyncAck := by
    intro c msgId
    rcases mqttSubscribe_cases c req msgId env with ⟨-, hc⟩ | ⟨-, -, hc⟩ <;> rw [hc]
  have hafter : ∀ msgId r, (afterRequest msgId r).2.listSubSyncAck = r.2.listSubSyncAck := by
    intro msgId r
    unfold afterRequest
    split_ifs <;> rfl
  have hnext : (iotxMcGetNextPacketid c).2.listSubSyncAck = c.listSubSyncAck := rfl
  unfold wrapperMqttSubscribe
  simp only
  split_ifs
  · rfl
  · exact hnext
  · exact hnext
  · rw [hafter, hsub, hnext]

theorem SyncInv.subscribe (h : SyncInv s) (hpc : (s.callers t).pc = .top) {req : SubRequest}
    {env : SubEnv} {inYieldCb : Bool} (hok : Orderly s (.subscribe t req env inYieldCb)) :
    SyncInv (subscribeExec s t req env inYieldCb).1 := by
  have hlist := wrapperMqttSubscribe_listSubSyncAck s.client req.clampQos env
  unfold subscribeExec
  by_cases hret : (s.callers t).ret < 0
  · obtain ⟨hcb, hfresh⟩ := hok hpc hret
    simp only [if_pos hret, hcb, if_false, Bool.false_eq_true]
    generalize wrapperMqttSubscribe s.client req.clampQos env = r at hlist hfresh
    obtain ⟨ret, c⟩ := r
    -- a caller without a current packet id has no node
    have hnone : ∀ n ∈ s.list, n.packetId ∉ (s.callers t).ids := by
      intro n hn hid
      have := (h.owned n hn t hid).1
      omega
    have hnew : ∀ id, id ∈ (if 0 ≤ ret then ret.toNat :: (s.callers t).ids
        else (s.callers t).ids) → id ∈ (s.callers t).ids ∨ ((∀ u, id ∉ (s.callers u).ids) ∧
          ∀ n ∈ s.list, n.packetId ≠ id) := by
      intro id hid
      split_ifs at hid with hnn
      · rcases mem_cons.mp hid with rfl | hid
        · exact Or.inr (hfresh _ (by simp [Int.toNat_of_nonneg hnn]))
        · exact .inl hid
      · exact .inl hid
    have hnoNode : ∀ n ∈ s.list, n.packetId ∉ (if 0 ≤ ret then ret.toNat :: (s.callers t).ids
        else (s.callers t).ids) := by
      intro n hn hid
      rcases hnew _ hid with hold | ⟨-, hunused⟩
      · exact hnone n hn hold
      · exact hunused n hn rfl
    have hfits : Caller.Fits { s.callers t with
        pc := .add, ret := ret, success := false,
        ids := if 0 ≤ ret then ret.toNat :: (s.callers t).ids else (s.callers t).ids } s.list := by
      refine ⟨fun h => (nomatch h), fun _ hr => ?_, ?_, ?_⟩
      · show ret.toNat ∈ _
        rw [if_pos hr]
        exact mem_cons_self
      · intro n hn hid
        exact absurd hid (hnoNode n hn)
      · intro n hn _ hid
        exact absurd hid (hnoNode n hn)
    have hmoved := h.moves (List.Sublist.refl _) hfits fun i hi => (hnew i hi).imp_right And.left
    exact hmoved.congr hlist rfl
  · simp only [if_neg hret]
    exact h.set_pc (by rw [hpc]; decide) (by decide)

theorem SyncInv.addNode (h : SyncInv s) (hpc : (s.callers t).pc = .add) (alloc : Bool) :
    SyncInv (addNodeExec s t alloc) := by
  have hne : (s.callers t).pc ≠ .idle := by rw [hpc]; decide
  unfold addNodeExec
  by_cases hadd : (s.callers t).subed = false ∧ 0 ≤ (s.callers t).ret ∧ alloc = true
  · simp only [if_pos hadd]
    obtain ⟨hsubed, hret, -⟩ := hadd
    have hcur := h.current t hne hret
    have hcast : ((s.callers t).ret.toNat : ℤ) = (s.callers t).ret := Int.toNat_of_nonneg hret
    -- the caller has no node yet
    have hnone : ∀ n ∈ s.list, n.packetId ≠ (s.callers t).ret.toNat := by
      intro n hn heq
      have := (h.owned n hn t (heq ▸ hcur)).2
      rw [hsubed] at this
      cases this
    let k : Caller := { s.callers t with pc := .poll, subed := true }
    let l := s.list ++ [⟨(s.callers t).ret.toNat, .undef⟩]
    have hself : ((s.setList l).set t k).callers t = k := SyncState.set_callers_self _ t k
    have hother : ∀ u, u ≠ t → ((s.setList l).set t k).callers u = s.callers u :=
      fun u hu => SyncState.set_callers_of_ne _ k hu
    have hids : ∀ u, (((s.setList l).set t k).callers u).ids = (s.callers u).ids := by
      intro u
      by_cases hut : u = t
      · rw [hut, hself]
      · rw [hother u hut]
    refine ⟨fun u hu => ?_, fun u hu hr => ?_, fun u v id hu hv => ?_, ?_, fun n hn u hu => ?_,
      fun n hn hs u hu => ?_⟩
    · by_cases hut : u = t
      · rw [hut, hself] at hu
        cases hu
      · rw [hother u hut] at hu ⊢
        exact h.idle u hu
    · by_cases hut : u = t
      · rw [hut, hself]
        exact hcur
      · rw [hother u hut] at hu hr ⊢
        exact h.current u hu hr
    · rw [hids] at hu hv
      exact h.disjoint u v id hu hv
    · show (l.map SubSyncNode.packetId).Nodup
      rw [map_append]
      refine List.Nodup.append h.nodup (nodup_singleton _) ?_
      simpa using fun n hn => hnone n hn
    · rw [hids] at hu
      rcases mem_append.mp hn with hn | hn
      · obtain ⟨hret', hsub'⟩ := h.owned n hn u hu
        by_cases hut : u = t
        · rw [hut] at hret' ⊢
          rw [hself]
          exact ⟨hret', rfl⟩
        · rw [hother u hut]
          exact ⟨hret', hsub'⟩
      · rw [mem_singleton.mp hn] at hu ⊢
        rw [h.disjoint u t _ hu hcur, hself]
        exact ⟨hcast.symm, rfl⟩
    · rw [hids] at hu
      rcases mem_append.mp hn with hn | hn
      · have hrec := h.recorded n hn hs u hu
        by_cases hut : u = t
        · rw [hut] at hrec ⊢
          rw [hself]
          exact hrec
        · rw [hother u hut]
          exact hrec
      · rw [mem_singleton.mp hn] at hs
        cases hs
  · simp only [if_neg hadd]
    exact h.set_pc hne (by decide)

theorem iotxMqttEventHandleSub_ids (l : List SubSyncNode) (packetId : ℕ) (eventType : EventType) :
    (iotxMqttEventHandleSub l packetId eventType).map SubSyncNode.packetId
      = l.map SubSyncNode.packetId := by
  unfold iotxMqttEventHandleSub
  rw [map_map]
  refine map_congr_left fun n _ => ?_
  simp only [Function.comp_apply]
  split_ifs <;> rfl

/-- An event marks the nodes with its packet id and leaves the others alone. -/
theorem mem_iotxMqttEventHandleSub {l : List SubSyncNode} {packetId : ℕ} {eventType : EventType}
    {n : SubSyncNode} (hn : n ∈ iotxMqttEventHandleSub l packetId eventType) :
    ∃ m ∈ l, n.packetId = m.packetId ∧
      (n = m ∨ (m.packetId = packetId ∧ n.ackType = eventType)) := by
  obtain ⟨m, hm, rfl⟩ := mem_map.mp hn
  refine ⟨m, hm, ?_⟩
  split_ifs with hid
  · exact ⟨rfl, .inr ⟨hid, rfl⟩⟩
  · exact ⟨rfl, .inl rfl⟩

theorem Caller.record_fields (k : Caller) (l : List SubSyncNode) (packetId : ℕ)
    (eventType : EventType) :
    (k.record l packetId eventType).pc = k.pc ∧ (k.record l packetId eventType).ret = k.ret ∧
      (k.record l packetId eventType).subed = k.subed ∧
      (k.record l packetId eventType).ids = k.ids ∧
      (k.success = true → (k.record l packetId eventType).success = true) := by
  unfold Caller.record
  split_ifs
  · exact ⟨rfl, rfl, rfl, rfl, fun _ => rfl⟩
  · exact ⟨rfl, rfl, rfl, rfl, id⟩

theorem SyncInv.event (h : SyncInv s) (packetId : ℕ) (eventType : EventType) :
    SyncInv (syncStep s (.event packetId eventType)) := by
  have hf := fun t => (s.callers t).record_fields s.list packetId eventType
  refine ⟨fun t ht => ?_, fun t ht hr => ?_, fun t u id ht hu => ?_, ?_, fun n hn t ht => ?_,
    fun n hn hs t ht => ?_⟩
  · exact (hf t).2.2.2.1.trans (h.idle t ((hf t).1.symm.trans ht))
  · show ((s.callers t).record s.list packetId eventType).ret.toNat ∈ _
    rw [(hf t).2.1]
    refine (hf t).2.2.2.1.symm ▸ h.current t (fun hi => ht ((hf t).1.trans hi)) ?_
    exact (hf t).2.1 ▸ hr
  · exact h.disjoint t u id ((hf t).2.2.2.1 ▸ ht) ((hf u).2.2.2.1 ▸ hu)
  · show ((iotxMqttEventHandleSub s.list packetId eventType).map SubSyncNode.packetId).Nodup
    rw [iotxMqttEventHandleSub_ids]
    exact h.nodup
  · obtain ⟨m, hm, hid, -⟩ := mem_iotxMqttEventHandleSub hn
    rw [hid] at ht ⊢
    obtain ⟨hret, hsub⟩ := h.owned m hm t ((hf t).2.2.2.1 ▸ ht)
    exact ⟨(hf t).2.1.trans hret, (hf t).2.2.1.trans hsub⟩
  · obtain ⟨m, hm, hid, heq | ⟨hpid, hty⟩⟩ := mem_iotxMqttEventHandleSub hn
    · rw [heq] at hs ht
      exact (hf t).2.2.2.2 (h.recorded m hm hs t ((hf t).2.2.2.1 ▸ ht))
    -- the node was marked by this event
    rw [hid] at ht
    obtain ⟨hret, -⟩ := h.owned m hm t ((hf t).2.2.2.1 ▸ ht)
    have hrec : eventType = .subcribeSuccess ∧ (s.callers t).ret = packetId ∧
        s.list.any (fun n => n.packetId = packetId) = true := by
      refine ⟨hty.symm.trans hs, ?_, ?_⟩
      · rw [hret, hpid]
      · rw [any_eq_true]
        exact ⟨m, hm, decide_eq_true hpid⟩
    show ((s.callers t).record s.list packetId eventType).success = true
    rw [Caller.record, if_pos hrec]

theorem SyncInv.ne_head (h : SyncInv s) {node : SubSyncNode} {rest : List SubSyncNode}
    (hlist : s.list = node :: rest) : ∀ n ∈ rest, n.packetId ≠ node.packetId := by
  have hnodup := h.nodup
  rw [hlist, map_cons, nodup_cons] at hnodup
  intro n hn heq
  exact hnodup.1 (heq ▸ mem_map_of_mem hn)

theorem SyncInv.poll (h : SyncInv s) (hpc : (s.callers t).pc = .poll) :
    SyncInv (pollExec s t).1 := by
  have hne : (s.callers t).pc ≠ .idle := by rw [hpc]; decide
  have htest : SyncInv (s.set t { s.callers t with pc := .test }) := h.set_pc hne (by decide)
  unfold pollExec
  cases hlist : s.list with
  | nil => exact htest
  | cons node rest =>
    have hsub : rest.Sublist s.list := hlist ▸ sublist_cons_self node rest
    simp only
    split_ifs with hmine hsucc hnack
    · exact h.moves hsub (Caller.fits_nil rfl (by decide) rest) (by simp [Caller.out])
    · have hgone : ∀ n ∈ rest, n.packetId ∉ (s.callers t).ids := by
        intro n hn hid
        have hret := (h.owned n (hsub.subset hn) t hid).1
        refine h.ne_head hlist n hn ?_
        omega
      refine h.moves hsub ⟨fun h => (nomatch h), fun _ hr => ?_, ?_, ?_⟩ fun _ hid => .inl hid
      · exact absurd hr (show ¬ (0 : ℤ) ≤ -1 by decide)
      · intro n hn hid
        exact absurd hid (hgone n hn)
      · intro n hn _ hid
        exact absurd hid (hgone n hn)
    · exact htest
    · exact htest

theorem SyncInv.cleanup (h : SyncInv s) (t : ℕ) : SyncInv (cleanupExec s t).1 :=
  h.moves filter_sublist (Caller.fits_nil rfl (by decide) _) (by simp [Caller.out])

/-- **One step.**  An orderly step keeps the invariant. -/
theorem SyncInv.step (h : SyncInv s) {op : SyncOp} (hok : Orderly s op) :
    SyncInv (syncStep s op) := by
  cases op with
  | call t =>
    simp only [syncStep, syncExec]
    split_ifs
    · exact h.moves (List.Sublist.refl _) (Caller.fits_nil rfl (by decide) _)
        (by simp [Caller.entered])
    · exact h
  | subscribe t req env inYieldCb =>
    simp only [syncStep, syncExec]
    split_ifs with hpc
    · exact h.subscribe hpc hok
    · exact h
  | addNode t alloc =>
    simp only [syncStep, syncExec]
    split_ifs with hpc
    · exact h.addNode hpc alloc
    · exact h
  | event packetId eventType => exact h.event packetId eventType
  | other c => exact h.congr rfl rfl
  | poll t =>
    simp only [syncStep, syncExec]
    split_ifs with hpc
    · exact h.poll hpc
    · exact h
  | timer t expired =>
    by_cases hpc : (s.callers t).pc = .test
    · simp only [syncStep, syncExec, if_pos hpc]
      refine h.set_pc (by rw [hpc]; decide) ?_
      cases expired <;> decide
    · simp only [syncStep, syncExec, if_neg hpc]
      exact h
  | cleanup t =>
    simp only [syncStep, syncExec]
    split_ifs
    · exact h.cleanup t
    · exact h

theorem syncInv_run {c : Client} {ops : List SyncOp}
    (hok : AllSteps syncStep Orderly (SyncState.start c) ops) :
    SyncInv (ops.foldl syncStep (SyncState.start c)) :=
  inv_of_allSteps (fun _ _ h hok => h.step hok) ops (syncInv_start c) hok

/-! ## What a caller is promised -/

/-- The returns of an orderly step: a poll that found the caller's node marked with
success, or a clean-up. -/
theorem syncExec_return {op : SyncOp} (hok : Orderly s op) {v : ℤ}
    (hret : (syncExec s op).2 = some (t, v)) :
    (∃ node rest, (s.callers t).pc = .poll ∧ s.list = node :: rest ∧
        (node.packetId : ℤ) = (s.callers t).ret ∧ node.ackType = .subcribeSuccess ∧
        v = (s.callers t).ret ∧ (syncStep s op).list = rest) ∨
      (v = -1 ∧ (syncStep s op).list
        = s.list.filter fun node => (node.packetId : ℤ) ≠ (s.callers t).ret) := by
  cases op with
  | call u =>
    simp only [syncExec] at hret
    split_ifs at hret
  | subscribe u req env inYieldCb =>
    -- only a call from a user callback returns here
    simp only [syncExec] at hret
    split_ifs at hret with hpc
    unfold subscribeExec at hret
    by_cases hneg : (s.callers u).ret < 0
    · simp [hneg, (hok hpc hneg).1] at hret
    · simp [hneg] at hret
  | addNode u alloc =>
    simp only [syncExec] at hret
    split_ifs at hret
  | event packetId eventType => cases hret
  | other c => cases hret
  | poll u =>
    by_cases hpc : (s.callers u).pc = .poll
    · simp only [syncStep, syncExec, if_pos hpc] at hret ⊢
      unfold pollExec at hret ⊢
      cases hlist : s.list with
      | nil => simp [hlist] at hret
      | cons node rest =>
        simp only [hlist] at hret ⊢
        by_cases hmine : (node.packetId : ℤ) = (s.callers u).ret
        · by_cases hsucc : node.ackType = .subcribeSuccess
          · simp only [if_pos hmine, if_pos hsucc, Option.some.injEq, Prod.mk.injEq] at hret ⊢
            obtain ⟨rfl, rfl⟩ := hret
            exact .inl ⟨node, rest, hpc, rfl, hmine, hsucc, rfl, rfl⟩
          · by_cases hnack : node.ackType = .subcribeNack ∨ node.ackType = .subcribeTimeout
            · simp [hmine, hsucc, hnack] at hret
            · simp [hmine, hsucc, hnack] at hret
        · simp [hmine] at hret
    · simp [syncExec, hpc] at hret
  | timer u expired =>
    simp only [syncExec] at hret
    split_ifs at hret
  | cleanup u =>
    by_cases hpc : (s.callers u).pc = .clean
    · simp only [syncStep, syncExec, if_pos hpc, cleanupExec, Option.some.injEq,
        Prod.mk.injEq] at hret ⊢
      obtain ⟨rfl, rfl⟩ := hret
      exact .inr ⟨rfl, rfl⟩
    · simp [syncExec, hpc] at hret

/-- **Agreement.**  In every orderly run: a caller returns a packet id only if it is its current one
and a success was recorded for it; a caller with a recorded success returns its packet id at its
next poll; and a caller that returns leaves no node with a packet id of its call. -/
theorem subscribe_sync_agreement (c : Client) (before : List SyncOp) (op : SyncOp)
    (hok : AllSteps syncStep Orderly (SyncState.start c) (before ++ [op])) :
    let s := before.foldl syncStep (SyncState.start c)
    (∀ t v, (syncExec s op).2 = some (t, v) → 0 ≤ v →
        v = (s.callers t).ret ∧ (s.callers t).success = true) ∧
      (∀ t, op = .poll t → (s.callers t).pc = .poll → (s.callers t).success = true →
        0 ≤ (s.callers t).ret ∧ (syncExec s op).2 = some (t, (s.callers t).ret)) ∧
      ∀ t v, (syncExec s op).2 = some (t, v) →
        ∀ n ∈ (syncStep s op).list, n.packetId ∉ (s.callers t).ids := by
  intro s
  obtain ⟨hbefore, hop, -⟩ := (allSteps_append _ _ _).mp hok
  have hinv : SyncInv s := syncInv_run hbefore
  have hop' : Orderly s op := hop
  refine ⟨fun t v hret hv => ?_, fun t ht hpc hs => ?_, fun t v hret n hn hid => ?_⟩
  · rcases syncExec_return hop' hret with ⟨node, rest, hpc, hlist, hmine, hsucc, rfl, -⟩ | ⟨rfl, -⟩
    · have hmem : node ∈ s.list := hlist ▸ mem_cons_self
      refine ⟨rfl, hinv.recorded node hmem hsucc t ?_⟩
      have hcur := hinv.current t (by rw [hpc]; decide) hv
      rwa [← hmine, Int.toNat_natCast] at hcur
    · exact absurd hv (by decide)
  · subst ht
    obtain ⟨node, rest, hlist, hmine, hsucc⟩ := hop' hpc hs
    refine ⟨by omega, ?_⟩
    have hlist' : s.list = node :: rest := hlist
    simp [syncExec, hpc, pollExec, hlist', hmine, hsucc]
  · rcases syncExec_return hop' hret with ⟨node, rest, -, hlist, hmine, -, -, hl⟩ | ⟨-, hl⟩
    · rw [hl] at hn
      have howned := (hinv.owned n (hlist ▸ mem_cons_of_mem _ hn) t hid).1
      exact hinv.ne_head hlist n hn (by omega)
    · rw [hl] at hn
      obtain ⟨hmem, hne⟩ := mem_filter.mp hn
      have howned := (hinv.owned n hmem t hid).1
      simp [howned] at hne

/-! ## One caller, and two -/

/-- The caller `t` enters, subscribes `/a` and adds its node. -/
def subscribesA (t : ℕ) : List SyncOp :=
  [.call t, .subscribe t ⟨filterA, 0, 1, 0⟩ subEnvServed false, .addNode t true]

theorem subscribe_sync_agreement_one :
    let s := (subscribesA 0 ++ [SyncOp.event 1 .subcribeSuccess]).foldl syncStep
      (SyncState.start idleClient)
    (s.callers 0).success = true ∧ (syncExec s (.poll 0)).2 = some (0, 1) := by
  have hok : AllSteps syncStep Orderly (SyncState.start idleClient)
      ((subscribesA 0 ++ [SyncOp.event 1 .subcribeSuccess]) ++ [SyncOp.poll 0]) := by
    refine ⟨trivial, fun _ _ => ⟨rfl, fun id _ => ⟨fun u => ?_, fun n hn => ?_⟩⟩, trivial, trivial,
      fun _ _ => ⟨⟨1, .subcribeSuccess⟩, [], rfl, rfl, rfl⟩, trivial⟩
    · by_cases hu : u = 0
      · subst hu
        exact not_mem_nil
      · simp [syncStep, syncExec, SyncState.start, SyncState.set, Caller.out, hu]
    · cases hn
  refine ⟨by decide, ?_⟩
  exact ((subscribe_sync_agreement idleClient _ _ hok).2.1 0 rfl (by decide) (by decide)).2

/-- Two callers wait, the second one's success is recorded, and its poll does not find
it behind the first one's node. -/
theorem subscribe_sync_misses_second :
    let s := (subscribesA 0 ++ subscribesA 1 ++ [SyncOp.event 2 .subcribeSuccess]).foldl syncStep
      (SyncState.start idleClient)
    (s.callers 1).pc = .poll ∧ (s.callers 1).ret = 2 ∧ (s.callers 1).success = true ∧
      (⟨2, .subcribeSuccess⟩ : SubSyncNode) ∈ s.list ∧ (syncExec s (.poll 1)).2 = none := by
  decide

end Iotkit.Mqtt
