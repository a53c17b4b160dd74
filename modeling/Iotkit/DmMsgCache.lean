/-
# The message cache of the device model (`dm_message_cache.c`)

Any number of callers insert, search, remove and tick at the same time.  Only the list and its
counter are behind the mutex: an insert tests the size, and a tick reads the clock, before it takes
the lock, so that each call is modelled by the steps between which another caller may run.
-/
import Iotkit.GuardedRun
import Iotkit.InfraDefs

namespace Iotkit.Dm

open GuardedRun List

/-! ## The cache -/

abbrev dmMemoryNotEnough : ℤ := -3
abbrev dmInvalidParameter : ℤ := -2

abbrev dmMsgCacheTimeoutMsDefault : ℕ := 10000

abbrev configMsgcacheQueueMaxlen : ℕ := 50

/-- A `dm_msg_cache_node_t`.  `serial` is no field of the source: it numbers the nodes in the
order in which they are put into the list and tells two nodes apart. -/
structure MsgCacheNode where
  serial : ℕ
  msgid : ℤ
  devid : ℤ
  responseType : ℕ
  data : Option Bytes
  ctime : ℕ
  deriving DecidableEq

/-- Where a caller stands between two of its steps. -/
inductive CacheCall
  | idle
  /-- An insert has found room and has not allocated its node yet. -/
  | checked (msgid devid : ℤ) (type : ℕ) (data : Option Bytes)
  /-- An insert has filled its node and waits for the lock. -/
  | adding (node : MsgCacheNode)
  /-- A tick has read the clock and waits for the lock. -/
  | sweeping (currentTime : ℕ)
  deriving DecidableEq

/-- The cache and its callers.  `results` are the values that the calls have returned and
`timeouts` the replies raised for the user, `inserted` the number of nodes put into the list. -/
structure MsgCache where
  dmcListSize : ℤ
  dmcList : List MsgCacheNode
  clock : ℕ
  calls : ℕ → CacheCall
  inserted : ℕ
  results : List (ℕ × ℤ)
  timeouts : List (ℤ × ℤ × ℕ)

/-- `dm_msg_cache_init`, when the clock shows `clock`. -/
def dmMsgCacheInit (clock : ℕ) : MsgCache :=
  { dmcListSize := 0, dmcList := [], clock := clock, calls := fun _ => .idle, inserted := 0,
    results := [], timeouts := [] }

namespace MsgCache

def setCall (s : MsgCache) (caller : ℕ) (call : CacheCall) : MsgCache :=
  { s with calls := Function.update s.calls caller call }

/-- The call returns. -/
def leave (s : MsgCache) (caller : ℕ) (res : ℤ) : MsgCache :=
  { s.setCall caller .idle with results := s.results ++ [(caller, res)] }

end MsgCache

/-! ## The steps of the four calls -/

variable (s : MsgCache)

/-- `dm_msg_cache_insert` up to its test of the size, which holds no lock. -/
def insertCheck (caller : ℕ) (msgid devid : ℤ) (type : ℕ) (data : Option Bytes) : MsgCache :=
  if s.dmcListSize ≥ (configMsgcacheQueueMaxlen : ℤ) then s.leave caller failReturn
  else s.setCall caller (.checked msgid devid type data)

/-- `dm_msg_cache_insert` from the allocation of the node to the lock; `memory` is whether
`DM_malloc` has any. -/
def insertNode (caller : ℕ) (memory : Bool) (msgid devid : ℤ) (type : ℕ)
    (data : Option Bytes) : MsgCache :=
  if memory then s.setCall caller (.adding ⟨0, msgid, devid, type, data, s.clock⟩)
  else s.leave caller dmMemoryNotEnough

/-- `dm_msg_cache_insert` while it holds the lock. -/
def insertAdd (caller : ℕ) (node : MsgCacheNode) : MsgCache :=
  { s with
    dmcList := s.dmcList ++ [{ node with serial := s.inserted }]
    dmcListSize := s.dmcListSize + 1
    inserted := s.inserted + 1 }.leave caller successReturn

/-- `dm_msg_cache_search`: the value returned, and the node it hands out.  `outFree` is
whether the caller gave a place for the node that is empty. -/
def dmMsgCacheSearch (msgid : ℤ) (outFree : Bool) : ℤ × Option MsgCacheNode :=
  if msgid ≤ 0 ∨ outFree = false then (dmInvalidParameter, none)
  else
    match s.dmcList.find? (fun node => node.msgid = msgid) with
    | some node => (successReturn, some node)
    | none => (failReturn, none)

def dmMsgCacheRemove (caller : ℕ) (msgid : ℤ) : MsgCache :=
  if s.dmcList.any (fun node => node.msgid = msgid) then
    { s with
      dmcList := s.dmcList.eraseP (fun node => node.msgid = msgid)
      dmcListSize := s.dmcListSize - 1 }.leave caller successReturn
  else s.leave caller failReturn

/-- A node whose time lies ahead of the clock that the tick has read gets that time. -/
def MsgCacheNode.touch (currentTime : ℕ) (node : MsgCacheNode) : MsgCacheNode :=
  if currentTime < node.ctime then { node with ctime := currentTime } else node

/-- The loop of `dm_msg_cache_tick` over the nodes not visited yet; those it has kept stand in
the list again. -/
def sweepLoop (currentTime : ℕ) (s : MsgCache) : List MsgCacheNode → MsgCache
  | [] => s
  | node :: rest =>
    if dmMsgCacheTimeoutMsDefault ≤ currentTime - (node.touch currentTime).ctime then
      sweepLoop currentTime
        { s with
          timeouts := s.timeouts ++ [(node.msgid, node.devid, node.responseType)]
          dmcListSize := s.dmcListSize - 1 } rest
    else
      sweepLoop currentTime
        { s with dmcList := s.dmcList ++ [node.touch currentTime] } rest

/-- `dm_msg_cache_tick` while it holds the lock. -/
def tickSweep (currentTime : ℕ) : MsgCache :=
  sweepLoop currentTime { s with dmcList := [] } s.dmcList

/-- What happens next: time passes, or a caller takes a step. -/
inductive CacheOp
  | elapse (ms : ℕ)
  | insert (caller : ℕ) (msgid devid : ℤ) (type : ℕ) (data : Option Bytes)
  | newNode (caller : ℕ) (memory : Bool)
  | add (caller : ℕ)
  | search (caller : ℕ) (msgid : ℤ) (outFree : Bool)
  | remove (caller : ℕ) (msgid : ℤ)
  | tick (caller : ℕ)
  | sweep (caller : ℕ)

/-- A caller that is in no call makes one. -/
def whenIdle (caller : ℕ) (called : MsgCache) : MsgCache :=
  if s.calls caller = .idle then called else s

/-- One step of one caller.  A step that is not the next one of its caller does nothing. -/
def cacheStep : CacheOp → MsgCache
  | .elapse ms => { s with clock := s.clock + ms }
  | .insert caller msgid devid type data =>
    whenIdle s caller (insertCheck s caller msgid devid type data)
  | .newNode caller memory =>
    match s.calls caller with
    | .checked msgid devid type data => insertNode s caller memory msgid devid type data
    | _ => s
  | .add caller =>
    match s.calls caller with
    | .adding node => insertAdd s caller node
    | _ => s
  | .search caller msgid outFree =>
    whenIdle s caller (s.leave caller (dmMsgCacheSearch s msgid outFree).1)
  | .remove caller msgid => whenIdle s caller (dmMsgCacheRemove s caller msgid)
  | .tick caller => whenIdle s caller (s.setCall caller (.sweeping s.clock))
  | .sweep caller =>
    match s.calls caller with
    | .sweeping currentTime => (tickSweep s currentTime).setCall caller .idle
    | _ => s

/-! ## What a sweep does -/

/-- A node that a tick with this reading takes out. -/
def MsgCacheNode.expired (currentTime : ℕ) (node : MsgCacheNode) : Bool :=
  dmMsgCacheTimeoutMsDefault ≤ currentTime - (node.touch currentTime).ctime

variable {currentTime : ℕ} {node : MsgCacheNode}

theorem touch_of_le (hle : node.ctime ≤ currentTime) : node.touch currentTime = node := by
  unfold MsgCacheNode.touch
  rw [if_neg (by omega)]

theorem serial_touch (currentTime : ℕ) (node : MsgCacheNode) :
    (node.touch currentTime).serial = node.serial := by
  unfold MsgCacheNode.touch
  split <;> rfl

theorem sweepLoop_spec (currentTime : ℕ) (s : MsgCache) (nodes : List MsgCacheNode) :
    (sweepLoop currentTime s nodes).dmcList =
        s.dmcList ++ (nodes.filter (fun n => !n.expired currentTime)).map (·.touch currentTime) ∧
      (sweepLoop currentTime s nodes).dmcListSize =
        s.dmcListSize - (nodes.filter (·.expired currentTime)).length ∧
      (sweepLoop currentTime s nodes).inserted = s.inserted := by
  induction nodes generalizing s with
  | nil => simp [sweepLoop]
  | cons node rest ih =>
    by_cases hexp : node.expired currentTime = true
    · have hdue := of_decide_eq_true hexp
      rw [sweepLoop, if_pos hdue]
      obtain ⟨hlist, hsize, hins⟩ := ih
        { s with
          timeouts := s.timeouts ++ [(node.msgid, node.devid, node.responseType)]
          dmcListSize := s.dmcListSize - 1 }
      refine ⟨?_, ?_, hins⟩
      · simp [hlist, hexp]
      · rw [hsize, filter_cons_of_pos hexp, length_cons]
        push_cast
        ring
    · have hdue : ¬ dmMsgCacheTimeoutMsDefault ≤
          currentTime - (node.touch currentTime).ctime := fun h => hexp (decide_eq_true h)
      rw [sweepLoop, if_neg hdue]
      obtain ⟨hlist, hsize, hins⟩ := ih
        { s with dmcList := s.dmcList ++ [node.touch currentTime] }
      refine ⟨?_, ?_, hins⟩
      · simp [hlist, hexp]
      · rw [hsize, filter_cons_of_neg hexp]

theorem dmcList_tickSweep (currentTime : ℕ) :
    (tickSweep s currentTime).dmcList =
      (s.dmcList.filter (fun n => !n.expired currentTime)).map (·.touch currentTime) := by
  simp [tickSweep, (sweepLoop_spec currentTime _ s.dmcList).1]

theorem dmcListSize_tickSweep (currentTime : ℕ) :
    (tickSweep s currentTime).dmcListSize =
      s.dmcListSize - (s.dmcList.filter (·.expired currentTime)).length :=
  (sweepLoop_spec currentTime _ s.dmcList).2.1

theorem inserted_tickSweep (currentTime : ℕ) :
    (tickSweep s currentTime).inserted = s.inserted :=
  (sweepLoop_spec currentTime _ s.dmcList).2.2

/-! ## What a step can do to the list -/

/-- The list and its counter are left alone. -/
structure SameList (s s' : MsgCache) : Prop where
  list_eq : s'.dmcList = s.dmcList
  size_eq : s'.dmcListSize = s.dmcListSize
  inserted_eq : s'.inserted = s.inserted

theorem SameList.refl : SameList s s := ⟨rfl, rfl, rfl⟩

theorem sameList_setCall (caller : ℕ) (call : CacheCall) :
    SameList s (s.setCall caller call) := ⟨rfl, rfl, rfl⟩

theorem sameList_leave (caller : ℕ) (res : ℤ) :
    SameList s (s.leave caller res) := ⟨rfl, rfl, rfl⟩

variable {s : MsgCache}

theorem SameList.whenIdle {s' : MsgCache} (h : SameList s s') (caller : ℕ) :
    SameList s (whenIdle s caller s') := by
  unfold Dm.whenIdle
  split
  · exact h
  · exact .refl s

theorem sameList_insertCheck (s : MsgCache) (caller : ℕ) (msgid devid : ℤ) (type : ℕ)
    (data : Option Bytes) : SameList s (insertCheck s caller msgid devid type data) := by
  unfold insertCheck
  split
  · exact sameList_leave ..
  · exact sameList_setCall ..

theorem sameList_insertNode (s : MsgCache) (caller : ℕ) (memory : Bool) (msgid devid : ℤ)
    (type : ℕ) (data : Option Bytes) :
    SameList s (insertNode s caller memory msgid devid type data) := by
  unfold insertNode
  split
  · exact sameList_setCall ..
  · exact sameList_leave ..

/-- The effect of one step on the list and its counter. -/
inductive ListEffect (s s' : MsgCache) : CacheOp → Prop
  | same (op : CacheOp) (heq : SameList s s')
      (hremove : ∀ caller msgid, op = .remove caller msgid → s.calls caller = .idle →
        ∀ n ∈ s.dmcList, n.msgid ≠ msgid)
      (hsweep : ∀ caller t, op = .sweep caller → s.calls caller ≠ .sweeping t) :
      ListEffect s s' op
  | added (caller : ℕ) (node : MsgCacheNode) (hcall : s.calls caller = .adding node)
      (hlist : s'.dmcList = s.dmcList ++ [{ node with serial := s.inserted }])
      (hsize : s'.dmcListSize = s.dmcListSize + 1) (hins : s'.inserted = s.inserted + 1) :
      ListEffect s s' (.add caller)
  | removed (caller : ℕ) (msgid : ℤ) (hcall : s.calls caller = .idle)
      (hfound : ∃ n ∈ s.dmcList, n.msgid = msgid)
      (hlist : s'.dmcList = s.dmcList.eraseP (fun n => n.msgid = msgid))
      (hsize : s'.dmcListSize = s.dmcListSize - 1) (hins : s'.inserted = s.inserted) :
      ListEffect s s' (.remove caller msgid)
  | swept (caller currentTime : ℕ) (hcall : s.calls caller = .sweeping currentTime)
      (hlist : s'.dmcList =
        (s.dmcList.filter (fun n => !n.expired currentTime)).map (·.touch currentTime))
      (hsize : s'.dmcListSize =
        s.dmcListSize - (s.dmcList.filter (·.expired currentTime)).length)
      (hins : s'.inserted = s.inserted) :
      ListEffect s s' (.sweep caller)

theorem cacheStep_effect (s : MsgCache) (op : CacheOp) : ListEffect s (cacheStep s op) op := by
  cases op with
  | elapse ms => exact .same _ ⟨rfl, rfl, rfl⟩ (by simp) (by simp)
  | insert caller msgid devid type data =>
    exact .same _ ((sameList_insertCheck ..).whenIdle caller) (by simp) (by simp)
  | newNode caller memory =>
    cases hcall : s.calls caller with
    | checked msgid devid type data =>
      simp only [cacheStep, hcall]
      exact .same _ (sameList_insertNode ..) (by simp) (by simp)
    | idle | adding | sweeping =>
      simp only [cacheStep, hcall]
      exact .same _ (.refl s) (by simp) (by simp)
  | add caller =>
    cases hcall : s.calls caller with
    | adding node =>
      simp only [cacheStep, hcall]
      exact .added caller node hcall rfl rfl rfl
    | idle | checked | sweeping =>
      simp only [cacheStep, hcall]
      exact .same _ (.refl s) (by simp) (by simp)
  | search caller msgid outFree =>
    exact .same _ ((sameList_leave ..).whenIdle caller) (by simp) (by simp)
  | remove caller msgid =>
    by_cases hcall : s.calls caller = .idle
    · -- a message that is not cached is not removed
      by_cases hany : s.dmcList.any (fun node => node.msgid = msgid) = true
      · simp only [cacheStep, whenIdle, if_pos hcall, dmMsgCacheRemove, if_pos hany]
        exact .removed caller msgid hcall (by simpa using hany) rfl rfl rfl
      · simp only [cacheStep, whenIdle, if_pos hcall, dmMsgCacheRemove, if_neg hany]
        refine .same _ (sameList_leave ..) ?_ (by simp)
        intro caller' msgid' heq _ n hn hid
        cases heq
        exact hany (any_eq_true.mpr ⟨n, hn, by simpa using hid⟩)
    · simp only [cacheStep, whenIdle, if_neg hcall]
      refine .same _ (.refl s) ?_ (by simp)
      intro caller' msgid' heq hidle
      cases heq
      exact absurd hidle hcall
  | tick caller => exact .same _ ((sameList_setCall ..).whenIdle caller) (by simp) (by simp)
  | sweep caller =>
    cases hcall : s.calls caller with
    | sweeping currentTime =>
      simp only [cacheStep, hcall]
      exact .swept caller currentTime hcall (dmcList_tickSweep s currentTime)
        (dmcListSize_tickSweep s currentTime) (inserted_tickSweep s currentTime)
    | idle | checked | adding =>
      simp only [cacheStep, hcall]
      refine .same _ (.refl s) (by simp) ?_
      intro caller' t heq
      cases heq
      simp [hcall]

/-! ## The condition on the steps -/

/-- The steps in which the cache does what it should: a node is added only while there is
room and while its id is not cached, and a sweep finds no node that is younger than its
reading of the clock. -/
def CacheAdmissible (s : MsgCache) : CacheOp → Prop
  | .add caller => ∀ node, s.calls caller = .adding node →
      s.dmcList.length < configMsgcacheQueueMaxlen ∧ ∀ n ∈ s.dmcList, n.msgid ≠ node.msgid
  | .sweep caller => ∀ currentTime, s.calls caller = .sweeping currentTime →
      ∀ n ∈ s.dmcList, n.ctime ≤ currentTime
  | _ => True

/-- The steps by which a node is to leave the cache: a remove with its id, and a tick that
has read the clock at least the timeout after the node was inserted. -/
def Takes (node : MsgCacheNode) (s : MsgCache) : CacheOp → Prop
  | .remove caller msgid => s.calls caller = .idle ∧ node.msgid = msgid
  | .sweep caller => ∃ currentTime, s.calls caller = .sweeping currentTime ∧
      node.ctime + dmMsgCacheTimeoutMsDefault ≤ currentTime
  | _ => False

theorem expired_iff (hle : node.ctime ≤ currentTime) :
    node.expired currentTime = true ↔
      node.ctime + dmMsgCacheTimeoutMsDefault ≤ currentTime := by
  unfold MsgCacheNode.expired
  rw [touch_of_le hle, decide_eq_true_iff]
  omega

theorem map_touch_filter {nodes : List MsgCacheNode} (hle : ∀ n ∈ nodes, n.ctime ≤ currentTime) :
    (nodes.filter (fun n => !n.expired currentTime)).map (·.touch currentTime) =
      nodes.filter (fun n => !n.expired currentTime) := by
  refine (map_congr_left fun n hn => ?_).trans (map_id _)
  exact touch_of_le (hle n (mem_of_mem_filter hn))

/-! ## The invariant -/

/-- The counter agrees with the list, there is room for all nodes, and no two nodes share
their id or their number. -/
structure Orderly (s : MsgCache) : Prop where
  counted : s.dmcListSize = s.dmcList.length
  room : s.dmcList.length ≤ configMsgcacheQueueMaxlen
  ids : (s.dmcList.map (·.msgid)).Nodup
  serials : (s.dmcList.map (·.serial)).Nodup
  serial_lt : ∀ n ∈ s.dmcList, n.serial < s.inserted

theorem orderly_init (clock : ℕ) : Orderly (dmMsgCacheInit clock) where
  counted := rfl
  room := by simp [dmMsgCacheInit]
  ids := nodup_nil
  serials := nodup_nil
  serial_lt := by simp [dmMsgCacheInit]

theorem Orderly.of_sublist {s' : MsgCache} (h : Orderly s) (hsub : s'.dmcList.Sublist s.dmcList)
    (hsize : s'.dmcListSize = s'.dmcList.length) (hins : s'.inserted = s.inserted) :
    Orderly s' where
  counted := hsize
  room := hsub.length_le.trans h.room
  ids := h.ids.sublist (hsub.map _)
  serials := h.serials.sublist (hsub.map _)
  serial_lt n hn := hins ▸ h.serial_lt n (hsub.subset hn)

variable {op : CacheOp}

theorem Orderly.step (h : Orderly s) (hok : CacheAdmissible s op) : Orderly (cacheStep s op) := by
  rcases cacheStep_effect s op with
    ⟨_, heq, -, -⟩ | ⟨caller, node, hcall, hlist, hsize, hins⟩ |
    ⟨caller, msgid, hcall, ⟨n, hn, hid⟩, hlist, hsize, hins⟩ |
    ⟨caller, currentTime, hcall, hlist, hsize, hins⟩
  · refine h.of_sublist ?_ ?_ heq.inserted_eq
    · rw [heq.list_eq]
    · rw [heq.size_eq, heq.list_eq, h.counted]
  · obtain ⟨hroom, hnew⟩ := hok node hcall
    refine ⟨?_, ?_, ?_, ?_, ?_⟩
    · simp [hlist, hsize, h.counted]
    · rw [hlist, length_append, length_singleton]
      omega
    · rw [hlist, map_append, nodup_append]
      refine ⟨h.ids, by simp, ?_⟩
      simpa using hnew
    · rw [hlist, map_append, nodup_append]
      refine ⟨h.serials, by simp, ?_⟩
      simpa using fun n hn => (h.serial_lt n hn).ne
    · intro n hn
      rw [hlist, mem_append, mem_singleton] at hn
      rw [hins]
      rcases hn with hn | rfl
      · exact Nat.lt_succ_of_lt (h.serial_lt n hn)
      · exact Nat.lt_succ_self _
  · refine h.of_sublist ?_ ?_ hins
    · rw [hlist]
      exact eraseP_sublist
    · have hlen := length_eraseP_of_mem hn (p := fun n => decide (n.msgid = msgid))
        (by simpa using hid)
      have hpos : 0 < s.dmcList.length := length_pos_of_mem hn
      rw [hsize, hlist, hlen, h.counted]
      omega
  · rw [map_touch_filter (hok currentTime hcall)] at hlist
    refine h.of_sublist ?_ ?_ hins
    · rw [hlist]
      exact filter_sublist
    · have hlen := length_eq_length_filter_add (l := s.dmcList)
        (fun n => n.expired currentTime)
      rw [hsize, hlist, h.counted, hlen]
      push_cast
      ring

/-! ## The course of a node -/

/-- **One step.**  A node that the step does not take stands in the list as before. -/
theorem Orderly.mem_step (hok : CacheAdmissible s op) (hn : node ∈ s.dmcList)
    (htake : ¬ Takes node s op) : node ∈ (cacheStep s op).dmcList := by
  rcases cacheStep_effect s op with
    ⟨_, heq, -, -⟩ | ⟨caller, added, hcall, hlist, -, -⟩ |
    ⟨caller, msgid, hcall, -, hlist, -, -⟩ | ⟨caller, currentTime, hcall, hlist, -, -⟩
  · rwa [heq.list_eq]
  · rw [hlist]
    exact mem_append_left _ hn
  · rw [hlist, mem_eraseP_of_neg]
    · exact hn
    · simpa using fun hid => htake ⟨hcall, hid⟩
  · have hle := hok currentTime hcall
    rw [hlist, map_touch_filter hle]
    refine mem_filter.mpr ⟨hn, ?_⟩
    rw [Bool.not_eq_true', Bool.eq_false_iff, Ne, expired_iff (hle node hn)]
    exact fun hdue => htake ⟨currentTime, hcall, hdue⟩

theorem msgid_ne_of_mem_eraseP {nodes : List MsgCacheNode} {msgid : ℤ}
    (hids : (nodes.map (·.msgid)).Nodup) {n : MsgCacheNode}
    (hn : n ∈ nodes.eraseP (fun node => node.msgid = msgid)) : n.msgid ≠ msgid := by
  have hmap : (nodes.map (·.msgid)).erase msgid =
      (nodes.eraseP (fun node => node.msgid = msgid)).map (·.msgid) := by
    rw [erase_eq_eraseP', eraseP_map]
    congr 2
  have hmem : n.msgid ∈ (nodes.map (·.msgid)).erase msgid := by
    rw [hmap]
    exact mem_map_of_mem hn
  exact (hids.mem_erase_iff.mp hmem).1

/-- **One step.**  A node that the step takes is gone. -/
theorem Orderly.gone_step (h : Orderly s) (hok : CacheAdmissible s op) (hn : node ∈ s.dmcList)
    (htake : Takes node s op) : ∀ n ∈ (cacheStep s op).dmcList, n.serial ≠ node.serial := by
  have huniq : ∀ n ∈ s.dmcList, n.serial = node.serial → n = node := fun n hn' heq =>
    inj_on_of_nodup_map h.serials hn' hn heq
  rcases cacheStep_effect s op with
    ⟨_, -, hremove, hsweep⟩ | ⟨caller, added, hcall, hlist, -, -⟩ |
    ⟨caller, msgid, hcall, -, hlist, -, -⟩ | ⟨caller, currentTime, hcall, hlist, -, -⟩
  · cases op with
    | remove caller msgid =>
      exact absurd htake.2 (hremove caller msgid rfl htake.1 node hn)
    | sweep caller =>
      obtain ⟨t, hcall, -⟩ := htake
      exact absurd hcall (hsweep caller t rfl)
    | _ => exact htake.elim
  · exact htake.elim
  · intro n hn' heq
    rw [hlist] at hn'
    obtain rfl := huniq n (mem_of_mem_eraseP hn') heq
    exact msgid_ne_of_mem_eraseP h.ids hn' htake.2
  intro n hn' heq
  have hle := hok currentTime hcall
  rw [hlist, map_touch_filter hle] at hn'
  obtain ⟨hmem, hkept⟩ := mem_filter.mp hn'
  obtain rfl := huniq n hmem heq
  obtain ⟨t, hcall', hdue⟩ := htake
  obtain rfl : currentTime = t := by simpa [hcall] using hcall'
  rw [(expired_iff (hle n hmem)).mpr hdue] at hkept
  cases hkept

theorem inserted_le_step (s : MsgCache) (op : CacheOp) :
    s.inserted ≤ (cacheStep s op).inserted := by
  rcases cacheStep_effect s op with
    ⟨_, heq, -, -⟩ | ⟨_, _, _, _, _, hins⟩ | ⟨_, _, _, _, _, _, hins⟩ | ⟨_, _, _, _, _, hins⟩
  · exact heq.inserted_eq.ge
  · rw [hins]
    exact Nat.le_succ _
  · exact hins.ge
  · exact hins.ge

theorem gone_stays {serial : ℕ} (hlt : serial < s.inserted)
    (hgone : ∀ n ∈ s.dmcList, n.serial ≠ serial) :
    ∀ n ∈ (cacheStep s op).dmcList, n.serial ≠ serial := by
  rcases cacheStep_effect s op with
    ⟨_, heq, -, -⟩ | ⟨caller, added, hcall, hlist, -, -⟩ |
    ⟨caller, msgid, hcall, -, hlist, -, -⟩ | ⟨caller, currentTime, hcall, hlist, -, -⟩
  · rwa [heq.list_eq]
  · rw [hlist]
    exact forall_mem_append.mpr ⟨hgone, forall_mem_singleton.mpr hlt.ne'⟩
  · intro n hn
    rw [hlist] at hn
    exact hgone n (mem_of_mem_eraseP hn)
  · intro n hn
    rw [hlist] at hn
    obtain ⟨m, hm, rfl⟩ := mem_map.mp hn
    rw [serial_touch]
    exact hgone m (mem_of_mem_filter hm)

theorem gone_run (ops : List CacheOp) {serial : ℕ} (hlt : serial < s.inserted)
    (hgone : ∀ n ∈ s.dmcList, n.serial ≠ serial) :
    ∀ n ∈ (ops.foldl cacheStep s).dmcList, n.serial ≠ serial := by
  have hrun : serial < (ops.foldl cacheStep s).inserted ∧
      ∀ n ∈ (ops.foldl cacheStep s).dmcList, n.serial ≠ serial :=
    inv_foldl (fun s => serial < s.inserted ∧ ∀ n ∈ s.dmcList, n.serial ≠ serial)
      (fun s op h => ⟨h.1.trans_le (inserted_le_step s op), gone_stays h.1 h.2⟩) ⟨hlt, hgone⟩ ops
  exact hrun.2

/-- Nothing along the run takes the node. -/
def Untaken (node : MsgCacheNode) : MsgCache → List CacheOp → Prop :=
  AllSteps cacheStep fun s op => ¬ Takes node s op

/-- **A whole run.**  A cached node stands in the list, as it is, until the first step that
takes it, and is gone from then on. -/
theorem Orderly.course (h : Orderly s) (ops : List CacheOp)
    (hok : AllSteps cacheStep CacheAdmissible s ops) (hn : node ∈ s.dmcList) :
    (Untaken node s ops → node ∈ (ops.foldl cacheStep s).dmcList) ∧
      (¬ Untaken node s ops → ∀ n ∈ (ops.foldl cacheStep s).dmcList, n.serial ≠ node.serial) := by
  induction ops generalizing s with
  | nil => exact ⟨fun _ => hn, fun hnot => absurd trivial hnot⟩
  | cons op ops ih =>
    obtain ⟨hop, hops⟩ := hok
    by_cases htake : Takes node s op
    · refine ⟨fun hun => absurd htake hun.1, fun _ => ?_⟩
      have hlt := (h.serial_lt node hn).trans_le (inserted_le_step s op)
      exact gone_run ops hlt (h.gone_step hop hn htake)
    · have hnext := ih (h.step hop) hops (Orderly.mem_step hop hn htake)
      exact ⟨fun hun => hnext.1 hun.2, fun hnot => hnext.2 fun hun => hnot ⟨htake, hun⟩⟩

/-- **The message cache.**  If a node is added only while there is room and its id is not cached,
and no sweep finds a node younger than its reading of the clock: the counter is the number of nodes
and within the limit; an insert adds its node; and a node stands there unchanged until the first
remove with its id or tick after its timeout, and never again. -/
theorem msg_cache_course (clock : ℕ) (before ops : List CacheOp)
    (hok : AllSteps cacheStep CacheAdmissible (dmMsgCacheInit clock) (before ++ ops)) :
    let s := before.foldl cacheStep (dmMsgCacheInit clock)
    let s' := ops.foldl cacheStep s
    (s'.dmcListSize = s'.dmcList.length ∧ s'.dmcListSize ≤ (configMsgcacheQueueMaxlen : ℤ)) ∧
      (∀ caller node, s.calls caller = .adding node →
        { node with serial := s.inserted } ∈ (cacheStep s (.add caller)).dmcList) ∧
      ∀ node ∈ s.dmcList,
        (Untaken node s ops → node ∈ s'.dmcList) ∧
          (¬ Untaken node s ops → ∀ n ∈ s'.dmcList, n.serial ≠ node.serial) := by
  intro s s'
  rw [allSteps_append] at hok
  have hs : Orderly s := inv_of_allSteps (fun _ _ h hop => h.step hop) before
    (orderly_init clock) hok.1
  have hs' : Orderly s' := inv_of_allSteps (fun _ _ h hop => h.step hop) ops hs hok.2
  refine ⟨⟨hs'.counted, ?_⟩, ?_, fun node hn => hs.course ops hok.2 hn⟩
  · rw [hs'.counted]
    exact_mod_cast hs'.room
  · intro caller node hcall
    simp only [cacheStep, hcall]
    exact mem_append_right _ (mem_singleton_self _)

/-- A message is inserted at time 0, its node is still there at time 9999, and the tick at
time 10000 takes it. -/
theorem msg_cache_course_timeout :
    let before : List CacheOp :=
      [.insert 0 7 1 3 none, .newNode 0 true, .add 0, .elapse 9999, .tick 1, .sweep 1]
    let ops : List CacheOp := [.elapse 1, .tick 1, .sweep 1]
    let s := before.foldl cacheStep (dmMsgCacheInit 0)
    let s' := ops.foldl cacheStep s
    s.dmcList = [⟨0, 7, 1, 3, none, 0⟩] ∧ s'.dmcList = [] ∧
      (s'.dmcListSize = s'.dmcList.length ∧ s'.dmcListSize ≤ (configMsgcacheQueueMaxlen : ℤ)) := by
  intro before ops s s'
  refine ⟨rfl, rfl, (msg_cache_course 0 before ops ?_).1⟩
  refine ⟨trivial, trivial, ?_, trivial, trivial, ?_, trivial, trivial, ?_, trivial⟩
  · intro node _
    refine ⟨by decide, ?_⟩
    simp [dmMsgCacheInit, cacheStep, whenIdle, insertCheck, insertNode, MsgCache.setCall]
  · intro currentTime _ n hn
    obtain rfl : n = ⟨0, 7, 1, 3, none, 0⟩ := mem_singleton.mp hn
    exact Nat.zero_le _
  · intro currentTime _ n hn
    obtain rfl : n = ⟨0, 7, 1, 3, none, 0⟩ := mem_singleton.mp hn
    exact Nat.zero_le _

/-- 49 messages are cached; two callers find room, and both add their node. -/
def overfull : List CacheOp :=
  (List.range 49).flatMap (fun i => [.insert 0 (i + 1) 0 3 none, .newNode 0 true, .add 0]) ++
    [.insert 1 50 0 3 none, .insert 2 51 0 3 none, .newNode 1 true, .newNode 2 true, .add 1, .add 2]

/-- A tick reads the clock at time 0, and a message is inserted at time 1 before the tick takes
the lock. -/
def lateSweep : List CacheOp :=
  [.tick 1, .elapse 1, .insert 0 7 1 3 none, .newNode 0 true, .add 0]

/-- A message with the id of a cached one is inserted. -/
def sameId : List CacheOp :=
  [.insert 0 7 1 3 none, .newNode 0 true, .add 0, .insert 0 7 2 3 none, .newNode 0 true, .add 0]

/-- Two inserts that find room between them for one leave 51 nodes in the cache; a tick that
waits for the lock while a message is inserted makes the message leave after 9999 ms; and of
two nodes with one id the second outlives the first remove. -/
theorem msg_cache_course_broken :
    (configMsgcacheQueueMaxlen : ℤ) < (overfull.foldl cacheStep (dmMsgCacheInit 0)).dmcListSize ∧
    (let ops : List CacheOp := [.sweep 1, .elapse 9999, .tick 1, .sweep 1]
     let s := lateSweep.foldl cacheStep (dmMsgCacheInit 0)
     let node : MsgCacheNode := ⟨0, 7, 1, 3, none, 1⟩
     s.dmcList = [node] ∧ Untaken node s ops ∧ (ops.foldl cacheStep s).dmcList = []) ∧
    (let ops : List CacheOp := [.remove 0 7]
     let s := sameId.foldl cacheStep (dmMsgCacheInit 0)
     let node : MsgCacheNode := ⟨1, 7, 2, 3, none, 0⟩
     node ∈ s.dmcList ∧ ¬ Untaken node s ops ∧ (ops.foldl cacheStep s).dmcList = [node]) := by
  refine ⟨by decide +kernel, ⟨rfl, ⟨?_, id, id, ?_, trivial⟩, rfl⟩, by decide, ?_, rfl⟩
  · rintro ⟨t, ht, hle⟩
    obtain rfl : 0 = t := CacheCall.sweeping.inj ht
    exact absurd hle (by decide)
  · rintro ⟨t, ht, hle⟩
    obtain rfl : 10000 = t := CacheCall.sweeping.inj ht
    exact absurd hle (by decide)
  · exact fun hun => hun.1 ⟨rfl, rfl⟩

end Iotkit.Dm
