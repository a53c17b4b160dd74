/-
# Synchronous calls of a gateway (`impl_linkkit.c`)

For each request a call sends a message, creates a semaphore, enters a node with the id of the
message in a list and waits; the thread that dispatches the events looks for the node by the id of
a reply.  The sections under the mutex of the list are steps of their own, as are the sending and
the creation of the semaphore: a reply may come between any two.  Any number of calls may be under
way.  A node has the number of its semaphore.
-/
import Iotkit.GuardedRun
import Iotkit.InfraDefs

namespace Iotkit.LinkkitSync

open GuardedRun List Function

/-! ## The list of waiting nodes -/

/-- An `iotx_linkkit_upstream_sync_callback_node_t`, whose code stands in the memory. -/
structure SyncNode where
  msgid : ℕ
  semaphore : ℕ
  deriving DecidableEq

def iotxDmErrCodeSuccess : ℤ := 200

/-- `_iotx_linkkit_upstream_sync_callback_list_insert`, and whether there is memory for the
node. -/
def syncCallbackListInsert (nodes : List SyncNode) (msgid semaphore : ℕ) (memory : Bool) :
    Option (List SyncNode) :=
  if nodes.any (·.msgid = msgid) then none
  else if memory then some (⟨msgid, semaphore⟩ :: nodes) else none

/-- The first node with the message id. -/
def syncCallbackListSearch (nodes : List SyncNode) (msgid : ℕ) : Option SyncNode :=
  nodes.find? (·.msgid = msgid)

/-- The code that `_iotx_linkkit_upstream_callback_remove` leaves in a node. -/
def syncCode (code : ℤ) : ℤ := if code = iotxDmErrCodeSuccess then successReturn else failReturn

/-- The message id that is given next. -/
def iotxReportId (reportId : ℕ) : ℕ := if reportId + 1 < 2 ^ 31 then reportId + 1 else 0

/-! ## Calls -/

/-- The requests that wait for an answer. -/
inductive RequestKind where
  | register
  | topoAdd
  | topoDelete
  deriving DecidableEq

/-- A message of a call, the codes of the replies with its id from its sending to the end of the
wait, and what the call read from its node. -/
structure Request where
  msgid : ℕ
  replies : List ℤ
  read : Option ℤ
  deriving DecidableEq

/-- Where a call stands in a request. -/
inductive Phase where
  | sending
  | sent (request : Request)
  | created (request : Request) (semaphore : ℕ)
  | waiting (request : Request) (semaphore : ℕ)
  | timedOut (request : Request) (semaphore : ℕ)
  | woken (request : Request) (semaphore : ℕ)

/-- How often a call took and released the mutex of the list and that of the interface. -/
structure MutexUse where
  upstreamLocks : ℕ
  upstreamUnlocks : ℕ
  apiLocks : ℕ
  apiUnlocks : ℕ
  deriving DecidableEq

/-- A call of `_iotx_linkkit_slave_connect` or `_iotx_linkkit_subdev_delete_topo` by
`IOT_Linkkit_Connect` or `IOT_Linkkit_Report`, with the requests that are over. -/
structure SyncCall where
  kind : RequestKind
  phase : Phase
  requests : List Request
  mutex : MutexUse

/-- A call that has returned. -/
structure SyncReturn where
  ret : ℤ
  requests : List Request
  mutex : MutexUse
  deriving DecidableEq

/-- The gateway: the last message id, the list, the codes and the semaphores by their numbers, and
the calls by their threads; the messages that were sent, the nodes that were inserted and
removed, and the calls that have returned. -/
structure Gateway where
  isConnected : Bool
  reportId : ℕ
  nodes : List SyncNode
  code : ℕ → ℤ
  posts : ℕ → ℕ
  semaphores : ℕ
  calls : ℕ → Option SyncCall
  sent : List ℕ
  inserted : List ℕ
  removed : List ℕ
  returned : List SyncReturn

/-- A gateway without a call. -/
def gatewayStart (isConnected : Bool) (reportId : ℕ) : Gateway :=
  ⟨isConnected, reportId, [], fun _ => 0, fun _ => 0, 0, fun _ => none, [], [], [], []⟩

def MutexUse.upstreamLock (m : MutexUse) : MutexUse :=
  { m with upstreamLocks := m.upstreamLocks + 1 }

def MutexUse.upstreamUnlock (m : MutexUse) : MutexUse :=
  { m with upstreamUnlocks := m.upstreamUnlocks + 1 }

def MutexUse.apiLock (m : MutexUse) : MutexUse := { m with apiLocks := m.apiLocks + 1 }

def MutexUse.apiUnlock (m : MutexUse) : MutexUse := { m with apiUnlocks := m.apiUnlocks + 1 }

/-- The message that a call waits for, or will wait for. -/
def Phase.request? : Phase → Option Request
  | .sending => none
  | .sent r | .created r _ | .waiting r _ | .timedOut r _ | .woken r _ => some r

/-- The node that the call has in the list. -/
def Phase.node? : Phase → Option SyncNode
  | .waiting r sem | .timedOut r sem | .woken r sem => some ⟨r.msgid, sem⟩
  | _ => none

/-- The semaphore that the call holds. -/
def Phase.semaphore? : Phase → Option ℕ
  | .created _ sem | .waiting _ sem | .timedOut _ sem | .woken _ sem => some sem
  | _ => none

variable (s : Gateway)

def Gateway.setCall (caller : ℕ) (call : Option SyncCall) : Gateway :=
  { s with calls := update s.calls caller call }

def Gateway.setPhase (caller : ℕ) (call : SyncCall) (phase : Phase) : Gateway :=
  s.setCall caller (some { call with phase := phase })

/-- A call returns to the function that took the mutex of the interface. -/
def Gateway.ret (s : Gateway) (caller : ℕ) (ret : ℤ) (requests : List Request) (mutex : MutexUse) :
    Gateway :=
  { s.setCall caller none with returned := s.returned ++ [⟨ret, requests, mutex.apiUnlock⟩] }

/-- A request that could not be sent, or that has no semaphore.  Where the request adds a
subdevice to the topology, the mutex of the interface is released here. -/
def Gateway.abandon (caller : ℕ) (call : SyncCall) (requests : List Request) :
    Gateway :=
  s.ret caller failReturn requests
    (if call.kind = .topoAdd then call.mutex.apiUnlock else call.mutex)

/-- What `iotx_dm_subdev_register` and the others do: they fail before or after they took a
message id, the subdevice has a secret, or the message is sent. -/
inductive SendOutcome where
  | refused
  | failed
  | hasSecret
  | written
  deriving DecidableEq

/-- The request of a call is sent.  A registration with the result zero is not waited for. -/
def sendRequest (caller : ℕ) (call : SyncCall) : SendOutcome → Gateway
  | .refused => s.abandon caller call call.requests
  | .failed =>
    { s.abandon caller call call.requests with reportId := iotxReportId s.reportId }
  | .hasSecret =>
    if call.kind = .register then s.setCall caller (some { call with kind := .topoAdd }) else s
  | .written =>
    let request : Request := ⟨iotxReportId s.reportId, [], none⟩
    let s := { s with
      reportId := iotxReportId s.reportId
      sent := s.sent ++ [iotxReportId s.reportId] }
    if call.kind = .register ∧ request.msgid = 0 then
      s.setCall caller (some { call with kind := .topoAdd, requests := call.requests ++ [request] })
    else s.setPhase caller call (.sent request)

/-- The call makes its semaphore. -/
def semaphoreCreate (caller : ℕ) (call : SyncCall) (request : Request) (memory : Bool) : Gateway :=
  if memory then
    { s.setPhase caller call (.created request s.semaphores) with
      posts := update s.posts s.semaphores 0
      semaphores := s.semaphores + 1 }
  else s.abandon caller call (call.requests ++ [request])

/-- The call puts its node into the list. -/
def insertNode (caller : ℕ) (call : SyncCall) (request : Request) (semaphore : ℕ) (memory : Bool) :
    Gateway :=
  match syncCallbackListInsert s.nodes request.msgid semaphore memory with
  | none =>
    s.ret caller failReturn (call.requests ++ [request]) call.mutex.upstreamLock.upstreamUnlock
  | some nodes =>
    { s.setCall caller (some { call with
          phase := .waiting request semaphore
          mutex := call.mutex.upstreamLock.upstreamUnlock }) with
      nodes := nodes
      code := update s.code semaphore 0
      inserted := s.inserted ++ [semaphore] }

/-- The node of the message id is taken out. -/
def syncCallbackListRemove (msgid : ℕ) : Gateway :=
  match syncCallbackListSearch s.nodes msgid with
  | none => s
  | some node =>
    { s with
      nodes := s.nodes.erase node
      removed := s.removed ++ [node.semaphore] }

def removeNode (caller : ℕ) (call : SyncCall) (request : Request) : Gateway :=
  (syncCallbackListRemove s request.msgid).ret caller failReturn (call.requests ++ [request])
    call.mutex.upstreamLock.upstreamUnlock

/-- A call that was woken reads the code of its node and removes it. -/
def finishRequest (caller : ℕ) (call : SyncCall) (request : Request) (semaphore : ℕ) : Gateway :=
  let code := s.code semaphore
  let requests := call.requests ++ [{ request with read := some code }]
  let mutex := call.mutex.upstreamLock.upstreamUnlock
  let s := syncCallbackListRemove s request.msgid
  if code ≠ successReturn then s.ret caller failReturn requests mutex
  else if call.kind = .register then
    s.setCall caller (some ⟨.topoAdd, .sending, requests, mutex⟩)
  else s.ret caller successReturn requests mutex

/-! ## Replies -/

def Request.record (r : Request) (msgid : ℕ) (code : ℤ) : Request :=
  if r.msgid = msgid then { r with replies := r.replies ++ [code] } else r

/-- A reply comes while its request is under way. -/
def Phase.record (phase : Phase) (msgid : ℕ) (code : ℤ) : Phase :=
  match phase with
  | .sending => .sending
  | .sent r => .sent (r.record msgid code)
  | .created r sem => .created (r.record msgid code) sem
  | .waiting r sem => .waiting (r.record msgid code) sem
  | .timedOut r sem => .timedOut r sem
  | .woken r sem => .woken (r.record msgid code) sem

/-- An answer that comes in wakes the call that waits for it. -/
def upstreamCallbackRemove (msgid : ℕ) (code : ℤ) : Gateway :=
  match syncCallbackListSearch s.nodes msgid with
  | none => s
  | some node =>
    { s with
      code := update s.code node.semaphore (syncCode code)
      posts := update s.posts node.semaphore (s.posts node.semaphore + 1) }

/-- The steps of the threads, and the messages of other calls. -/
inductive GatewayOp where
  | connect (caller : ℕ) (devid : ℤ)
  | deleteTopo (caller : ℕ) (devid : ℤ)
  | send (caller : ℕ) (outcome : SendOutcome)
  | create (caller : ℕ) (memory : Bool)
  | insert (caller : ℕ) (memory : Bool)
  | wait (caller : ℕ)
  | timeout (caller : ℕ)
  | finish (caller : ℕ)
  | otherSend
  | reply (msgid : ℕ) (code : ℤ)

/-- A call begins, with the mutex of the interface taken. -/
def beginCall (caller : ℕ) (kind : RequestKind) (devid : ℤ) : Gateway :=
  match s.calls caller with
  | some _ => s
  | none =>
    let mutex : MutexUse := MutexUse.apiLock ⟨0, 0, 0, 0⟩
    if s.isConnected = false ∨ devid ≤ 0 then s.ret caller failReturn [] mutex
    else s.setCall caller (some ⟨kind, .sending, [], mutex⟩)

/-- The next step of a call. -/
def callStep (caller : ℕ) (call : SyncCall) : GatewayOp → Phase → Gateway
  | .send _ outcome, .sending => sendRequest s caller call outcome
  | .create _ memory, .sent r => semaphoreCreate s caller call r memory
  | .insert _ memory, .created r sem => insertNode s caller call r sem memory
  | .wait _, .waiting r sem =>
    if s.posts sem = 0 then s
    else
      { s.setPhase caller call (.woken r sem) with
        posts := update s.posts sem (s.posts sem - 1) }
  | .timeout _, .waiting r sem =>
    if s.posts sem = 0 then s.setPhase caller call (.timedOut r sem) else s
  | .finish _, .timedOut r _ => removeNode s caller call r
  | .finish _, .woken r sem => finishRequest s caller call r sem
  | _, _ => s

/-- One step.  A step that is not the next one of its call does nothing, and a reply comes for a
message that was sent. -/
def gatewayStep (op : GatewayOp) : Gateway :=
  match op with
  | .connect caller devid => beginCall s caller .register devid
  | .deleteTopo caller devid => beginCall s caller .topoDelete devid
  | .send caller _ | .create caller _ | .insert caller _ | .wait caller | .timeout caller
  | .finish caller =>
    match s.calls caller with
    | none => s
    | some call => callStep s caller call op call.phase
  | .otherSend =>
    { s with
      reportId := iotxReportId s.reportId
      sent := s.sent ++ [iotxReportId s.reportId] }
  | .reply msgid code =>
    if msgid ∈ s.sent then
      { upstreamCallbackRemove s msgid code with
        calls := fun c => (s.calls c).map fun call =>
          { call with phase := call.phase.record msgid code } }
    else s

/-! ## What the calls are to do -/

/-- A call that has returned: after success each of its requests had a reply with the code of
success; what it read for a request is the code of the last reply to it, and every reply was
read; and it released the mutexes as often as it took them. -/
structure ReturnOk (r : SyncReturn) : Prop where
  success : r.ret = successReturn →
    r.requests ≠ [] ∧ ∀ q ∈ r.requests, iotxDmErrCodeSuccess ∈ q.replies
  credited : ∀ q ∈ r.requests, q.read = q.replies.getLast?.map syncCode
  upstream : r.mutex.upstreamLocks = r.mutex.upstreamUnlocks
  api : r.mutex.apiLocks = r.mutex.apiUnlocks

/-- The calls that have returned are right; no node is removed twice, and one that was inserted
was removed or belongs to a call that is under way. -/
structure SyncOk (s : Gateway) : Prop where
  returned : ∀ r ∈ s.returned, ReturnOk r
  once : s.removed.Nodup
  inserted : ∀ sem ∈ s.inserted, sem ∈ s.removed ∨
    ∃ caller call node, s.calls caller = some call ∧ call.phase.node? = some node ∧
      node.semaphore = sem

/-- The id that a message of a call takes is not one that a call waits for, nor zero for a
registration; adding a subdevice to the topology is sent and gets its semaphore; and no reply is
handled between the sending of its request and the insertion of the node. -/
def Orderly : GatewayOp → Prop
  | .send caller outcome =>
    ∀ call, s.calls caller = some call → call.phase = .sending →
      (outcome = .refused ∨ outcome = .failed → call.kind ≠ .topoAdd) ∧
        (outcome = .written →
          (call.kind = .register → iotxReportId s.reportId ≠ 0) ∧
            ∀ c other r, s.calls c = some other → other.phase.request? = some r →
              r.msgid ≠ iotxReportId s.reportId)
  | .create caller memory =>
    ∀ call r, s.calls caller = some call → call.phase = .sent r → memory = false →
      call.kind ≠ .topoAdd
  | .reply msgid _ =>
    ∀ c call r, s.calls c = some call → call.phase.request? = some r →
      call.phase.node? = none → r.msgid ≠ msgid
  | _ => True

/-! ## The invariant -/

/-- The node of a request has the code of the last reply. -/
def Answered (r : Request) (semaphore : ℕ) : Prop :=
  r.replies.getLast?.map syncCode = some (s.code semaphore)

/-- What holds of a call in a phase. -/
def PhaseOk : Phase → Prop
  | .sending => True
  | .sent r => r.replies = [] ∧ r.read = none
  | .created r sem =>
    (r.replies = [] ∧ r.read = none) ∧ s.posts sem = 0 ∧ sem < s.semaphores ∧ sem ∉ s.inserted
  | .waiting r sem =>
    (r.replies = [] ∧ s.posts sem = 0 ∨ Answered s r sem ∧ s.posts sem ≠ 0) ∧ r.read = none
  | .timedOut r _ => r.replies = [] ∧ r.read = none
  | .woken r sem => Answered s r sem

/-- What holds of a call that is under way. -/
structure CallOk (s : Gateway) (call : SyncCall) : Prop where
  phase : PhaseOk s call.phase
  requests : ∀ q ∈ call.requests,
    q.read = some successReturn ∧ q.replies.getLast?.map syncCode = some successReturn
  upstream : call.mutex.upstreamLocks = call.mutex.upstreamUnlocks
  api : call.mutex.apiLocks = call.mutex.apiUnlocks + 1

/-- No two calls wait for the same id or have the same semaphore, and the nodes are those of the
calls. -/
structure SyncInv (s : Gateway) : Prop extends SyncOk s where
  call : ∀ caller call, s.calls caller = some call → CallOk s call
  ids : ∀ c c' call call' r r', s.calls c = some call → s.calls c' = some call' →
    call.phase.request? = some r → call'.phase.request? = some r' → r.msgid = r'.msgid → c = c'
  semaphore : ∀ c c' call call' sem, s.calls c = some call → s.calls c' = some call' →
    call.phase.semaphore? = some sem → call'.phase.semaphore? = some sem → c = c'
  nodes : ∀ node, node ∈ s.nodes ↔
    ∃ c call, s.calls c = some call ∧ call.phase.node? = some node
  nodup : s.nodes.Nodup
  listed : ∀ node ∈ s.nodes, node.semaphore ∈ s.inserted ∧ node.semaphore ∉ s.removed
  old : ∀ sem ∈ s.inserted, sem < s.semaphores
  removed : ∀ sem ∈ s.removed, sem ∈ s.inserted

variable {phase : Phase}

variable {node : SyncNode}

theorem Phase.semaphore_of_node (h : phase.node? = some node) :
    phase.semaphore? = some node.semaphore := by
  cases phase <;> simp [Phase.node?] at h <;> simp [Phase.semaphore?, ← h]

theorem Phase.request_of_node (h : phase.node? = some node) :
    ∃ r, phase.request? = some r ∧ r.msgid = node.msgid := by
  cases phase <;> simp [Phase.node?] at h <;> simp [Phase.request?, ← h]

/-- What holds of a phase depends on its own semaphore only. -/
theorem PhaseOk.congr {s s' : Gateway} {phase : Phase} (h : PhaseOk s phase)
    (hsem : ∀ sem, phase.semaphore? = some sem →
      s'.posts sem = s.posts sem ∧ s'.code sem = s.code sem)
    (hle : s.semaphores ≤ s'.semaphores)
    (hinserted : ∀ sem, phase.semaphore? = some sem → sem ∈ s'.inserted → sem ∈ s.inserted) :
    PhaseOk s' phase := by
  cases phase with
  | sending => trivial
  | sent r => exact h
  | created r sem =>
    obtain ⟨hfresh, hposts, hlt, hnot⟩ := h
    exact ⟨hfresh, (hsem sem rfl).1.trans hposts, hlt.trans_le hle,
      fun hmem => hnot (hinserted sem rfl hmem)⟩
  | waiting r sem =>
    obtain ⟨hposts, hcode⟩ := hsem sem rfl
    simpa only [PhaseOk, Answered, hposts, hcode] using h
  | timedOut r sem => exact h
  | woken r sem => simpa only [PhaseOk, Answered, (hsem sem rfl).2] using h

namespace SyncInv

variable {s s' : Gateway}

theorem start (isConnected : Bool) (reportId : ℕ) : SyncInv (gatewayStart isConnected reportId) := by
  constructor <;> simp [gatewayStart]
  constructor <;> simp

/-- One call goes on, with a request and a semaphore of its own. -/
structure GoesOn (s s' : Gateway) (caller : ℕ) (next : Option SyncCall) : Prop where
  calls : s'.calls = update s.calls caller next
  returned : ∀ r ∈ s'.returned, r ∈ s.returned ∨ ReturnOk r
  others : ∀ c call, c ≠ caller → s.calls c = some call → PhaseOk s' call.phase
  own : ∀ call, next = some call → CallOk s' call
  id : ∀ call r, next = some call → call.phase.request? = some r → ∀ c other r', c ≠ caller →
    s.calls c = some other → other.phase.request? = some r' → r'.msgid ≠ r.msgid
  sem : ∀ call sem, next = some call → call.phase.semaphore? = some sem → ∀ c other,
    c ≠ caller → s.calls c = some other → other.phase.semaphore? ≠ some sem

/-- **One call goes on.**  The others keep what they have, and the list has the node of the call
when the call has one. -/
theorem update (h : SyncInv s) (caller : ℕ) {next : Option SyncCall} (hgoes : GoesOn s s' caller next)
    (hnodes : ∀ node, node ∈ s'.nodes ↔
      (node ∈ s.nodes ∧ ∀ call, s.calls caller = some call → call.phase.node? ≠ some node) ∨
        ∃ call, next = some call ∧ call.phase.node? = some node)
    (hnodup : s'.nodes.Nodup) (honce : s'.removed.Nodup)
    (hlisted : ∀ node ∈ s'.nodes, node.semaphore ∈ s'.inserted ∧ node.semaphore ∉ s'.removed)
    (hinserted : ∀ sem ∈ s'.inserted,
      sem < s'.semaphores ∧ (sem ∈ s'.removed ∨ ∃ node ∈ s'.nodes, node.semaphore = sem))
    (hremoved : ∀ sem ∈ s'.removed, sem ∈ s'.inserted) : SyncInv s' := by
  obtain ⟨hcalls, hreturned, hothers, hown, hid, hsem⟩ := hgoes
  have hself : s'.calls caller = next := by
    rw [hcalls]
    exact update_self ..
  have hne : ∀ {c}, c ≠ caller → s'.calls c = s.calls c := by
    intro c hc
    rw [hcalls]
    exact update_of_ne hc ..
  -- a node stays in the list as long as the call that it belongs to
  have hcallNodes : ∀ node, node ∈ s'.nodes ↔
      ∃ c call, s'.calls c = some call ∧ call.phase.node? = some node := by
    intro node
    rw [hnodes]
    constructor
    · rintro (⟨hmem, hnot⟩ | ⟨call, rfl, hnode⟩)
      · obtain ⟨c, call, hcall, hnode⟩ := (h.nodes node).mp hmem
        have hc : c ≠ caller := by
          rintro rfl
          exact hnot call hcall hnode
        exact ⟨c, call, (hne hc).trans hcall, hnode⟩
      · exact ⟨caller, call, hself, hnode⟩
    · rintro ⟨c, call, hcall, hnode⟩
      by_cases hc : c = caller
      · subst hc
        exact .inr ⟨call, hself.symm.trans hcall, hnode⟩
      · rw [hne hc] at hcall
        -- another call cannot have the node that the caller had
        refine .inl ⟨(h.nodes node).mpr ⟨c, call, hcall, hnode⟩, fun own hown hnode' => hc ?_⟩
        exact h.semaphore c caller call own _ hcall hown (Phase.semaphore_of_node hnode)
          (Phase.semaphore_of_node hnode')
  refine ⟨⟨?_, honce, ?_⟩, ?_, ?_, ?_, hcallNodes, hnodup, hlisted,
    fun sem hmem => (hinserted sem hmem).1, hremoved⟩
  · intro r hr
    exact (hreturned r hr).elim (h.returned r) id
  · intro sem hmem
    -- an inserted node was removed, or its call still has it
    rcases (hinserted sem hmem).2 with hgone | ⟨node, hnode, rfl⟩
    · exact .inl hgone
    · obtain ⟨c, call, hcall, hphase⟩ := (hcallNodes node).mp hnode
      exact .inr ⟨c, call, node, hcall, hphase, rfl⟩
  · intro c call hcall
    by_cases hc : c = caller
    · subst hc
      exact hown call (hself.symm.trans hcall)
    · rw [hne hc] at hcall
      exact { h.call c call hcall with phase := hothers c call hc hcall }
  · intro c c' call call' r r' hcall hcall' hr hr' hsame
    -- the ids of two calls: both are others, or one is that of the caller
    by_cases hc : c = caller <;> by_cases hc' : c' = caller
    · rw [hc, hc']
    · subst hc
      rw [hne hc'] at hcall'
      exact absurd hsame.symm (hid call r (hself.symm.trans hcall) hr c' call' r' hc' hcall' hr')
    · subst hc'
      rw [hne hc] at hcall
      exact absurd hsame (hid call' r' (hself.symm.trans hcall') hr' c call r hc hcall hr)
    · rw [hne hc] at hcall
      rw [hne hc'] at hcall'
      exact h.ids c c' call call' r r' hcall hcall' hr hr' hsame
  · intro c c' call call' sem hcall hcall' hs hs'
    -- and their semaphores
    by_cases hc : c = caller <;> by_cases hc' : c' = caller
    · rw [hc, hc']
    · subst hc
      rw [hne hc'] at hcall'
      exact absurd hs' (hsem call sem (hself.symm.trans hcall) hs c' call' hc' hcall')
    · subst hc'
      rw [hne hc] at hcall
      exact absurd hs (hsem call' sem (hself.symm.trans hcall') hs' c call hc hcall)
    · rw [hne hc] at hcall
      rw [hne hc'] at hcall'
      exact h.semaphore c c' call call' sem hcall hcall' hs hs'

/-- A call goes on while the list stays. -/
theorem frame (h : SyncInv s) (caller : ℕ) {next : Option SyncCall} (hgoes : GoesOn s s' caller next)
    (hnodes : s'.nodes = s.nodes) (hinserted : s'.inserted = s.inserted)
    (hremoved : s'.removed = s.removed) (hle : s.semaphores ≤ s'.semaphores)
    (hnode : ∀ node, (∃ call, s.calls caller = some call ∧ call.phase.node? = some node) ↔
      ∃ call, next = some call ∧ call.phase.node? = some node) : SyncInv s' := by
  refine h.update caller hgoes (fun node => ?_) (hnodes ▸ h.nodup) (hremoved ▸ h.once) ?_ ?_ ?_
  · rw [hnodes, ← hnode]
    constructor
    · intro hmem
      -- the caller had a node before exactly if it has one now
      by_cases hcase : ∃ call, s.calls caller = some call ∧ call.phase.node? = some node
      · exact .inr hcase
      · exact .inl ⟨hmem, fun call hcall hnode' => hcase ⟨call, hcall, hnode'⟩⟩
    · rintro (⟨hmem, -⟩ | ⟨call, hcall, hnode'⟩)
      · exact hmem
      · exact (h.nodes node).mpr ⟨caller, call, hcall, hnode'⟩
  · rw [hnodes, hinserted, hremoved]
    exact h.listed
  · rw [hnodes, hinserted, hremoved]
    intro sem hmem
    refine ⟨(h.old sem hmem).trans_le hle, (h.inserted sem hmem).imp_right ?_⟩
    rintro ⟨c, call, node, hcall, hphase, rfl⟩
    exact ⟨node, (h.nodes node).mpr ⟨c, call, hcall, hphase⟩, rfl⟩
  · rw [hinserted, hremoved]
    exact h.removed

theorem setReport (h : SyncInv s) (reportId : ℕ) (sent : List ℕ) :
    SyncInv { s with reportId := reportId, sent := sent } where
  returned := h.returned
  once := h.once
  inserted := h.inserted
  call := fun c call hcall =>
    { h.call c call hcall with
      phase := (h.call c call hcall).phase.congr (fun _ _ => ⟨rfl, rfl⟩) le_rfl
        fun _ _ hmem => hmem }
  ids := h.ids
  semaphore := h.semaphore
  nodes := h.nodes
  nodup := h.nodup
  listed := h.listed
  old := h.old
  removed := h.removed

variable {caller : ℕ} {requests : List Request}

theorem returned_append {r : SyncReturn} (hr : ReturnOk r) :
    ∀ q ∈ s.returned ++ [r], q ∈ s.returned ∨ ReturnOk q :=
  forall_mem_append.mpr ⟨fun _ => .inl, forall_mem_singleton.mpr (.inr hr)⟩

theorem ret (h : SyncInv s) {ret : ℤ} {mutex : MutexUse}
    (hnode : ∀ call, s.calls caller = some call → call.phase.node? = none)
    (hok : ReturnOk ⟨ret, requests, mutex.apiUnlock⟩) :
    SyncInv (s.ret caller ret requests mutex) := by
  refine h.frame caller
    ⟨rfl, returned_append hok, fun c call _ hcall => ?_, by simp, by simp, by simp⟩
    rfl rfl rfl le_rfl fun node => ?_
  · exact (h.call c call hcall).phase.congr (fun _ _ => ⟨rfl, rfl⟩) le_rfl fun _ _ hmem => hmem
  · constructor
    · rintro ⟨call, hcall, hphase⟩
      rw [hnode call hcall] at hphase
      contradiction
    · rintro ⟨call, hcall, -⟩
      contradiction

theorem returnOk_fail {mutex : MutexUse}
    (hrequests : ∀ q ∈ requests, q.read = q.replies.getLast?.map syncCode)
    (hupstream : mutex.upstreamLocks = mutex.upstreamUnlocks)
    (hapi : mutex.apiLocks = mutex.apiUnlocks + 1) :
    ReturnOk ⟨failReturn, requests, mutex.apiUnlock⟩ where
  success := fun hret => absurd (show failReturn = successReturn from hret) (by decide)
  credited := hrequests
  upstream := hupstream
  api := hapi

variable {call : SyncCall}

theorem credited (h : SyncInv s) (hcall : s.calls caller = some call) :
    ∀ q ∈ call.requests, q.read = q.replies.getLast?.map syncCode := by
  intro q hq
  obtain ⟨hread, hlast⟩ := (h.call caller call hcall).requests q hq
  rw [hread, hlast]

variable {r : Request}

theorem credited_append (h : ∀ q ∈ requests, q.read = q.replies.getLast?.map syncCode)
    (hr : r.read = r.replies.getLast?.map syncCode) :
    ∀ q ∈ requests ++ [r], q.read = q.replies.getLast?.map syncCode := by
  exact forall_mem_append.mpr ⟨h, forall_mem_singleton.mpr hr⟩

theorem abandon (h : SyncInv s) (hcall : s.calls caller = some call)
    (hnode : call.phase.node? = none) (hkind : call.kind ≠ .topoAdd)
    (hrequests : ∀ q ∈ requests, q.read = q.replies.getLast?.map syncCode) :
    SyncInv (s.abandon caller call requests) := by
  obtain ⟨-, -, hupstream, hapi⟩ := h.call caller call hcall
  rw [Gateway.abandon, if_neg hkind]
  apply h.ret
  · intro other hother
    rw [← Option.some.inj (hcall.symm.trans hother)]
    exact hnode
  · exact returnOk_fail hrequests hupstream hapi

theorem begin (h : SyncInv s) (caller : ℕ) (kind : RequestKind) (devid : ℤ) :
    SyncInv (beginCall s caller kind devid) := by
  unfold beginCall
  cases hcall : s.calls caller with
  | some call => exact h
  | none =>
    dsimp only
    have hnone : ∀ call, s.calls caller = some call → call.phase.node? = none := by
      simp [hcall]
    split_ifs
    · exact h.ret hnone (returnOk_fail (by simp) rfl rfl)
    · refine h.frame caller ⟨rfl, fun _ hr => .inl hr, fun c call _ hcall => ?_, ?_, ?_, ?_⟩
        rfl rfl rfl le_rfl fun node => ?_
      · exact (h.call c call hcall).phase.congr (fun _ _ => ⟨rfl, rfl⟩) le_rfl fun _ _ hmem => hmem
      · rintro call ⟨⟩
        exact ⟨trivial, by simp, rfl, rfl⟩
      · rintro call r ⟨⟩ hr
        contradiction
      · rintro call sem ⟨⟩ hsem
        contradiction
      · simp [hcall, Phase.node?]

/-- A call that has its request and its node goes on. -/
theorem goOn (h : SyncInv s) {caller : ℕ} {call next : SyncCall}
    (hcall : s.calls caller = some call)
    (hcalls : s'.calls = Function.update s.calls caller (some next))
    (hreturned : s'.returned = s.returned) (hnodes : s'.nodes = s.nodes)
    (hinserted : s'.inserted = s.inserted) (hremoved : s'.removed = s.removed)
    (hle : s.semaphores ≤ s'.semaphores) (hown : CallOk s' next)
    (hothers : ∀ c other sem, c ≠ caller → s.calls c = some other →
      other.phase.semaphore? = some sem → s'.posts sem = s.posts sem ∧ s'.code sem = s.code sem)
    (hid : ∀ r, next.phase.request? = some r →
      (∃ old, call.phase.request? = some old ∧ old.msgid = r.msgid) ∨
        ∀ c other r', s.calls c = some other → other.phase.request? = some r' →
          r'.msgid ≠ r.msgid)
    (hsem : ∀ sem, next.phase.semaphore? = some sem → call.phase.semaphore? = some sem ∨
      ∀ c other, s.calls c = some other → other.phase.semaphore? ≠ some sem)
    (hnode : next.phase.node? = call.phase.node?) : SyncInv s' := by
  refine h.frame caller
    ⟨hcalls, fun r hr => .inl (hreturned ▸ hr), fun c other hc hother => ?_, ?_, ?_, ?_⟩
    hnodes hinserted hremoved hle fun node => ?_
  · exact (h.call c other hother).phase.congr (fun sem hs => hothers c other sem hc hother hs) hle
      fun sem _ hmem => hinserted ▸ hmem
  · rintro _ ⟨⟩
    exact hown
  · rintro _ r ⟨⟩ hr c other r' hc hother hr' hsame
    rcases hid r hr with ⟨old, hold, hmsgid⟩ | hfresh
    · exact hc (h.ids c caller other call r' old hother hcall hr' hold (hsame.trans hmsgid.symm))
    · exact hfresh c other r' hother hr' hsame
  · rintro _ sem ⟨⟩ hs c other hc hother hs'
    rcases hsem sem hs with hold | hfresh
    · exact hc (h.semaphore c caller other call sem hother hcall hs' hold)
    · exact hfresh c other hother hs'
  · simp [hcall, hnode]

variable {sem : ℕ}

section

variable (h : SyncInv s) (hcall : s.calls caller = some call)
include h hcall

theorem semaphore_lt (hsem : call.phase.semaphore? = some sem) : sem < s.semaphores := by
  have hlisted : ∀ node, call.phase.node? = some node → node.semaphore < s.semaphores :=
    fun node hnode => h.old _ (h.listed node ((h.nodes node).mpr ⟨caller, call, hcall, hnode⟩)).1
  have hphase := (h.call caller call hcall).phase
  cases hp : call.phase with
  | sending => simp [hp, Phase.semaphore?] at hsem
  | sent r => simp [hp, Phase.semaphore?] at hsem
  | created r sem' =>
    rw [hp] at hphase hsem
    obtain rfl := Option.some.inj hsem
    exact hphase.2.2.1
  | waiting r sem' =>
    rw [hp] at hlisted hsem
    obtain rfl := Option.some.inj hsem
    exact hlisted _ rfl
  | timedOut r sem' =>
    rw [hp] at hlisted hsem
    obtain rfl := Option.some.inj hsem
    exact hlisted _ rfl
  | woken r sem' =>
    rw [hp] at hlisted hsem
    obtain rfl := Option.some.inj hsem
    exact hlisted _ rfl

/-! ### Sending and waiting -/

theorem send {outcome : SendOutcome} (hphase : call.phase = .sending)
    (hok : Orderly s (.send caller outcome)) : SyncInv (sendRequest s caller call outcome) := by
  obtain ⟨hkind, hfresh⟩ := hok call hcall hphase
  obtain ⟨-, hrequests, hupstream, hapi⟩ := h.call caller call hcall
  have hnode : call.phase.node? = none := by rw [hphase]; rfl
  have htopo : ∀ (s' : Gateway) (requests : List Request), s'.calls = Function.update s.calls caller
      (some { call with kind := .topoAdd, requests := requests }) → s'.returned = s.returned →
      s'.nodes = s.nodes → s'.inserted = s.inserted → s'.removed = s.removed →
      s'.semaphores = s.semaphores → s'.posts = s.posts → s'.code = s.code →
      (∀ q ∈ requests, q.read = some successReturn ∧
        q.replies.getLast?.map syncCode = some successReturn) → SyncInv s' := by
    intro s' requests hcalls hreturned hnodes hinserted hremoved hsem hposts hcode hreq
    refine h.goOn hcall hcalls hreturned hnodes hinserted hremoved hsem.ge
      ⟨by rw [hphase]; trivial, hreq, hupstream, hapi⟩ (fun _ _ _ _ _ _ => ?_) (fun r hr => ?_)
      (fun sem hs => ?_) rfl
    · exact ⟨congrFun hposts _, congrFun hcode _⟩
    · exact .inl ⟨r, hr, rfl⟩
    · exact .inl hs
  cases outcome with
  | refused => exact h.abandon hcall hnode (hkind (.inl rfl)) (h.credited hcall)
  | failed =>
    exact (h.abandon hcall hnode (hkind (.inr rfl)) (h.credited hcall)).setReport _ _
  | hasSecret =>
    simp only [sendRequest]
    split_ifs with hregister
    · exact htopo _ call.requests rfl rfl rfl rfl rfl rfl rfl rfl hrequests
    · exact h
  | written =>
    obtain ⟨hzero, hnew⟩ := hfresh rfl
    simp only [sendRequest]
    rw [if_neg fun hboth => hzero hboth.1 hboth.2]
    refine h.goOn hcall rfl rfl rfl rfl rfl le_rfl ⟨⟨rfl, rfl⟩, hrequests, hupstream, hapi⟩
      (fun _ _ _ _ _ _ => ⟨rfl, rfl⟩) ?_ ?_ ?_
    · rintro r ⟨⟩
      exact .inr fun c other r' hother hr' => hnew c other r' hother hr'
    · rintro sem ⟨⟩
    · rw [hnode]
      rfl

theorem create {memory : Bool} (hphase : call.phase = .sent r)
    (hok : Orderly s (.create caller memory)) :
    SyncInv (semaphoreCreate s caller call r memory) := by
  obtain ⟨hsent, hrequests, hupstream, hapi⟩ := h.call caller call hcall
  rw [hphase] at hsent
  have hnode : call.phase.node? = none := by rw [hphase]; rfl
  have hunused : ∀ c other, s.calls c = some other →
      other.phase.semaphore? ≠ some s.semaphores :=
    fun c other hother hs => lt_irrefl _ (h.semaphore_lt hother hs)
  cases memory with
  | false =>
    apply h.abandon hcall hnode (hok call r hcall hphase rfl)
    apply credited_append (h.credited hcall)
    rw [hsent.1, hsent.2]
    rfl
  | true =>
    refine h.goOn hcall rfl rfl rfl rfl rfl (Nat.le_succ _)
      ⟨⟨hsent, Function.update_self .., Nat.lt_succ_self _, fun hmem => ?_⟩, hrequests, hupstream,
        hapi⟩ (fun c other sem _ hother hs => ⟨Function.update_of_ne ?_ .., rfl⟩) ?_ ?_ ?_
    · exact lt_irrefl _ (h.old _ hmem)
    · rintro rfl
      exact hunused c other hother hs
    · rintro old ⟨⟩
      exact Or.inl ⟨r, by rw [hphase]; rfl, rfl⟩
    · rintro sem ⟨⟩
      exact .inr hunused
    · rw [hnode]
      rfl

theorem wait (hphase : call.phase = .waiting r sem) (hposted : s.posts sem ≠ 0) :
    SyncInv { s.setPhase caller call (.woken r sem) with
      posts := Function.update s.posts sem (s.posts sem - 1) } := by
  obtain ⟨hwaiting, hrequests, hupstream, hapi⟩ := h.call caller call hcall
  rw [hphase] at hwaiting
  have hanswered : Answered s r sem := by
    rcases hwaiting.1 with ⟨-, hzero⟩ | ⟨hanswered, -⟩
    · exact absurd hzero hposted
    · exact hanswered
  refine h.goOn hcall rfl rfl rfl rfl rfl le_rfl ⟨hanswered, hrequests, hupstream, hapi⟩
    (fun c other sem' hc hother hs => ⟨update_of_ne ?_ .., rfl⟩) ?_ ?_ ?_
  · rintro rfl
    exact hc (h.semaphore c caller other call _ hother hcall hs (by rw [hphase]; rfl))
  · rintro old ⟨⟩
    exact Or.inl ⟨r, by rw [hphase]; rfl, rfl⟩
  · rintro sem' ⟨⟩
    exact Or.inl (by rw [hphase]; rfl)
  · rw [hphase]
    rfl

theorem timeout (hphase : call.phase = .waiting r sem) (hposted : s.posts sem = 0) :
    SyncInv (s.setPhase caller call (.timedOut r sem)) := by
  obtain ⟨⟨hposts, hread⟩, hrequests, hupstream, hapi⟩ : CallOk s { call with
      phase := .waiting r sem } := hphase ▸ h.call caller call hcall
  have hnone : r.replies = [] := by
    rcases hposts with ⟨hnone, -⟩ | ⟨-, hne⟩
    · exact hnone
    · exact absurd hposted hne
  refine h.goOn hcall rfl rfl rfl rfl rfl le_rfl ⟨⟨hnone, hread⟩, hrequests, hupstream, hapi⟩
    (fun _ _ _ _ _ _ => ⟨rfl, rfl⟩) ?_ ?_ ?_
  · rintro old ⟨⟩
    exact Or.inl ⟨r, by rw [hphase]; rfl, rfl⟩
  · rintro sem' ⟨⟩
    exact Or.inl (by rw [hphase]; rfl)
  · rw [hphase]
    rfl

/-! ### The list -/

theorem insert (hphase : call.phase = .created r sem) (memory : Bool) :
    SyncInv (insertNode s caller call r sem memory) := by
  obtain ⟨hcreated, hrequests, hupstream, hapi⟩ := h.call caller call hcall
  rw [hphase] at hcreated
  obtain ⟨⟨hreplies, hread⟩, hposts, hlt, hnew⟩ := hcreated
  have hnode : ∀ other, s.calls caller = some other → other.phase.node? = none := by
    intro other hother
    rw [← Option.some.inj (hcall.symm.trans hother), hphase]
    rfl
  have hown : call.phase.semaphore? = some sem := by rw [hphase]; rfl
  unfold insertNode syncCallbackListInsert
  split_ifs with hexists hmemory
  · refine h.ret hnode (returnOk_fail (credited_append (h.credited hcall) ?_)
      (congrArg Nat.succ hupstream) hapi)
    rw [hreplies, hread]
    rfl
  · -- the semaphore is new, and none of the nodes has it
    have hnotin : ∀ node ∈ s.nodes, node.semaphore ≠ sem := by
      rintro node hmem rfl
      exact hnew (h.listed node hmem).1
    refine h.update caller ⟨rfl, fun _ hr => .inl hr, fun c other hc hother => ?_, ?_, ?_, ?_⟩
      (fun node => ?_) ?_ h.once ?_ ?_ ?_
    · have hne : ∀ sem', other.phase.semaphore? = some sem' → sem' ≠ sem := by
        rintro sem' hs rfl
        exact hc (h.semaphore c caller other call _ hother hcall hs hown)
      -- no other call had the semaphore
      refine (h.call c other hother).phase.congr
        (fun sem' hs => ⟨rfl, update_of_ne (hne sem' hs) ..⟩) le_rfl fun sem' hs hmem => ?_
      rcases mem_append.mp hmem with hold | hlast
      · exact hold
      · exact absurd (mem_singleton.mp hlast) (hne sem' hs)
    · rintro _ ⟨⟩
      exact ⟨⟨.inl ⟨hreplies, hposts⟩, hread⟩, hrequests, congrArg Nat.succ hupstream, hapi⟩
    · rintro _ old ⟨⟩ ⟨⟩ c other r' hc hother hr' hsame
      exact hc (h.ids c caller other call r' r hother hcall hr' (by rw [hphase]; rfl) hsame)
    · rintro _ sem' ⟨⟩ ⟨⟩ c other hc hother hs
      exact hc (h.semaphore c caller other call sem hother hcall hs hown)
    · constructor
      · -- the caller had no node, so the new one comes to those of the others
        intro hmem
        rcases mem_cons.mp hmem with rfl | hold
        · exact .inr ⟨_, rfl, rfl⟩
        · refine .inl ⟨hold, fun other hother hsome => ?_⟩
          rw [hnode other hother] at hsome
          contradiction
      · rintro (⟨hold, -⟩ | ⟨_, ⟨⟩, ⟨⟩⟩)
        · exact mem_cons_of_mem _ hold
        · exact mem_cons_self
    · exact nodup_cons.mpr ⟨fun hmem => hnotin _ hmem rfl, h.nodup⟩
    · intro node hmem
      rcases mem_cons.mp hmem with rfl | hold
      · exact ⟨mem_append_right _ (mem_singleton_self _),
          fun hgone => hnew (h.removed _ hgone)⟩
      · exact ⟨mem_append_left _ (h.listed node hold).1, (h.listed node hold).2⟩
    · intro sem' hmem
      rcases mem_append.mp hmem with hold | hlast
      · refine ⟨h.old sem' hold, (h.inserted sem' hold).imp_right ?_⟩
        rintro ⟨c, other, node, hother, hsome, rfl⟩
        exact ⟨node, mem_cons_of_mem _ ((h.nodes node).mpr ⟨c, other, hother, hsome⟩), rfl⟩
      · rw [mem_singleton.mp hlast]
        exact ⟨hlt, .inr ⟨_, mem_cons_self, rfl⟩⟩
    · exact fun sem' hgone => mem_append_left _ (h.removed sem' hgone)
  · refine h.ret hnode (returnOk_fail (credited_append (h.credited hcall) ?_)
      (congrArg Nat.succ hupstream) hapi)
    rw [hreplies, hread]
    rfl

theorem search (hnode : call.phase.node? = some node) :
    syncCallbackListSearch s.nodes node.msgid = some node := by
  have hmem := (h.nodes node).mpr ⟨caller, call, hcall, hnode⟩
  cases hfind : syncCallbackListSearch s.nodes node.msgid with
  | none =>
    have := List.find?_eq_none.mp hfind node hmem
    simp at this
  | some other =>
    have hsame : other.msgid = node.msgid := by simpa using List.find?_some hfind
    obtain ⟨c, call', hcall', hnode'⟩ := (h.nodes other).mp (mem_of_find?_eq_some hfind)
    obtain ⟨r, hr, hmsgid⟩ := Phase.request_of_node hnode
    obtain ⟨r', hr', hmsgid'⟩ := Phase.request_of_node hnode'
    obtain rfl := h.ids c caller call' call r' r hcall' hcall hr' hr
      (hmsgid'.trans (hsame.trans hmsgid.symm))
    obtain rfl := Option.some.inj (hcall.symm.trans hcall')
    exact hnode'.symm.trans hnode

end

variable {next : Option SyncCall}

/-- A call removes its node and goes on without one. -/
theorem leave (h : SyncInv s) (hcall : s.calls caller = some call)
    (hnode : call.phase.node? = some node) (hcalls : s'.calls = Function.update s.calls caller next)
    (hreturned : ∀ r ∈ s'.returned, r ∈ s.returned ∨ ReturnOk r)
    (hnodes : s'.nodes = s.nodes.erase node) (hremoved : s'.removed = s.removed ++ [node.semaphore])
    (hinserted : s'.inserted = s.inserted) (hsemaphores : s'.semaphores = s.semaphores)
    (hposts : s'.posts = s.posts) (hcode : s'.code = s.code)
    (hnext : ∀ call', next = some call' → call'.phase = .sending ∧ CallOk s' call') :
    SyncInv s' := by
  obtain ⟨hlistedIn, hlistedOut⟩ := h.listed node ((h.nodes node).mpr ⟨caller, call, hcall, hnode⟩)
  -- the semaphore belongs to the node alone
  have hother : ∀ {other}, other ∈ s.nodes → other ≠ node → other.semaphore ≠ node.semaphore := by
    intro other hmem hne hsame
    obtain ⟨c, call', hcall', hnode'⟩ := (h.nodes other).mp hmem
    obtain rfl := h.semaphore c caller call' call _ hcall' hcall (Phase.semaphore_of_node hnode')
      (hsame ▸ Phase.semaphore_of_node hnode)
    obtain rfl := Option.some.inj (hcall.symm.trans hcall')
    exact hne (Option.some.inj (hnode'.symm.trans hnode))
  refine h.update caller ⟨hcalls, hreturned, fun c other _ hother => ?_,
    fun call' hcall' => (hnext call' hcall').2, ?_, ?_⟩ (fun other => ?_) ?_ ?_ ?_ ?_ ?_
  · exact (h.call c other hother).phase.congr
      (fun sem _ => ⟨congrFun hposts sem, congrFun hcode sem⟩) hsemaphores.ge
      fun sem _ hmem => hinserted ▸ hmem
  · intro call' r hcall' hr
    rw [(hnext call' hcall').1] at hr
    contradiction
  · intro call' sem hcall' hs
    rw [(hnext call' hcall').1] at hs
    contradiction
  · rw [hnodes, h.nodup.mem_erase_iff]
    constructor
    · rintro ⟨hne, hmem⟩
      refine .inl ⟨hmem, fun own hown hsome => hne ?_⟩
      rw [← Option.some.inj (hcall.symm.trans hown)] at hsome
      exact Option.some.inj (hsome.symm.trans hnode)
    · rintro (⟨hmem, hnot⟩ | ⟨call', hcall', hsome⟩)
      · refine ⟨?_, hmem⟩
        rintro rfl
        exact hnot call hcall hnode
      · rw [(hnext call' hcall').1] at hsome
        contradiction
  · rw [hnodes]
    exact h.nodup.erase node
  · rw [hremoved]
    exact nodup_append.mpr ⟨h.once, nodup_singleton _, fun a ha b hb hab =>
      hlistedOut (by rwa [← mem_singleton.mp hb, ← hab])⟩
  · rw [hnodes, hinserted, hremoved]
    intro other hmem
    obtain ⟨hne, hold⟩ := h.nodup.mem_erase_iff.mp hmem
    refine ⟨(h.listed other hold).1, fun hgone => ?_⟩
    rcases mem_append.mp hgone with hgone' | hlast
    · exact (h.listed other hold).2 hgone'
    · exact hother hold hne (mem_singleton.mp hlast)
  · rw [hnodes, hinserted, hremoved, hsemaphores]
    intro sem hmem
    refine ⟨h.old sem hmem, ?_⟩
    rcases h.inserted sem hmem with hgone | ⟨c, call', other, hcall', hsome, rfl⟩
    · exact .inl (mem_append_left _ hgone)
    -- the node that leaves is the last one removed
    by_cases hsame : other = node
    · rw [hsame]
      exact .inl (mem_append_right _ (mem_singleton_self _))
    · exact .inr ⟨other, h.nodup.mem_erase_iff.mpr
        ⟨hsame, (h.nodes other).mpr ⟨c, call', hcall', hsome⟩⟩, rfl⟩
  · rw [hremoved, hinserted]
    exact forall_mem_append.mpr ⟨h.removed, forall_mem_singleton.mpr hlistedIn⟩

theorem remove (h : SyncInv s) (hcall : s.calls caller = some call)
    (hphase : call.phase = .timedOut r sem) : SyncInv (removeNode s caller call r) := by
  obtain ⟨htimedOut, -, hupstream, hapi⟩ := h.call caller call hcall
  rw [hphase] at htimedOut
  have hnode : call.phase.node? = some ⟨r.msgid, sem⟩ := by rw [hphase]; rfl
  have hsearch : syncCallbackListSearch s.nodes r.msgid = some ⟨r.msgid, sem⟩ :=
    h.search hcall hnode
  unfold removeNode syncCallbackListRemove
  rw [hsearch]
  refine h.leave hcall hnode rfl (fun ret hret => ?_) rfl rfl rfl rfl rfl rfl (by simp)
  rcases mem_append.mp hret with hold | hnew
  · exact .inl hold
  · rw [mem_singleton.mp hnew]
    refine .inr (returnOk_fail (credited_append (h.credited hcall) ?_)
      (congrArg Nat.succ hupstream) hapi)
    rw [htimedOut.1, htimedOut.2]
    rfl

theorem success_mem {replies : List ℤ} (h : replies.getLast?.map syncCode = some successReturn) :
    iotxDmErrCodeSuccess ∈ replies := by
  obtain ⟨code, hlast, hcode⟩ := Option.map_eq_some_iff.mp h
  have hsuccess : code = iotxDmErrCodeSuccess := by
    unfold syncCode at hcode
    split_ifs at hcode with hc
    · exact hc
    · exact absurd hcode (by decide)
  rw [← hsuccess]
  exact mem_of_getLast? hlast

theorem finish (h : SyncInv s) (hcall : s.calls caller = some call)
    (hphase : call.phase = .woken r sem) : SyncInv (finishRequest s caller call r sem) := by
  obtain ⟨hanswered, hrequests, hupstream, hapi⟩ := h.call caller call hcall
  rw [hphase] at hanswered
  have hlast : r.replies.getLast?.map syncCode = some (s.code sem) := hanswered
  have hnode : call.phase.node? = some ⟨r.msgid, sem⟩ := by rw [hphase]; rfl
  have hsearch : syncCallbackListSearch s.nodes r.msgid = some ⟨r.msgid, sem⟩ :=
    h.search hcall hnode
  have hcredited : ∀ q ∈ call.requests ++ [{ r with read := some (s.code sem) }],
      q.read = q.replies.getLast?.map syncCode :=
    credited_append (h.credited hcall) hlast.symm
  unfold finishRequest syncCallbackListRemove
  rw [hsearch]
  dsimp only
  split_ifs with hfail hregister
  · exact h.leave hcall hnode rfl
      (returned_append (returnOk_fail hcredited (congrArg Nat.succ hupstream) hapi))
      rfl rfl rfl rfl rfl rfl (by simp)
  -- the subdevice is registered
  · refine h.leave hcall hnode rfl (fun ret hret => .inl hret) rfl rfl rfl rfl rfl rfl ?_
    rintro _ ⟨⟩
    refine ⟨rfl, trivial, fun q hq => ?_, congrArg Nat.succ hupstream, hapi⟩
    rcases mem_append.mp hq with hold | hnew
    · exact hrequests q hold
    · rw [mem_singleton.mp hnew]
      rw [not_not.mp hfail] at hlast ⊢
      exact ⟨rfl, hlast⟩
  · refine h.leave hcall hnode rfl (returned_append ⟨fun _ => ⟨by simp, fun q hq => ?_⟩, hcredited,
      congrArg Nat.succ hupstream, hapi⟩) rfl rfl rfl rfl rfl rfl (by simp)
    rcases mem_append.mp hq with hold | hnew
    · exact success_mem (hrequests q hold).2
    · rw [mem_singleton.mp hnew]
      rw [not_not.mp hfail] at hlast
      exact success_mem hlast

/-! ### Replies -/

variable {msgid : ℕ}

theorem record_of_ne {phase : Phase} (code : ℤ)
    (hne : ∀ r, phase.request? = some r → r.msgid ≠ msgid) : phase.record msgid code = phase := by
  cases phase <;> simp_all [Phase.record, Phase.request?, Request.record]

theorem record_node (phase : Phase) (msgid : ℕ) (code : ℤ) :
    (phase.record msgid code).node? = phase.node? := by
  cases phase <;> simp only [Phase.record, Phase.node?, Request.record] <;> split_ifs <;> rfl

theorem record_semaphore (phase : Phase) (msgid : ℕ) (code : ℤ) :
    (phase.record msgid code).semaphore? = phase.semaphore? := by
  cases phase <;> rfl

theorem record_request {phase : Phase} {msgid : ℕ} {code : ℤ} {r : Request}
    (h : (phase.record msgid code).request? = some r) :
    ∃ old, phase.request? = some old ∧ old.msgid = r.msgid := by
  have hmsgid : ∀ q : Request, (q.record msgid code).msgid = q.msgid := by
    intro q
    unfold Request.record
    split_ifs <;> rfl
  cases phase <;> simp only [Phase.record, Phase.request?] at h <;> cases h
  · exact ⟨_, rfl, (hmsgid _).symm⟩
  · exact ⟨_, rfl, (hmsgid _).symm⟩
  · exact ⟨_, rfl, (hmsgid _).symm⟩
  · exact ⟨_, rfl, rfl⟩
  · exact ⟨_, rfl, (hmsgid _).symm⟩

theorem replied (h : SyncInv s) (msgid : ℕ) (code : ℤ)
    (hcalls : s'.calls = fun c => (s.calls c).map fun call =>
      { call with phase := call.phase.record msgid code })
    (hreturned : s'.returned = s.returned) (hnodes : s'.nodes = s.nodes)
    (hinserted : s'.inserted = s.inserted) (hremoved : s'.removed = s.removed)
    (hsemaphores : s'.semaphores = s.semaphores)
    (hphase : ∀ c call, s.calls c = some call → PhaseOk s' (call.phase.record msgid code)) :
    SyncInv s' := by
  have hback : ∀ {c call}, s'.calls c = some call → ∃ old, s.calls c = some old ∧
      { old with phase := old.phase.record msgid code } = call := by
    intro c call hcall
    rw [hcalls] at hcall
    exact Option.map_eq_some_iff.mp hcall
  -- a reply is recorded in the calls and leaves their nodes alone
  have hnode : ∀ node, (∃ c call, s'.calls c = some call ∧ call.phase.node? = some node) ↔
      ∃ c call, s.calls c = some call ∧ call.phase.node? = some node := by
    intro node
    constructor
    · rintro ⟨c, call, hcall, hsome⟩
      obtain ⟨old, hold, rfl⟩ := hback hcall
      rw [record_node] at hsome
      exact ⟨c, old, hold, hsome⟩
    · rintro ⟨c, call, hcall, hsome⟩
      refine ⟨c, { call with phase := call.phase.record msgid code }, ?_, ?_⟩
      · rw [hcalls]
        exact congrArg (Option.map _) hcall
      · rw [record_node, hsome]
  refine ⟨⟨hreturned ▸ h.returned, hremoved ▸ h.once, ?_⟩, ?_, ?_, ?_, ?_, hnodes ▸ h.nodup, ?_, ?_,
    ?_⟩
  · rw [hinserted, hremoved]
    intro sem hmem
    refine (h.inserted sem hmem).imp_right ?_
    rintro ⟨c, call, node, hcall, hsome, rfl⟩
    obtain ⟨c', call', hcall', hsome'⟩ := (hnode node).mpr ⟨c, call, hcall, hsome⟩
    exact ⟨c', call', node, hcall', hsome', rfl⟩
  · intro c call hcall
    obtain ⟨old, hold, rfl⟩ := hback hcall
    exact { h.call c old hold with phase := hphase c old hold }
  · intro c c' call call' r r' hcall hcall' hr hr' hsame
    obtain ⟨old, hold, rfl⟩ := hback hcall
    obtain ⟨old', hold', rfl⟩ := hback hcall'
    obtain ⟨q, hq, hmsgid⟩ := record_request hr
    obtain ⟨q', hq', hmsgid'⟩ := record_request hr'
    exact h.ids c c' old old' q q' hold hold' hq hq' (hmsgid.trans (hsame.trans hmsgid'.symm))
  · intro c c' call call' sem hcall hcall' hs hs'
    obtain ⟨old, hold, rfl⟩ := hback hcall
    obtain ⟨old', hold', rfl⟩ := hback hcall'
    rw [record_semaphore] at hs hs'
    exact h.semaphore c c' old old' sem hold hold' hs hs'
  · intro node
    rw [hnodes, hnode]
    exact h.nodes node
  · rw [hnodes, hinserted, hremoved]
    exact h.listed
  · rw [hinserted, hsemaphores]
    exact h.old
  · rw [hinserted, hremoved]
    exact h.removed

theorem answered_record {code : ℤ} (hmsgid : r.msgid = msgid) (hcode : s.code sem = syncCode code) :
    Answered s (r.record msgid code) sem := by
  unfold Answered Request.record
  rw [if_pos hmsgid, hcode]
  simp

theorem record_read (r : Request) (msgid : ℕ) (code : ℤ) : (r.record msgid code).read = r.read := by
  unfold Request.record
  split_ifs <;> rfl

theorem reply (h : SyncInv s) {code : ℤ} (hok : Orderly s (.reply msgid code)) :
    SyncInv { upstreamCallbackRemove s msgid code with
      calls := fun c => (s.calls c).map fun call =>
        { call with phase := call.phase.record msgid code } } := by
  unfold upstreamCallbackRemove
  cases hsearch : syncCallbackListSearch s.nodes msgid with
  | none =>
    refine h.replied msgid code rfl rfl rfl rfl rfl rfl fun c call hcall => ?_
    have hother : ∀ r, call.phase.request? = some r → r.msgid ≠ msgid := by
      rintro r hr rfl
      cases hnode : call.phase.node? with
      | none => exact hok c call r hcall hr hnode rfl
      | some node =>
        obtain ⟨q, hq, hmsgid⟩ := Phase.request_of_node hnode
        obtain rfl := Option.some.inj (hr.symm.trans hq)
        rw [hmsgid, h.search hcall hnode] at hsearch
        contradiction
    rw [record_of_ne code hother]
    exact (h.call c call hcall).phase.congr (fun _ _ => ⟨rfl, rfl⟩) le_rfl fun _ _ hmem => hmem
  | some node =>
    have hmsgid : node.msgid = msgid := by simpa using List.find?_some hsearch
    refine h.replied msgid code rfl rfl rfl rfl rfl rfl fun c call hcall => ?_
    have hphase := (h.call c call hcall).phase
    by_cases hown : ∀ r, call.phase.request? = some r → r.msgid ≠ msgid
    -- the node of another call
    · rw [record_of_ne code hown]
      have hne : ∀ sem, call.phase.semaphore? = some sem → sem ≠ node.semaphore := by
        rintro sem hs rfl
        obtain ⟨c', call', hcall', hnode'⟩ := (h.nodes node).mp (mem_of_find?_eq_some hsearch)
        obtain rfl := h.semaphore c c' call call' _ hcall hcall' hs (Phase.semaphore_of_node hnode')
        obtain rfl := Option.some.inj (hcall.symm.trans hcall')
        obtain ⟨r, hr, hr'⟩ := Phase.request_of_node hnode'
        exact hown r hr (hr'.trans hmsgid)
      exact hphase.congr (fun sem hs =>
        ⟨update_of_ne (hne sem hs) .., update_of_ne (hne sem hs) ..⟩) le_rfl
        fun _ _ hmem => hmem
    · push Not at hown
      obtain ⟨r, hr, hsame⟩ := hown
      have hnode : call.phase.node? = some node := by
        cases hnode : call.phase.node? with
        | none => exact absurd hsame (hok c call r hcall hr hnode)
        | some own =>
          obtain ⟨q, hq, hq'⟩ := Phase.request_of_node hnode
          obtain rfl := Option.some.inj (hr.symm.trans hq)
          rw [← hsame, hq', h.search hcall hnode] at hsearch
          exact hsearch
      cases hp : call.phase with
      | sending => simp [hp, Phase.node?] at hnode
      | sent q => simp [hp, Phase.node?] at hnode
      | created q sem => simp [hp, Phase.node?] at hnode
      | waiting q sem =>
        rw [hp] at hr hnode hphase
        obtain rfl := Option.some.inj hr
        obtain rfl := Option.some.inj hnode
        refine ⟨.inr ⟨answered_record hsame (update_self ..), ?_⟩,
          (record_read _ _ _).trans hphase.2⟩
        show Function.update s.posts sem (s.posts sem + 1) sem ≠ 0
        rw [update_self]
        exact Nat.succ_ne_zero _
      | timedOut q sem =>
        rw [hp] at hphase
        exact hphase
      | woken q sem =>
        rw [hp] at hr hnode
        obtain rfl := Option.some.inj hr
        obtain rfl := Option.some.inj hnode
        exact answered_record hsame (update_self ..)

/-! ### Runs -/

theorem step (s : Gateway) (op : GatewayOp) (h : SyncInv s) (hok : Orderly s op) :
    SyncInv (gatewayStep s op) := by
  have hcallStep : ∀ caller, (∀ call, s.calls caller = some call →
      SyncInv (callStep s caller call op call.phase)) →
        SyncInv (match s.calls caller with
          | none => s
          | some call => callStep s caller call op call.phase) := by
    intro caller hcall
    cases hcalls : s.calls caller with
    | none => exact h
    | some call => exact hcall call hcalls
  cases op with
  | connect caller devid => exact h.begin caller _ devid
  | deleteTopo caller devid => exact h.begin caller _ devid
  | send caller outcome =>
    refine hcallStep caller fun call hcall => ?_
    cases hphase : call.phase <;> first | exact h.send hcall hphase hok | exact h
  | create caller memory =>
    refine hcallStep caller fun call hcall => ?_
    cases hphase : call.phase <;> first | exact h.create hcall hphase hok | exact h
  | insert caller memory =>
    refine hcallStep caller fun call hcall => ?_
    cases hphase : call.phase <;> first | exact h.insert hcall hphase memory | exact h
  | wait caller =>
    refine hcallStep caller fun call hcall => ?_
    cases hphase : call.phase with
    | waiting r sem =>
      show SyncInv (if s.posts sem = 0 then s else _)
      -- nothing happens until the semaphore is posted
      split_ifs with hposted
      · exact h
      · exact h.wait hcall hphase hposted
    | _ => exact h
  | timeout caller =>
    refine hcallStep caller fun call hcall => ?_
    cases hphase : call.phase with
    | waiting r sem =>
      show SyncInv (if s.posts sem = 0 then _ else s)
      split_ifs with hposted
      · exact h.timeout hcall hphase hposted
      · exact h
    | _ => exact h
  | finish caller =>
    refine hcallStep caller fun call hcall => ?_
    cases hphase : call.phase with
    | timedOut r sem => exact h.remove hcall hphase
    | woken r sem => exact h.finish hcall hphase
    | _ => exact h
  | otherSend => exact h.setReport _ _
  | reply msgid code =>
    show SyncInv (if msgid ∈ s.sent then _ else s)
    split_ifs
    · exact h.reply hok
    · exact h

end SyncInv

/-- **Synchronous calls.**  In a run in which no reply is handled before the node of its request
is inserted, adding a subdevice to the topology can be sent, and message ids do not come around to
one that is waited for, every call that returns is right and every node is removed once. -/
theorem calls_synchronous (isConnected : Bool) (reportId : ℕ) (ops : List GatewayOp)
    (hops : AllSteps gatewayStep Orderly (gatewayStart isConnected reportId) ops) :
    SyncOk (ops.foldl gatewayStep (gatewayStart isConnected reportId)) :=
  (inv_of_allSteps SyncInv.step ops (SyncInv.start isConnected reportId) hops).toSyncOk

/-- Two threads delete a subdevice each: the second is answered first, and the first is refused. -/
theorem calls_synchronous_delete :
    let ops : List GatewayOp := [.deleteTopo 0 1, .deleteTopo 1 2, .send 0 .written,
      .send 1 .written, .create 1 true, .create 0 true, .insert 0 true, .insert 1 true,
      .reply 2 200, .reply 1 400, .wait 1, .wait 0, .finish 0, .finish 1]
    SyncOk (ops.foldl gatewayStep (gatewayStart true 0)) ∧
      (ops.foldl gatewayStep (gatewayStart true 0)).returned =
        [⟨failReturn, [⟨1, [400], some (-1)⟩], ⟨2, 2, 1, 1⟩⟩,
          ⟨successReturn, [⟨2, [200], some 0⟩], ⟨2, 2, 1, 1⟩⟩] := by
  refine ⟨calls_synchronous true 0 _ ⟨trivial, trivial, ?_, ?_, ?_, ?_, trivial, trivial, ?_, ?_,
    trivial, trivial, trivial, trivial, trivial⟩, by decide +kernel⟩
  -- the ids 1 and 2 are not waited for when they are taken
  · intro call hcall hphase
    cases hcall
    refine ⟨fun _ => by decide, fun _ => ⟨fun hkind => absurd hkind (by decide), ?_⟩⟩
    rintro (_ | _ | c) other r hother hr
    · cases hother
      contradiction
    · cases hother
      contradiction
    · cases hother
  · intro call hcall hphase
    cases hcall
    refine ⟨fun _ => by decide, fun _ => ⟨fun hkind => absurd hkind (by decide), ?_⟩⟩
    rintro (_ | _ | c) other r hother hr
    · cases hother
      cases hr
      decide
    · cases hother
      contradiction
    · cases hother
  · rintro call r hcall hphase ⟨⟩
  · rintro call r hcall hphase ⟨⟩
  -- both nodes are in the list when the replies come
  · rintro (_ | _ | c) call r hcall hr hnode
    · cases hcall
      contradiction
    · cases hcall
      contradiction
    · cases hcall
  · rintro (_ | _ | c) call r hcall hr hnode
    · cases hcall
      contradiction
    · cases hcall
      contradiction
    · cases hcall
/-- The reply to a call comes before its node is inserted, and the call times out; and a
subdevice that has a secret cannot be added to the topology, and the mutex of the interface is
released twice. -/
theorem calls_synchronous_broken :
    ¬ SyncOk (([.deleteTopo 0 1, .send 0 .written, .reply 1 200, .create 0 true, .insert 0 true,
        .timeout 0, .finish 0] : List GatewayOp).foldl gatewayStep (gatewayStart true 0)) ∧
      ¬ SyncOk (([.connect 0 1, .send 0 .hasSecret, .send 0 .refused] : List GatewayOp).foldl
        gatewayStep (gatewayStart true 0)) := by
  constructor
  · intro h
    have hread := (h.returned ⟨failReturn, [⟨1, [200], none⟩], ⟨2, 2, 1, 1⟩⟩
      (by decide +kernel)).credited ⟨1, [200], none⟩ (by decide)
    exact absurd hread (by decide)
  · intro h
    have hapi := (h.returned ⟨failReturn, [], ⟨0, 0, 1, 2⟩⟩ (by decide +kernel)).api
    exact absurd hapi (by decide)

end Iotkit.LinkkitSync
