/-
# Acknowledgements of published messages (`iotx_cm_coap.c`)

`_coap_publish` reads the next token, sends its message, and then links a node with the token it
read, by which `_coap_response_default` finds the callback of a response.  The three are steps of
their own.  The handler walks through the list of nodes under a lock, which it drops while it
calls a callback.  Publishes are numbered by `serial`.
-/
import Iotkit.GuardedRun
import Iotkit.LibC

namespace Iotkit.CmCoap

open GuardedRun List Function

/-! ## The connection and its parties -/

/-- A `coap_response_node_t`. -/
structure CoapResponseNode where
  serial : ℕ
  tokenNum : UInt32
  topic : Bytes
  responceCb : ℕ
  context : ℕ
  deriving DecidableEq

/-- The arguments of a publish: the topic, and the callback and context of `ext`. -/
structure PublishExt where
  topic : Bytes
  ackCb : Option ℕ
  cbContext : ℕ
  deriving DecidableEq

/-- Where a thread stands in `_coap_publish`. -/
inductive PublishCall where
  | idle
  | hasToken (serial : ℕ) (token : UInt32) (ext : PublishExt)
  | sent (node : CoapResponseNode)

/-- A message that the network took, with its token. -/
structure SentMessage where
  serial : ℕ
  token : UInt32
  ext : PublishExt
  deriving DecidableEq

/-- A call of a callback for a response. -/
structure AckCall where
  token : UInt32
  serial : ℕ
  responceCb : ℕ
  topic : Bytes
  context : ℕ
  payload : Bytes
  deriving DecidableEq

/-- Where the receiving thread stands in `_coap_response_default`; `next` is the node after the
one whose callback is being called. -/
inductive Receiver where
  | idle
  | arrived (token : UInt32) (payload : Bytes)
  | calling (token : UInt32) (payload : Bytes) (next : Option ℕ)

/-- The open connection, and what was sent and called.  `failed` are the publishes that had no
memory for a node, and `lost` those whose response was handled and did not get to them. -/
structure CoapConnection where
  coapToken : UInt32
  responseList : List CoapResponseNode
  calls : ℕ → PublishCall
  recv : Receiver
  serials : ℕ
  sent : List SentMessage
  invoked : List AckCall
  failed : List ℕ
  lost : List ℕ

def iotxCoapInitToken : UInt32 := 0x01020304

/-- The connection after `IOT_CoAP_Init`. -/
def coapConnectionStart : CoapConnection :=
  ⟨iotxCoapInitToken, [], fun _ => .idle, .idle, 0, [], [], [], []⟩

variable (s : CoapConnection)

def CoapConnection.setCall (caller : ℕ) (call : PublishCall) :
    CoapConnection :=
  { s with calls := update s.calls caller call }

/-! ## Publishing -/

/-- What `IOT_CoAP_SendMessage` does: it refuses the message, or it fails after it took the
token, or the network does not take the message, which is no failure, or takes it. -/
inductive SendOutcome where
  | refused
  | failed
  | notWritten
  | written
  deriving DecidableEq

/-- The node of a publish with a callback. -/
def PublishExt.node (ext : PublishExt) (serial : ℕ) (token : UInt32) : Option CoapResponseNode :=
  ext.ackCb.map fun ackCb => ⟨serial, token, ext.topic, ackCb, ext.cbContext⟩

/-- The step of `_coap_publish` that sends the message. -/
def sendMessage (caller serial : ℕ) (token : UInt32) (ext : PublishExt) (outcome : SendOutcome) :
    CoapConnection :=
  let next : PublishCall :=
    match ext.node serial token with
    | none => .idle
    | some node => .sent node
  match outcome with
  | .refused => s.setCall caller .idle
  | .failed => { s.setCall caller .idle with coapToken := s.coapToken + 1 }
  | .notWritten => { s.setCall caller next with coapToken := s.coapToken + 1 }
  | .written =>
    { s.setCall caller next with
      coapToken := s.coapToken + 1
      sent := s.sent ++ [⟨serial, s.coapToken, ext⟩] }

/-- The step of `_coap_publish` that links the node. -/
def linkNode (caller : ℕ) (node : CoapResponseNode) (memory : Bool) :
    CoapConnection :=
  if memory then
    { s.setCall caller .idle with responseList := s.responseList ++ [node] }
  else { s.setCall caller .idle with failed := s.failed ++ [node.serial] }

/-! ## Responses -/

/-- The handler looks at nodes in their order until it finds one with the token for whose topic
it has memory, takes it from the list and calls its callback. -/
def searchNodes (token : UInt32) (payload : Bytes) (nodes : List CoapResponseNode)
    (memory : ℕ → Bool) : CoapConnection :=
  match nodes.dropWhile fun node => !(node.tokenNum = token && memory node.serial) with
  | [] => { s with recv := .idle }
  | node :: after =>
    { s with
      responseList := s.responseList.erase node
      recv := .calling token payload (after.head?.map (·.serial))
      invoked := s.invoked ++
        [⟨token, node.serial, node.responceCb, node.topic, node.context, payload⟩] }

/-- The nodes that are left to look at after a callback. -/
def nodesFrom (next : Option ℕ) (nodes : List CoapResponseNode) : List CoapResponseNode :=
  match next with
  | none => []
  | some serial => nodes.dropWhile (·.serial ≠ serial)

/-- The publishes whose message had the token and whose callback was not called, other than for
want of memory. -/
def missed (token : UInt32) (memory : ℕ → Bool) : List ℕ :=
  (s.sent.filter fun m =>
    m.token = token ∧ m.ext.ackCb.isSome ∧ m.serial ∉ s.failed ∧ memory m.serial = true ∧
      m.serial ∉ s.invoked.map (·.serial)).map (·.serial)

/-- The steps of the threads, and the other sends that take a token.  A response comes for a
message that was sent. -/
inductive CoapOp where
  | publish (caller : ℕ) (ext : PublishExt)
  | send (caller : ℕ) (outcome : SendOutcome)
  | link (caller : ℕ) (memory : Bool)
  | otherSend
  | deliver (token : UInt32) (payload : Bytes)
  | search (memory : ℕ → Bool)
  | resume (memory : ℕ → Bool)

/-- One step.  A step that is not the next one of its thread does nothing. -/
def coapStep : CoapOp → CoapConnection
  | .publish caller ext =>
    match s.calls caller with
    | .idle =>
      { s.setCall caller (.hasToken s.serials s.coapToken ext) with serials := s.serials + 1 }
    | _ => s
  | .send caller outcome =>
    match s.calls caller with
    | .hasToken serial token ext => sendMessage s caller serial token ext outcome
    | _ => s
  | .link caller memory =>
    match s.calls caller with
    | .sent node => linkNode s caller node memory
    | _ => s
  | .otherSend => { s with coapToken := s.coapToken + 1 }
  | .deliver token payload =>
    match s.recv with
    | .idle => if s.sent.any (·.token = token) then { s with recv := .arrived token payload } else s
    | _ => s
  | .search memory =>
    match s.recv with
    | .arrived token payload =>
      let s := searchNodes s token payload s.responseList memory
      { s with lost := s.lost ++ missed s token memory }
    | _ => s
  | .resume memory =>
    match s.recv with
    | .calling token payload next =>
      searchNodes s token payload (nodesFrom next s.responseList) memory
    | _ => s

/-! ## Responses get to their publishes -/

/-- A publish waits for the response with the token of its node. -/
def Waiting (node : CoapResponseNode) : Prop :=
  node ∈ s.responseList ∨ ∃ caller, s.calls caller = .sent node

/-- Every callback is called for a response with the token of the message of its publish, once
at most and with the topic and the context of the publish; no response is lost; and no two
publishes wait for the same token. -/
structure Acknowledged (s : CoapConnection) : Prop where
  credited : ∀ call ∈ s.invoked, ∃ m ∈ s.sent, m.serial = call.serial ∧ m.token = call.token ∧
    m.ext = ⟨call.topic, some call.responceCb, call.context⟩
  once : (s.invoked.map (·.serial)).Nodup
  found : s.lost = []
  distinct : ∀ node node', Waiting s node → Waiting s node' → node.tokenNum = node'.tokenNum →
    node = node'

/-- A publish with a callback sends before anything else takes the token it read; the token that
its message or one that the network takes has is not one that a publish waits for, nor, when the
network does not take it, that of a message that was sent; and the handler does not look for the
node of a publish before it is linked. -/
def Orderly : CoapOp → Prop
  | .send caller outcome =>
    ∀ serial token ext, s.calls caller = .hasToken serial token ext →
      outcome = .notWritten ∨ outcome = .written →
        (ext.ackCb.isSome → token = s.coapToken) ∧
          (ext.ackCb.isSome ∨ outcome = .written →
            ∀ node, Waiting s node → node.tokenNum ≠ s.coapToken) ∧
          (ext.ackCb.isSome → outcome = .notWritten → ∀ m ∈ s.sent, m.token ≠ s.coapToken)
  | .search _ =>
    ∀ token payload, s.recv = .arrived token payload →
      ∀ caller node, s.calls caller = .sent node → node.tokenNum ≠ token
  | _ => True

/-! ## The invariant -/

/-- The message of the publish was sent with the token of its node, or none was sent with that
token. -/
def Credit (node : CoapResponseNode) : Prop :=
  (∃ m ∈ s.sent, m.serial = node.serial ∧ m.token = node.tokenNum ∧
    m.ext = ⟨node.topic, some node.responceCb, node.context⟩) ∨
  ∀ m ∈ s.sent, m.token ≠ node.tokenNum

/-- Where the publishes stand: no two that wait have the same number, and neither has one that
has only read its token or whose callback was called; and what was sent with a callback has
failed, was answered or waits. -/
structure AckInv (s : CoapConnection) : Prop extends Acknowledged s where
  serial_inj : ∀ node node', Waiting s node → Waiting s node' → node.serial = node'.serial →
    node = node'
  nodup : s.responseList.Nodup
  unlinked : ∀ caller node, s.calls caller = .sent node → node ∉ s.responseList ∧
    ∀ caller', s.calls caller' = .sent node → caller' = caller
  reading : ∀ caller serial token ext, s.calls caller = .hasToken serial token ext →
    serial < s.serials ∧ (∀ node, Waiting s node → node.serial ≠ serial) ∧
      (∀ call ∈ s.invoked, call.serial ≠ serial) ∧
      ∀ caller' token' ext', s.calls caller' = .hasToken serial token' ext' → caller' = caller
  waits : ∀ node, Waiting s node → node.serial < s.serials ∧ Credit s node ∧
    ∀ call ∈ s.invoked, call.serial ≠ node.serial
  called : ∀ call ∈ s.invoked, call.serial < s.serials
  answered : ∀ m ∈ s.sent, m.ext.ackCb.isSome → m.serial ∈ s.failed ∨
    (∃ call ∈ s.invoked, call.serial = m.serial) ∨
    ∃ node, Waiting s node ∧ node.serial = m.serial ∧ node.tokenNum = m.token
  responded : ∀ token payload next, s.recv = .arrived token payload ∨
    s.recv = .calling token payload next → ∃ m ∈ s.sent, m.token = token

theorem found_of_dropWhile {nodes after : List CoapResponseNode} {node : CoapResponseNode}
    {pred : CoapResponseNode → Bool}
    (h : nodes.dropWhile (fun other => !pred other) = node :: after) :
    node ∈ nodes ∧ pred node = true := by
  constructor
  · apply (dropWhile_sublist fun other => !pred other).subset
    rw [h]
    exact mem_cons_self
  · have hne : nodes.dropWhile (fun other => !pred other) ≠ [] := by simp [h]
    have hhead := head_dropWhile_not (fun other => !pred other) hne
    simpa [h] using hhead

namespace AckInv

variable {s s' : CoapConnection}

theorem start : AckInv coapConnectionStart where
  credited := by simp [coapConnectionStart]
  once := nodup_nil
  found := rfl
  distinct := by simp [Waiting, coapConnectionStart]
  serial_inj := by simp [Waiting, coapConnectionStart]
  nodup := nodup_nil
  unlinked := by simp [coapConnectionStart]
  reading := by simp [coapConnectionStart]
  waits := by simp [Waiting, coapConnectionStart]
  called := by simp [coapConnectionStart]
  answered := by simp [coapConnectionStart]
  responded := by simp [coapConnectionStart]

/-- A step that neither sends, links nor calls keeps the invariant; a caller may read the token
for a new publish. -/
theorem frame (h : AckInv s) (caller : ℕ) (hlist : s'.responseList = s.responseList)
    (hsent : s'.sent = s.sent) (hinvoked : s'.invoked = s.invoked) (hfailed : s'.failed = s.failed)
    (hlost : s'.lost = s.lost) (hserials : s.serials ≤ s'.serials)
    (hunlinked : ∀ c node, s'.calls c = .sent node ↔ s.calls c = .sent node)
    (hreading : ∀ c serial token ext, s'.calls c = .hasToken serial token ext →
      s.calls c = .hasToken serial token ext ∨
        (c = caller ∧ serial = s.serials ∧ s.serials < s'.serials))
    (hrecv : ∀ token payload next, s'.recv = .arrived token payload ∨
      s'.recv = .calling token payload next → ∃ m ∈ s.sent, m.token = token) : AckInv s' := by
  have hwaiting : ∀ node, Waiting s' node ↔ Waiting s node := by
    intro node
    unfold Waiting
    rw [hlist]
    exact or_congr_right (exists_congr fun c => hunlinked c node)
  have hcredit : ∀ node, Credit s' node ↔ Credit s node := by
    intro node
    unfold Credit
    rw [hsent]
  refine ⟨⟨?_, ?_, ?_, ?_⟩, ?_, ?_, ?_, ?_, ?_, ?_, ?_, ?_⟩
  · rw [hsent, hinvoked]
    exact h.credited
  · rw [hinvoked]
    exact h.once
  · rw [hlost]
    exact h.found
  · simp only [hwaiting]
    exact h.distinct
  · simp only [hwaiting]
    exact h.serial_inj
  · rw [hlist]
    exact h.nodup
  · simp only [hunlinked, hlist]
    exact h.unlinked
  · intro c serial token ext hc
    simp only [hwaiting, hinvoked]
    rcases hreading c serial token ext hc with hold | ⟨rfl, rfl, hlt⟩
    · obtain ⟨hlt, hwait, hcall, hother⟩ := h.reading c serial token ext hold
      refine ⟨hlt.trans_le hserials, hwait, hcall, fun c' token' ext' hc' => ?_⟩
      rcases hreading c' serial token' ext' hc' with hold' | ⟨-, hsame, -⟩
      · exact hother c' token' ext' hold'
      · exact absurd hsame hlt.ne
    -- the number of the new publish is above all others
    · refine ⟨hlt, fun node hnode => (h.waits node hnode).1.ne, fun call hcall =>
        (h.called call hcall).ne, fun c' token' ext' hc' => ?_⟩
      rcases hreading c' _ token' ext' hc' with hold' | ⟨hsame, -⟩
      · exact absurd (h.reading c' _ token' ext' hold').1 (lt_irrefl _)
      · exact hsame
  · intro node hnode
    rw [hwaiting] at hnode
    rw [hcredit, hinvoked]
    obtain ⟨hlt, hrest⟩ := h.waits node hnode
    exact ⟨hlt.trans_le hserials, hrest⟩
  · rw [hinvoked]
    exact fun call hcall => (h.called call hcall).trans_le hserials
  · rw [hsent, hinvoked, hfailed]
    simp only [hwaiting]
    exact h.answered
  · rw [hsent]
    exact hrecv

theorem publish (h : AckInv s) (caller : ℕ) (ext : PublishExt) (hidle : s.calls caller = .idle) :
    AckInv { s.setCall caller (.hasToken s.serials s.coapToken ext) with
      serials := s.serials + 1 } := by
  refine h.frame caller rfl rfl rfl rfl rfl (Nat.le_succ _) (fun c node => ?_)
    (fun c serial token ext' hc => ?_) h.responded
  · by_cases hcaller : c = caller
    · subst hcaller
      simp [CoapConnection.setCall, hidle]
    · simp [CoapConnection.setCall, hcaller]
  · by_cases hcaller : c = caller
    · subst hcaller
      simp only [CoapConnection.setCall, update_self] at hc
      obtain ⟨rfl, -, -⟩ := PublishCall.hasToken.inj hc
      exact .inr ⟨rfl, rfl, Nat.lt_succ_self _⟩
    · simp only [CoapConnection.setCall, update_of_ne hcaller] at hc
      exact .inl hc

variable {caller serial : ℕ} {token : UInt32} {ext : PublishExt}

theorem giveUp (h : AckInv s) (hcall : s.calls caller = .hasToken serial token ext) :
    AckInv (s.setCall caller .idle) := by
  refine h.frame caller rfl rfl rfl rfl rfl le_rfl (fun c node => ?_)
    (fun c serial' token' ext' hc => ?_) h.responded
  · by_cases hcaller : c = caller
    · subst hcaller
      simp [CoapConnection.setCall, hcall]
    · simp [CoapConnection.setCall, hcaller]
  · by_cases hcaller : c = caller
    · subst hcaller
      simp [CoapConnection.setCall] at hc
    · simp only [CoapConnection.setCall, update_of_ne hcaller] at hc
      exact .inl hc

theorem setToken (h : AckInv s) (token : UInt32) : AckInv { s with coapToken := token } :=
  h.frame 0 rfl rfl rfl rfl rfl le_rfl (fun _ _ => Iff.rfl) (fun _ _ _ _ hc => .inl hc) h.responded

variable {node : CoapResponseNode}

theorem credit_append {m : SentMessage} (h : Credit s node) (hne : node.tokenNum ≠ m.token)
    {s' : CoapConnection} (hsent : s'.sent = s.sent ++ [m]) : Credit s' node := by
  unfold Credit
  rw [hsent]
  rcases h with ⟨sent, hmem, hown⟩ | hnone
  · exact .inl ⟨sent, mem_append_left _ hmem, hown⟩
  · exact .inr (forall_mem_append.mpr ⟨hnone, forall_mem_singleton.mpr hne.symm⟩)

theorem sendPlain (h : AckInv s) {m : SentMessage} (hplain : m.ext.ackCb.isSome = false)
    (hfree : ∀ node, Waiting s node → node.tokenNum ≠ m.token) :
    AckInv { s with sent := s.sent ++ [m] } where
  credited := by
    intro call hcall
    obtain ⟨sent, hsent, hown⟩ := h.credited call hcall
    exact ⟨sent, mem_append_left _ hsent, hown⟩
  once := h.once
  found := h.found
  distinct := h.distinct
  serial_inj := h.serial_inj
  nodup := h.nodup
  unlinked := h.unlinked
  reading := h.reading
  waits := by
    intro node hnode
    obtain ⟨hlt, hcredit, hcall⟩ := h.waits node hnode
    exact ⟨hlt, credit_append hcredit (hfree node hnode) rfl, hcall⟩
  called := h.called
  answered := by
    intro sent hsent hcb
    rcases mem_append.mp hsent with hold | hlast
    · exact h.answered sent hold hcb
    · rw [mem_singleton.mp hlast, hplain] at hcb
      contradiction
  responded := by
    intro token payload next hrecv
    obtain ⟨sent, hsent, htoken⟩ := h.responded token payload next hrecv
    exact ⟨sent, mem_append_left _ hsent, htoken⟩

/-- A publish with a callback has sent its message with the token it read and waits from then
on.  When the network does not take the message, none with its token was sent. -/
theorem sendNode (h : AckInv s) {caller serial cb : ℕ} {token : UInt32} {ext : PublishExt}
    (hcall : s.calls caller = .hasToken serial token ext) (hcb : ext.ackCb = some cb)
    (hfree : ∀ node, Waiting s node → node.tokenNum ≠ token) {sent : List SentMessage}
    (hsent : (sent = s.sent ∧ ∀ m ∈ s.sent, m.token ≠ token) ∨
      sent = s.sent ++ [⟨serial, token, ext⟩]) :
    AckInv { s.setCall caller (.sent ⟨serial, token, ext.topic, cb, ext.cbContext⟩) with
      sent := sent } := by
  obtain ⟨hlt, hnot, hnotCalled, hother⟩ := h.reading caller serial token ext hcall
  set new : CoapResponseNode := ⟨serial, token, ext.topic, cb, ext.cbContext⟩ with hnew
  set s' : CoapConnection := { s.setCall caller (.sent new) with sent := sent } with hs'
  have hcallsNe : ∀ c, c ≠ caller → s'.calls c = s.calls c := fun c hc => update_of_ne hc ..
  have hcallsSelf : s'.calls caller = .sent new := update_self ..
  -- one node more is waiting, and it is not in the list yet
  have hwaiting : ∀ node, Waiting s' node ↔ Waiting s node ∨ node = new := by
    intro node
    constructor
    · rintro (hlist | ⟨c, hc⟩)
      · exact .inl (.inl hlist)
      · by_cases hcaller : c = caller
        · rw [hcaller, hcallsSelf] at hc
          exact .inr (PublishCall.sent.inj hc).symm
        · rw [hcallsNe c hcaller] at hc
          exact .inl (.inr ⟨c, hc⟩)
    · rintro ((hlist | ⟨c, hc⟩) | rfl)
      · exact .inl hlist
      · refine .inr ⟨c, ?_⟩
        rw [hcallsNe c, hc]
        rintro rfl
        rw [hcall] at hc
        contradiction
      · exact .inr ⟨caller, hcallsSelf⟩
  have hsub : ∀ m ∈ s.sent, m ∈ sent := by
    rcases hsent with ⟨rfl, -⟩ | rfl
    · exact fun _ hm => hm
    · exact fun _ hm => mem_append_left _ hm
  refine ⟨⟨fun call hmem => ?_, h.once, h.found, ?_⟩, ?_, h.nodup, ?_, ?_, ?_, h.called, ?_, ?_⟩
  · obtain ⟨m, hm, hown⟩ := h.credited call hmem
    exact ⟨m, hsub m hm, hown⟩
  · intro node node' hnode hnode' htoken
    -- the token is that of no node that was waiting
    rcases (hwaiting node).mp hnode with hold | rfl <;>
      rcases (hwaiting node').mp hnode' with hold' | rfl
    · exact h.distinct node node' hold hold' htoken
    · exact absurd htoken (hfree node hold)
    · exact absurd htoken.symm (hfree node' hold')
    · rfl
  · intro node node' hnode hnode' hserial
    -- nor is the serial number
    rcases (hwaiting node).mp hnode with hold | rfl <;>
      rcases (hwaiting node').mp hnode' with hold' | rfl
    · exact h.serial_inj node node' hold hold' hserial
    · exact absurd hserial (hnot node hold)
    · exact absurd hserial.symm (hnot node' hold')
    · rfl
  · intro c node hc
    -- the nodes that are not linked yet
    by_cases hcaller : c = caller
    · rw [hcaller, hcallsSelf] at hc
      obtain rfl := PublishCall.sent.inj hc
      refine ⟨fun hlist => hnot _ (.inl hlist) rfl, fun c' hc' => ?_⟩
      rw [hcaller]
      by_contra hne
      rw [hcallsNe c' hne] at hc'
      exact hnot _ (.inr ⟨c', hc'⟩) rfl
    rw [hcallsNe c hcaller] at hc
    obtain ⟨hlist, hown⟩ := h.unlinked c node hc
    refine ⟨hlist, fun c' hc' => ?_⟩
    by_cases hcaller' : c' = caller
    · rw [hcaller', hcallsSelf] at hc'
      obtain rfl := PublishCall.sent.inj hc'
      exact absurd rfl (hnot _ (.inr ⟨c, hc⟩))
    · rw [hcallsNe c' hcaller'] at hc'
      exact hown c' hc'
  · intro c serial' token' ext' hc
    -- the calls that have a token and no node
    have hcaller : c ≠ caller := by
      rintro rfl
      rw [hcallsSelf] at hc
      contradiction
    rw [hcallsNe c hcaller] at hc
    obtain ⟨hlt', hnot', hcalled', hown⟩ := h.reading c serial' token' ext' hc
    refine ⟨hlt', fun node hnode => ?_, hcalled', fun c' token'' ext'' hc' => ?_⟩
    · rcases (hwaiting node).mp hnode with hold | rfl
      · exact hnot' node hold
      · rintro rfl
        exact hcaller (hother c token' ext' hc)
    · have hcaller' : c' ≠ caller := by
        rintro rfl
        rw [hcallsSelf] at hc'
        contradiction
      rw [hcallsNe c' hcaller'] at hc'
      exact hown c' token'' ext'' hc'
  · intro node hnode
    rcases (hwaiting node).mp hnode with hold | rfl
    · obtain ⟨hlt', hcredit, hcalled'⟩ := h.waits node hold
      refine ⟨hlt', ?_, hcalled'⟩
      rcases hsent with ⟨rfl, -⟩ | rfl
      · exact hcredit
      · exact credit_append hcredit (hfree node hold) rfl
    · refine ⟨hlt, ?_, hnotCalled⟩
      rcases hsent with ⟨rfl, hnone⟩ | rfl
      · exact .inr hnone
      · refine Or.inl ⟨⟨serial, token, ext⟩, by simp [hs'], rfl, rfl, ?_⟩
        rw [hnew, ← hcb]
  · intro m hm hsome
    -- every message that wants an answer has its node, or has been dealt with
    have hold : m ∈ s.sent → _ := fun hm => h.answered m hm hsome
    have hkeep : (m.serial ∈ s.failed ∨ (∃ call ∈ s.invoked, call.serial = m.serial) ∨
        ∃ node, Waiting s node ∧ node.serial = m.serial ∧ node.tokenNum = m.token) →
        m.serial ∈ s.failed ∨ (∃ call ∈ s.invoked, call.serial = m.serial) ∨
        ∃ node, Waiting s' node ∧ node.serial = m.serial ∧ node.tokenNum = m.token :=
      .imp_right (.imp_right fun ⟨node, hnode, hown⟩ => ⟨node, (hwaiting node).mpr (.inl hnode), hown⟩)
    rcases hsent with ⟨rfl, -⟩ | rfl
    · exact hkeep (hold hm)
    · rcases mem_append.mp hm with hm' | hlast
      · exact hkeep (hold hm')
      · rw [mem_singleton.mp hlast]
        exact .inr (.inr ⟨new, (hwaiting new).mpr (.inr rfl), rfl, rfl⟩)
  · intro token' payload next hrecv
    obtain ⟨m, hm, htoken⟩ := h.responded token' payload next hrecv
    exact ⟨m, hsub m hm, htoken⟩

/-- A caller that is idle afterwards had none of the calls that remain. -/
theorem calls_of_ended {s' : CoapConnection} (h : s'.calls = update s.calls caller .idle)
    (c : ℕ) (call : PublishCall) (hc : s'.calls c = call) (hne : call ≠ .idle) :
    c ≠ caller ∧ s.calls c = call := by
  rw [h] at hc
  have hcaller : c ≠ caller := by
    rintro rfl
    exact hne (hc.symm.trans (update_self ..))
  exact ⟨hcaller, (update_of_ne hcaller ..).symm.trans hc⟩

theorem link (h : AckInv s) (hcall : s.calls caller = .sent node) :
    AckInv (linkNode s caller node true) := by
  obtain ⟨hunlinked, hown⟩ := h.unlinked caller node hcall
  set s' := linkNode s caller node true with hs'
  have hlist : s'.responseList = s.responseList ++ [node] := rfl
  have hcallsNe : ∀ c, c ≠ caller → s'.calls c = s.calls c := fun c hc => update_of_ne hc ..
  have hcalls := calls_of_ended (show s'.calls = _ from rfl)
  -- the node waits before and after
  have hwaiting : ∀ other, Waiting s' other ↔ Waiting s other := by
    intro other
    constructor
    · rintro (hmem | ⟨c, hc⟩)
      · rw [hlist] at hmem
        rcases mem_append.mp hmem with hold | hlast
        · exact .inl hold
        · rw [mem_singleton.mp hlast]
          exact .inr ⟨caller, hcall⟩
      · exact Or.inr ⟨c, (hcalls c _ hc (by simp)).2⟩
    · rintro (hmem | ⟨c, hc⟩)
      · exact .inl (mem_append_left _ hmem)
      · by_cases hcaller : c = caller
        · rw [hcaller, hcall] at hc
          obtain rfl := PublishCall.sent.inj hc
          exact .inl (mem_append_right _ (mem_singleton_self _))
        · exact .inr ⟨c, (hcallsNe c hcaller).trans hc⟩
  refine ⟨⟨h.credited, h.once, h.found, ?_⟩, ?_, ?_, ?_, ?_, ?_, h.called, ?_, h.responded⟩
  · simp only [hwaiting]
    exact h.distinct
  · simp only [hwaiting]
    exact h.serial_inj
  · rw [hlist]
    exact nodup_append.mpr ⟨h.nodup, nodup_singleton _, fun a ha b hb hab =>
      hunlinked (by rwa [← mem_singleton.mp hb, ← hab])⟩
  · intro c other hc
    obtain ⟨hcaller, hold⟩ := hcalls c _ hc (by simp)
    obtain ⟨hnot, hother⟩ := h.unlinked c other hold
    refine ⟨fun hmem => ?_, fun c' hc' => hother c' (hcalls c' _ hc' (by simp)).2⟩
    rw [hlist] at hmem
    rcases mem_append.mp hmem with hmem' | hlast
    · exact hnot hmem'
    · rw [mem_singleton.mp hlast] at hold
      exact hcaller (hown c hold)
  · intro c serial token ext hc
    obtain ⟨-, hold⟩ := hcalls c _ hc (by simp)
    obtain ⟨hlt, hnot, hcalled, hother⟩ := h.reading c serial token ext hold
    exact ⟨hlt, fun other hother' => hnot other ((hwaiting other).mp hother'), hcalled,
      fun c' token' ext' hc' => hother c' token' ext' (hcalls c' _ hc' (by simp)).2⟩
  · exact fun other hother => h.waits other ((hwaiting other).mp hother)
  · intro m hm hsome
    simp only [hwaiting]
    exact h.answered m hm hsome

/-- A publish stops waiting: it has failed, or its callback is called. -/
theorem leave (h : AckInv s) (s' : CoapConnection) (node : CoapResponseNode) (calls : List AckCall)
    (hleft : ∀ other, Waiting s' other → Waiting s other ∧ other ≠ node)
    (hkept : ∀ other, Waiting s other → other ≠ node → Waiting s' other)
    (hnodup : s'.responseList.Nodup) (hlist : ∀ other ∈ s'.responseList, other ∈ s.responseList)
    (hcalls : ∀ c call, s'.calls c = call → call ≠ .idle → s.calls c = call)
    (hsent : s'.sent = s.sent) (hserials : s'.serials = s.serials) (hlost : s'.lost = [])
    (hfailed : ∀ serial ∈ s.failed, serial ∈ s'.failed)
    (hinvoked : s'.invoked = s.invoked ++ calls) (hwait : Waiting s node)
    (hcredited : ∀ call ∈ calls, call.serial = node.serial ∧ ∃ m ∈ s.sent,
      m.serial = call.serial ∧ m.token = call.token ∧
        m.ext = ⟨call.topic, some call.responceCb, call.context⟩) (hone : calls.length ≤ 1)
    (hgone : node.serial ∈ s'.failed ∨ ∃ call ∈ s'.invoked, call.serial = node.serial)
    (hrecv : ∀ token payload next, s'.recv = .arrived token payload ∨
      s'.recv = .calling token payload next → ∃ m ∈ s.sent, m.token = token) : AckInv s' := by
  obtain ⟨hnodeLt, hnodeCredit, hnodeCalled⟩ := h.waits node hwait
  -- at most one handler is called
  have hcallsNodup : (calls.map (·.serial)).Nodup := by
    match calls, hone with
    | [], _ => exact nodup_nil
    | [call], _ => exact nodup_singleton _
  refine ⟨⟨?_, ?_, hlost, ?_⟩, ?_, hnodup, ?_, ?_, ?_, ?_, ?_, by rw [hsent]; exact hrecv⟩
  · rw [hinvoked, hsent]
    exact forall_mem_append.mpr ⟨h.credited, fun call hnew => (hcredited call hnew).2⟩
  · rw [hinvoked, map_append]
    refine nodup_append.mpr ⟨h.once, hcallsNodup, ?_⟩
    rintro _ hold _ hnew rfl
    -- the node that leaves was waiting, so its handler has not been called before
    obtain ⟨call, hcall, hserial⟩ := mem_map.mp hold
    obtain ⟨call', hcall', hserial'⟩ := mem_map.mp hnew
    exact hnodeCalled call hcall (hserial.trans (hserial'.symm.trans (hcredited call' hcall').1))
  · exact fun other other' hother hother' => h.distinct other other' (hleft other hother).1
      (hleft other' hother').1
  · exact fun other other' hother hother' => h.serial_inj other other' (hleft other hother).1
      (hleft other' hother').1
  · intro c other hc
    obtain ⟨hnot, hown⟩ := h.unlinked c other (hcalls c _ hc (by simp))
    exact ⟨fun hmem => hnot (hlist other hmem),
      fun c' hc' => hown c' (hcalls c' _ hc' (by simp))⟩
  · intro c serial token ext hc
    obtain ⟨hlt, hnot, hcalled, hown⟩ := h.reading c serial token ext (hcalls c _ hc (by simp))
    refine ⟨hserials ▸ hlt, fun other hother => hnot other (hleft other hother).1, ?_,
      fun c' token' ext' hc' => hown c' token' ext' (hcalls c' _ hc' (by simp))⟩
    rw [hinvoked]
    refine forall_mem_append.mpr ⟨hcalled, fun call hnew => ?_⟩
    rw [(hcredited call hnew).1]
    exact hnot node hwait
  · intro other hother
    obtain ⟨hold, hne⟩ := hleft other hother
    obtain ⟨hlt, hcredit, hcalled⟩ := h.waits other hold
    refine ⟨hserials ▸ hlt, ?_, ?_⟩
    · unfold Credit
      rw [hsent]
      exact hcredit
    · rw [hinvoked]
      refine forall_mem_append.mpr ⟨hcalled, fun call hnew => ?_⟩
      rw [(hcredited call hnew).1]
      exact fun hsame => hne (h.serial_inj other node hold hwait hsame.symm)
  · rw [hinvoked, hserials]
    refine forall_mem_append.mpr ⟨h.called, fun call hnew => ?_⟩
    rw [(hcredited call hnew).1]
    exact hnodeLt
  · rw [hsent]
    intro m hm hsome
    -- a message is answered as before, or by what the node left behind
    rcases h.answered m hm hsome with hfail | ⟨call, hcall, hserial⟩ | ⟨other, hother, hserial, htoken⟩
    · exact .inl (hfailed _ hfail)
    · refine .inr (.inl ⟨call, ?_, hserial⟩)
      rw [hinvoked]
      exact mem_append_left _ hcall
    · by_cases hne : other = node
      · subst hne
        rw [← hserial]
        exact hgone.imp_right .inl
      · exact .inr (.inr ⟨other, hkept other hother hne, hserial, htoken⟩)

theorem linkFails (h : AckInv s) (hcall : s.calls caller = .sent node) :
    AckInv (linkNode s caller node false) := by
  obtain ⟨hunlinked, hown⟩ := h.unlinked caller node hcall
  set s' := linkNode s caller node false with hs'
  have hcallsNe : ∀ c, c ≠ caller → s'.calls c = s.calls c := fun c hc => update_of_ne hc ..
  have hcalls := calls_of_ended (show s'.calls = _ from rfl)
  refine h.leave s' node [] ?_ ?_ h.nodup (fun _ hmem => hmem)
    (fun c call hc hne => (hcalls c call hc hne).2) rfl rfl h.found
    (fun serial hmem => mem_append_left _ hmem) (append_nil _).symm
    (Or.inr ⟨caller, hcall⟩) (by simp) (Nat.zero_le _)
    (.inl (mem_append_right _ (mem_singleton_self _))) h.responded
  · rintro other (hmem | ⟨c, hc⟩)
    · refine ⟨.inl hmem, ?_⟩
      rintro rfl
      exact hunlinked hmem
    · obtain ⟨hcaller, hold⟩ := hcalls c _ hc (by simp)
      refine ⟨.inr ⟨c, hold⟩, ?_⟩
      rintro rfl
      exact hcaller (hown c hold)
  · rintro other (hmem | ⟨c, hc⟩) hne
    · exact .inl hmem
    · refine .inr ⟨c, ?_⟩
      rw [hcallsNe c, hc]
      rintro rfl
      rw [hcall] at hc
      exact hne (PublishCall.sent.inj hc).symm

/-- The handler ends, or calls the callback of a node. -/
theorem searchNodes (h : AckInv s) {payload : Bytes} {nodes : List CoapResponseNode}
    (memory : ℕ → Bool) (hsub : ∀ node ∈ nodes, node ∈ s.responseList)
    (hresponse : ∃ m ∈ s.sent, m.token = token) :
    AckInv (searchNodes s token payload nodes memory) := by
  unfold CmCoap.searchNodes
  split
  · exact h.frame 0 rfl rfl rfl rfl rfl le_rfl (fun _ _ => Iff.rfl) (fun _ _ _ _ hc => .inl hc)
      (by simp)
  next node after hfound =>
    obtain ⟨hnode, hpred⟩ := found_of_dropWhile hfound
    have hmem := hsub node hnode
    have htoken : node.tokenNum = token := by
      rw [Bool.and_eq_true, decide_eq_true_eq] at hpred
      exact hpred.1
    refine h.leave _ node [⟨token, node.serial, node.responceCb, node.topic, node.context, payload⟩]
      ?_ ?_ (h.nodup.erase _)
      (fun other hother => mem_of_mem_erase hother) (fun _ _ hc _ => hc) rfl rfl h.found
      (fun _ hfail => hfail) rfl (.inl hmem) ?_ le_rfl
      (.inr ⟨_, mem_append_right _ (mem_singleton_self _), rfl⟩) ?_
    · rintro other (hother | ⟨c, hc⟩)
      · obtain ⟨hne, hold⟩ := (h.nodup.mem_erase_iff).mp hother
        exact ⟨.inl hold, hne⟩
      · refine ⟨.inr ⟨c, hc⟩, ?_⟩
        rintro rfl
        exact (h.unlinked c _ hc).1 hmem
    · rintro other (hother | ⟨c, hc⟩) hne
      · exact .inl ((h.nodup.mem_erase_iff).mpr ⟨hne, hother⟩)
      · exact .inr ⟨c, hc⟩
    · intro call hcall
      obtain rfl := mem_singleton.mp hcall
      refine ⟨rfl, ?_⟩
      rcases (h.waits node (.inl hmem)).2.1 with ⟨m, hm, hserial, htoken', hext⟩ | hnone
      · exact ⟨m, hm, hserial, htoken'.trans htoken, hext⟩
      · obtain ⟨m, hm, htoken'⟩ := hresponse
        exact absurd (htoken'.trans htoken.symm) (hnone m hm)
    · rintro token' payload' next (hrecv | hrecv)
      · contradiction
      · obtain ⟨rfl, -, -⟩ := Receiver.calling.inj hrecv
        exact hresponse

theorem missed_eq_nil (h : AckInv s) (payload : Bytes) (memory : ℕ → Bool)
    (hlinked : ∀ caller node, s.calls caller = .sent node → node.tokenNum ≠ token) :
    missed (CmCoap.searchNodes s token payload s.responseList memory) token memory = [] := by
  have hsent : (CmCoap.searchNodes s token payload s.responseList memory).sent = s.sent := by
    unfold CmCoap.searchNodes
    split <;> rfl
  have hfailed : (CmCoap.searchNodes s token payload s.responseList memory).failed = s.failed := by
    unfold CmCoap.searchNodes
    split <;> rfl
  unfold missed
  rw [hsent, hfailed, map_eq_nil_iff, filter_eq_nil_iff]
  intro m hm hmissed
  obtain ⟨htoken, hsome, hfail, hmemory, hinvoked⟩ := of_decide_eq_true hmissed
  have hcalled : ∀ call ∈ (CmCoap.searchNodes s token payload s.responseList memory).invoked,
      call.serial ≠ m.serial :=
    fun call hcall hserial => hinvoked (mem_map.mpr ⟨call, hcall, hserial⟩)
  rcases h.answered m hm hsome with hfail' | ⟨call, hcall, hserial⟩ | ⟨node, hnode, hserial, htoken'⟩
  · exact hfail hfail'
  · refine hcalled call ?_ hserial
    unfold CmCoap.searchNodes
    split
    · exact hcall
    · exact mem_append_left _ hcall
  have hmem : node ∈ s.responseList := by
    rcases hnode with hmem | ⟨c, hc⟩
    · exact hmem
    · exact absurd (htoken'.trans htoken) (hlinked c node hc)
  unfold CmCoap.searchNodes at hcalled
  split at hcalled
  next hnone =>
    have := dropWhile_eq_nil_iff.mp hnone node hmem
    simp [htoken', htoken, hserial, hmemory] at this
  next first after hfound =>
    obtain ⟨hfirst, hpred⟩ := found_of_dropWhile hfound
    rw [Bool.and_eq_true, decide_eq_true_eq] at hpred
    obtain rfl : first = node :=
      h.distinct first node (.inl hfirst) (.inl hmem) (hpred.1.trans (htoken'.trans htoken).symm)
    exact hcalled _ (mem_append_right _ (mem_singleton_self _)) hserial

theorem deliver (h : AckInv s) (token : UInt32) (payload : Bytes) :
    AckInv (coapStep s (.deliver token payload)) := by
  unfold coapStep
  cases hrecv : s.recv with
  | idle =>
    dsimp only
    split_ifs with hsent
    · obtain ⟨m, hm, htoken⟩ := any_eq_true.mp hsent
      refine h.frame 0 rfl rfl rfl rfl rfl le_rfl (fun _ _ => Iff.rfl)
        (fun _ _ _ _ hc => .inl hc) ?_
      rintro token' payload' next (harrived | hcalling)
      · obtain ⟨rfl, -⟩ := Receiver.arrived.inj harrived
        exact ⟨m, hm, of_decide_eq_true htoken⟩
      · contradiction
    · exact h
  | arrived token payload => exact h
  | calling token payload next => exact h

theorem send (h : AckInv s) (hcall : s.calls caller = .hasToken serial token ext)
    {outcome : SendOutcome} (hok : Orderly s (.send caller outcome)) :
    AckInv (sendMessage s caller serial token ext outcome) := by
  have hok' := hok serial token ext hcall
  cases outcome with
  | refused => exact h.giveUp hcall
  | failed => exact (h.giveUp hcall).setToken _
  | notWritten =>
    obtain ⟨htoken, hfree, hnone⟩ := hok' (.inl rfl)
    cases hcb : ext.ackCb with
    | none =>
      simp only [sendMessage, PublishExt.node, hcb]
      exact (h.giveUp hcall).setToken _
    | some cb =>
      have hsome : ext.ackCb.isSome = true := by simp [hcb]
      obtain rfl : token = s.coapToken := htoken hsome
      simp only [sendMessage, PublishExt.node, hcb]
      exact (h.sendNode hcall hcb (hfree (.inl hsome)) (.inl ⟨rfl, hnone hsome rfl⟩)).setToken _
  | written =>
    obtain ⟨htoken, hfree, -⟩ := hok' (.inr rfl)
    cases hcb : ext.ackCb with
    | none =>
      simp only [sendMessage, PublishExt.node, hcb]
      refine ((h.giveUp hcall).sendPlain (m := ⟨serial, s.coapToken, ext⟩) (by simp [hcb])
        fun node hnode => hfree (.inr rfl) node ?_).setToken _
      rcases hnode with hmem | ⟨c, hc⟩
      · exact .inl hmem
      · refine .inr ⟨c, ?_⟩
        by_cases hcaller : c = caller
        · subst hcaller
          simp [CoapConnection.setCall] at hc
        · simpa [CoapConnection.setCall, hcaller] using hc
    | some cb =>
      obtain rfl : token = s.coapToken := htoken (by simp [hcb])
      simp only [sendMessage, PublishExt.node, hcb]
      exact (h.sendNode hcall hcb (hfree (.inr rfl)) (.inr rfl)).setToken _

theorem step (h : AckInv s) (op : CoapOp) (hok : Orderly s op) : AckInv (coapStep s op) := by
  cases op with
  | publish caller ext =>
    cases hcall : s.calls caller with
    | idle =>
      simp only [coapStep, hcall]
      exact h.publish caller ext hcall
    | hasToken serial token ext' => simpa only [coapStep, hcall] using h
    | sent node => simpa only [coapStep, hcall] using h
  | send caller outcome =>
    cases hcall : s.calls caller with
    | idle => simpa only [coapStep, hcall] using h
    | hasToken serial token ext =>
      simp only [coapStep, hcall]
      exact h.send hcall hok
    | sent node => simpa only [coapStep, hcall] using h
  | link caller memory =>
    cases hcall : s.calls caller with
    | idle => simpa only [coapStep, hcall] using h
    | hasToken serial token ext => simpa only [coapStep, hcall] using h
    | sent node =>
      simp only [coapStep, hcall]
      cases memory with
      | true => exact h.link hcall
      | false => exact h.linkFails hcall
  | otherSend => exact h.setToken _
  | deliver token payload => exact h.deliver token payload
  | search memory =>
    cases hrecv : s.recv with
    | idle => simpa only [coapStep, hrecv] using h
    | arrived token payload =>
      simp only [coapStep, hrecv]
      have hinv : AckInv (CmCoap.searchNodes s token payload s.responseList memory) :=
        h.searchNodes memory (fun _ hmem => hmem) (h.responded token payload none (.inl hrecv))
      -- no node is passed over while the list is searched
      rw [h.missed_eq_nil payload memory (hok token payload hrecv), append_nil]
      exact hinv
    | calling token payload next => simpa only [coapStep, hrecv] using h
  | resume memory =>
    cases hrecv : s.recv with
    | idle => simpa only [coapStep, hrecv] using h
    | arrived token payload => simpa only [coapStep, hrecv] using h
    | calling token payload next =>
      simp only [coapStep, hrecv]
      refine h.searchNodes memory (fun node hmem => ?_)
        (h.responded token payload next (.inr hrecv))
      -- the search goes on behind the node whose handler was called
      cases next with
      | none => exact absurd hmem not_mem_nil
      | some serial => exact (dropWhile_sublist _).subset hmem

end AckInv

/-- **Acknowledgements.**  If no token is taken between the read and the send of a publish or comes
around while a publish waits for it, and no response is handled between the send and the link, the
responses get to their publishes. -/
theorem coap_acknowledged (ops : List CoapOp)
    (hops : AllSteps coapStep Orderly coapConnectionStart ops) :
    Acknowledged (ops.foldl coapStep coapConnectionStart) := by
  have hstep : ∀ s op, AckInv s → Orderly s op → AckInv (coapStep s op) :=
    fun s op h hok => h.step op hok
  exact (inv_of_allSteps hstep ops AckInv.start hops).toAcknowledged

/-- The publish of a message with a callback. -/
def extOf (topic : UInt8) (ackCb : ℕ) : PublishExt := ⟨[topic], some ackCb, ackCb⟩

/-- Two threads publish one after the other, and the first response is handled while the second
thread is about to send. -/
theorem coap_acknowledged_two :
    let ops : List CoapOp :=
      [.publish 0 (extOf 0x61 1), .send 0 .written, .publish 1 (extOf 0x62 2), .link 0 true,
        .deliver 0x01020304 [1], .search (fun _ => true), .send 1 .written, .link 1 true,
        .resume (fun _ => true), .deliver 0x01020305 [2], .search (fun _ => true)]
    let s := ops.foldl coapStep coapConnectionStart
    s.invoked.map (·.responceCb) = [1, 2] ∧ Acknowledged s := by
  intro ops s
  refine ⟨by decide +kernel, coap_acknowledged ops ?_⟩
  refine ⟨trivial, ?_, trivial, trivial, trivial, ?_, ?_, trivial, trivial, trivial, ?_, trivial⟩
  · rintro _ _ _ ⟨⟩ -
    refine ⟨fun _ => rfl, fun _ => ?_, fun _ hno => absurd hno (by decide)⟩
    rintro node (hmem | ⟨_ | _ | caller, hcall⟩)
    · exact absurd hmem not_mem_nil
    all_goals cases hcall
  · rintro _ _ ⟨⟩ (_ | _ | caller) node hcall <;> cases hcall
  · rintro _ _ _ ⟨⟩ -
    refine ⟨fun _ => rfl, fun _ => ?_, fun _ hno => absurd hno (by decide)⟩
    rintro node (hmem | ⟨_ | _ | caller, hcall⟩)
    · exact absurd hmem not_mem_nil
    all_goals cases hcall
  · rintro _ _ ⟨⟩ (_ | _ | caller) node hcall <;> cases hcall

/-- Two threads read the same token, and the response to the message of the second one calls the
callback of the first; and a response that is handled before its node is linked is lost. -/
theorem coap_acknowledged_broken :
    (let ops : List CoapOp :=
      [.publish 0 (extOf 0x61 1), .publish 1 (extOf 0x62 2), .send 1 .written, .send 0 .written,
        .link 0 true, .link 1 true, .deliver 0x01020304 [1], .search (fun _ => true)]
     let s := ops.foldl coapStep coapConnectionStart
     s.invoked = [⟨0x01020304, 0, 1, [0x61], 1, [1]⟩] ∧ ¬ Acknowledged s) ∧
    (let ops : List CoapOp :=
      [.publish 0 (extOf 0x61 1), .send 0 .written, .deliver 0x01020304 [1],
        .search (fun _ => true), .link 0 true]
     let s := ops.foldl coapStep coapConnectionStart
     s.lost = [0] ∧ ¬ Acknowledged s) := by
  refine ⟨⟨by decide +kernel, fun h => ?_⟩, by decide +kernel, fun h => ?_⟩
  · obtain ⟨m, hm, hserial, htoken, -⟩ := h.credited ⟨0x01020304, 0, 1, [0x61], 1, [1]⟩
      (by decide +kernel)
    revert m
    decide +kernel
  · exact absurd h.found (by decide +kernel)

end Iotkit.CmCoap
