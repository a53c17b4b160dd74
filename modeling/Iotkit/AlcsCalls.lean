/-
# The calls of `secure_sendmsg_handler`

Every operation of the CoAP server calls the handler of secured requests at most once, for a
node of the send list or for an observed resource; which call it makes is read off the lists
before the operation.  A record that is not named by the call and whose node is not cancelled
keeps its place in the lists.
-/
import Iotkit.AlcsSecure
import Iotkit.CoapObservers

namespace Iotkit.Alcs

open Coap Option
open List hiding Vector

variable {A C : Type}

/-! ## The call that an operation makes -/

/-- The node belongs to a secured request. -/
def isSecureNode (node : CoapSendNode (SendHandler A) ℕ) : Bool :=
  node.handler.any SendHandler.isSecure

/-- The observed resource was asked for by a secured request. -/
def isSecureObservable (node : CoapObservable (SendHandler A) ℕ) : Bool :=
  node.callback.any SendHandler.isSecure

variable (ctx : CoapIntContext (SendHandler A) ℕ C)

/-- The record of the request that a response or notification is for. -/
def recordOf (message : CoapMessage Memory) :
    Option ℕ :=
  match ctx.sendlist.list.find? (CoapSendNode.hasToken message) with
  | some node => if isSecureNode node then node.user else none
  | none =>
    if coapOptionPresent message.options coapOptionObserve then
      (ctx.obsclient.list.find? (CoapObservable.hasToken message)).bind fun node =>
        if isSecureObservable node then node.userdata else none
    else none

def nodeCall (result : CoapReqResult) (node : CoapSendNode (SendHandler A) ℕ) :
    Option HandlerCall :=
  (if isSecureNode node then node.user else none).map fun item => ⟨result, item, node.remote, none⟩

def responseCall (remote : NetworkAddr) (message : CoapMessage Memory) (item : ℕ) :
    HandlerCall :=
  ⟨.requestSuccess, item, remote, some message⟩

/-- The call of the handler that an operation makes: for an ACK or a reset, for a response or
notification, or for a request that has timed out. -/
def handlerCall :
    ServerOp (SendHandler A) ℕ → Option HandlerCall
  | .receive _ remote buf datalen =>
    let message := received buf datalen
    if coapAckMsg message.header ∨ coapResetMsg message.header then
      (ctx.sendlist.list.find? fun node => node.header.msgid = message.header.msgid).bind
        (nodeCall .recvRespSuc)
    else if coapRespMsg message.header then
      (recordOf ctx message).map (responseCall remote message)
    else none
  | .checkTimeout tick =>
    (ctx.sendlist.list.find? (CoapSendNode.timedOut tick)).bind (nodeCall .recvRespTimeout)
  | _ => none

/-- Between the two contexts the handler is called in this way. -/
def CallsTo (ctx' : CoapIntContext (SendHandler A) ℕ C) (call : Option HandlerCall) : Prop :=
  ∃ new, ctx'.trace = ctx.trace ++ new ∧ new.filterMap secureCall = call.toList

theorem secureCall_handler (send : ℕ) (handler : SendHandler A) (result : CoapReqResult)
    (user : Option ℕ) (remote : NetworkAddr) (message : Option (CoapMessage Memory)) :
    secureCall (.handler send handler result user remote message : CoapEffect (SendHandler A) ℕ C) =
      (if handler.isSecure then user else none).map fun item => ⟨result, item, remote, message⟩ := by
  cases handler with
  | other handler => rfl
  | secureSendmsgHandler =>
    cases user with
    | none => rfl
    | some item => rfl

theorem nodeCall_of_none {node : CoapSendNode (SendHandler A) ℕ} (h : node.handler = none)
    (result : CoapReqResult) : nodeCall result node = none := by
  simp [nodeCall, isSecureNode, h]

theorem nodeCall_of_some {node : CoapSendNode (SendHandler A) ℕ} {handler : SendHandler A}
    (h : node.handler = some handler) (result : CoapReqResult) :
    secureCall (.handler node.send handler result node.user node.remote none :
      CoapEffect (SendHandler A) ℕ C) = nodeCall result node := by
  rw [secureCall_handler]
  simp [nodeCall, isSecureNode, h]

theorem secureCall_observed (callback : SendHandler A) (user : Option ℕ) (remote : NetworkAddr)
    (message : CoapMessage Memory) :
    secureCall (.observed callback user remote message : CoapEffect (SendHandler A) ℕ C) =
      (if callback.isSecure then user else none).map (responseCall remote message) := by
  cases callback with
  | other handler => rfl
  | secureSendmsgHandler =>
    cases user with
    | none => rfl
    | some item => rfl

namespace CallsTo

variable {ctx ctx' ctx'' : CoapIntContext (SendHandler A) ℕ C}

theorem of_trace (h : ctx'.trace = ctx.trace) : CallsTo ctx ctx' none :=
  ⟨[], by rw [h, append_nil], rfl⟩

theorem after {call : Option HandlerCall} (h : CallsTo ctx ctx' none)
    (h' : CallsTo ctx' ctx'' call) : CallsTo ctx ctx'' call := by
  obtain ⟨new, htrace, hcalls⟩ := h
  obtain ⟨new', htrace', hcalls'⟩ := h'
  refine ⟨new ++ new', by rw [htrace', htrace, append_assoc], ?_⟩
  rw [filterMap_append, hcalls, hcalls']
  rfl

theorem of_emit {effect : CoapEffect (SendHandler A) ℕ C} {call : Option HandlerCall}
    (htrace : ctx'.trace = ctx.trace ++ [effect]) (h : secureCall effect = call) :
    CallsTo ctx ctx' call := by
  refine ⟨[effect], htrace, ?_⟩
  cases call with
  | none => simp [h]
  | some call => simp [h]

theorem coapMessageSend (env : CoapEnv) (remote : NetworkAddr)
    (message : CoapSendMessage (SendHandler A) ℕ) :
    CallsTo ctx (Coap.coapMessageSend env ctx remote message).2 none := by
  have hwritten : ∀ bytes, (ctx.written remote message.toCoapMessage bytes).trace =
      ctx.trace ++ [.write (coapObsClientDelete ctx message.toCoapMessage).sends remote bytes] := by
    intro bytes
    show (coapObsClientDelete ctx message.toCoapMessage).trace ++ _ = _
    rw [(coapObsClientDelete_frame ctx message.toCoapMessage).2.2]
  rcases coapMessageSend_cases env ctx remote message with ⟨-, heq⟩ | ⟨bytes, heq | ⟨-, -, -, heq⟩⟩
  · rw [heq]
    exact of_trace rfl
  · rw [heq]
    exact of_emit (hwritten bytes) rfl
  · rw [heq]
    exact of_emit (hwritten bytes) rfl

theorem coapAckMessageHandle (message : CoapMessage Memory) :
    CallsTo ctx (Coap.coapAckMessageHandle ctx message)
      ((ctx.sendlist.list.find? fun node => node.header.msgid = message.header.msgid).bind
        (nodeCall .recvRespSuc)) := by
  unfold Coap.coapAckMessageHandle
  simp only
  cases ctx.sendlist.list.find? fun node : CoapSendNode (SendHandler A) ℕ =>
      decide (node.header.msgid = message.header.msgid) with
  | none => exact of_trace rfl
  | some n =>
    simp only [bind_some]
    cases hhandler : n.handler with
    | none =>
      rw [nodeCall_of_none hhandler]
      refine of_trace ?_
      split_ifs <;> rfl
    | some handler =>
      refine of_emit ?_ (nodeCall_of_some hhandler _)
      split_ifs <;> rfl

theorem sendlist_coapMessageSend {env : CoapEnv} {remote : NetworkAddr}
    {message : CoapSendMessage (SendHandler A) ℕ}
    (h : ¬ (coapReqMsg message.header ∨ coapConRespMsg message.header)) :
    (Coap.coapMessageSend env ctx remote message).2.sendlist = ctx.sendlist := by
  rcases coapMessageSend_cases env ctx remote message with
    ⟨-, heq⟩ | ⟨bytes, heq | ⟨-, -, hkind, -⟩⟩
  · rw [heq]
  · rw [heq]
    exact (coapObsClientDelete_frame ctx message.toCoapMessage).1
  · exact absurd hkind h

theorem exists_acked (ctx : CoapIntContext (SendHandler A) ℕ C) (env : CoapEnv)
    (remote : NetworkAddr) (message : CoapMessage Memory) :
    ∃ ctx1, (if message.header.type = coapMessageTypeCon then
        (coapAckMessageSend env ctx remote message.header.msgid).2 else ctx) = ctx1 ∧
      CallsTo ctx ctx1 none ∧ ctx1.sendlist = ctx.sendlist ∧ ctx1.obsclient = ctx.obsclient := by
  refine exists_of_ack message ⟨of_trace rfl, rfl, rfl⟩ ⟨coapMessageSend env remote _, ?_, ?_⟩
  · apply sendlist_coapMessageSend
    rintro (⟨hcode, -⟩ | ⟨hcode, -⟩)
    · exact absurd hcode (by decide : ¬ (1 : UInt8) ≤ coapMsgCodeEmptyMessage)
    · exact absurd hcode (by decide : coapMsgCodeEmptyMessage ≠ coapMsgCode205Content)
  · exact obsclient_coapMessageSend_of_ne _ _ _
      (by decide : coapMsgCodeEmptyMessage ≠ coapMsgCodeGet)

/-- A notification goes to the handler of the request that asked for it. -/
theorem coapObsClientAdd_none (malloc : Bool) (message : CoapMessage Memory)
    (remote : NetworkAddr) :
    CallsTo ctx (coapObsClientAdd malloc ctx message remote none)
      ((if coapOptionPresent message.options coapOptionObserve then
        (ctx.obsclient.list.find? (CoapObservable.hasToken message)).bind fun node =>
          if isSecureObservable node then node.userdata else none
        else none).map (responseCall remote message)) := by
  unfold coapObsClientAdd
  by_cases hobserve : coapOptionPresent message.options coapOptionObserve = true
  · rw [if_pos hobserve, if_pos hobserve]
    cases ctx.obsclient.list.find? (CoapObservable.hasToken message) with
    | none => exact of_trace rfl
    | some node =>
      simp only [bind_some]
      cases hcallback : node.callback with
      | none =>
        have hsecure : isSecureObservable node = false := by simp [isSecureObservable, hcallback]
        rw [hsecure]
        exact of_trace rfl
      | some callback =>
        have hsecure : isSecureObservable node = callback.isSecure := by
          simp [isSecureObservable, hcallback]
        rw [hsecure]
        exact of_emit rfl (secureCall_observed callback node.userdata remote message)
  · rw [if_neg hobserve, if_neg hobserve]
    exact of_trace rfl

/-- The handler is called for a response exactly if it is for a secured request. -/
theorem coapRespMessageHandle (env : CoapEnv) (remote : NetworkAddr)
    (message : CoapMessage Memory) :
    CallsTo ctx (Coap.coapRespMessageHandle env ctx remote message)
      ((recordOf ctx message).map (responseCall remote message)) := by
  obtain ⟨ctx1, hctx1, hcalls, hlist, hobs⟩ := exists_acked ctx env remote message
  unfold Coap.coapRespMessageHandle recordOf
  simp only [hctx1]
  rw [← hlist, ← hobs]
  refine hcalls.after ?_
  cases ctx1.sendlist.list.find? (CoapSendNode.hasToken message) with
  | none => exact coapObsClientAdd_none env.obs message remote
  | some node =>
    simp only
    -- the node may have been taken out
    obtain ⟨ctx2, hctx2, htrace⟩ : ∃ ctx2, (if node.keep = .nokeep then
        { ctx1 with sendlist := ctx1.sendlist.delFirst (CoapSendNode.hasToken message) }
        else ctx1) = ctx2 ∧ ctx2.trace = ctx1.trace :=
      ⟨_, rfl, by split_ifs <;> rfl⟩
    rw [hctx2]
    cases hhandler : node.handler with
    | none =>
      have hsecure : isSecureNode node = false := by simp [isSecureNode, hhandler]
      rw [hsecure]
      exact of_trace htrace
    | some handler =>
      have hsecure : isSecureNode node = handler.isSecure := by simp [isSecureNode, hhandler]
      rw [hsecure]
      refine of_emit ?_ (secureCall_handler node.send handler _ node.user remote (some message))
      show (coapObsClientAdd env.obs ctx2 message remote (some node)).trace ++ _ = _
      rw [(coapObsClientAdd_some_frame env.obs ctx2 message remote node).2.2, htrace]

theorem coapRequestMessageHandle (md5 : Bytes → Vector UInt8 16) (env : CoapEnv)
    (remote : NetworkAddr) (message : CoapMessage Memory) :
    CallsTo ctx (Coap.coapRequestMessageHandle md5 env ctx remote message) none := by
  unfold Coap.coapRequestMessageHandle
  simp only
  split
  · exact coapMessageSend env remote _
  · split
    · exact coapMessageSend env remote _
    · split_ifs
      · exact (coapMessageSend env remote _).after (of_emit rfl rfl)
      · exact of_emit rfl rfl
      · exact coapMessageSend env remote _

theorem checkTimeout (tick : UInt64) :
    CallsTo ctx (Coap.checkTimeout ctx tick)
      ((ctx.sendlist.list.find? (CoapSendNode.timedOut tick)).bind (nodeCall .recvRespTimeout)) := by
  unfold Coap.checkTimeout
  cases ctx.sendlist.list.find? (CoapSendNode.timedOut tick) with
  | none => exact of_trace rfl
  | some n =>
    simp only [bind_some]
    cases hhandler : n.handler with
    | none =>
      rw [nodeCall_of_none hhandler]
      exact of_trace rfl
    | some handler => exact of_emit rfl (nodeCall_of_some hhandler _)

/-- Every operation makes the call that is read off the lists before it, and no other. -/
theorem serverStep (md5 : Bytes → Vector UInt8 16) (ctx : CoapIntContext (SendHandler A) ℕ C)
    (op : ServerOp (SendHandler A) ℕ) :
    CallsTo ctx (Coap.serverStep md5 ctx op) (handlerCall ctx op) := by
  cases op with
  | send env remote message => exact coapMessageSend env remote message
  | cancel msgid => exact of_trace rfl
  | receive env remote buf datalen =>
    show CallsTo ctx (coapMessageDispatch md5 env ctx remote (received buf datalen))
      (handlerCall ctx (.receive env remote buf datalen))
    unfold coapMessageDispatch handlerCall
    simp only
    by_cases hack : coapAckMsg (received buf datalen).header ∨
        coapResetMsg (received buf datalen).header
    · rw [if_pos hack, if_pos hack]
      exact coapAckMessageHandle _
    rw [if_neg hack, if_neg hack]
    by_cases hresp : coapRespMsg (received buf datalen).header
    · rw [if_pos hresp, if_pos hresp]
      exact coapRespMessageHandle env remote _
    rw [if_neg hresp, if_neg hresp]
    split_ifs
    · exact coapMessageSend env remote _
    · exact coapRequestMessageHandle md5 env remote _
    · exact of_trace rfl
  | retansmit tick =>
    refine ⟨_, rfl, ?_⟩
    rw [filterMap_map]
    exact filterMap_eq_nil_iff.mpr fun n _ => rfl
  | checkTimeout tick => exact checkTimeout tick
  | obsAdd malloc observe overrun path remote request =>
    exact of_trace (coapObsServerAdd_frame md5 malloc observe overrun ctx path remote request).2.2
  | obsDelete remote resource => exact of_trace rfl
  | obsAllDelete remote => exact of_trace rfl

end CallsTo

/-! ## Records in the lists -/

/-- Whether a node for the record is kept. -/
def recordKeep (item : ℕ) (node : CoapSendNode (SendHandler A) ℕ) : Option Keep :=
  if isSecureNode node ∧ node.user = some item then some node.keep else none

def pendingKeeps (item : ℕ) : List Keep :=
  ctx.sendlist.list.filterMap (recordKeep item)

/-- The record is held by an observed resource. -/
def Observed (item : ℕ) : Prop :=
  ∃ o ∈ ctx.obsclient.list, isSecureObservable o = true ∧ o.userdata = some item

/-- The record keeps its place in the lists. -/
structure Spared (item : ℕ) (ctx ctx' : CoapIntContext (SendHandler A) ℕ C) : Prop where
  pending : pendingKeeps ctx' item = pendingKeeps ctx item
  observed : Observed ctx' item → Observed ctx item

theorem nodeCall_of_recordKeep {item : ℕ} {node : CoapSendNode (SendHandler A) ℕ} {keep : Keep}
    (h : recordKeep item node = some keep) (result : CoapReqResult) :
    nodeCall result node = some ⟨result, item, node.remote, none⟩ := by
  unfold recordKeep at h
  split_ifs at h with hholds
  simp [nodeCall, hholds.1, hholds.2]

theorem delFirst_of_find {α : Type} {l : CoapList α} {p : α → Bool} {a : α}
    (h : l.list.find? p = some a) :
    ∃ front back, l.list = front ++ a :: back ∧ (l.delFirst p).list = front ++ back := by
  obtain ⟨hp, front, back, hsplit, hfront⟩ := List.find?_eq_some_iff_append.mp h
  refine ⟨front, back, hsplit, ?_⟩
  have hany : l.list.any p = true := any_eq_true.mpr ⟨a, mem_of_find?_eq_some h, hp⟩
  have hnot : ∀ b ∈ front, ¬ p b = true := by
    intro b hb
    simpa using hfront b hb
  unfold CoapList.delFirst
  rw [if_pos hany]
  rw [hsplit, eraseP_append_right _ hnot, eraseP_cons_of_pos hp]

theorem mem_of_mem_delFirst {α : Type} {l : CoapList α} {p : α → Bool} {a : α}
    (h : a ∈ (l.delFirst p).list) : a ∈ l.list := by
  unfold CoapList.delFirst at h
  split_ifs at h
  · exact mem_of_mem_eraseP h
  · exact h

namespace Spared

variable {item : ℕ} {ctx ctx' ctx'' : CoapIntContext (SendHandler A) ℕ C}

theorem trans (h : Spared item ctx ctx') (h' : Spared item ctx' ctx'') : Spared item ctx ctx'' :=
  ⟨h'.pending.trans h.pending, fun hobs => h.observed (h'.observed hobs)⟩

theorem of_lists (hlist : ctx'.sendlist.list = ctx.sendlist.list)
    (hobs : ctx'.obsclient.list ⊆ ctx.obsclient.list) : Spared item ctx ctx' := by
  refine ⟨?_, ?_⟩
  · unfold pendingKeeps
    rw [hlist]
  · rintro ⟨o, ho, hholds⟩
    exact ⟨o, hobs ho, hholds⟩

theorem emit (effect : CoapEffect (SendHandler A) ℕ C) : Spared item ctx (ctx.emit effect) :=
  of_lists rfl (List.Subset.refl _)

theorem delFirst {p : CoapSendNode (SendHandler A) ℕ → Bool}
    {node : CoapSendNode (SendHandler A) ℕ} (hfind : ctx.sendlist.list.find? p = some node)
    (hother : recordKeep item node = none) :
    Spared item ctx { ctx with sendlist := ctx.sendlist.delFirst p } := by
  refine ⟨?_, fun hobs => hobs⟩
  obtain ⟨front, back, hsplit, hdel⟩ := delFirst_of_find hfind
  unfold pendingKeeps
  rw [hdel, hsplit, filterMap_append, filterMap_append,
    filterMap_cons_none hother]

theorem updateFirst (p : CoapSendNode (SendHandler A) ℕ → Bool)
    {f : CoapSendNode (SendHandler A) ℕ → CoapSendNode (SendHandler A) ℕ}
    (hf : ∀ n, recordKeep item (f n) = recordKeep item n) :
    Spared item ctx { ctx with sendlist := ctx.sendlist.updateFirst p f } := by
  refine ⟨?_, fun hobs => hobs⟩
  have hmap : ∀ l : List (CoapSendNode (SendHandler A) ℕ),
      l.filterMap (recordKeep item) = (l.map (recordKeep item)).filterMap id := by
    intro l
    rw [filterMap_map]
    rfl
  show (Coap.updateFirst p f ctx.sendlist.list).filterMap _ = _
  rw [hmap, map_updateFirst p hf, ← hmap]
  rfl

theorem written (remote : NetworkAddr) (message : CoapMessage Memory) (bytes : Bytes) :
    Spared item ctx (ctx.written remote message bytes) := by
  refine of_lists ?_ ?_
  · show (coapObsClientDelete ctx message).sendlist.list = _
    rw [(coapObsClientDelete_frame ctx message).1]
  · intro o ho
    have ho' : o ∈ (coapObsClientDelete ctx message).obsclient.list := ho
    unfold coapObsClientDelete at ho'
    split_ifs at ho'
    · exact mem_of_mem_delFirst ho'
    · exact ho'

theorem coapMessageSend (env : CoapEnv) (remote : NetworkAddr)
    {message : CoapSendMessage (SendHandler A) ℕ}
    (h : ¬ (message.handler.any SendHandler.isSecure = true ∧ message.user = some item)) :
    Spared item ctx (Coap.coapMessageSend env ctx remote message).2 := by
  rcases coapMessageSend_cases env ctx remote message with ⟨-, heq⟩ | ⟨bytes, heq | ⟨-, -, -, heq⟩⟩
  · rw [heq]
    exact of_lists rfl (List.Subset.refl _)
  · rw [heq]
    exact written remote message.toCoapMessage bytes
  rw [heq]
  refine ⟨?_, (written remote message.toCoapMessage bytes).observed⟩
  have hkeep : recordKeep item (coapSendNode env.tick ctx.sends remote message bytes) = none :=
    if_neg h
  show (ctx.sendlist.list ++ [_]).filterMap _ = ctx.sendlist.list.filterMap _
  rw [filterMap_append, filterMap_cons_none hkeep, filterMap_nil, append_nil]

theorem coapMessageSend_none (env : CoapEnv) (remote : NetworkAddr)
    {message : CoapSendMessage (SendHandler A) ℕ} (h : message.handler = none) :
    Spared item ctx (Coap.coapMessageSend env ctx remote message).2 := by
  refine coapMessageSend env remote ?_
  rw [h]
  rintro ⟨hsecure, -⟩
  cases hsecure

theorem coapAckMessageHandle (message : CoapMessage Memory)
    (h : ∀ node, (ctx.sendlist.list.find? fun node : CoapSendNode (SendHandler A) ℕ =>
      node.header.msgid = message.header.msgid) = some node → recordKeep item node = none) :
    Spared item ctx (Coap.coapAckMessageHandle ctx message) := by
  unfold Coap.coapAckMessageHandle
  simp only
  cases hfind : ctx.sendlist.list.find? fun node : CoapSendNode (SendHandler A) ℕ =>
      decide (node.header.msgid = message.header.msgid) with
  | none => exact of_lists rfl (List.Subset.refl _)
  | some node =>
    have hother := h node hfind
    simp only
    cases node.handler with
    | none =>
      split_ifs
      · exact delFirst hfind hother
      · exact updateFirst _ fun _ => rfl
    | some handler =>
      split_ifs
      · exact (delFirst hfind hother).trans (emit _)
      · refine Spared.trans ?_ (emit _)
        exact updateFirst _ fun _ => rfl

/-- `CoAPObsClient_add` adds a resource only for the request that was answered. -/
theorem coapObsClientAdd (malloc : Bool) (message : CoapMessage Memory)
    (remote : NetworkAddr) {sendnode : Option (CoapSendNode (SendHandler A) ℕ)}
    (h : ∀ node, sendnode = some node →
      coapOptionPresent message.options coapOptionObserve = true → recordKeep item node = none) :
    Spared item ctx (Coap.coapObsClientAdd malloc ctx message remote sendnode) := by
  refine ⟨?_, ?_⟩
  · unfold pendingKeeps
    rw [(coapObsClientAdd_frame malloc ctx message remote sendnode 0).1]
  · rintro ⟨o, ho, hsecure, huser⟩
    unfold Coap.coapObsClientAdd at ho
    by_cases hobserve : coapOptionPresent message.options coapOptionObserve = true
    · rw [if_pos hobserve] at ho
      cases sendnode with
      | none =>
        -- only the age of an observed resource changes
        have hage : ∀ age : CoapObservable (SendHandler A) ℕ → UInt32,
            o ∈ Coap.updateFirst (CoapObservable.hasToken message)
              (fun node => { node with maxAge := age node }) ctx.obsclient.list →
            Observed ctx item := by
          intro age hmem
          rcases mem_updateFirst hmem with hold | ⟨o', hfind, rfl⟩
          · exact ⟨o, hold, hsecure, huser⟩
          · exact ⟨o', mem_of_find?_eq_some hfind, hsecure, huser⟩
        simp only at ho
        split at ho
        · exact ⟨o, ho, hsecure, huser⟩
        · split at ho
          · exact hage _ ho
          · exact hage _ ho
      | some node =>
        split_ifs at ho
        · rcases mem_append.mp ho with hold | hnew
          · exact ⟨o, hold, hsecure, huser⟩
          · rw [mem_singleton.mp hnew] at hsecure huser
            have hholds : recordKeep item node = some node.keep := if_pos ⟨hsecure, huser⟩
            rw [h node rfl hobserve] at hholds
            cases hholds
        · exact ⟨o, ho, hsecure, huser⟩
    · rw [if_neg hobserve] at ho
      exact ⟨o, mem_of_mem_delFirst ho, hsecure, huser⟩

theorem coapRespMessageHandle (env : CoapEnv) (remote : NetworkAddr)
    (message : CoapMessage Memory)
    (h : ∀ node, ctx.sendlist.list.find? (CoapSendNode.hasToken message) = some node →
      recordKeep item node = none) :
    Spared item ctx (Coap.coapRespMessageHandle env ctx remote message) := by
  obtain ⟨ctx1, hctx1, -, hlist, hobs⟩ := CallsTo.exists_acked ctx env remote message
  have hacked : Spared item ctx ctx1 := by
    refine of_lists (by rw [hlist]) ?_
    rw [hobs]
    exact List.Subset.refl _
  unfold Coap.coapRespMessageHandle
  simp only [hctx1]
  rw [← hlist] at h
  refine hacked.trans ?_
  cases hfind : ctx1.sendlist.list.find? (CoapSendNode.hasToken message) with
  | none =>
    refine coapObsClientAdd env.obs message remote ?_
    intro node hnode
    cases hnode
  | some node =>
    have hother := h node hfind
    have hadd : ∀ ctx2 : CoapIntContext (SendHandler A) ℕ C,
        Spared item ctx2 (Coap.coapObsClientAdd env.obs ctx2 message remote (some node)) := by
      intro ctx2
      refine coapObsClientAdd env.obs message remote ?_
      rintro node' ⟨⟩ -
      exact hother
    simp only
    by_cases hkeep : node.keep = .nokeep
    · rw [if_pos hkeep]
      have hdel : Spared item ctx1 _ := delFirst hfind hother
      cases node.handler with
      | none => exact hdel
      | some handler => exact (hdel.trans (hadd _)).trans (emit _)
    · rw [if_neg hkeep]
      cases node.handler with
      | none => exact of_lists rfl (List.Subset.refl _)
      | some handler => exact (hadd _).trans (emit _)

theorem coapRequestMessageHandle (md5 : Bytes → Vector UInt8 16) (env : CoapEnv)
    (remote : NetworkAddr) (message : CoapMessage Memory) :
    Spared item ctx (Coap.coapRequestMessageHandle md5 env ctx remote message) := by
  unfold Coap.coapRequestMessageHandle
  simp only
  split
  · exact coapMessageSend_none env remote rfl
  · split
    · exact coapMessageSend_none env remote rfl
    · split_ifs
      · refine Spared.trans ?_ (emit _)
        exact coapMessageSend_none env remote rfl
      · exact of_lists rfl (List.Subset.refl _)
      · exact coapMessageSend_none env remote rfl

theorem retansmit (tick : UInt64) : Spared item ctx (Coap.retansmit ctx tick) := by
  refine ⟨?_, fun hobs => hobs⟩
  show (ctx.sendlist.list.map (CoapSendNode.retransmit tick)).filterMap _ = _
  rw [filterMap_map]
  refine filterMap_congr fun n _ => ?_
  show recordKeep item (n.retransmit tick) = recordKeep item n
  unfold CoapSendNode.retransmit
  split_ifs <;> rfl

theorem checkTimeout {tick : UInt64}
    (h : ∀ node, ctx.sendlist.list.find? (CoapSendNode.timedOut tick) = some node →
      recordKeep item node = none) : Spared item ctx (Coap.checkTimeout ctx tick) := by
  unfold Coap.checkTimeout
  cases hfind : ctx.sendlist.list.find? (CoapSendNode.timedOut tick) with
  | none => exact of_lists rfl (List.Subset.refl _)
  | some node =>
    have hdel := delFirst hfind (h node hfind)
    simp only
    cases node.handler with
    | none => exact hdel.trans (of_lists rfl (List.Subset.refl _))
    | some handler => exact hdel.trans (of_lists rfl (List.Subset.refl _))

theorem coapMessageIdCancel {msgid : UInt16}
    (h : ∀ node ∈ ctx.sendlist.list, node.header.msgid = msgid → recordKeep item node = none) :
    Spared item ctx (Coap.coapMessageIdCancel ctx msgid) := by
  refine ⟨?_, fun hobs => hobs⟩
  show (ctx.sendlist.list.filter fun n => !decide (n.header.msgid = msgid)).filterMap _ =
    ctx.sendlist.list.filterMap _
  rw [filterMap_filter]
  apply filterMap_congr
  intro node hnode
  by_cases hid : node.header.msgid = msgid
  · simp [hid, h node hnode hid]
  · simp [hid]

/-- An operation that neither calls the handler for a record, nor cancels its node, nor sends
for it, leaves the record where it is. -/
theorem serverStep (md5 : Bytes → Vector UInt8 16) (op : ServerOp (SendHandler A) ℕ)
    (hcall : ∀ call, handlerCall ctx op = some call → call.item ≠ item)
    (hcancel : ∀ msgid, op = .cancel msgid → ∀ node ∈ ctx.sendlist.list,
      node.header.msgid = msgid → recordKeep item node = none)
    (hsend : ∀ env remote message, op = .send env remote message →
      message.handler.any SendHandler.isSecure = false) :
    Spared item ctx (Coap.serverStep md5 ctx op) := by
  -- a node for the record would have been called for
  have hnode : ∀ (result : CoapReqResult) (found : Option (CoapSendNode (SendHandler A) ℕ)),
      (∀ call, found.bind (nodeCall result) = some call → call.item ≠ item) →
      ∀ node, found = some node → recordKeep item node = none := by
    rintro result found hfound node rfl
    cases hkeep : recordKeep item node with
    | none => rfl
    | some keep => exact absurd rfl (hfound _ (nodeCall_of_recordKeep hkeep result))
  cases op with
  | send env remote message =>
    refine coapMessageSend env remote ?_
    rintro ⟨hsecure, -⟩
    rw [hsend env remote message rfl] at hsecure
    cases hsecure
  | cancel msgid => exact coapMessageIdCancel (hcancel msgid rfl)
  | receive env remote buf datalen =>
    show Spared item ctx (coapMessageDispatch md5 env ctx remote (received buf datalen))
    unfold coapMessageDispatch
    simp only [handlerCall] at hcall
    by_cases hack : coapAckMsg (received buf datalen).header ∨
        coapResetMsg (received buf datalen).header
    · rw [if_pos hack]
      rw [if_pos hack] at hcall
      exact coapAckMessageHandle _ (hnode _ _ hcall)
    rw [if_neg hack]
    rw [if_neg hack] at hcall
    by_cases hresp : coapRespMsg (received buf datalen).header
    · rw [if_pos hresp]
      rw [if_pos hresp] at hcall
      refine coapRespMessageHandle env remote _ ?_
      intro node hfind
      cases hkeep : recordKeep item node with
      | none => rfl
      | some keep =>
        have hrecord : recordOf ctx (received buf datalen) = some item := by
          unfold recordKeep at hkeep
          split_ifs at hkeep with hholds
          simp [recordOf, hfind, hholds.1, hholds.2]
        rw [hrecord] at hcall
        exact absurd rfl (hcall _ rfl)
    rw [if_neg hresp]
    split_ifs
    · exact coapMessageSend_none env remote rfl
    · exact coapRequestMessageHandle md5 env remote _
    · exact of_lists rfl (List.Subset.refl _)
  | retansmit tick => exact retansmit tick
  | checkTimeout tick => exact checkTimeout (hnode _ _ hcall)
  | obsAdd malloc observe overrun path remote request =>
    have hobs : (coapObsServerAdd md5 malloc observe overrun ctx path remote
        request).2.obsclient = ctx.obsclient := by
      unfold coapObsServerAdd
      split
      · split_ifs <;> rfl
      · rfl
    refine of_lists (congrArg CoapList.list
      (coapObsServerAdd_frame md5 malloc observe overrun ctx path remote request).1) ?_
    show (coapObsServerAdd md5 malloc observe overrun ctx path remote request).2.obsclient.list ⊆ _
    rw [hobs]
    exact List.Subset.refl _
  | obsDelete remote resource => exact of_lists rfl (List.Subset.refl _)
  | obsAllDelete remote => exact of_lists rfl (List.Subset.refl _)

/-- A response without `Observe` to a request that is not kept takes its node out. -/
theorem released {message : CoapMessage Memory} (env : CoapEnv) (remote : NetworkAddr)
    (hkeeps : pendingKeeps ctx item = [.nokeep]) (hrecord : recordOf ctx message = some item)
    (hobserve : coapOptionPresent message.options coapOptionObserve ≠ true) :
    pendingKeeps (Coap.coapRespMessageHandle env ctx remote message) item = [] ∧
      (Observed (Coap.coapRespMessageHandle env ctx remote message) item → Observed ctx item) := by
  obtain ⟨ctx1, hctx1, -, hlist, hobs⟩ := CallsTo.exists_acked ctx env remote message
  have hobserved : Observed ctx1 item → Observed ctx item := by
    unfold Observed
    rw [hobs]
    exact id
  unfold pendingKeeps at hkeeps
  unfold recordOf at hrecord
  rw [← hlist] at hkeeps hrecord
  unfold Coap.coapRespMessageHandle
  simp only [hctx1]
  cases hfind : ctx1.sendlist.list.find? (CoapSendNode.hasToken message) with
  | none =>
    rw [hfind, if_neg hobserve] at hrecord
    cases hrecord
  | some node =>
    rw [hfind] at hrecord
    simp only at hrecord
    split_ifs at hrecord with hsecure
    have hholds : recordKeep item node = some node.keep := if_pos ⟨hsecure, hrecord⟩
    -- it is the only node for the record
    obtain ⟨front, back, hsplit, hdel⟩ := delFirst_of_find hfind
    rw [hsplit, filterMap_append, filterMap_cons_some hholds] at hkeeps
    have hone : front.filterMap (recordKeep item) = [] ∧ node.keep = .nokeep ∧
        back.filterMap (recordKeep item) = [] := by
      rcases append_eq_singleton_iff.mp hkeeps with ⟨hfront, hrest⟩ | ⟨-, hrest⟩
      · obtain ⟨hkeep, hback⟩ := List.cons.inj hrest
        exact ⟨hfront, hkeep, hback⟩
      · cases hrest
    simp only
    rw [if_pos hone.2.1]
    obtain ⟨ctx2, hctx2⟩ : ∃ ctx2, { ctx1 with
        sendlist := ctx1.sendlist.delFirst (CoapSendNode.hasToken message) } = ctx2 := ⟨_, rfl⟩
    have hobserved2 : Observed ctx2 item → Observed ctx item := by
      rw [← hctx2]
      exact hobserved
    have hgone : pendingKeeps ctx2 item = [] := by
      unfold pendingKeeps
      rw [← hctx2, hdel, filterMap_append, hone.1, hone.2.2]
      rfl
    rw [hctx2]
    have hadd : Spared item ctx2 (Coap.coapObsClientAdd env.obs ctx2 message remote (some node)) :=
      coapObsClientAdd env.obs message remote fun _ _ hpresent => absurd hpresent hobserve
    cases node.handler with
    | none => exact ⟨hgone, hobserved2⟩
    | some handler =>
      have hadded := hadd.trans (emit (.handler node.send handler .requestSuccess
        node.user remote (some message)))
      exact ⟨hadded.pending.trans hgone, fun hobs => hobserved2 (hadded.observed hobs)⟩

end Spared

theorem handlerCall_listed {ctx : CoapIntContext (SendHandler A) ℕ C}
    {op : ServerOp (SendHandler A) ℕ} {call : HandlerCall} (h : handlerCall ctx op = some call) :
    pendingKeeps ctx call.item ≠ [] ∨ Observed ctx call.item := by
  have hpending : ∀ {node : CoapSendNode (SendHandler A) ℕ}, node ∈ ctx.sendlist.list →
      isSecureNode node = true → node.user = some call.item → pendingKeeps ctx call.item ≠ [] := by
    intro node hmem hsecure huser hnil
    have hkeep : recordKeep call.item node = some node.keep := if_pos ⟨hsecure, huser⟩
    rw [filterMap_eq_nil_iff.mp hnil node hmem] at hkeep
    cases hkeep
  have hnode : ∀ {result : CoapReqResult} {p : CoapSendNode (SendHandler A) ℕ → Bool},
      (ctx.sendlist.list.find? p).bind (nodeCall result) = some call →
      pendingKeeps ctx call.item ≠ [] := by
    intro result p hbind
    obtain ⟨node, hfind, hcall⟩ := bind_eq_some_iff.mp hbind
    obtain ⟨item, huser, rfl⟩ := map_eq_some_iff.mp hcall
    split_ifs at huser with hsecure
    exact hpending (mem_of_find?_eq_some hfind) hsecure huser
  cases op with
  | receive env remote buf datalen =>
    simp only [handlerCall] at h
    by_cases hack : coapAckMsg (received buf datalen).header ∨
        coapResetMsg (received buf datalen).header
    · rw [if_pos hack] at h
      exact .inl (hnode h)
    rw [if_neg hack] at h
    by_cases hresp : coapRespMsg (received buf datalen).header
    swap
    · rw [if_neg hresp] at h
      cases h
    rw [if_pos hresp] at h
    obtain ⟨item, hrecord, rfl⟩ := map_eq_some_iff.mp h
    unfold recordOf at hrecord
    split at hrecord
    · next node hfind =>
        split_ifs at hrecord with hsecure
        exact .inl (hpending (mem_of_find?_eq_some hfind) hsecure hrecord)
    · split_ifs at hrecord
      obtain ⟨node, hfind, huser⟩ := bind_eq_some_iff.mp hrecord
      split_ifs at huser with hsecure
      exact .inr ⟨node, mem_of_find?_eq_some hfind, hsecure, huser⟩
  | checkTimeout tick => exact .inl (hnode h)
  | _ => cases h

end Iotkit.Alcs
