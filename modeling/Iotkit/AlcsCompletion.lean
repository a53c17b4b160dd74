/-
# Completion of secured requests

The record of a secured request is held by its node in the send list until a response comes.
As long as `secure_sendmsg_handler` is never called without a message, and the request is
answered without `Observe` and neither kept nor cancelled, the record is freed exactly with
the response, and nothing calls the handler for it afterwards.
-/
import Iotkit.AlcsCalls
import Iotkit.AlcsAccess

namespace Iotkit.Alcs

open Coap GuardedRun Option
open List hiding Vector

variable (crypto : Crypto) {A C : Type}

/-! ## What the handler does with a call -/

/-- The record that an effect is about. -/
def SecureEffect.item : SecureEffect A → ℕ
  | .call item _ _ _ _ _ => item
  | .free item => item
  | .nullMessage item => item

/-- The original handler of the record is called. -/
def SecureEffect.isCall (item : ℕ) : SecureEffect A → Bool
  | .call item' _ _ _ _ _ => item' = item
  | _ => false

/-- The record is freed. -/
def SecureEffect.isFree (item : ℕ) : SecureEffect A → Bool
  | .free item' => item' = item
  | _ => false

def callsOf (item : ℕ) (log : List (SecureEffect A)) : List (SecureEffect A) :=
  log.filter (SecureEffect.isCall item)

def frees (item : ℕ) (log : List (SecureEffect A)) : ℕ := log.countP (SecureEffect.isFree item)

/-- The call of the original handler that is due: at a timeout, and for a response that names
the session with its sender, with what that session's key makes of the payload. -/
def callDue (client : AlcsClient A C) (call : HandlerCall) : Option (SecureEffect A) :=
  client.items[call.item]?.bind fun sendItem =>
    if call.result = .recvRespTimeout then
      some (.call call.item sendItem.origHandler .recvRespTimeout sendItem.origUserData call.remote
        none)
    else
      call.message.bind fun message =>
        (getAuthSessionByChecksum client call.remote sendItem.pkDn).bind fun session =>
          if session.sessionId = requestSessionId message then
            some (.call call.item sendItem.origHandler .requestSuccess sendItem.origUserData
              call.remote (some (crypto.decrypt session.sessionKey (payloadBytes message))))
          else none

/-- What the handler does with the record at its end. -/
def closing (client : AlcsClient A C) (call : HandlerCall) : List (SecureEffect A) :=
  if call.item < client.items.length then
    match call.message with
    | none => [.nullMessage call.item]
    | some message =>
      if coapOptionPresent message.options coapOptionObserve then [] else [.free call.item]
  else []

/-- The message fits the buffer, or a larger one can be had. -/
def Buffered (malloc : Bool) (call : HandlerCall) : Prop :=
  ∀ message, call.message = some message → message.payloadlen < 128 ∨ malloc = true

variable {call : HandlerCall}

variable (client : AlcsClient A C)

theorem log_release (h : call.item < client.items.length) :
    (client.release call.item call.message).log = client.log ++ closing client call := by
  unfold closing AlcsClient.release
  rw [if_pos h]
  cases call.message with
  | none => rfl
  | some message =>
    simp only
    split_ifs
    · exact (append_nil _).symm
    · rfl

@[simp] theorem items_release (item : ℕ)
    (message : Option (CoapMessage Memory)) :
    (client.release item message).items = client.items := by
  unfold AlcsClient.release
  split
  · rfl
  · split_ifs <;> rfl

@[simp] theorem ctx_release (item : ℕ)
    (message : Option (CoapMessage Memory)) :
    (client.release item message).ctx = client.ctx := by
  unfold AlcsClient.release
  split
  · rfl
  · split_ifs <;> rfl

theorem touch_frame (addr : NetworkAddr) (ck : Bytes)
    (uptime : UInt64) :
    (client.touch addr ck uptime).ctx = client.ctx ∧
      (client.touch addr ck uptime).items = client.items ∧
      (client.touch addr ck uptime).log = client.log := by
  unfold AlcsClient.touch
  split_ifs <;> exact ⟨rfl, rfl, rfl⟩

/-- The handler changes neither the lists nor the records. -/
theorem secureSendmsgHandler_frame (malloc : Bool) (uptime : UInt64) (client : AlcsClient A C)
    (call : HandlerCall) :
    (secureSendmsgHandler crypto malloc uptime client call.result call.item call.remote
        call.message).ctx = client.ctx ∧
      (secureSendmsgHandler crypto malloc uptime client call.result call.item call.remote
        call.message).items = client.items := by
  unfold secureSendmsgHandler
  cases client.items[call.item]? with
  | none => exact ⟨rfl, rfl⟩
  | some sendItem =>
    simp only
    by_cases hresult : call.result = .recvRespTimeout
    · rw [if_pos hresult]
      exact ⟨ctx_release _ _ _, items_release _ _ _⟩
    rw [if_neg hresult]
    cases call.message with
    | none => exact ⟨rfl, rfl⟩
    | some message =>
      cases getAuthSessionByChecksum client call.remote sendItem.pkDn with
      | none => exact ⟨ctx_release _ _ _, items_release _ _ _⟩
      | some session =>
        simp only
        by_cases hid : session.sessionId ≠ requestSessionId message
        · rw [if_pos hid]
          exact ⟨ctx_release _ _ _, items_release _ _ _⟩
        rw [if_neg hid, ctx_release, items_release]
        obtain ⟨hctx, hitems, -⟩ := touch_frame client call.remote sendItem.pkDn uptime
        split_ifs
        · exact ⟨hctx, hitems⟩
        · exact ⟨hctx, hitems⟩

/-- **The handler.**  It makes the call that is due, unless it has no buffer for the payload,
and then frees the record or goes to a message that is not there. -/
theorem log_secureSendmsgHandler (malloc : Bool) (uptime : UInt64) (client : AlcsClient A C)
    (call : HandlerCall) :
    ∃ called, (secureSendmsgHandler crypto malloc uptime client call.result call.item call.remote
        call.message).log = client.log ++ called ++ closing client call ∧
      called.Sublist (callDue crypto client call).toList ∧
      (Buffered malloc call → called = (callDue crypto client call).toList) := by
  unfold secureSendmsgHandler callDue
  -- a record that is not there is not called
  cases hitem : client.items[call.item]? with
  | none =>
    have hlen : ¬ call.item < client.items.length := by
      rw [not_lt]
      exact List.getElem?_eq_none_iff.mp hitem
    refine ⟨[], ?_, List.Sublist.refl _, fun _ => rfl⟩
    unfold closing
    rw [if_neg hlen, append_nil, append_nil]
  | some sendItem =>
    have hlen : call.item < client.items.length := (List.getElem?_eq_some_iff.mp hitem).1
    -- whatever is done before, the record is released at the end
    have hrelease : ∀ client' : AlcsClient A C, client'.items = client.items →
        (client'.release call.item call.message).log = client'.log ++ closing client call := by
      intro client' hitems
      rw [log_release client' (hitems ▸ hlen)]
      unfold closing
      rw [hitems]
    simp only [bind_some]
    by_cases hresult : call.result = .recvRespTimeout
    · simp only [if_pos hresult]
      refine ⟨_, ?_, List.Sublist.refl _, fun _ => rfl⟩
      exact hrelease (client.emit _) rfl
    simp only [if_neg hresult]
    cases hmessage : call.message with
    | none =>
      refine ⟨[], ?_, List.Sublist.refl _, fun _ => rfl⟩
      unfold closing
      rw [if_pos hlen, hmessage, append_nil]
      rfl
    | some message =>
      rw [hmessage] at hrelease
      simp only [bind_some]
      -- the handler of a response needs the session that the request was sent in
      cases getAuthSessionByChecksum client call.remote sendItem.pkDn with
      | none =>
        refine ⟨[], ?_, List.Sublist.refl _, fun _ => rfl⟩
        rw [append_nil]
        exact hrelease client rfl
      | some session =>
        simp only [bind_some]
        by_cases hid : session.sessionId = requestSessionId message
        swap
        · rw [if_pos hid, if_neg hid]
          refine ⟨[], ?_, List.Sublist.refl _, fun _ => rfl⟩
          rw [append_nil]
          exact hrelease client rfl
        rw [if_neg (not_not_intro hid), if_pos hid]
        obtain ⟨-, hitems, hlog⟩ := touch_frame client call.remote sendItem.pkDn uptime
        -- a long payload is decrypted into a buffer of its own
        by_cases hbuffer : message.payloadlen < 128 ∨ malloc = true
        · rw [if_pos hbuffer]
          refine ⟨_, ?_, List.Sublist.refl _, fun _ => rfl⟩
          rw [hrelease _ (by exact hitems)]
          simp [AlcsClient.emit, hlog]
        · rw [if_neg hbuffer]
          refine ⟨[], ?_, nil_sublist _, ?_⟩
          · rw [hrelease _ hitems, hlog, append_nil]
          · intro hbuffered
            exact absurd (hbuffered message hmessage) hbuffer

/-- What is due is a call of the original handler of the record. -/
theorem exists_of_mem_callDue {client : AlcsClient A C} {e : SecureEffect A}
    (h : e ∈ (callDue crypto client call).toList) :
    ∃ handler result user payload, e = .call call.item handler result user call.remote payload := by
  rw [mem_toList] at h
  unfold callDue at h
  obtain ⟨sendItem, -, h⟩ := bind_eq_some_iff.mp h
  split_ifs at h
  · exact ⟨_, _, _, _, (Option.some.inj h).symm⟩
  · obtain ⟨message, -, h⟩ := bind_eq_some_iff.mp h
    obtain ⟨session, -, h⟩ := bind_eq_some_iff.mp h
    split_ifs at h
    exact ⟨_, _, _, _, (Option.some.inj h).symm⟩

theorem item_of_mem_closing {client : AlcsClient A C} {e : SecureEffect A}
    (h : e ∈ closing client call) : e.item = call.item := by
  unfold closing at h
  split_ifs at h
  · split at h
    · rw [mem_singleton.mp h]
      rfl
    · split_ifs at h
      · cases h
      · rw [mem_singleton.mp h]
        rfl
  · cases h

/-! ## One operation -/

theorem otherOp_send (op : ServerOp A ℕ) (env : CoapEnv) (remote : NetworkAddr)
    (message : CoapSendMessage (SendHandler A) ℕ) (h : otherOp op = .send env remote message) :
    message.handler.any SendHandler.isSecure = false := by
  cases op with
  | send env' remote' message' =>
    cases h
    cases message'.handler with
    | none => rfl
    | some handler => rfl
  | _ => cases h

/-- What an operation of the server does to the records. -/
structure StepTo (malloc : Bool) (client client' : AlcsClient A C) (op : ServerOp A ℕ) : Prop where
  ctx : client'.ctx = serverStep crypto.md5 client.ctx (otherOp op)
  items : client'.items = client.items
  log_silent : handlerCall client.ctx (otherOp op) = none → client'.log = client.log
  log_call : ∀ call, handlerCall client.ctx (otherOp op) = some call →
    ∃ called, client'.log = client.log ++ called ++ closing client call ∧
      called.Sublist (callDue crypto client call).toList ∧
      (Buffered malloc call → called = (callDue crypto client call).toList)

theorem stepTo_alcsServerStep (malloc : Bool) (uptime : UInt64) (client : AlcsClient A C)
    (op : ServerOp A ℕ) :
    StepTo crypto malloc client (alcsServerStep crypto malloc uptime client op) op := by
  obtain ⟨ctx, hctx⟩ : ∃ ctx, serverStep crypto.md5 client.ctx (otherOp op) = ctx := ⟨_, rfl⟩
  obtain ⟨new, htrace, hcalls⟩ := CallsTo.serverStep crypto.md5 client.ctx (otherOp op)
  rw [hctx] at htrace
  have hstep : alcsServerStep crypto malloc uptime client op =
      (handlerCall client.ctx (otherOp op)).toList.foldl (fun client call =>
        secureSendmsgHandler crypto malloc uptime client call.result call.item call.remote
          call.message) { client with ctx := ctx } := by
    unfold alcsServerStep
    simp only [hctx, htrace, drop_left, hcalls]
  rw [hstep]
  cases hcall : handlerCall client.ctx (otherOp op) with
  | none =>
    refine ⟨hctx.symm, rfl, fun _ => rfl, ?_⟩
    intro call hsome
    rw [hcall] at hsome
    cases hsome
  | some call =>
    obtain ⟨hframe, hitems⟩ :=
      secureSendmsgHandler_frame crypto malloc uptime { client with ctx := ctx } call
    refine ⟨hframe.trans hctx.symm, hitems, ?_, ?_⟩
    · intro hnone
      rw [hcall] at hnone
      cases hnone
    · intro call' hsome
      rw [hcall] at hsome
      cases hsome
      exact log_secureSendmsgHandler crypto malloc uptime { client with ctx := ctx } call

variable {client' : AlcsClient A C} {op : ServerOp A ℕ}

theorem StepTo.log_other {malloc : Bool} {client : AlcsClient A C}
    (h : StepTo crypto malloc client client' op) {item : ℕ}
    (hcall : ∀ call, handlerCall client.ctx (otherOp op) = some call → call.item ≠ item) :
    ∃ new, client'.log = client.log ++ new ∧ ∀ e ∈ new, e.item ≠ item := by
  cases hsome : handlerCall client.ctx (otherOp op) with
  | none =>
    exact ⟨[], by rw [h.log_silent hsome, append_nil], forall_mem_nil _⟩
  | some call =>
    obtain ⟨called, hlog, hsub, -⟩ := h.log_call call hsome
    refine ⟨called ++ closing client call, by rw [hlog, append_assoc], ?_⟩
    intro e he
    have hitem : e.item = call.item := by
      rcases mem_append.mp he with hmem | hmem
      · obtain ⟨_, _, _, _, rfl⟩ := exists_of_mem_callDue crypto (hsub.subset hmem)
        rfl
      · exact item_of_mem_closing hmem
    rw [hitem]
    exact hcall call hsome

/-! ## Records that are not in the lists -/

structure Absent (ctx : CoapIntContext (SendHandler A) ℕ C) (item : ℕ) : Prop where
  pending : pendingKeeps ctx item = []
  unobserved : ¬ Observed ctx item

section Absent

variable {ctx : CoapIntContext (SendHandler A) ℕ C} {item : ℕ}

theorem Absent.not_called (h : Absent ctx item) {op : ServerOp (SendHandler A) ℕ}
    {call : HandlerCall} (hcall : handlerCall ctx op = some call) : call.item ≠ item := by
  rintro rfl
  rcases handlerCall_listed hcall with hpending | hobserved
  · exact hpending h.pending
  · exact h.unobserved hobserved

theorem Absent.of_spared {ctx' : CoapIntContext (SendHandler A) ℕ C} (h : Absent ctx item)
    (hspared : Spared item ctx ctx') : Absent ctx' item :=
  ⟨hspared.pending.trans h.pending, fun hobs => h.unobserved (hspared.observed hobs)⟩

theorem Absent.serverStep (h : Absent ctx item) (md5 : Bytes → Vector UInt8 16)
    (op : ServerOp A ℕ) : Absent (Coap.serverStep md5 ctx (otherOp op)) item :=
  h.of_spared (Spared.serverStep md5 (otherOp op) (fun _ hcall => h.not_called hcall)
    (fun _ _ node hnode _ => filterMap_eq_nil_iff.mp h.pending node hnode) (otherOp_send op))

end Absent

/-- The records that were not allocated are not used. -/
structure Fresh (client : AlcsClient A C) : Prop where
  absent : ∀ item, client.items.length ≤ item → Absent client.ctx item
  log : ∀ item, client.items.length ≤ item → ∀ e ∈ client.log, e.item ≠ item

theorem fresh_init (sendMax obsMax : UInt8) (resource : CoapList (CoapResource C)) :
    Fresh (alcsClientInit sendMax obsMax resource : AlcsClient A C) where
  absent := by
    refine fun item _ => ⟨rfl, ?_⟩
    rintro ⟨o, ho, -⟩
    cases ho
  log := fun _ _ _ he => absurd he not_mem_nil

/-- `alcs_sendmsg_secure` either finds no session and does nothing, or it sends for a new
record. -/
theorem alcsSendmsgSecure_cases (env : CoapEnv) (client : AlcsClient A C) (devKey : AlcsDeviceKey)
    (message : CoapSendMessage A ℕ) (observe : ℕ) (handler : A) :
    alcsSendmsgSecure crypto env client devKey message observe handler = (alcsErrAuthUnauth, client) ∨
      ∃ session, (alcsSendmsgSecure crypto env client devKey message observe handler).1 =
          (coapMessageSend env client.ctx devKey.addr
            (secureMessage crypto session observe client.items.length message)).1 ∧
        (alcsSendmsgSecure crypto env client devKey message observe handler).2 = { client with
          ctx := (coapMessageSend env client.ctx devKey.addr
            (secureMessage crypto session observe client.items.length message)).2
          items := client.items ++ [⟨message.user, session.pkDn, handler⟩] } := by
  unfold alcsSendmsgSecure
  cases getAuthSession crypto client devKey with
  | none => exact .inl rfl
  | some session => exact .inr ⟨session, rfl, rfl⟩

variable {ctx : CoapIntContext (SendHandler A) ℕ C}

theorem spared_secureMessage {item new : ℕ} (h : new ≠ item) (env : CoapEnv) (remote : NetworkAddr)
    (session : SessionItem) (observe : ℕ) (message : CoapSendMessage A ℕ) :
    Spared item ctx
      (coapMessageSend env ctx remote (secureMessage crypto session observe new message)).2 := by
  refine Spared.coapMessageSend env remote ?_
  rintro ⟨-, huser⟩
  exact h (Option.some.inj huser)

theorem Fresh.alcsStep {client : AlcsClient A C} (h : Fresh client) (op : AlcsOp A) :
    Fresh (alcsStep crypto client op) := by
  cases op with
  | secureSend env devKey message observe handler =>
    show Fresh (alcsSendmsgSecure crypto env client devKey message observe handler).2
    rcases alcsSendmsgSecure_cases crypto env client devKey message observe handler with
      heq | ⟨session, -, heq⟩
    · rw [heq]
      exact h
    rw [heq]
    have hlen : ∀ {sendItem : SecureSendItem A} {item : ℕ},
        (client.items ++ [sendItem]).length ≤ item → client.items.length < item := by
      intro sendItem item hle
      rw [length_append, length_singleton] at hle
      omega
    refine ⟨?_, ?_⟩
    · intro item hle
      have hlt := hlen hle
      exact (h.absent item (le_of_lt hlt)).of_spared
        (spared_secureMessage crypto (ne_of_lt hlt) env _ session observe message)
    · intro item hle
      exact h.log item (le_of_lt (hlen hle))
  | server op malloc uptime =>
    have hstep := stepTo_alcsServerStep crypto malloc uptime client op
    refine ⟨?_, ?_⟩
    · intro item hle
      have hle' : client.items.length ≤ item := hstep.items ▸ hle
      show Absent (alcsServerStep crypto malloc uptime client op).ctx item
      rw [hstep.ctx]
      exact (h.absent item hle').serverStep crypto.md5 op
    · intro item hle e he
      have hle' : client.items.length ≤ item := hstep.items ▸ hle
      obtain ⟨new, hlog, hnew⟩ := hstep.log_other crypto
        fun _ hcall => (h.absent item hle').not_called hcall
      have he' : e ∈ (alcsServerStep crypto malloc uptime client op).log := he
      rw [hlog] at he'
      rcases mem_append.mp he' with hold | hmem
      · exact h.log item hle' e hold
      · exact hnew e hmem
  | sessions ctlSessions svrSessions => exact ⟨h.absent, h.log⟩

/-- The record was allocated, and nothing holds it any more. -/
structure Gone (item : ℕ) (client : AlcsClient A C) : Prop where
  allocated : item < client.items.length
  absent : Absent client.ctx item

theorem Gone.alcsStep {item : ℕ} {client : AlcsClient A C} (h : Gone item client)
    (op : AlcsOp A) : Gone item (alcsStep crypto client op) := by
  cases op with
  | secureSend env devKey message observe handler =>
    show Gone item (alcsSendmsgSecure crypto env client devKey message observe handler).2
    rcases alcsSendmsgSecure_cases crypto env client devKey message observe handler with
      heq | ⟨session, -, heq⟩
    · rw [heq]
      exact h
    · rw [heq]
      refine ⟨?_, h.absent.of_spared (spared_secureMessage crypto (ne_of_gt h.allocated) env _
        session observe message)⟩
      exact lt_of_lt_of_le h.allocated (by simp)
  | server op malloc uptime =>
    have hstep := stepTo_alcsServerStep crypto malloc uptime client op
    exact ⟨hstep.items.symm ▸ h.allocated, hstep.ctx.symm ▸ h.absent.serverStep crypto.md5 op⟩
  | sessions ctlSessions svrSessions => exact ⟨h.allocated, h.absent⟩

/-! ## Orderly operations -/

/-- What the operation meets is not a secured request, or it is a response without `Observe`
whose payload has a buffer. -/
def OrderlyServer (ctx : CoapIntContext (SendHandler A) ℕ C) (malloc : Bool) :
    ServerOp A ℕ → Prop
  | .cancel msgid =>
    ∀ node ∈ ctx.sendlist.list, node.header.msgid = msgid → isSecureNode node = false
  | .receive _ _ buf datalen =>
    let message := received buf datalen
    if coapAckMsg message.header ∨ coapResetMsg message.header then
      ∀ node, (ctx.sendlist.list.find? fun node => node.header.msgid = message.header.msgid) =
        some node → isSecureNode node = false
    else
      coapRespMsg message.header → (recordOf ctx message).isSome →
        coapOptionPresent message.options coapOptionObserve ≠ true ∧
          (message.payloadlen < 128 ∨ malloc = true)
  | .checkTimeout tick =>
    ∀ node, ctx.sendlist.list.find? (CoapSendNode.timedOut tick) = some node →
      isSecureNode node = false
  | _ => True

/-- A secured request is not kept, it is neither acknowledged nor reset nor cancelled, it does
not time out, and it is answered without `Observe`. -/
def Orderly (client : AlcsClient A C) : AlcsOp A → Prop
  | .secureSend _ devKey message _ _ => ¬ (platformIsMulticast devKey.addr ∨ message.keep = 1)
  | .server op malloc _ => OrderlyServer client.ctx malloc op
  | .sessions _ _ => True

theorem nodeCall_eq_none {node : CoapSendNode (SendHandler A) ℕ} (h : isSecureNode node = false)
    (result : CoapReqResult) : nodeCall result node = none := by
  simp [nodeCall, h]

/-- In an orderly operation the handler is called for a response only. -/
theorem OrderlyServer.response {malloc : Bool} (h : OrderlyServer ctx malloc op)
    {call : HandlerCall} (hcall : handlerCall ctx (otherOp op) = some call) :
    ∃ env remote message, (∀ md5, serverStep md5 ctx (otherOp op) =
        coapRespMessageHandle env ctx remote message) ∧
      recordOf ctx message = some call.item ∧ call = responseCall remote message call.item ∧
      coapOptionPresent message.options coapOptionObserve ≠ true ∧
      (message.payloadlen < 128 ∨ malloc = true) := by
  have hnode : ∀ {found : Option (CoapSendNode (SendHandler A) ℕ)} {result : CoapReqResult},
      (∀ node, found = some node → isSecureNode node = false) →
      found.bind (nodeCall result) = some call → False := by
    intro found result hfound hbind
    obtain ⟨node, hnode, hsome⟩ := bind_eq_some_iff.mp hbind
    rw [nodeCall_eq_none (hfound node hnode)] at hsome
    cases hsome
  cases op with
  | receive env remote buf datalen =>
    simp only [OrderlyServer] at h
    simp only [otherOp, handlerCall] at hcall
    by_cases hack : coapAckMsg (received buf datalen).header ∨
        coapResetMsg (received buf datalen).header
    · rw [if_pos hack] at h hcall
      exact (hnode h hcall).elim
    rw [if_neg hack] at h hcall
    by_cases hresp : coapRespMsg (received buf datalen).header
    swap
    · rw [if_neg hresp] at hcall
      cases hcall
    rw [if_pos hresp] at hcall
    obtain ⟨item, hrecord, rfl⟩ := map_eq_some_iff.mp hcall
    have hsome : (recordOf ctx (received buf datalen)).isSome = true := by
      rw [hrecord]
      rfl
    obtain ⟨hobserve, hbuffer⟩ := h hresp hsome
    refine ⟨env, remote, received buf datalen, ?_, hrecord, rfl, hobserve, hbuffer⟩
    intro md5
    show coapMessageDispatch md5 env ctx remote (received buf datalen) = _
    unfold coapMessageDispatch
    rw [if_neg hack, if_pos hresp]
  | checkTimeout tick => exact (hnode h hcall).elim
  | _ => cases hcall

/-! ## The course of a request -/

theorem callsOf_append (item : ℕ) (log new : List (SecureEffect A)) :
    callsOf item (log ++ new) = callsOf item log ++ callsOf item new :=
  filter_append _ _

theorem frees_append (item : ℕ) (log new : List (SecureEffect A)) :
    frees item (log ++ new) = frees item log + frees item new :=
  countP_append

theorem callsOf_eq_nil {item : ℕ} {log : List (SecureEffect A)} (h : ∀ e ∈ log, e.item ≠ item) :
    callsOf item log = [] := by
  refine filter_eq_nil_iff.mpr ?_
  intro e he hcall
  cases e with
  | call item' _ _ _ _ _ => exact h _ he (of_decide_eq_true hcall)
  | free item' => cases hcall
  | nullMessage item' => cases hcall

theorem frees_eq_zero {item : ℕ} {log : List (SecureEffect A)} (h : ∀ e ∈ log, e.item ≠ item) :
    frees item log = 0 := by
  refine countP_eq_zero.mpr ?_
  intro e he hfree
  cases e with
  | call item' _ _ _ _ _ => cases hfree
  | free item' => exact h _ he (of_decide_eq_true hfree)
  | nullMessage item' => cases hfree

structure Waiting (client : AlcsClient A C) (item : ℕ) : Prop where
  pending : pendingKeeps client.ctx item = [.nokeep]
  unobserved : ¬ Observed client.ctx item
  log : ∀ e ∈ client.log, e.item ≠ item

/-- The request has been answered and its record is freed. -/
structure Done (client : AlcsClient A C) (item : ℕ) : Prop where
  absent : Absent client.ctx item
  frees : frees item client.log = 1
  calls : (callsOf item client.log).length ≤ 1

/-- Where the record of a secured request is. -/
structure Course (item : ℕ) (client : AlcsClient A C) : Prop where
  allocated : item < client.items.length
  state : Waiting client item ∨ Done client item

namespace Course

variable {client : AlcsClient A C} {item : ℕ}

theorem of_other (h : Course item client) (hspared : Spared item client.ctx client'.ctx)
    (hitems : client.items.length ≤ client'.items.length)
    (hlog : ∃ new, client'.log = client.log ++ new ∧ ∀ e ∈ new, e.item ≠ item) :
    Course item client' := by
  obtain ⟨new, hlog, hnew⟩ := hlog
  refine ⟨lt_of_lt_of_le h.allocated hitems, ?_⟩
  rcases h.state with hwait | hdone
  · refine .inl ⟨hspared.pending.trans hwait.pending,
      fun hobs => hwait.unobserved (hspared.observed hobs), ?_⟩
    rw [hlog]
    exact forall_mem_append.mpr ⟨hwait.log, hnew⟩
  · refine .inr ⟨hdone.absent.of_spared hspared, ?_, ?_⟩
    · rw [hlog, frees_append, frees_eq_zero hnew]
      exact hdone.frees
    · rw [hlog, callsOf_append, callsOf_eq_nil hnew, append_nil]
      exact hdone.calls

theorem answered (h : Waiting client item) (hitem : item < client.items.length) {malloc : Bool}
    (hstep : StepTo crypto malloc client client' op) (hok : OrderlyServer client.ctx malloc op)
    {call : HandlerCall} (hcall : handlerCall client.ctx (otherOp op) = some call)
    (hnamed : call.item = item) :
    Done client' item := by
  obtain ⟨env, remote, message, hserver, hrecord, heq, hobserve, -⟩ := hok.response hcall
  rw [hnamed] at hrecord
  obtain ⟨hgone, hobserved⟩ := Spared.released env remote h.pending hrecord hobserve
  obtain ⟨called, hlog, hsub, -⟩ := hstep.log_call call hcall
  have hclosing : closing client call = [.free item] := by
    unfold closing
    rw [if_pos (hnamed ▸ hitem), heq, hnamed]
    exact if_neg hobserve
  have hshort : called.length ≤ 1 :=
    le_trans hsub.length_le (length_toList_le)
  rw [hclosing] at hlog
  have hnofree : Alcs.frees item called = 0 := by
    refine countP_eq_zero.mpr ?_
    intro e he
    obtain ⟨_, _, _, _, rfl⟩ := exists_of_mem_callDue crypto (hsub.subset he)
    exact Bool.false_ne_true
  refine ⟨?_, ?_, ?_⟩
  · rw [hstep.ctx, hserver]
    exact ⟨hgone, fun hobs => h.unobserved (hobserved hobs)⟩
  · rw [hlog, frees_append, frees_append, frees_eq_zero h.log, hnofree]
    simp [Alcs.frees, SecureEffect.isFree]
  · rw [hlog, callsOf_append, callsOf_append, callsOf_eq_nil h.log]
    refine le_trans ?_ hshort
    simp [callsOf, SecureEffect.isCall, length_filter_le]

theorem alcsStep (h : Course item client) {op : AlcsOp A} (hok : Orderly client op) :
    Course item (alcsStep crypto client op) := by
  cases op with
  | secureSend env devKey message observe handler =>
    show Course item (alcsSendmsgSecure crypto env client devKey message observe handler).2
    rcases alcsSendmsgSecure_cases crypto env client devKey message observe handler with
      heq | ⟨session, -, heq⟩
    · rw [heq]
      exact h
    · rw [heq]
      refine h.of_other (spared_secureMessage crypto (ne_of_gt h.allocated) env _ session
        observe message) ?_ ⟨[], (append_nil _).symm, forall_mem_nil _⟩
      simp
  | server op malloc uptime =>
    have hstep := stepTo_alcsServerStep crypto malloc uptime client op
    by_cases hnamed : ∃ call, handlerCall client.ctx (otherOp op) = some call ∧ call.item = item
    · obtain ⟨call, hcall, hitem⟩ := hnamed
      refine ⟨hstep.items.symm ▸ h.allocated, .inr ?_⟩
      rcases h.state with hwait | hdone
      · exact answered crypto hwait h.allocated hstep hok hcall hitem
      · exact absurd hitem (hdone.absent.not_called hcall)
    have hother : ∀ call, handlerCall client.ctx (otherOp op) = some call → call.item ≠ item :=
      fun call hcall hitem => hnamed ⟨call, hcall, hitem⟩
    refine h.of_other (hstep.ctx.symm ▸ ?_)
      (le_of_eq (congrArg List.length hstep.items.symm)) (hstep.log_other crypto hother)
    refine Spared.serverStep crypto.md5 (otherOp op) hother ?_ (otherOp_send op)
    intro msgid hop node hnode hid
    have hsecure : isSecureNode node = false := by
      cases op with
      | cancel msgid' =>
        cases hop
        exact hok node hnode hid
      | _ => cases hop
    exact if_neg fun hholds => by
      rw [hsecure] at hholds
      cases hholds.1
  | sessions ctlSessions svrSessions =>
    exact h.of_other ⟨rfl, id⟩ (le_refl _) ⟨[], (append_nil _).symm, forall_mem_nil _⟩

end Course

theorem exists_of_request {H U : Type} {env : CoapEnv} {ctx : CoapIntContext H U C}
    {remote : NetworkAddr} {message : CoapSendMessage H U} (hreq : coapReqMsg message.header)
    (hsent : (coapMessageSend env ctx remote message).1 = coapSuccess) :
    ∃ bytes, (coapMessageSend env ctx remote message).2.sendlist.list =
      ctx.sendlist.list ++ [coapSendNode env.tick ctx.sends remote message bytes] := by
  obtain ⟨hlist, -, -⟩ := coapObsClientDelete_frame ctx message.toCoapMessage
  unfold coapMessageSend at hsent ⊢
  by_cases hsize : coapMsgMaxPduLen < (coapSerializeMessageLength message.toCoapMessage).toNat
  · simp only [if_pos hsize] at hsent
    exact absurd hsent (by decide : coapErrorDataSize ≠ coapSuccess)
  simp only [if_neg hsize] at hsent ⊢
  by_cases hbuff : ¬ env.buff = true
  · rw [if_pos hbuff] at hsent
    exact absurd hsent (by decide : coapErrorNull ≠ coapSuccess)
  rw [if_neg hbuff] at hsent ⊢
  generalize coapSerializedBytes message.toCoapMessage _ = bytes at hsent ⊢
  refine ⟨bytes, ?_⟩
  by_cases hlen : bytes.length = env.written.toNat
  swap
  · rw [if_neg hlen] at hsent
    exact absurd hsent (by decide : coapErrorWriteFailed ≠ coapSuccess)
  rw [if_pos hlen, if_pos (Or.inl hreq)] at hsent ⊢
  unfold coapMessageListAdd at hsent ⊢
  by_cases hnode : ¬ env.node = true
  · rw [if_pos hnode] at hsent
    exact absurd hsent (by decide : coapErrorNull ≠ coapSuccess)
  rw [if_neg hnode] at hsent ⊢
  split_ifs at hsent ⊢ with hfull
  · exact absurd hsent (by decide : coapErrorDataSize ≠ coapSuccess)
  · show (coapObsClientDelete ctx message.toCoapMessage).sendlist.list ++ _ = _
    rw [hlist]

@[simp] theorem header_coapUintOptionAdd (optnum : UInt16) (data : UInt32)
    (message : CoapMessage Memory) :
    (coapUintOptionAdd optnum data message).header = message.header := by
  unfold coapUintOptionAdd
  split_ifs <;> rfl

theorem header_secureMessage (session : SessionItem) (observe item : ℕ)
    (message : CoapSendMessage A ℕ) :
    (secureMessage crypto session observe item message).header = message.header := by
  simp only [secureMessage, header_coapUintOptionAdd]
  split_ifs
  · exact header_coapUintOptionAdd _ _ _
  · rfl

theorem observed_of_coapMessageSend {env : CoapEnv} {remote : NetworkAddr}
    {message : CoapSendMessage (SendHandler A) ℕ} {item : ℕ}
    (h : Observed (coapMessageSend env ctx remote message).2 item) : Observed ctx item := by
  obtain ⟨o, ho, hholds⟩ := h
  refine ⟨o, ?_, hholds⟩
  rcases obsclient_coapMessageSend env ctx remote message with heq | ⟨-, heq⟩
  · rwa [heq] at ho
  · rw [heq] at ho
    exact mem_of_mem_delFirst ho

/-- A secured request that was sent waits for its response. -/
theorem waiting_of_secureSend {client : AlcsClient A C} (hfresh : Fresh client) {env : CoapEnv}
    {devKey : AlcsDeviceKey} {message : CoapSendMessage A ℕ} {observe : ℕ} {handler : A}
    (hreq : coapReqMsg message.header)
    (hkeep : ¬ (platformIsMulticast devKey.addr ∨ message.keep = 1))
    (hsent : (alcsSendmsgSecure crypto env client devKey message observe handler).1 = coapSuccess) :
    Course client.items.length
      (alcsSendmsgSecure crypto env client devKey message observe handler).2 := by
  have habsent := hfresh.absent client.items.length (le_refl _)
  rcases alcsSendmsgSecure_cases crypto env client devKey message observe handler with
    heq | ⟨session, hrc, heq⟩
  · rw [heq] at hsent
    exact absurd hsent (by decide : alcsErrAuthUnauth ≠ coapSuccess)
  rw [hrc] at hsent
  rw [heq]
  have hheader := header_secureMessage crypto session observe client.items.length message
  obtain ⟨bytes, hlist⟩ := exists_of_request (hheader.symm ▸ hreq) hsent
  refine ⟨?_, .inl ⟨?_, ?_, hfresh.log _ (le_refl _)⟩⟩
  · simp
  · show (coapMessageSend _ _ _ _).2.sendlist.list.filterMap _ = _
    have hpending : client.ctx.sendlist.list.filterMap (recordKeep client.items.length) = [] :=
      habsent.pending
    rw [hlist, filterMap_append, hpending]
    have hnode : recordKeep client.items.length (coapSendNode env.tick client.ctx.sends devKey.addr
        (secureMessage crypto session observe client.items.length message) bytes) =
        some .nokeep := by
      refine (if_pos ⟨rfl, rfl⟩).trans (congrArg some ?_)
      exact if_neg hkeep
    rw [filterMap_cons_some hnode]
    rfl
  · exact fun hobs => habsent.unobserved (observed_of_coapMessageSend hobs)

/-! ## Messages that are not there -/

/-- No message was used that is not there. -/
def NoNull (client : AlcsClient A C) : Prop := ∀ item, .nullMessage item ∉ client.log

theorem NoNull.alcsStep {client : AlcsClient A C} (h : NoNull client) {op : AlcsOp A}
    (hok : Orderly client op) : NoNull (alcsStep crypto client op) := by
  cases op with
  | secureSend env devKey message observe handler =>
    show NoNull (alcsSendmsgSecure crypto env client devKey message observe handler).2
    rcases alcsSendmsgSecure_cases crypto env client devKey message observe handler with
      heq | ⟨session, -, heq⟩
    · rw [heq]
      exact h
    · rw [heq]
      exact h
  | server op malloc uptime =>
    have hstep := stepTo_alcsServerStep crypto malloc uptime client op
    intro item hmem
    have hmem' : .nullMessage item ∈ (alcsServerStep crypto malloc uptime client op).log := hmem
    cases hcall : handlerCall client.ctx (otherOp op) with
    | none =>
      rw [hstep.log_silent hcall] at hmem'
      exact h item hmem'
    | some call =>
      obtain ⟨called, hlog, hsub, -⟩ := hstep.log_call call hcall
      obtain ⟨_, _, message, -, -, heq, -⟩ := OrderlyServer.response hok hcall
      rw [hlog] at hmem'
      rcases mem_append.mp hmem' with hcalled | hclosing
      · rcases mem_append.mp hcalled with hold | hnew
        · exact h item hold
        · obtain ⟨_, _, _, _, he⟩ := exists_of_mem_callDue crypto (hsub.subset hnew)
          cases he
      have hmessage : call.message = some message := congrArg HandlerCall.message heq
      unfold closing at hclosing
      rw [hmessage] at hclosing
      simp only at hclosing
      split_ifs at hclosing
      · cases hclosing
      · cases mem_singleton.mp hclosing
      · cases hclosing
  | sessions ctlSessions svrSessions => exact h

/-! ## Calls -/

/-- The call of the original handler of a record that is due for an operation. -/
def dueCall (client : AlcsClient A C) (item : ℕ) : AlcsOp A → Option (SecureEffect A)
  | .server op _ _ => (handlerCall client.ctx (otherOp op)).bind fun call =>
    if call.item = item then callDue crypto client call else none
  | _ => none

/-- A message that is received fits the buffer, or a larger one can be had. -/
def BufferedOp : AlcsOp A → Prop
  | .server (.receive _ _ buf datalen) malloc _ =>
    (received buf datalen).payloadlen < 128 ∨ malloc = true
  | _ => True

theorem buffered_of_bufferedOp {malloc : Bool} {uptime : UInt64}
    (h : BufferedOp (.server op malloc uptime)) {call : HandlerCall}
    (hcall : handlerCall ctx (otherOp op) = some call) :
    Buffered malloc call := by
  intro message hmessage
  have hnode : ∀ {found : Option (CoapSendNode (SendHandler A) ℕ)} {result : CoapReqResult},
      found.bind (nodeCall result) = some call → call.message = none := by
    intro found result hbind
    obtain ⟨node, -, hsome⟩ := bind_eq_some_iff.mp hbind
    obtain ⟨item, -, rfl⟩ := map_eq_some_iff.mp hsome
    rfl
  cases op with
  | receive env remote buf datalen =>
    simp only [otherOp, handlerCall] at hcall
    split_ifs at hcall
    · rw [hnode hcall] at hmessage
      cases hmessage
    · obtain ⟨item, -, rfl⟩ := map_eq_some_iff.mp hcall
      cases hmessage
      exact h
  | checkTimeout tick =>
    rw [hnode hcall] at hmessage
    cases hmessage
  | _ => cases hcall

theorem callsOf_closing (item : ℕ) (client : AlcsClient A C) (call : HandlerCall) :
    callsOf item (closing client call) = [] := by
  unfold closing
  split_ifs
  · split
    · rfl
    · split_ifs <;> rfl
  · rfl

theorem callsOf_callDue (item : ℕ) (client : AlcsClient A C) (call : HandlerCall) :
    callsOf item (callDue crypto client call).toList =
      (if call.item = item then callDue crypto client call else none).toList := by
  split_ifs with hitem
  · refine filter_eq_self.mpr ?_
    intro e he
    obtain ⟨_, _, _, _, rfl⟩ := exists_of_mem_callDue crypto he
    exact decide_eq_true hitem
  · refine callsOf_eq_nil ?_
    intro e he
    obtain ⟨_, _, _, _, rfl⟩ := exists_of_mem_callDue crypto he
    exact hitem

/-- An operation calls the original handler of a record exactly when a call is due. -/
theorem callsOf_alcsStep (item : ℕ) {op : AlcsOp A}
    (h : BufferedOp op) :
    callsOf item (alcsStep crypto client op).log =
      callsOf item client.log ++ (dueCall crypto client item op).toList := by
  cases op with
  | secureSend env devKey message observe handler =>
    show callsOf item (alcsSendmsgSecure crypto env client devKey message observe handler).2.log =
      callsOf item client.log ++ []
    rw [append_nil]
    rcases alcsSendmsgSecure_cases crypto env client devKey message observe handler with
      heq | ⟨session, -, heq⟩
    · rw [heq]
    · rw [heq]
  | server op malloc uptime =>
    have hstep := stepTo_alcsServerStep crypto malloc uptime client op
    show callsOf item (alcsServerStep crypto malloc uptime client op).log =
      callsOf item client.log ++ ((handlerCall client.ctx (otherOp op)).bind fun call =>
        if call.item = item then callDue crypto client call else none).toList
    cases hcall : handlerCall client.ctx (otherOp op) with
    | none =>
      rw [hstep.log_silent hcall]
      exact (append_nil _).symm
    | some call =>
      obtain ⟨called, hlog, -, hcalled⟩ := hstep.log_call call hcall
      rw [hlog, hcalled (buffered_of_bufferedOp h hcall), callsOf_append, callsOf_append,
        callsOf_closing, callsOf_callDue, append_nil]
      rfl
  | sessions ctlSessions svrSessions => exact (append_nil _).symm

/-! ## Every run -/

/-- **Secured requests.**  In every run of orderly operations, the handler never goes to a message
that is gone; a request that was sent waits with its record allocated and nothing called, or its
record was freed once and its handler called at most once and never again.  The original handler is
called exactly when it is due: for a response that names the session with its sender, with the
payload under its key, or for a timeout. -/
theorem secure_request_completion (sendMax obsMax : UInt8) (resource : CoapList (CoapResource C))
    (before later : List (AlcsOp A)) (env : CoapEnv) (devKey : AlcsDeviceKey)
    (message : CoapSendMessage A ℕ) (observe : ℕ) (handler : A)
    (hok : AllSteps (alcsStep crypto) Orderly (alcsClientInit sendMax obsMax resource)
      (before ++ .secureSend env devKey message observe handler :: later))
    (hreq : coapReqMsg message.header)
    (hsent : (alcsSendmsgSecure crypto env
      (alcsRun crypto (alcsClientInit sendMax obsMax resource) before) devKey message observe
      handler).1 = coapSuccess) :
    let item := (alcsRun crypto (alcsClientInit sendMax obsMax resource) before).items.length
    let client : AlcsClient A C := alcsRun crypto (alcsClientInit sendMax obsMax resource)
      (before ++ .secureSend env devKey message observe handler :: later)
    (∀ record, .nullMessage record ∉ client.log) ∧
      ((pendingKeeps client.ctx item = [.nokeep] ∧ frees item client.log = 0 ∧
          callsOf item client.log = []) ∨
        (frees item client.log = 1 ∧ (callsOf item client.log).length ≤ 1 ∧
          ∀ later op call, handlerCall (alcsRun crypto client later).ctx op = some call →
            call.item ≠ item)) ∧
      ∀ record op, BufferedOp op → callsOf record (alcsStep crypto client op).log =
        callsOf record client.log ++ (dueCall crypto client record op).toList := by
  intro item client
  obtain ⟨hbefore, hsend, hlater⟩ := (allSteps_append _ _ _).mp hok
  have hfresh : Fresh (alcsRun crypto (alcsClientInit sendMax obsMax resource) before) :=
    inv_foldl Fresh (fun _ op h => h.alcsStep crypto op) (fresh_init sendMax obsMax resource) before
  have hcourse : Course item client := by
    have hrun : client = alcsRun crypto (alcsStep crypto
        (alcsRun crypto (alcsClientInit sendMax obsMax resource) before)
        (.secureSend env devKey message observe handler)) later := foldl_append
    rw [hrun]
    exact inv_of_allSteps (fun _ _ h hop => h.alcsStep crypto hop) later
      (waiting_of_secureSend crypto hfresh hreq hsend hsent) hlater
  have hnull : NoNull client :=
    inv_of_allSteps (fun _ _ h hop => h.alcsStep crypto hop) _ (fun _ => not_mem_nil) hok
  refine ⟨hnull, ?_, fun record _ hbuffered => callsOf_alcsStep crypto client record hbuffered⟩
  rcases hcourse.state with hwait | hdone
  · exact .inl ⟨hwait.pending, frees_eq_zero hwait.log, callsOf_eq_nil hwait.log⟩
  refine .inr ⟨hdone.frees, hdone.calls, ?_⟩
  intro later' op call hcall
  have hgone : Gone item (alcsRun crypto client later') :=
    inv_foldl (Gone item) (fun _ op h => h.alcsStep crypto op)
      ⟨hcourse.allocated, hdone.absent⟩ later'
  exact hgone.absent.not_called hcall

/-- A session with the device `(ab, c)` at one remote, under the id 256. -/
def sessionAb : SessionItem :=
  ⟨randomKeyA, 256, Vector.replicate 20 0, 0, 0, remoteA,
    deviceChecksum plainCrypto ⟨remoteA, pkAb.chars, dnC.chars⟩⟩

abbrev coapMessageTypeNon : Fin 4 := 1

/-- A GET request with the id 7 and the token `55`. -/
def getRequest (type : Fin 4) (keep : ℤ) : CoapSendMessage ℕ ℕ where
  header := ⟨1, type, 1, coapMsgCodeGet, 7⟩
  token := fun _ => 0x55
  options := []
  payloadlen := 0
  payload := none
  handler := none
  user := none
  keep := keep

/-- All can be allocated; what is written is `n` bytes long. -/
def envWritten (n : UInt16) : CoapEnv := ⟨true, true, true, n, 0⟩

/-- The request is sent to the device in a session. -/
def secureGet (type : Fin 4) (keep : ℤ) : List (AlcsOp ℕ) :=
  [.sessions [sessionAb] [],
    .secureSend (envWritten 11) ⟨remoteA, pkAb.chars, dnC.chars⟩ (getRequest type keep) 1 9]

def datagram (bytes : Bytes) : AlcsOp ℕ :=
  .server (.receive (envWritten 4) remoteA (fun i => bytes.getD i 0) (UInt16.ofNat bytes.length))
    true 0

/-- The content `2a` for the token, in the session 256. -/
def content : AlcsOp ℕ := datagram [0x51, 0x45, 0, 9, 0x55, 0xd2, 0x3a, 1, 0, 0xff, 0x2a]

def notification : AlcsOp ℕ :=
  datagram [0x51, 0x45, 0, 9, 0x55, 0x60, 0xd2, 0x34, 1, 0, 0xff, 0x2a]

def emptyAck : AlcsOp ℕ := datagram [0x60, 0, 0, 7]

def aloneClient : AlcsClient ℕ ℕ := alcsClientInit 8 8 (CoapList.init _ 8)

/-- A request that is answered without `Observe` has its handler called and its record freed. -/
theorem secure_request_completion_answered :
    let client := alcsRun plainCrypto aloneClient (secureGet coapMessageTypeCon 0 ++ [content])
    client.log = [.call 0 9 .requestSuccess none remoteA (some [0x2a]), .free 0] ∧
      ∀ later op call, handlerCall (alcsRun plainCrypto client later).ctx op = some call →
        call.item ≠ 0 := by
  intro client
  have hlog : client.log = [.call 0 9 .requestSuccess none remoteA (some [0x2a]), .free 0] := rfl
  refine ⟨hlog, ?_⟩
  have hok : AllSteps (alcsStep plainCrypto) Orderly aloneClient
      (secureGet coapMessageTypeCon 0 ++ [content]) := by
    refine ⟨trivial, (by decide : ¬ (platformIsMulticast remoteA ∨ (0 : ℤ) = 1)), ?_, trivial⟩
    simp only [content, datagram, Orderly, OrderlyServer]
    rw [if_neg (by decide)]
    exact fun _ _ => ⟨by decide, .inl (by decide)⟩
  obtain ⟨-, hcourse, -⟩ := secure_request_completion plainCrypto 8 8 (CoapList.init _ 8)
    [.sessions [sessionAb] []] [content] (envWritten 11) ⟨remoteA, pkAb.chars, dnC.chars⟩
    (getRequest coapMessageTypeCon 0) 1 9 hok (by decide) rfl
  rcases hcourse with ⟨-, hfrees, -⟩ | ⟨-, -, hnever⟩
  · exact absurd hfrees (by decide : frees 0 client.log ≠ 0)
  · exact hnever

/-- The empty ACK for a request and the end of its time both bring the handler to a message
that is not there; a request that is kept is freed with every response; and a notification
leaves the record behind, though nothing holds it after the next response. -/
theorem secure_request_completion_broken :
    (alcsRun plainCrypto aloneClient (secureGet coapMessageTypeCon 0 ++ [emptyAck])).log =
        [.nullMessage 0] ∧
      (alcsRun plainCrypto aloneClient (secureGet coapMessageTypeNon 0 ++
          [.server (.checkTimeout 2401) true 0])).log =
        [.call 0 9 .recvRespTimeout none remoteA none, .nullMessage 0] ∧
      frees 0 (alcsRun plainCrypto aloneClient
        (secureGet coapMessageTypeCon 1 ++ [content, content])).log = 2 ∧
      (let client := alcsRun plainCrypto aloneClient
        (secureGet coapMessageTypeCon 0 ++ [notification, content])
      frees 0 client.log = 0 ∧ client.ctx.sendlist.list = [] ∧ client.ctx.obsclient.list = []) :=
  ⟨rfl, rfl, rfl, rfl, rfl, rfl⟩

end Iotkit.Alcs
