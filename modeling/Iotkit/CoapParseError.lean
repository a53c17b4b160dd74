/-
# Datagrams that fail to parse

Both ends read a datagram into a message of zeros and dispatch the message, whatever
`CoAPDeserialize_Message` returned.  What a failed parse leaves is classified like any other
message: a datagram of less than four bytes is a ping, a truncated acknowledgement is an
acknowledgement, and so on.  For each handler we say exactly when it does nothing.
-/
import Iotkit.CoapServer
import Iotkit.CloudCoap

namespace Iotkit.Coap

open List hiding Vector
open Option

variable {H U C : Type}

/-- Nothing has happened to the context: its lists and its table of resources are as they
were, no handler was called and nothing was written. -/
structure Undisturbed (ctx ctx' : CoapIntContext H U C) : Prop where
  sendlist_eq : ctx'.sendlist = ctx.sendlist
  obsserver_eq : ctx'.obsserver = ctx.obsserver
  obsclient_eq : ctx'.obsclient = ctx.obsclient
  resource_eq : ctx'.resource = ctx.resource
  trace_eq : ctx'.trace = ctx.trace

theorem undisturbed_refl (ctx : CoapIntContext H U C) : Undisturbed ctx ctx :=
  ⟨rfl, rfl, rfl, rfl, rfl⟩

variable {ctx : CoapIntContext H U C}

theorem not_undisturbed_of_trace {ctx' : CoapIntContext H U C}
    (h : ctx.trace.length < ctx'.trace.length) : ¬ Undisturbed ctx ctx' := by
  intro hu
  rw [hu.trace_eq] at h
  exact lt_irrefl _ h

theorem not_undisturbed_of_emit {ctx' : CoapIntContext H U C} (effect : CoapEffect H U C)
    (h : ctx.trace.length ≤ ctx'.trace.length) : ¬ Undisturbed ctx (ctx'.emit effect) := by
  apply not_undisturbed_of_trace
  simp only [CoapIntContext.emit, length_append, length_singleton]
  omega

/-! ## Lists that do not change -/

theorem delFirst_eq_self_iff {α : Type} (l : CoapList α) (p : α → Bool) :
    l.delFirst p = l ↔ ∀ a ∈ l.list, ¬ p a = true := by
  unfold CoapList.delFirst
  split_ifs with hany
  · obtain ⟨a, ha, hpa⟩ := any_eq_true.mp hany
    refine ⟨fun heq => ?_, fun hall => absurd hpa (hall a ha)⟩
    have hlen := length_eraseP_add_one ha hpa
    have hlist : l.list.eraseP p = l.list := congrArg CoapList.list heq
    rw [hlist] at hlen
    omega
  · refine ⟨fun _ a ha hpa => hany (any_eq_true.mpr ⟨a, ha, hpa⟩), fun _ => rfl⟩

theorem updateFirst_eq_self_iff {α : Type} (l : List α) (p : α → Bool) (f : α → α) :
    updateFirst p f l = l ↔ ∀ a, l.find? p = some a → f a = a := by
  induction l with
  | nil => simp [updateFirst]
  | cons b l ih =>
    unfold updateFirst
    split_ifs with hb
    · simp [hb]
    · simp [hb, ih]

theorem CoapList.updateFirst_eq_self_iff {α : Type} (l : CoapList α) (p : α → Bool) (f : α → α) :
    l.updateFirst p f = l ↔ ∀ a, l.list.find? p = some a → f a = a := by
  rw [← Coap.updateFirst_eq_self_iff]
  constructor
  · intro heq
    exact congrArg CoapList.list heq
  · intro heq
    unfold CoapList.updateFirst
    rw [heq]

/-! ## Sending -/

theorem length_trace_lt_coapMessageSend {env : CoapEnv} (hbuff : env.buff = true)
    (ctx : CoapIntContext H U C) (remote : NetworkAddr) {message : CoapSendMessage H U}
    (hfits : (coapSerializeMessageLength message.toCoapMessage).toNat ≤ coapMsgMaxPduLen) :
    ctx.trace.length < (coapMessageSend env ctx remote message).2.trace.length := by
  unfold coapMessageSend coapMessageListAdd coapObsClientDelete CoapIntContext.writeNew
  rw [if_neg (by omega), if_neg (by simpa using hbuff)]
  simp only
  split_ifs <;> simp

theorem coapMessageSend_of_not_buff {env : CoapEnv} (hbuff : env.buff = false)
    (ctx : CoapIntContext H U C) (remote : NetworkAddr) (message : CoapSendMessage H U) :
    (coapMessageSend env ctx remote message).2 = ctx := by
  unfold coapMessageSend
  simp only
  rw [if_pos (by simp [hbuff] : ¬ env.buff = true)]
  split_ifs <;> rfl

variable (env : CoapEnv) (ctx : CoapIntContext H U C) (remote : NetworkAddr)

theorem length_trace_le_coapMessageSend (message : CoapSendMessage H U) :
    ctx.trace.length ≤ (coapMessageSend env ctx remote message).2.trace.length := by
  unfold coapMessageSend coapMessageListAdd coapObsClientDelete CoapIntContext.writeNew
  simp only
  split_ifs <;> simp

theorem coapMessageSend_undisturbed_iff {message : CoapSendMessage H U}
    (hfits : (coapSerializeMessageLength message.toCoapMessage).toNat ≤ coapMsgMaxPduLen) :
    Undisturbed ctx (coapMessageSend env ctx remote message).2 ↔ env.buff = false := by
  constructor
  · intro hu
    by_contra hbuff
    exact not_undisturbed_of_trace
      (length_trace_lt_coapMessageSend (by simpa using hbuff) ctx remote hfits) hu
  · intro hbuff
    rw [coapMessageSend_of_not_buff hbuff]
    exact undisturbed_refl ctx

theorem coapSerializeMessageLength_init_le (header : CoapMsgHeader) (token : Memory) :
    (coapSerializeMessageLength ⟨header, token, [], 0, none⟩).toNat ≤ coapMsgMaxPduLen := by
  have hshort : ∀ tokenlen : Fin 16,
      (4 + UInt16.ofNat tokenlen + 0 + 0 : UInt16).toNat ≤ coapMsgMaxPduLen := by decide
  exact hshort header.tokenlen

/-! ## The handlers of the server -/

/-- The acknowledged node, if there is one, is a request that was acknowledged before and has
no handler. -/
def AckIgnored (ctx : CoapIntContext H U C) (message : CoapMessage Memory) : Prop :=
  ∀ node, ctx.sendlist.list.find? (fun node => node.header.msgid = message.header.msgid) =
      some node →
    node.acked = true ∧ ¬ coapRespMsg node.header ∧ node.handler = none

theorem coapAckMessageHandle_undisturbed_iff (ctx : CoapIntContext H U C)
    (message : CoapMessage Memory) :
    Undisturbed ctx (coapAckMessageHandle ctx message) ↔ AckIgnored ctx message := by
  unfold coapAckMessageHandle AckIgnored
  simp only
  cases hfind : ctx.sendlist.list.find? fun node => node.header.msgid = message.header.msgid with
  | none => simpa using undisturbed_refl ctx
  | some node =>
    simp only [some.injEq, forall_eq']
    constructor
    · intro hu
      cases hhandler : node.handler with
      | some handler =>
        rw [hhandler] at hu
        exact absurd hu (not_undisturbed_of_emit _ (by split_ifs <;> exact le_rfl))
      | none =>
        rw [hhandler] at hu
        split_ifs at hu with hresp
        · have hdel := (delFirst_eq_self_iff _ _).mp hu.sendlist_eq node
            (mem_of_find?_eq_some hfind)
          exact absurd (List.find?_some hfind) hdel
        · have hup := (CoapList.updateFirst_eq_self_iff _ _ _).mp hu.sendlist_eq node hfind
          exact ⟨congrArg CoapSendNode.acked hup.symm, hresp, rfl⟩
    · rintro ⟨hacked, hresp, hhandler⟩
      rw [hhandler, if_neg hresp]
      refine ⟨(CoapList.updateFirst_eq_self_iff _ _ _).mpr ?_, rfl, rfl, rfl, rfl⟩
      intro node' hfind'
      obtain rfl : node = node' := some_injective _ (hfind.symm.trans hfind')
      rw [← hacked]

/-- A message that answers no request in the send list: a notification finds no observation
or one that it leaves as it is and that has no callback; any other message finds none. -/
def NotificationIgnored (ctx : CoapIntContext H U C) (message : CoapMessage Memory) : Prop :=
  if coapOptionPresent message.options coapOptionObserve then
    ∀ node, ctx.obsclient.list.find? (CoapObservable.hasToken message) = some node →
      node.callback = none ∧
        (coapUintOptionGet message.options coapOptionMaxage node.maxAge).getD node.maxAge =
          node.maxAge
  else ∀ node ∈ ctx.obsclient.list, ¬ node.hasToken message = true

theorem coapObsClientAdd_undisturbed_iff (malloc : Bool) (ctx : CoapIntContext H U C)
    (message : CoapMessage Memory) (remote : NetworkAddr) :
    Undisturbed ctx (coapObsClientAdd malloc ctx message remote none) ↔
      NotificationIgnored ctx message := by
  unfold coapObsClientAdd NotificationIgnored
  by_cases hobserve : coapOptionPresent message.options coapOptionObserve = true
  · rw [if_pos hobserve, if_pos hobserve]
    cases hfind : ctx.obsclient.list.find? (CoapObservable.hasToken message) with
    | none => simpa using undisturbed_refl ctx
    | some node =>
      simp only [some.injEq, forall_eq']
      constructor
      · intro hu
        cases hcallback : node.callback with
        | some callback =>
          rw [hcallback] at hu
          exact absurd hu (not_undisturbed_of_emit _ le_rfl)
        | none =>
          rw [hcallback] at hu
          have hup := (CoapList.updateFirst_eq_self_iff _ _ _).mp hu.obsclient_eq node hfind
          exact ⟨rfl, congrArg CoapObservable.maxAge hup⟩
      · rintro ⟨hcallback, hage⟩
        rw [hcallback]
        refine ⟨rfl, rfl, (CoapList.updateFirst_eq_self_iff _ _ _).mpr ?_, rfl, rfl⟩
        intro node' hfind'
        obtain rfl : node = node' := some_injective _ (hfind.symm.trans hfind')
        rw [hage]
  · rw [if_neg hobserve, if_neg hobserve, ← delFirst_eq_self_iff]
    exact ⟨fun hu => hu.obsclient_eq, fun heq => ⟨rfl, rfl, heq, rfl, rfl⟩⟩

/-- A response is not acknowledged, and is for a kept node without a handler or is ignored as
a notification. -/
def RespIgnored (env : CoapEnv) (ctx : CoapIntContext H U C)
    (message : CoapMessage Memory) : Prop :=
  (message.header.type = coapMessageTypeCon → env.buff = false) ∧
    match ctx.sendlist.list.find? (CoapSendNode.hasToken message) with
    | some node => node.keep ≠ .nokeep ∧ node.handler = none
    | none => NotificationIgnored ctx message

theorem length_trace_le_coapObsClientAdd (malloc : Bool) (ctx : CoapIntContext H U C)
    (message : CoapMessage Memory) (remote : NetworkAddr)
    (sendnode : Option (CoapSendNode H U)) :
    ctx.trace.length ≤ (coapObsClientAdd malloc ctx message remote sendnode).trace.length := by
  unfold coapObsClientAdd CoapIntContext.emit
  cases sendnode with
  | none =>
    cases ctx.obsclient.list.find? (CoapObservable.hasToken message) with
    | none => split_ifs <;> rfl
    | some node =>
      simp only
      cases node.callback <;> split_ifs <;> simp
  | some sendnode => split_ifs <;> rfl

/-- The responses that are not acknowledged. -/
theorem coapRespMessageHandle_undisturbed_iff_of_eq {env : CoapEnv} {ctx : CoapIntContext H U C}
    {remote : NetworkAddr} {message : CoapMessage Memory}
    (hack : (if message.header.type = coapMessageTypeCon then
      (coapAckMessageSend env ctx remote message.header.msgid).2 else ctx) = ctx) :
    Undisturbed ctx (coapRespMessageHandle env ctx remote message) ↔
      match ctx.sendlist.list.find? (CoapSendNode.hasToken message) with
      | some node => node.keep ≠ .nokeep ∧ node.handler = none
      | none => NotificationIgnored ctx message := by
  unfold coapRespMessageHandle
  simp only
  rw [hack]
  cases hfind : ctx.sendlist.list.find? (CoapSendNode.hasToken message) with
  | none => exact coapObsClientAdd_undisturbed_iff env.obs ctx message remote
  | some node =>
    simp only
    cases hhandler : node.handler with
    | some handler =>
      simp only [reduceCtorEq, and_false, iff_false]
      apply not_undisturbed_of_emit
      refine le_trans (le_of_eq ?_) (length_trace_le_coapObsClientAdd env.obs _ message remote _)
      split_ifs <;> rfl
    | none =>
      simp only [and_true]
      split_ifs with hkeep
      · refine iff_of_false (fun hu => ?_) (fun hne => hne hkeep)
        have hdel := (delFirst_eq_self_iff _ _).mp hu.sendlist_eq node (mem_of_find?_eq_some hfind)
        exact hdel (List.find?_some hfind)
      · exact iff_of_true (undisturbed_refl ctx) hkeep

variable (message : CoapMessage Memory)

theorem length_trace_le_coapRespMessageHandle :
    (if message.header.type = coapMessageTypeCon then
      (coapAckMessageSend env ctx remote message.header.msgid).2 else ctx).trace.length ≤
      (coapRespMessageHandle env ctx remote message).trace.length := by
  unfold coapRespMessageHandle
  generalize (if message.header.type = coapMessageTypeCon then
    (coapAckMessageSend env ctx remote message.header.msgid).2 else ctx) = ctx1
  simp only
  cases ctx1.sendlist.list.find? (CoapSendNode.hasToken message) with
  | none => exact length_trace_le_coapObsClientAdd env.obs ctx1 message remote none
  | some node =>
    simp only
    cases node.handler with
    | none => split_ifs <;> rfl
    | some handler =>
      simp only [CoapIntContext.emit, length_append, length_singleton]
      apply Nat.le_succ_of_le
      refine le_trans (le_of_eq ?_) (length_trace_le_coapObsClientAdd env.obs _ message remote _)
      split_ifs <;> rfl

theorem coapRespMessageHandle_undisturbed_iff :
    Undisturbed ctx (coapRespMessageHandle env ctx remote message) ↔
      RespIgnored env ctx message := by
  unfold RespIgnored
  by_cases hcon : message.header.type = coapMessageTypeCon
  · cases hbuff : env.buff with
    | false =>
      have hack : (coapAckMessageSend env ctx remote message.header.msgid).2 = ctx :=
        coapMessageSend_of_not_buff hbuff ctx remote _
      rw [coapRespMessageHandle_undisturbed_iff_of_eq (by rw [if_pos hcon, hack])]
      simp
    | true =>
      -- the acknowledgement is written, and nothing takes a write back
      refine iff_of_false ?_ (fun h => Bool.noConfusion (h.1 hcon))
      have hsend := length_trace_le_coapRespMessageHandle env ctx remote message
      rw [if_pos hcon] at hsend
      have hack : ctx.trace.length <
          (coapAckMessageSend env ctx remote message.header.msgid).2.trace.length :=
        length_trace_lt_coapMessageSend hbuff ctx remote (coapSerializeMessageLength_init_le _ _)
      exact not_undisturbed_of_trace (Nat.lt_of_lt_of_le hack hsend)
  · rw [coapRespMessageHandle_undisturbed_iff_of_eq (if_neg hcon)]
    simp [hcon]

variable (md5 : Bytes → Vector UInt8 16)

/-- The request is for a resource that has a callback and admits its method. -/
def RequestServed (ctx : CoapIntContext H U C) (message : CoapMessage Memory) : Prop :=
  ∃ resource, coapResourceByPathGet md5 ctx (cChars (coapRequestPath [] message.options)) =
      some resource ∧ resource.callback.isSome ∧
    0 < resource.permission.toNat &&& 1 <<< (message.header.code.toNat - 1)

theorem coapRequestMessageHandle_undisturbed_iff :
    Undisturbed ctx (coapRequestMessageHandle md5 env ctx remote message) ↔
      env.buff = false ∧ ¬ RequestServed md5 ctx message := by
  have herr : ∀ errCode, Undisturbed ctx (coapErrRespMessageSend env ctx remote message errCode).2 ↔
      env.buff = false := fun errCode =>
    coapMessageSend_undisturbed_iff env ctx remote (coapSerializeMessageLength_init_le _ _)
  unfold coapRequestMessageHandle RequestServed
  simp only
  cases coapResourceByPathGet md5 ctx (cChars (coapRequestPath [] message.options)) with
  | none => simpa using herr _
  | some resource =>
    cases hcallback : resource.callback with
    | none => simpa [hcallback] using herr _
    | some callback =>
      simp only [some.injEq, exists_eq_left', hcallback, isSome_some, true_and]
      split_ifs with hperm hcon
      · refine iff_of_false ?_ (fun h => h.2 hperm)
        apply not_undisturbed_of_emit
        exact length_trace_le_coapMessageSend env ctx remote _
      · exact iff_of_false (not_undisturbed_of_emit _ le_rfl) (fun h => h.2 hperm)
      · simpa [hperm] using herr _

/-- When the server ignores a message: an acknowledgement or a response that concerns nobody,
a ping for whose answer there is no memory, a request that is not served and for whose error
response there is no memory, or a message of none of these kinds. -/
def ServerIgnores (env : CoapEnv) (ctx : CoapIntContext H U C) (message : CoapMessage Memory) :
    Prop :=
  if coapAckMsg message.header ∨ coapResetMsg message.header then AckIgnored ctx message
  else if coapRespMsg message.header then RespIgnored env ctx message
  else if coapPingMsg message.header then env.buff = false
  else if coapReqMsg message.header then env.buff = false ∧ ¬ RequestServed md5 ctx message
  else True

theorem coapMessageDispatch_undisturbed_iff (env : CoapEnv) (ctx : CoapIntContext H U C)
    (remote : NetworkAddr) (message : CoapMessage Memory) :
    Undisturbed ctx (coapMessageDispatch md5 env ctx remote message) ↔
      ServerIgnores md5 env ctx message := by
  unfold coapMessageDispatch ServerIgnores
  by_cases hack : coapAckMsg message.header ∨ coapResetMsg message.header
  · rw [if_pos hack, if_pos hack]
    exact coapAckMessageHandle_undisturbed_iff ctx message
  rw [if_neg hack, if_neg hack]
  by_cases hresp : coapRespMsg message.header
  · rw [if_pos hresp, if_pos hresp]
    exact coapRespMessageHandle_undisturbed_iff env ctx remote message
  rw [if_neg hresp, if_neg hresp]
  by_cases hping : coapPingMsg message.header
  · rw [if_pos hping, if_pos hping]
    exact coapMessageSend_undisturbed_iff env ctx remote (coapSerializeMessageLength_init_le _ _)
  rw [if_neg hping, if_neg hping]
  by_cases hreq : coapReqMsg message.header
  · rw [if_pos hreq, if_pos hreq]
    exact coapRequestMessageHandle_undisturbed_iff env ctx remote message md5
  · rw [if_neg hreq, if_neg hreq]
    exact iff_of_true (undisturbed_refl ctx) trivial

end Iotkit.Coap

/-! ## The cloud client -/

namespace Iotkit.Coap.Cloud

variable {R U : Type}

/-- Nothing has happened to the client. -/
structure Undisturbed (ctx ctx' : CloudContext R U) : Prop where
  list_eq : ctx'.list = ctx.list
  trace_eq : ctx'.trace = ctx.trace

theorem not_undisturbed_of_trace {ctx ctx' : CloudContext R U}
    (h : ctx.trace.length < ctx'.trace.length) : ¬ Undisturbed ctx ctx' := by
  intro hu
  rw [hu.trace_eq] at h
  exact lt_irrefl _ h

variable (env : CloudEnv) (ctx : CloudContext R U)

theorem length_trace_le_cloudMessageSend (message : CloudMessage R U) :
    ctx.trace.length ≤ (cloudMessageSend env ctx message).2.trace.length := by
  unfold cloudMessageSend cloudMessageListAdd CloudContext.writeNew
  split_ifs <;> simp

theorem length_trace_lt_cloudMessageSend {message : CloudMessage R U}
    (hfits : (coapSerializeMessageLength message.toCoapMessage).toNat ≤ coapMsgMaxPduLen) :
    ctx.trace.length < (cloudMessageSend env ctx message).2.trace.length := by
  unfold cloudMessageSend cloudMessageListAdd CloudContext.writeNew
  rw [if_neg (by omega)]
  split_ifs <;> simp

variable (calls : List (CloudEnv × CloudMessage R U))

variable (ctx : CloudContext R U)

theorem length_trace_le_handlerSends :
    ctx.trace.length ≤ (handlerSends ctx calls).trace.length := by
  induction calls generalizing ctx with
  | nil => exact le_rfl
  | cons call calls ih =>
    exact le_trans (length_trace_le_cloudMessageSend call.1 ctx call.2) (ih _)

variable (message : CoapMessage Memory)

/-- When the client ignores a message: an acknowledgement of nothing new, a response that is
not to be acknowledged and answers no request, or a message of another kind. -/
def ClientIgnores (ctx : CloudContext R U) (message : CoapMessage Memory) : Prop :=
  if coapAckMsg message.header then
    ∀ node, ctx.list.list.find? (fun node => node.msgid = message.header.msgid) = some node →
      node.acked = true
  else coapRespMsg message.header →
    message.header.type ≠ coapMessageTypeCon ∧ ∀ node ∈ ctx.list.list, ¬ node.hasToken message = true

theorem cloudAckMessageHandle_undisturbed_iff :
    Undisturbed ctx (cloudAckMessageHandle ctx message) ↔
      ∀ node, ctx.list.list.find? (fun node => node.msgid = message.header.msgid) = some node →
        node.acked = true := by
  constructor
  · intro hu node hfind
    have hup := (CoapList.updateFirst_eq_self_iff _ _ _).mp hu.list_eq node hfind
    exact congrArg CloudSendNode.acked hup.symm
  · intro hacked
    refine ⟨(CoapList.updateFirst_eq_self_iff _ _ _).mpr fun node hfind => ?_, rfl⟩
    rw [← hacked node hfind]

theorem cloudRespMessageHandle_undisturbed_iff :
    Undisturbed ctx (cloudRespMessageHandle env calls ctx message) ↔
      message.header.type ≠ coapMessageTypeCon ∧
        ∀ node ∈ ctx.list.list, ¬ node.hasToken message = true := by
  unfold cloudRespMessageHandle cloudRespMessageAck
  by_cases hcon : message.header.type = coapMessageTypeCon
  · -- the acknowledgement is written first, and nothing takes a write back
    rw [if_pos hcon]
    refine iff_of_false ?_ (fun h => h.1 hcon)
    apply not_undisturbed_of_trace
    have hack : ctx.trace.length <
        (cloudAckMessageSend env ctx message.header.msgid).2.trace.length :=
      length_trace_lt_cloudMessageSend env ctx (coapSerializeMessageLength_init_le _ _)
    generalize (cloudAckMessageSend env ctx message.header.msgid).2 = ctx1 at hack
    refine Nat.lt_of_lt_of_le hack ?_
    simp only
    cases ctx1.list.list.find? (CloudSendNode.hasToken message) with
    | none => exact le_rfl
    | some node =>
      simp only
      cases node.resp with
      | none => exact le_rfl
      | some resp =>
        exact le_trans (by simp [CloudContext.emit]) (length_trace_le_handlerSends calls _)
  · rw [if_neg hcon]
    simp only [ne_eq, hcon, not_false_eq_true, true_and]
    -- the token is not waited for, or its node leaves or is called
    cases hfind : ctx.list.list.find? (CloudSendNode.hasToken message) with
    | none => exact iff_of_true ⟨rfl, rfl⟩ (List.find?_eq_none.mp hfind)
    | some node =>
      have hmem := List.mem_of_find?_eq_some hfind
      refine iff_of_false (fun hu => ?_) (fun hall => hall node hmem (List.find?_some hfind))
      simp only at hu
      cases hresp : node.resp with
      | none =>
        rw [hresp] at hu
        exact (delFirst_eq_self_iff _ _).mp hu.list_eq node hmem (List.find?_some hfind)
      | some resp =>
        rw [hresp] at hu
        have hcalls := length_trace_le_handlerSends calls
          (ctx.emit (.resp node.send resp node.user message))
        have hsame : (handlerSends (ctx.emit (.resp node.send resp node.user message))
            calls).trace = ctx.trace := hu.trace_eq
        rw [hsame] at hcalls
        simp [CloudContext.emit] at hcalls

theorem cloudMessageDispatch_undisturbed_iff :
    Undisturbed ctx (cloudMessageDispatch env calls ctx message) ↔ ClientIgnores ctx message := by
  unfold cloudMessageDispatch ClientIgnores
  by_cases hack : coapAckMsg message.header
  · rw [if_pos hack, if_pos hack]
    exact cloudAckMessageHandle_undisturbed_iff ctx message
  rw [if_neg hack, if_neg hack]
  by_cases hresp : coapRespMsg message.header
  · rw [if_pos hresp, cloudRespMessageHandle_undisturbed_iff]
    exact ⟨fun h _ => h, fun h => h hresp⟩
  · rw [if_neg hresp]
    exact iff_of_true ⟨rfl, rfl⟩ fun h => absurd h hresp

/-- **Datagrams that fail to parse.**  Neither end looks at the result of the parse: whether it
failed or not, the server and the client leave everything as it was exactly when they ignore the
message that it has left. -/
theorem parse_error_undisturbed_iff {H V C : Type} (md5 : Bytes → Vector UInt8 16)
    (env : CoapEnv) (server : CoapIntContext H V C) (remote : NetworkAddr) (cloudEnv : CloudEnv)
    (calls : List (CloudEnv × CloudMessage R U)) (client : CloudContext R U) (buf : Memory)
    (datalen : UInt16) :
    (Coap.Undisturbed server (coapMessageHandle md5 env server remote buf datalen) ↔
        ServerIgnores md5 env server (received buf datalen)) ∧
      (Undisturbed client (cloudMessageHandle cloudEnv calls client buf datalen) ↔
        ClientIgnores client (received buf datalen)) :=
  ⟨coapMessageDispatch_undisturbed_iff md5 env server remote _,
    cloudMessageDispatch_undisturbed_iff cloudEnv calls client _⟩

/-- The environment of a call to which nothing is refused. -/
def plenty : CoapEnv := ⟨true, true, true, 4, 0⟩

def someAddr : NetworkAddr := ⟨Vector.replicate 16 0, 5683⟩

/-- A client that waits for the answer to a request with the token `0xAA`. -/
def waitingClient : CloudContext ℕ ℕ :=
  ⟨⟨[⟨0, none, 7, false, [0xAA], 0, 2, 2, none, none⟩], 1, 8⟩, 1, []⟩

/-- An empty non-confirmable message whose token is cut off is ignored by both ends. -/
theorem parse_error_undisturbed_empty :
    let buf := memOf [0x51, 0, 0, 7] fun _ => 0
    (coapDeserializeMessage zeroMessage buf 4).1 = coapErrorInvalidLength ∧
      Coap.Undisturbed (coapContextCreate 8 8 (CoapList.init _ 8) : CoapIntContext ℕ ℕ ℕ)
        (coapMessageHandle (fun _ => Vector.replicate 16 0) plenty
          (coapContextCreate 8 8 (CoapList.init _ 8)) someAddr buf 4) ∧
      Undisturbed waitingClient (cloudMessageHandle ⟨true, true, true⟩ [] waitingClient buf 4) := by
  intro buf
  have hrc : (coapDeserializeMessage zeroMessage buf 4).1 = coapErrorInvalidLength := by decide
  have hiff := parse_error_undisturbed_iff (fun _ => Vector.replicate 16 0) plenty
    (coapContextCreate 8 8 (CoapList.init _ 8) : CoapIntContext ℕ ℕ ℕ) someAddr
    ⟨true, true, true⟩ [] waitingClient buf 4
  refine ⟨hrc, hiff.1.mpr ?_, hiff.2.mpr ?_⟩
  · unfold ServerIgnores
    rw [if_neg (by decide), if_neg (by decide), if_neg (by decide), if_neg (by decide)]
    trivial
  · unfold ClientIgnores
    rw [if_neg (by decide)]
    intro hresp
    exact absurd hresp (by decide)

/-- A datagram of one byte makes the server answer with a reset; a response whose last option
is cut off takes the request it answers out of the client's list. -/
theorem parse_error_disturbs :
    ((coapDeserializeMessage zeroMessage (memOf [0x40] fun _ => 0) 1).1 = coapErrorInvalidLength ∧
      ¬ Coap.Undisturbed (coapContextCreate 8 8 (CoapList.init _ 8) : CoapIntContext ℕ ℕ ℕ)
        (coapMessageHandle (fun _ => Vector.replicate 16 0) plenty
          (coapContextCreate 8 8 (CoapList.init _ 8)) someAddr (memOf [0x40] fun _ => 0) 1)) ∧
    ((coapDeserializeMessage zeroMessage
        (memOf [0x51, 0x45, 0, 9, 0xAA, 0x60] fun _ => 0) 6).1 = coapErrorInvalidLength ∧
      ¬ Undisturbed waitingClient (cloudMessageHandle ⟨true, true, true⟩ [] waitingClient
        (memOf [0x51, 0x45, 0, 9, 0xAA, 0x60] fun _ => 0) 6)) := by
  refine ⟨⟨by decide, fun hu => ?_⟩, ⟨by decide, fun hu => ?_⟩⟩
  · have hlen := congrArg List.length hu.trace_eq
    revert hlen
    decide
  · have hlen := congrArg (fun l => l.list.length) hu.list_eq
    revert hlen
    decide

end Iotkit.Coap.Cloud
