/-
# The observers of the CoAP server

Every change that an operation of the server makes to one of its two lists of observers is a
`TableChange`: entries of one key are updated or deleted, or an entry with a new key is
added where there is room.  Such changes keep the keys distinct and the list counted, and
leave the entries of all other keys as they are.
-/
import Iotkit.CoapSendList

namespace Iotkit.Coap

open List hiding Vector

variable {H U C : Type}

/-! ## Changes of a table -/

/-- A change of a table with the keys `key` that touches only entries with `p`. -/
inductive TableChange {α κ : Type} (key : α → κ) (p : α → Bool) (l : CoapList α) :
    CoapList α → Prop
  | same : TableChange key p l l
  | update (f : α → α) (hkey : ∀ a, key (f a) = key a) (hp : ∀ a, p a = true → p (f a) = true) :
      TableChange key p l (l.updateFirst p f)
  | delFirst : TableChange key p l (l.delFirst p)
  | delAll : TableChange key p l (l.delAll p)
  | add (a : α) (hp : p a = true) (hnew : key a ∉ l.list.map key)
      (hroom : l.count < l.maxcount) : TableChange key p l (l.addTail a)

theorem filter_updateFirst {α : Type} {p : α → Bool} {f : α → α}
    (hp : ∀ a, p a = true → p (f a) = true) (l : List α) :
    ((updateFirst p f l).filter fun a => !p a) = l.filter fun a => !p a := by
  induction l with
  | nil => rfl
  | cons a l ih =>
    unfold updateFirst
    split_ifs with ha
    · rw [filter_cons_of_neg (by simp [hp a ha]), filter_cons_of_neg (by simp [ha])]
    · rw [filter_cons_of_pos (by simp [ha]), filter_cons_of_pos (by simp [ha]), ih]

theorem filter_eraseP {α : Type} (p : α → Bool) (l : List α) :
    ((l.eraseP p).filter fun a => !p a) = l.filter fun a => !p a := by
  induction l with
  | nil => rfl
  | cons a l ih =>
    by_cases ha : p a = true
    · rw [eraseP_cons_of_pos ha, filter_cons_of_neg (by simp [ha])]
    · rw [eraseP_cons_of_neg ha, filter_cons_of_pos (by simp [ha]),
        filter_cons_of_pos (by simp [ha]), ih]

namespace TableChange

variable {α κ : Type} {key : α → κ} {p : α → Bool} {l l' : CoapList α}

theorem counted (h : TableChange key p l l') (hl : l.Counted) : l'.Counted := by
  cases h with
  | same => exact hl
  | update f _ _ => exact hl.of_length_eq (length_updateFirst p f l.list)
  | delFirst => exact hl.delFirst p
  | delAll => exact hl.delAll p
  | add a _ _ hroom => exact hl.addTail hroom a

theorem nodup (h : TableChange key p l l') (hl : (l.list.map key).Nodup) :
    (l'.list.map key).Nodup := by
  cases h with
  | same => exact hl
  | update f hkey _ => rwa [CoapList.updateFirst, map_updateFirst p hkey]
  | delFirst =>
    unfold CoapList.delFirst
    split_ifs
    · exact hl.sublist (eraseP_sublist.map key)
    · exact hl
  | delAll => exact hl.sublist (filter_sublist.map key)
  | add a _ hnew _ =>
    rw [CoapList.addTail, map_append, map_singleton]
    exact nodup_append.mpr ⟨hl, nodup_singleton _, fun b hb c hc heq =>
      hnew (by rwa [← mem_singleton.mp hc, ← heq])⟩

theorem others (h : TableChange key p l l') :
    (l'.list.filter fun a => !p a) = l.list.filter fun a => !p a := by
  cases h with
  | same => rfl
  | update f _ hp => exact filter_updateFirst hp l.list
  | delFirst =>
    unfold CoapList.delFirst
    split_ifs
    · exact filter_eraseP p l.list
    · rfl
  | delAll => simp [CoapList.delAll]
  | add a hp _ _ => simp [CoapList.addTail, hp]

end TableChange

/-! ## The observers of resources -/

/-- What an observer is known by: the resource, and the address and port of the remote. -/
def CoapObserver.key (node : CoapObserver) : ℕ × NetworkAddr := (node.resource, node.remote)

theorem CoapObserver.isFor_iff (resource : ℕ) (remote : NetworkAddr) (node : CoapObserver) :
    node.isFor resource remote = true ↔ node.key = (resource, remote) := by
  obtain ⟨addr, port⟩ := remote
  obtain ⟨⟨addr', port'⟩, -⟩ := node
  simp [CoapObserver.isFor, CoapObserver.key, and_comm]

/-- The observers that an operation may touch. -/
def touchesObserver (md5 : Bytes → Vector UInt8 16) (ctx : CoapIntContext H U C) :
    ServerOp H U → CoapObserver → Bool
  | .obsAdd _ _ _ path remote _, node =>
    (coapResourceByPathGet md5 ctx path).any fun resource => node.isFor resource.ptr remote
  | .obsDelete remote resource, node => node.isFor resource remote
  | .obsAllDelete remote, node => node.isOf remote
  | .checkTimeout tick, node =>
    (ctx.sendlist.list.find? (CoapSendNode.timedOut tick)).any fun sent => node.isOf sent.remote
  | _, _ => false

variable (md5 : Bytes → Vector UInt8 16)

theorem coapObsServerAdd_change (malloc : Bool) (observe : UInt32)
    (overrun : CoapObserver → CoapObserver) (ctx : CoapIntContext H U C) (path : Bytes)
    (remote : NetworkAddr) {request : CoapMessage Memory}
    (hshort : request.header.tokenlen.val ≤ coapMsgMaxTokenLen) :
    TableChange CoapObserver.key
      (fun node => (coapResourceByPathGet md5 ctx path).any fun resource =>
        node.isFor resource.ptr remote)
      ctx.obsserver
      (coapObsServerAdd md5 malloc observe overrun ctx path remote request).2.obsserver := by
  have hcopy : ∀ node, CoapObserver.copyToken overrun request node =
      { node with token := request.tokenBytes } := by
    intro node
    rw [CoapObserver.copyToken, if_pos hshort]
  unfold coapObsServerAdd
  cases hres : coapResourceByPathGet md5 ctx path with
  | none => exact .same
  | some resource =>
    simp only [Option.any_some]
    split
    · next found hfound _ =>
        obtain rfl : resource = found := Option.some.inj hfound
        by_cases hany : ctx.obsserver.list.any (CoapObserver.isFor resource.ptr remote) = true
        · rw [if_pos hany]
          refine .update _ (fun node => ?_) (fun node hnode => ?_)
          · rw [hcopy]
            rfl
          · rw [hcopy]
            exact hnode
        rw [if_neg hany]
        by_cases hmalloc : ¬ malloc = true
        · rw [if_pos hmalloc]
          exact .same
        rw [if_neg hmalloc]
        by_cases hfull : ctx.obsserver.count ≥ ctx.obsserver.maxcount
        · simp only [if_pos hfull]
          exact .same
        · simp only [if_neg hfull, hcopy]
          refine .add _ ((CoapObserver.isFor_iff _ _ _).mpr rfl) ?_ (UInt8.not_le.mp hfull)
          intro hmem
          obtain ⟨node, hnode, hkey⟩ := mem_map.mp hmem
          exact hany (any_eq_true.mpr ⟨node, hnode, (CoapObserver.isFor_iff _ _ _).mpr hkey⟩)
    · exact .same

variable (ctx : CoapIntContext H U C)

theorem checkTimeout_change (tick : UInt64) :
    TableChange CoapObserver.key (touchesObserver md5 ctx (.checkTimeout tick)) ctx.obsserver
      (checkTimeout ctx tick).obsserver := by
  show TableChange CoapObserver.key
    (fun node => (ctx.sendlist.list.find? (CoapSendNode.timedOut tick)).any fun sent =>
      node.isOf sent.remote) ctx.obsserver (checkTimeout ctx tick).obsserver
  unfold checkTimeout
  cases ctx.sendlist.list.find? (CoapSendNode.timedOut tick) with
  | none => exact .same
  | some node =>
    simp only [Option.any_some]
    cases node.handler with
    | none => exact .delAll
    | some handler => exact .delAll

variable (env : CoapEnv)

variable (ctx : CoapIntContext H U C)

theorem obsserver_coapMessageSend (remote : NetworkAddr)
    (message : CoapSendMessage H U) :
    (coapMessageSend env ctx remote message).2.obsserver = ctx.obsserver := by
  have hdelete : (coapObsClientDelete ctx message.toCoapMessage).obsserver = ctx.obsserver := by
    unfold coapObsClientDelete
    split_ifs <;> rfl
  rcases coapMessageSend_cases env ctx remote message with
    ⟨-, heq⟩ | ⟨bytes, heq | ⟨-, -, -, heq⟩⟩ <;> rw [heq]
  · exact hdelete
  · exact hdelete

theorem obsserver_coapObsClientAdd (malloc : Bool) (ctx : CoapIntContext H U C)
    (message : CoapMessage Memory) (remote : NetworkAddr)
    (sendnode : Option (CoapSendNode H U)) :
    (coapObsClientAdd malloc ctx message remote sendnode).obsserver = ctx.obsserver := by
  unfold coapObsClientAdd
  cases sendnode with
  | none =>
    cases ctx.obsclient.list.find? (CoapObservable.hasToken message) with
    | none => split_ifs <;> rfl
    | some node =>
      simp only
      cases node.callback <;> split_ifs <;> rfl
  | some sendnode => split_ifs <;> rfl

theorem obsserver_coapMessageDispatch (remote : NetworkAddr)
    (message : CoapMessage Memory) :
    (coapMessageDispatch md5 env ctx remote message).obsserver = ctx.obsserver := by
  unfold coapMessageDispatch
  split_ifs
  · unfold coapAckMessageHandle
    simp only
    split
    · rfl
    · split <;> split_ifs <;> rfl
  · obtain ⟨ctx1, heq, hack⟩ := exists_of_ack (P := fun c => c.obsserver = ctx.obsserver) message rfl
      (obsserver_coapMessageSend env ctx remote _)
    rw [coapRespMessageHandle, heq, ← hack]
    simp only
    split
    · exact obsserver_coapObsClientAdd env.obs ctx1 message remote none
    · split
      · split_ifs <;> rfl
      · simp only [CoapIntContext.emit, obsserver_coapObsClientAdd]
        split_ifs <;> rfl
  · exact obsserver_coapMessageSend env ctx remote _
  · unfold coapRequestMessageHandle
    simp only
    split
    · exact obsserver_coapMessageSend env ctx remote _
    · split
      · exact obsserver_coapMessageSend env ctx remote _
      · split_ifs
        · exact obsserver_coapMessageSend env ctx remote _
        · rfl
        · exact obsserver_coapMessageSend env ctx remote _
  · rfl

/-- The token of an observe request fits into an observer. -/
def TokenFits : ServerOp H U → Prop
  | .obsAdd _ _ _ _ _ request => request.header.tokenlen.val ≤ coapMsgMaxTokenLen
  | _ => True

/-- **One operation, observers of resources.** -/
theorem obsserver_change {op : ServerOp H U} (hop : TokenFits op) :
    TableChange CoapObserver.key (touchesObserver md5 ctx op) ctx.obsserver
      (serverStep md5 ctx op).obsserver := by
  cases op with
  | send env remote message =>
    rw [serverStep, obsserver_coapMessageSend]
    exact .same
  | cancel msgid => exact .same
  | receive env remote buf datalen =>
    rw [serverStep, coapMessageHandle, obsserver_coapMessageDispatch]
    exact .same
  | retansmit tick => exact .same
  | checkTimeout tick => exact checkTimeout_change md5 ctx tick
  | obsAdd malloc observe overrun path remote request =>
    exact coapObsServerAdd_change md5 malloc observe overrun ctx path remote hop
  | obsDelete remote resource => exact .delFirst
  | obsAllDelete remote => exact .delAll

/-! ## The observations of the client -/

/-- The observations that an operation may touch: those with the token of the message. -/
def touchesObservable : ServerOp H U → CoapObservable H U → Bool
  | .send _ _ message, node => node.hasToken message.toCoapMessage
  | .receive _ _ buf datalen, node => node.hasToken (received buf datalen)
  | _, _ => false

theorem obsclient_coapMessageSend (remote : NetworkAddr)
    (message : CoapSendMessage H U) :
    (coapMessageSend env ctx remote message).2.obsclient = ctx.obsclient ∨
      message.header.code = coapMsgCodeGet ∧
        (coapMessageSend env ctx remote message).2.obsclient =
          ctx.obsclient.delFirst (CoapObservable.hasToken message.toCoapMessage) := by
  have hdelete : (coapObsClientDelete ctx message.toCoapMessage).obsclient = ctx.obsclient ∨
      message.header.code = coapMsgCodeGet ∧
        (coapObsClientDelete ctx message.toCoapMessage).obsclient =
          ctx.obsclient.delFirst (CoapObservable.hasToken message.toCoapMessage) := by
    unfold coapObsClientDelete
    split_ifs with hget
    · exact .inr ⟨hget.1, rfl⟩
    · exact .inl rfl
  rcases coapMessageSend_cases env ctx remote message with
    ⟨-, heq⟩ | ⟨bytes, heq | ⟨-, -, -, heq⟩⟩ <;> rw [heq]
  · exact .inl rfl
  · exact hdelete
  · exact hdelete

theorem obsclient_coapMessageSend_of_ne (remote : NetworkAddr)
    {message : CoapSendMessage H U} (hcode : message.header.code ≠ coapMsgCodeGet) :
    (coapMessageSend env ctx remote message).2.obsclient = ctx.obsclient :=
  (obsclient_coapMessageSend env ctx remote message).resolve_right fun h => hcode h.1

theorem CoapMessage.length_tokenBytes {P : Type} (message : CoapMessage P) :
    message.tokenBytes.length = message.header.tokenlen.val := by
  simp [CoapMessage.tokenBytes, memSlice]

theorem coapObsClientAdd_change (malloc : Bool) (ctx : CoapIntContext H U C)
    (message : CoapMessage Memory) (remote : NetworkAddr)
    (sendnode : Option (CoapSendNode H U))
    (htoken : sendnode.isSome → 0 ≠ message.header.tokenlen.val) :
    TableChange CoapObservable.token (CoapObservable.hasToken message) ctx.obsclient
      (coapObsClientAdd malloc ctx message remote sendnode).obsclient := by
  unfold coapObsClientAdd
  by_cases hobserve : coapOptionPresent message.options coapOptionObserve = true
  · rw [if_pos hobserve]
    cases sendnode with
    | none =>
      simp only
      cases ctx.obsclient.list.find? (CoapObservable.hasToken message) with
      | none => exact .same
      | some node =>
        simp only
        cases node.callback with
        | none => exact .update _ (fun _ => rfl) (fun _ hnode => hnode)
        | some callback => exact .update _ (fun _ => rfl) (fun _ hnode => hnode)
    | some sendnode =>
      have hlen := htoken rfl
      simp only
      split_ifs with hnew
      · obtain ⟨hnone, hroom, -⟩ := hnew
        refine .add _ ?_ ?_ hroom
        · simpa [CoapObservable.hasToken, CoapMessage.length_tokenBytes] using hlen
        · intro hmem
          obtain ⟨node, hnode, hkey⟩ := mem_map.mp hmem
          refine hnone (any_eq_true.mpr ⟨node, hnode, ?_⟩)
          have hkey' : node.token = message.tokenBytes := hkey
          simpa [CoapObservable.hasToken, hkey', CoapMessage.length_tokenBytes] using hlen
      · exact .same
  · rw [if_neg hobserve]
    exact .delFirst

theorem coapRespMessageHandle_change (remote : NetworkAddr)
    (message : CoapMessage Memory) :
    TableChange CoapObservable.token (CoapObservable.hasToken message) ctx.obsclient
      (coapRespMessageHandle env ctx remote message).obsclient := by
  obtain ⟨ctx1, heq, hack⟩ := exists_of_ack (P := fun c => c.obsclient = ctx.obsclient) message rfl
    (obsclient_coapMessageSend_of_ne env ctx remote
      (by decide : coapMsgCodeEmptyMessage ≠ coapMsgCodeGet))
  rw [coapRespMessageHandle, heq, ← hack]
  simp only
  cases hfind : ctx1.sendlist.list.find? (CoapSendNode.hasToken message) with
  | none => exact coapObsClientAdd_change env.obs ctx1 message remote none (by simp)
  | some node =>
    simp only
    cases node.handler with
    | none => split_ifs <;> exact .same
    | some handler =>
      -- the node was found by its token, which is not empty
      have htoken : 0 ≠ message.header.tokenlen.val := by
        have hnode := List.find?_some hfind
        simp only [CoapSendNode.hasToken, decide_eq_true_eq] at hnode
        exact hnode.2.1 ▸ hnode.1
      have hchange := coapObsClientAdd_change env.obs (if node.keep = .nokeep then
          { ctx1 with sendlist := ctx1.sendlist.delFirst (CoapSendNode.hasToken message) }
        else ctx1) message remote (some node) (fun _ => htoken)
      have hobs : (if node.keep = .nokeep then
          { ctx1 with sendlist := ctx1.sendlist.delFirst (CoapSendNode.hasToken message) }
        else ctx1).obsclient = ctx1.obsclient := by split_ifs <;> rfl
      rw [hobs] at hchange
      exact hchange

theorem obsclient_coapRequestMessageHandle (remote : NetworkAddr)
    (message : CoapMessage Memory) :
    (coapRequestMessageHandle md5 env ctx remote message).obsclient = ctx.obsclient := by
  have hack : ∀ msgid, (coapAckMessageSend env ctx remote msgid).2.obsclient = ctx.obsclient :=
    fun msgid => obsclient_coapMessageSend_of_ne env ctx remote
      (by decide : coapMsgCodeEmptyMessage ≠ coapMsgCodeGet)
  have herr : ∀ errCode, errCode ≠ coapMsgCodeGet →
      (coapErrRespMessageSend env ctx remote message errCode).2.obsclient = ctx.obsclient :=
    fun errCode hcode => obsclient_coapMessageSend_of_ne env ctx remote hcode
  unfold coapRequestMessageHandle
  simp only
  split
  · exact herr _ (by decide)
  · split
    · exact herr _ (by decide)
    · split_ifs
      · exact hack _
      · rfl
      · exact herr _ (by decide)

/-- **One operation, observations of the client.** -/
theorem obsclient_change (op : ServerOp H U) :
    TableChange CoapObservable.token (touchesObservable op) ctx.obsclient
      (serverStep md5 ctx op).obsclient := by
  cases op with
  | send env remote message =>
    rw [serverStep]
    rcases obsclient_coapMessageSend env ctx remote message with heq | ⟨-, heq⟩ <;> rw [heq]
    · exact .same
    · exact .delFirst
  | cancel msgid => exact .same
  | receive env remote buf datalen =>
    rw [serverStep, coapMessageHandle, coapMessageDispatch]
    split_ifs
    · -- an acknowledgement
      have hsame : (coapAckMessageHandle ctx (received buf datalen)).obsclient = ctx.obsclient := by
        unfold coapAckMessageHandle
        simp only
        split
        · rfl
        · split <;> split_ifs <;> rfl
      rw [hsame]
      exact .same
    · exact coapRespMessageHandle_change env ctx remote (received buf datalen)
    · -- a reset is answered, and is no request
      have hsame : (coapRestMessageSend env ctx remote
          (received buf datalen).header.msgid).2.obsclient = ctx.obsclient :=
        obsclient_coapMessageSend_of_ne env ctx remote
          (by decide : coapMsgCodeEmptyMessage ≠ coapMsgCodeGet)
      rw [hsame]
      exact .same
    · rw [obsclient_coapRequestMessageHandle]
      exact .same
    · exact .same
  | retansmit tick => exact .same
  | checkTimeout tick =>
    have hsame : (checkTimeout ctx tick).obsclient = ctx.obsclient := by
      unfold checkTimeout
      simp only
      split
      · rfl
      · split <;> rfl
    rw [serverStep, hsame]
    exact .same
  | obsAdd malloc observe overrun path remote request =>
    have hsame : (coapObsServerAdd md5 malloc observe overrun ctx path remote request).2.obsclient =
        ctx.obsclient := by
      unfold coapObsServerAdd
      split
      · split_ifs <;> rfl
      · rfl
    rw [serverStep, hsame]
    exact .same
  | obsDelete remote resource => exact .same
  | obsAllDelete remote => exact .same

/-! ## Runs -/

/-- Both lists are counted, and no key stands in one of them twice. -/
structure ObserverInv (ctx : CoapIntContext H U C) : Prop where
  server_counted : ctx.obsserver.Counted
  server_nodup : (ctx.obsserver.list.map CoapObserver.key).Nodup
  client_counted : ctx.obsclient.Counted
  client_nodup : (ctx.obsclient.list.map CoapObservable.token).Nodup

theorem observerInv_create (sendMax obsMax : UInt8) (resource : CoapList (CoapResource C)) :
    ObserverInv (coapContextCreate sendMax obsMax resource : CoapIntContext H U C) :=
  ⟨.init obsMax, nodup_nil, .init obsMax, nodup_nil⟩

theorem ObserverInv.serverStep {ctx : CoapIntContext H U C} (h : ObserverInv ctx)
    (md5 : Bytes → Vector UInt8 16) {op : ServerOp H U} (hop : TokenFits op) :
    ObserverInv (Coap.serverStep md5 ctx op) where
  server_counted := (obsserver_change md5 ctx hop).counted h.server_counted
  server_nodup := (obsserver_change md5 ctx hop).nodup h.server_nodup
  client_counted := (obsclient_change md5 ctx op).counted h.client_counted
  client_nodup := (obsclient_change md5 ctx op).nodup h.client_nodup

/-- **The observer tables.**  In every run in which the tokens of observe requests fit, no two
observers stand for one resource and remote and no two observations have one token; the counts are
the numbers of entries and at most `maxcount`; and an operation leaves all other entries alone. -/
theorem observer_tables (md5 : Bytes → Vector UInt8 16) (sendMax obsMax : UInt8)
    (resource : CoapList (CoapResource C)) (ops : List (ServerOp H U))
    (hops : ∀ op ∈ ops, TokenFits op) :
    let ctx : CoapIntContext H U C := serverRun md5 (coapContextCreate sendMax obsMax resource) ops
    (ctx.obsserver.list.map CoapObserver.key).Nodup ∧
      (ctx.obsclient.list.map CoapObservable.token).Nodup ∧
      (ctx.obsserver.count.toNat = ctx.obsserver.list.length ∧
        ctx.obsserver.list.length ≤ ctx.obsserver.maxcount.toNat) ∧
      (ctx.obsclient.count.toNat = ctx.obsclient.list.length ∧
        ctx.obsclient.list.length ≤ ctx.obsclient.maxcount.toNat) ∧
      ∀ op, TokenFits op →
        (((serverStep md5 ctx op).obsserver.list.filter fun node => !touchesObserver md5 ctx op node) =
          ctx.obsserver.list.filter fun node => !touchesObserver md5 ctx op node) ∧
        (((serverStep md5 ctx op).obsclient.list.filter fun node => !touchesObservable op node) =
          ctx.obsclient.list.filter fun node => !touchesObservable op node) := by
  intro ctx
  have hinv : ObserverInv ctx :=
    GuardedRun.inv_of_allSteps (fun _ _ h hop => h.serverStep md5 hop) ops
      (observerInv_create sendMax obsMax resource) (GuardedRun.allSteps_of_mem hops _)
  exact ⟨hinv.server_nodup, hinv.client_nodup,
    ⟨hinv.server_counted.count_eq, hinv.server_counted.le_maxcount⟩,
    ⟨hinv.client_counted.count_eq, hinv.client_counted.le_maxcount⟩,
    fun op hop => ⟨(obsserver_change md5 ctx hop).others, (obsclient_change md5 ctx op).others⟩⟩

/-- One resource, at the address `0x1040`. -/
def oneResource : CoapList (CoapResource ℕ) :=
  ⟨[⟨0x1040, 1, none, 0, 60, List.replicate 5 0, [], .normal⟩], 1, 8⟩

/-- A request to observe with a token of `tokenlen` bytes; the first option is an empty
`Observe`. -/
def observeRequest (tokenlen : Fin 16) : CoapMessage Memory where
  header := ⟨1, coapMessageTypeCon, tokenlen, coapMsgCodeGet, 1⟩
  token := fun _ => 0xAA
  options := [⟨coapOptionObserve, 0, fun _ => 0⟩]
  payloadlen := 0
  payload := none

/-- A token of 15 bytes with pointers of eight bytes, low byte first: the bytes behind the
array of the request are four of padding and the number and length of the first option; they
run over `tokenlen`, `ctype`, four bytes of padding and the low byte of the resource. -/
def overrunOf (request : CoapMessage Memory) (node : CoapObserver) : CoapObserver :=
  { node with
    ctype := 0
    resource := node.resource / 256 * 256 +
      (request.options.head?.map fun option => option.len.toNat % 256).getD 0 }

/-- The request, registered from one remote. -/
def registerOp (tokenlen : Fin 16) : ServerOp ℕ ℕ :=
  .obsAdd true 0 (overrunOf (observeRequest tokenlen)) [0x2f, 0x61]
    ⟨Vector.replicate 16 0, 5683⟩ (observeRequest tokenlen)

/-- A remote that registers twice is listed once. -/
theorem observer_tables_registered_twice :
    let ctx : CoapIntContext ℕ ℕ ℕ := serverRun (fun _ => Vector.replicate 16 0)
      (coapContextCreate 8 8 oneResource) [registerOp 8, registerOp 8]
    ctx.obsserver.list.length = 1 ∧ (ctx.obsserver.list.map CoapObserver.key).Nodup := by
  intro ctx
  have htables := observer_tables (C := ℕ) (fun _ => Vector.replicate 16 0) 8 8 oneResource
    [registerOp 8, registerOp 8] (by simp [TokenFits, registerOp, observeRequest, coapMsgMaxTokenLen])
  exact ⟨by decide, htables.1⟩

/-- With a token of 15 bytes it is listed twice, under the same resource and remote. -/
theorem observer_tables_long_token :
    let ctx : CoapIntContext ℕ ℕ ℕ := serverRun (fun _ => Vector.replicate 16 0)
      (coapContextCreate 8 8 oneResource) [registerOp 15, registerOp 15]
    ctx.obsserver.list.map CoapObserver.key =
        [(0x1000, ⟨Vector.replicate 16 0, 5683⟩), (0x1000, ⟨Vector.replicate 16 0, 5683⟩)] ∧
      ¬ (ctx.obsserver.list.map CoapObserver.key).Nodup := by
  intro ctx
  have hkeys : ctx.obsserver.list.map CoapObserver.key =
      [(0x1000, ⟨Vector.replicate 16 0, 5683⟩), (0x1000, ⟨Vector.replicate 16 0, 5683⟩)] := by decide
  refine ⟨hkeys, ?_⟩
  rw [hkeys]
  simp

end Iotkit.Coap
