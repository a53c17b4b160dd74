/-
# The send list of the CoAP server

Every run of the server keeps its send list counted, sends a message no more often than its
retransmission counter allows, and never again once it is acknowledged.  A message is
followed by its number `k`: `StepFor k` says all that one operation can do to the node, the
transmissions and the handler calls of message `k`.
-/
import Iotkit.CoapServer
import Iotkit.GuardedRun

namespace Iotkit.Coap

open List hiding Vector

variable {H U C : Type}

/-! ## What the trace says of a message -/

def CoapEffect.isWrite (k : ℕ) : CoapEffect H U C → Bool
  | .write send _ _ => send = k
  | _ => false

def CoapEffect.isCall (k : ℕ) : CoapEffect H U C → Bool
  | .handler send _ _ _ _ _ => send = k
  | _ => false

/-- How often message `k` was given to the network. -/
def writes (k : ℕ) (trace : List (CoapEffect H U C)) : ℕ := trace.countP (CoapEffect.isWrite k)

/-- How often the handler of message `k` was called. -/
def calls (k : ℕ) (trace : List (CoapEffect H U C)) : ℕ := trace.countP (CoapEffect.isCall k)

theorem writes_append (k : ℕ) (t t' : List (CoapEffect H U C)) :
    writes k (t ++ t') = writes k t + writes k t' := countP_append

theorem calls_append (k : ℕ) (t t' : List (CoapEffect H U C)) :
    calls k (t ++ t') = calls k t + calls k t' := countP_append

/-- What one operation can do to message `k`: it takes its node out or counts it down, it
writes the message again only as long as it is not acknowledged and the counter allows, and
it calls the handler only while the node is in the list. -/
structure StepFor (k : ℕ) (ctx ctx' : CoapIntContext H U C) : Prop where
  sends_le : ctx.sends ≤ ctx'.sends
  node : ∀ n' ∈ ctx'.sendlist.list, n'.send = k → ∃ n ∈ ctx.sendlist.list, n.send = k ∧
    (n.acked → n'.acked) ∧
    writes k ctx'.trace + n'.retransCount.toNat ≤ writes k ctx.trace + n.retransCount.toNat
  writes : writes k ctx'.trace = writes k ctx.trace ∨
    ∃ n ∈ ctx.sendlist.list, n.send = k ∧ n.acked = false ∧
      writes k ctx'.trace ≤ writes k ctx.trace + n.retransCount.toNat
  calls : (∀ n ∈ ctx.sendlist.list, n.send ≠ k) → calls k ctx'.trace = calls k ctx.trace

namespace StepFor

variable {k : ℕ} {ctx ctx' ctx'' : CoapIntContext H U C}

theorem trans (h : StepFor k ctx ctx') (h' : StepFor k ctx' ctx'') : StepFor k ctx ctx'' where
  sends_le := h.sends_le.trans h'.sends_le
  node := by
    intro n'' hn'' hk''
    obtain ⟨n', hn', hk', hacked', hle'⟩ := h'.node n'' hn'' hk''
    obtain ⟨n, hn, hk, hacked, hle⟩ := h.node n' hn' hk'
    exact ⟨n, hn, hk, fun ha => hacked' (hacked ha), hle'.trans hle⟩
  writes := by
    rcases h'.writes with heq | ⟨n', hn', hk', hacked', hle'⟩
    · rw [heq]
      exact h.writes
    · obtain ⟨n, hn, hk, hacked, hle⟩ := h.node n' hn' hk'
      refine .inr ⟨n, hn, hk, ?_, hle'.trans hle⟩
      cases ha : n.acked with
      | false => rfl
      | true => rw [hacked ha] at hacked'; cases hacked'
  calls := by
    intro hgone
    rw [h'.calls, h.calls hgone]
    intro n' hn' hk'
    obtain ⟨n, hn, hk, -⟩ := h.node n' hn' hk'
    exact hgone n hn hk

theorem of_subset (hsends : ctx.sends ≤ ctx'.sends)
    (hlist : ∀ n ∈ ctx'.sendlist.list, n.send = k → n ∈ ctx.sendlist.list)
    (hwrites : Coap.writes k ctx'.trace = Coap.writes k ctx.trace)
    (hcalls : Coap.calls k ctx'.trace = Coap.calls k ctx.trace) : StepFor k ctx ctx' where
  sends_le := hsends
  node := by
    intro n hn hk
    refine ⟨n, hlist n hn hk, hk, id, ?_⟩
    rw [hwrites]
  writes := .inl hwrites
  calls := fun _ => hcalls

theorem emit_handler (ctx : CoapIntContext H U C) {n : CoapSendNode H U}
    (hn : n ∈ ctx.sendlist.list) (handler : H) (result : CoapReqResult) (user : Option U)
    (remote : NetworkAddr) (message : Option (CoapMessage Memory)) :
    StepFor k ctx (ctx.emit (.handler n.send handler result user remote message)) where
  sends_le := le_refl _
  node := by
    intro n' hn' hk'
    refine ⟨n', hn', hk', id, ?_⟩
    rw [CoapIntContext.emit, writes_append]
    exact le_refl _
  writes := by
    refine .inl ?_
    rw [CoapIntContext.emit, writes_append]
    rfl
  calls := by
    intro hgone
    have hne : n.send ≠ k := hgone n hn
    rw [CoapIntContext.emit, calls_append]
    simp [Coap.calls, CoapEffect.isCall, hne]

end StepFor

/-! ## The operations -/

variable (malloc : Bool)

variable (ctx : CoapIntContext H U C) (message : CoapMessage Memory)

theorem coapObsClientAdd_frame (ctx : CoapIntContext H U C) (message : CoapMessage Memory)
    (remote : NetworkAddr) (sendnode : Option (CoapSendNode H U)) (k : ℕ) :
    (coapObsClientAdd malloc ctx message remote sendnode).sendlist = ctx.sendlist ∧
      (coapObsClientAdd malloc ctx message remote sendnode).sends = ctx.sends ∧
      writes k (coapObsClientAdd malloc ctx message remote sendnode).trace = writes k ctx.trace ∧
      calls k (coapObsClientAdd malloc ctx message remote sendnode).trace = calls k ctx.trace := by
  unfold coapObsClientAdd
  split
  · cases sendnode with
    | none =>
      simp only
      split
      · exact ⟨rfl, rfl, rfl, rfl⟩
      · split
        · exact ⟨rfl, rfl, rfl, rfl⟩
        · refine ⟨rfl, rfl, ?_, ?_⟩
          · rw [CoapIntContext.emit, writes_append]
            rfl
          · rw [CoapIntContext.emit, calls_append]
            rfl
    | some sendnode =>
      split_ifs <;> exact ⟨rfl, rfl, rfl, rfl⟩
  · exact ⟨rfl, rfl, rfl, rfl⟩

/-- For the response to a message, `CoAPObsClient_add` calls nothing. -/
theorem coapObsClientAdd_some_frame (remote : NetworkAddr) (sendnode : CoapSendNode H U) :
    (coapObsClientAdd malloc ctx message remote (some sendnode)).sendlist = ctx.sendlist ∧
      (coapObsClientAdd malloc ctx message remote (some sendnode)).sends = ctx.sends ∧
      (coapObsClientAdd malloc ctx message remote (some sendnode)).trace = ctx.trace := by
  unfold coapObsClientAdd
  split
  · split_ifs <;> exact ⟨rfl, rfl, rfl⟩
  · exact ⟨rfl, rfl, rfl⟩

/-- Adding an observation leaves the nodes of the send list. -/
theorem StepFor.coapObsClientAdd {k : ℕ} (ctx : CoapIntContext H U C)
    (message : CoapMessage Memory) (remote : NetworkAddr)
    (sendnode : Option (CoapSendNode H U)) :
    StepFor k ctx (Coap.coapObsClientAdd malloc ctx message remote sendnode) := by
  obtain ⟨hlist, hsends, hwrites, hcalls⟩ :=
    coapObsClientAdd_frame malloc ctx message remote sendnode k
  refine .of_subset (le_of_eq hsends.symm) ?_ hwrites hcalls
  intro n hn _
  rwa [hlist] at hn

/-- The context with a new message written and not put into the list. -/
abbrev CoapIntContext.written (remote : NetworkAddr) (message : CoapMessage Memory)
    (bytes : Bytes) : CoapIntContext H U C :=
  (coapObsClientDelete ctx message).writeNew remote bytes

theorem coapObsClientDelete_frame :
    (coapObsClientDelete ctx message).sendlist = ctx.sendlist ∧
      (coapObsClientDelete ctx message).sends = ctx.sends ∧
      (coapObsClientDelete ctx message).trace = ctx.trace := by
  unfold coapObsClientDelete
  split_ifs <;> exact ⟨rfl, rfl, rfl⟩

/-- What `CoAPMessage_send` can do: fail and do nothing, write the message, or write it and
put it into the list. -/
theorem coapMessageSend_cases (env : CoapEnv) (ctx : CoapIntContext H U C) (remote : NetworkAddr)
    (message : CoapSendMessage H U) :
    let r := coapMessageSend env ctx remote message
    (r.1 ≠ coapSuccess ∧ r.2 = ctx) ∨
      ∃ bytes, r.2 = ctx.written remote message.toCoapMessage bytes ∨
        (r.1 = coapSuccess ∧ ctx.sendlist.count < ctx.sendlist.maxcount ∧
          (coapReqMsg message.header ∨ coapConRespMsg message.header) ∧
          r.2 = { ctx.written remote message.toCoapMessage bytes with
            sendlist := ctx.sendlist.addTail
              (coapSendNode env.tick ctx.sends remote message bytes) }) := by
  rcases h : coapMessageSend env ctx remote message with ⟨rc, ctx'⟩
  dsimp only
  have hlist : ∀ bytes, (ctx.written remote message.toCoapMessage bytes).sendlist = ctx.sendlist :=
    fun _ => (coapObsClientDelete_frame ctx message.toCoapMessage).1
  unfold coapMessageSend at h
  by_cases hsize : coapMsgMaxPduLen < (coapSerializeMessageLength message.toCoapMessage).toNat
  · simp only [if_pos hsize] at h
    cases h
    exact .inl ⟨by decide, rfl⟩
  simp only [if_neg hsize] at h
  by_cases hbuff : ¬ env.buff = true
  · rw [if_pos hbuff] at h
    cases h
    exact .inl ⟨by decide, rfl⟩
  rw [if_neg hbuff] at h
  generalize coapSerializedBytes message.toCoapMessage _ = bytes at h
  refine .inr ⟨bytes, ?_⟩
  split_ifs at h with hlen hkind
  · unfold coapMessageListAdd at h
    by_cases hnode : ¬ env.node = true
    · rw [if_pos hnode] at h
      exact .inl (Prod.mk.inj h).2.symm
    rw [if_neg hnode] at h
    simp only [hlist] at h
    split_ifs at h with hfull
    · exact .inl (Prod.mk.inj h).2.symm
    · obtain ⟨hrc, hctx⟩ := Prod.mk.inj h
      exact .inr ⟨hrc.symm, UInt8.not_le.mp hfull, hkind, hctx.symm⟩
  · exact .inl (Prod.mk.inj h).2.symm
  · exact .inl (Prod.mk.inj h).2.symm

theorem StepFor.written {k : ℕ} {ctx : CoapIntContext H U C} (hk : k < ctx.sends)
    (remote : NetworkAddr) (message : CoapMessage Memory) (bytes : Bytes) :
    StepFor k ctx (ctx.written remote message bytes) := by
  obtain ⟨hlist, hsends, htrace⟩ := coapObsClientDelete_frame ctx message
  refine .of_subset ?_ ?_ ?_ ?_
  · simp only [CoapIntContext.written, CoapIntContext.writeNew, hsends]
    omega
  · intro n hn _
    simpa only [CoapIntContext.written, CoapIntContext.writeNew, hlist] using hn
  · simp only [CoapIntContext.written, CoapIntContext.writeNew, htrace, hsends, writes_append]
    simp [Coap.writes, CoapEffect.isWrite, ne_of_gt hk]
  · simp only [CoapIntContext.written, CoapIntContext.writeNew, htrace, hsends, calls_append]
    rfl

/-- A send leaves the nodes that were numbered before it. -/
theorem StepFor.coapMessageSend {k : ℕ} {ctx : CoapIntContext H U C} (hk : k < ctx.sends)
    (env : CoapEnv) (remote : NetworkAddr) (message : CoapSendMessage H U) :
    StepFor k ctx (Coap.coapMessageSend env ctx remote message).2 := by
  rcases coapMessageSend_cases env ctx remote message with ⟨-, heq⟩ | ⟨bytes, heq | ⟨-, -, -, heq⟩⟩
  · rw [heq]
    exact .of_subset (le_refl _) (fun n hn _ => hn) rfl rfl
  · rw [heq]
    exact .written hk remote _ bytes
  rw [heq]
  have hwritten := StepFor.written hk remote message.toCoapMessage bytes
  obtain ⟨hlist, hsends, htrace⟩ := coapObsClientDelete_frame ctx message.toCoapMessage
  refine .of_subset hwritten.sends_le ?_ ?_ ?_
  · -- the new node has another number
    intro n hn hnk
    rcases mem_append.mp hn with hold | hnew
    · exact hold
    · have hnum : n.send = ctx.sends := by
        rw [mem_singleton.mp hnew]
        rfl
      omega
  · simp only [CoapIntContext.written, CoapIntContext.writeNew, htrace, hsends, writes_append]
    simp [Coap.writes, CoapEffect.isWrite, ne_of_gt hk]
  · simp only [CoapIntContext.written, CoapIntContext.writeNew, htrace, hsends, calls_append]
    rfl

theorem StepFor.of_sendlist {k : ℕ} (ctx : CoapIntContext H U C)
    {sendlist : CoapList (CoapSendNode H U)}
    (hlist : ∀ n' ∈ sendlist.list, n'.send = k → ∃ n ∈ ctx.sendlist.list, n.send = k ∧
      (n.acked → n'.acked) ∧ n'.retransCount = n.retransCount) :
    StepFor k ctx { ctx with sendlist := sendlist } where
  sends_le := le_refl _
  node := by
    intro n' hn' hk'
    obtain ⟨n, hn, hk, hacked, hcount⟩ := hlist n' hn' hk'
    exact ⟨n, hn, hk, hacked, by rw [hcount]⟩
  writes := .inl rfl
  calls := fun _ => rfl

/-- A node that leaves the list does not come back. -/
theorem StepFor.delFirst {k : ℕ} (ctx : CoapIntContext H U C) (p : CoapSendNode H U → Bool) :
    StepFor k ctx { ctx with sendlist := ctx.sendlist.delFirst p } := by
  apply StepFor.of_sendlist
  intro n hn hk
  refine ⟨n, ?_, hk, id, rfl⟩
  unfold CoapList.delFirst at hn
  split_ifs at hn
  · exact mem_of_mem_eraseP hn
  · exact hn

/-- An acknowledgement marks a node and changes nothing else of it. -/
theorem StepFor.setAcked {k : ℕ} (p : CoapSendNode H U → Bool) :
    StepFor k ctx { ctx with
      sendlist := ctx.sendlist.updateFirst p fun node => { node with acked := true } } := by
  apply StepFor.of_sendlist
  intro n' hn' hk'
  rcases mem_updateFirst hn' with hold | ⟨n, hfind, rfl⟩
  · exact ⟨n', hold, hk', id, rfl⟩
  · exact ⟨n, mem_of_find?_eq_some hfind, hk', fun _ => rfl, rfl⟩

theorem StepFor.refl (k : ℕ) (ctx : CoapIntContext H U C) : StepFor k ctx ctx :=
  .of_subset (le_refl _) (fun _ hn _ => hn) rfl rfl

theorem StepFor.coapAckMessageHandle {k : ℕ} (ctx : CoapIntContext H U C)
    (message : CoapMessage Memory) : StepFor k ctx (Coap.coapAckMessageHandle ctx message) := by
  unfold Coap.coapAckMessageHandle
  simp only
  split
  · exact .refl k ctx
  · next node hfind =>
      split
      · split_ifs
        · exact .delFirst ctx _
        · exact .setAcked ctx _
      · next handler _ =>
          -- the handler may as well be called before the node is changed
          have hcall := StepFor.emit_handler (k := k) ctx (mem_of_find?_eq_some hfind) handler
            .recvRespSuc node.user node.remote none
          split_ifs
          · exact hcall.trans (.delFirst (ctx.emit _) _)
          · exact hcall.trans (.setAcked (ctx.emit _) _)

section Received

variable {k : ℕ} {ctx : CoapIntContext H U C} (hk : k < ctx.sends)
variable (md5 : Bytes → Vector UInt8 16) (env : CoapEnv) (remote : NetworkAddr)
variable (message : CoapMessage Memory)

include hk in
/-- A response calls a node's handler only as it takes the node out. -/
theorem StepFor.coapRespMessageHandle :
    StepFor k ctx (Coap.coapRespMessageHandle env ctx remote message) := by
  obtain ⟨ctx1, heq, hack⟩ := exists_of_ack message (StepFor.refl k ctx)
    (.coapMessageSend hk env remote _)
  rw [Coap.coapRespMessageHandle, heq]
  refine hack.trans ?_
  simp only
  split
  · exact .coapObsClientAdd _ _ _ _ _
  · next node hfind =>
      have hdel : ∀ c : CoapIntContext H U C, StepFor k c (if node.keep = .nokeep then
          { c with sendlist := c.sendlist.delFirst (CoapSendNode.hasToken message) } else c) := by
        intro c
        split_ifs
        · exact .delFirst c _
        · exact .refl k c
      split
      · exact hdel ctx1
      · next handler _ =>
          have hcall := StepFor.emit_handler (k := k) ctx1 (mem_of_find?_eq_some hfind) handler
            .requestSuccess node.user remote (some message)
          refine hcall.trans ((hdel (ctx1.emit _)).trans ?_)
          obtain ⟨hlist, hsends, htrace⟩ := coapObsClientAdd_some_frame env.obs
            (if node.keep = .nokeep then
              { ctx1 with sendlist := ctx1.sendlist.delFirst (CoapSendNode.hasToken message) }
            else ctx1) message remote node
          simp only [CoapIntContext.emit] at hlist hsends htrace ⊢
          split_ifs at hlist hsends htrace ⊢
          · exact .of_subset (le_of_eq hsends.symm) (fun n hn _ => hlist ▸ hn)
              (by rw [htrace]) (by rw [htrace])
          · exact .of_subset (le_of_eq hsends.symm) (fun n hn _ => hlist ▸ hn)
              (by rw [htrace]) (by rw [htrace])

theorem StepFor.emit_callback (callback : C) (path : Bytes) :
    StepFor k ctx (ctx.emit (.callback callback path remote message)) := by
  refine .of_subset (le_refl _) (fun n hn _ => hn) ?_ ?_
  · rw [CoapIntContext.emit, writes_append]
    rfl
  · rw [CoapIntContext.emit, calls_append]
    rfl

include hk

theorem StepFor.coapRequestMessageHandle :
    StepFor k ctx (Coap.coapRequestMessageHandle md5 env ctx remote message) := by
  unfold Coap.coapRequestMessageHandle
  simp only
  split
  · exact .coapMessageSend hk env remote _
  · split
    · exact .coapMessageSend hk env remote _
    · split_ifs
      · exact (StepFor.coapMessageSend hk env remote _).trans (.emit_callback _ _ _ _)
      · exact .emit_callback _ _ _ _
      · exact .coapMessageSend hk env remote _

/-- So does every message that comes in. -/
theorem StepFor.coapMessageDispatch :
    StepFor k ctx (Coap.coapMessageDispatch md5 env ctx remote message) := by
  unfold Coap.coapMessageDispatch
  split_ifs
  · exact .coapAckMessageHandle ctx message
  · exact .coapRespMessageHandle hk env remote message
  · exact .coapMessageSend hk env remote _
  · exact .coapRequestMessageHandle hk md5 env remote message
  · exact .refl k ctx

end Received

/-! ## Timers -/

/-- The numbers of the nodes are different and were given away. -/
structure Numbered (ctx : CoapIntContext H U C) : Prop where
  nodup : (ctx.sendlist.list.map CoapSendNode.send).Nodup
  nodes_lt : ∀ n ∈ ctx.sendlist.list, n.send < ctx.sends
  trace_lt : ∀ k, ctx.sends ≤ k → writes k ctx.trace = 0

variable (tick : UInt64) (node : CoapSendNode H U)

@[simp] theorem CoapSendNode.send_retransmit : (node.retransmit tick).send = node.send := by
  unfold CoapSendNode.retransmit
  split_ifs <;> rfl

@[simp] theorem CoapSendNode.acked_retransmit : (node.retransmit tick).acked = node.acked := by
  unfold CoapSendNode.retransmit
  split_ifs <;> rfl

/-- A retransmission costs one of the node's tries. -/
theorem CoapSendNode.retransCount_retransmit :
    (node.retransmit tick).retransCount.toNat + (if node.due tick then 1 else 0)
      ≤ node.retransCount.toNat := by
  unfold CoapSendNode.retransmit CoapSendNode.due
  by_cases hwait : node.timeout > tick ∨ node.retransCount = 0
  · rw [if_pos hwait, if_neg]
    · exact le_refl _
    · simp only [decide_eq_true_eq]
      rintro ⟨h1, h2, -⟩
      exact hwait.elim h1 h2
  rw [if_neg hwait]
  have hpos : 1 ≤ node.retransCount := by
    rw [UInt8.le_iff_toNat_le]
    have : node.retransCount.toNat ≠ 0 := fun h => hwait (.inr (UInt8.toNat_inj.mp h))
    show 1 ≤ _
    omega
  simp only [UInt8.toNat_sub_of_le _ _ hpos]
  have := UInt8.le_iff_toNat_le.mp hpos
  have hone : (1 : UInt8).toNat = 1 := rfl
  split_ifs <;> omega

/-- The cycle writes a message once if its node is due. -/
theorem writes_retansmit (tick : UInt64) (k : ℕ) :
    writes k (retansmit ctx tick).trace
      = writes k ctx.trace + ctx.sendlist.list.countP fun n => n.due tick ∧ n.send = k := by
  rw [retansmit, writes_append]
  congr 1
  rw [writes, countP_map, countP_filter]
  apply countP_congr
  intro n _
  simp [CoapEffect.isWrite, and_comm]

theorem calls_retansmit (tick : UInt64) (k : ℕ) :
    calls k (retansmit ctx tick).trace = calls k ctx.trace := by
  rw [retansmit, calls_append]
  have : calls k ((ctx.sendlist.list.filter (CoapSendNode.due tick)).map fun node =>
      (.write node.send node.remote node.message : CoapEffect H U C)) = 0 := by
    rw [calls, countP_map]
    apply countP_eq_zero.mpr
    intro n _
    simp [CoapEffect.isCall]
  omega

variable {list : List (CoapSendNode H U)}

theorem countP_send_eq (hnodup : (list.map CoapSendNode.send).Nodup) {n : CoapSendNode H U}
    (hn : n ∈ list) (p : CoapSendNode H U → Bool) :
    (list.countP fun m => p m ∧ m.send = n.send) = if p n then 1 else 0 := by
  induction list with
  | nil => cases hn
  | cons a list ih =>
    rw [map_cons, nodup_cons] at hnodup
    rw [countP_cons]
    rcases mem_cons.mp hn with rfl | hmem
    · have hrest : (list.countP fun m => p m ∧ m.send = n.send) = 0 := by
        apply countP_eq_zero.mpr
        intro m hm
        simp only [decide_eq_true_eq]
        rintro ⟨-, heq⟩
        exact hnodup.1 (heq ▸ mem_map_of_mem hm)
      rw [hrest]
      simp
    · have hne : a.send ≠ n.send := fun heq => hnodup.1 (heq ▸ mem_map_of_mem hmem)
      rw [ih hnodup.2 hmem]
      simp [hne]

/-- The retransmissions of a cycle keep to the node's tries. -/
theorem StepFor.retansmit {k : ℕ} {ctx : CoapIntContext H U C} (hnumbered : Numbered ctx)
    (tick : UInt64) : StepFor k ctx (Coap.retansmit ctx tick) := by
  have hcount : ∀ n ∈ ctx.sendlist.list, n.send = k →
      Coap.writes k (Coap.retansmit ctx tick).trace
        = Coap.writes k ctx.trace + if n.due tick then 1 else 0 := by
    rintro n hn rfl
    rw [writes_retansmit, countP_send_eq hnumbered.nodup hn]
  refine ⟨le_refl _, ?_, ?_, fun _ => calls_retansmit ctx tick k⟩
  · intro n' hn' hk'
    obtain ⟨n, hn, rfl⟩ := mem_map.mp hn'
    rw [CoapSendNode.send_retransmit] at hk'
    refine ⟨n, hn, hk', fun ha => by rwa [CoapSendNode.acked_retransmit], ?_⟩
    have hle := n.retransCount_retransmit tick
    rw [hcount n hn hk']
    omega
  · by_cases hlisted : ∃ n ∈ ctx.sendlist.list, n.send = k
    · obtain ⟨n, hn, hk⟩ := hlisted
      have hle := n.retransCount_retransmit tick
      rw [hcount n hn hk]
      by_cases hdue : n.due tick = true
      · have hacked : n.acked = false := by
          unfold CoapSendNode.due at hdue
          simp only [decide_eq_true_eq] at hdue
          exact Bool.eq_false_iff.mpr hdue.2.2
        refine .inr ⟨n, hn, hk, hacked, ?_⟩
        omega
      · exact Or.inl (by rw [if_neg hdue, add_zero])
    · refine .inl ?_
      rw [writes_retansmit]
      have : (ctx.sendlist.list.countP fun n => n.due tick ∧ n.send = k) = 0 := by
        apply countP_eq_zero.mpr
        intro n hn
        simp only [decide_eq_true_eq]
        exact fun h => hlisted ⟨n, hn, h.2⟩
      omega

/-- The timeouts of a cycle call the handler of the nodes they take out. -/
theorem StepFor.checkTimeout {k : ℕ} (ctx : CoapIntContext H U C) (tick : UInt64) :
    StepFor k ctx (Coap.checkTimeout ctx tick) := by
  unfold Coap.checkTimeout
  split
  · exact .refl k ctx
  · next node hfind =>
      have hdel : ∀ c : CoapIntContext H U C, StepFor k c (coapObsServerAllDelete
          { c with sendlist := c.sendlist.delFirst (CoapSendNode.timedOut tick) } node.remote) := by
        intro c
        refine (StepFor.delFirst c (CoapSendNode.timedOut tick)).trans ?_
        exact .of_subset (le_refl _) (fun n hn _ => hn) rfl rfl
      split
      · exact hdel ctx
      · next handler _ =>
          exact (StepFor.emit_handler ctx (mem_of_find?_eq_some hfind) handler .recvRespTimeout
            node.user node.remote none).trans (hdel (ctx.emit _))

theorem coapObsServerAdd_frame (md5 : Bytes → Vector UInt8 16) (malloc : Bool)
    (observe : UInt32) (overrun : CoapObserver → CoapObserver) (ctx : CoapIntContext H U C)
    (path : Bytes) (remote : NetworkAddr) (request : CoapMessage Memory) :
    (coapObsServerAdd md5 malloc observe overrun ctx path remote request).2.sendlist = ctx.sendlist ∧
      (coapObsServerAdd md5 malloc observe overrun ctx path remote request).2.sends = ctx.sends ∧
      (coapObsServerAdd md5 malloc observe overrun ctx path remote request).2.trace = ctx.trace := by
  unfold coapObsServerAdd
  split
  · split_ifs <;> exact ⟨rfl, rfl, rfl⟩
  · exact ⟨rfl, rfl, rfl⟩

/-! ## Runs -/

/-- **One operation.**  What an operation can do to a message that was sent before. -/
theorem StepFor.serverStep {k : ℕ} {ctx : CoapIntContext H U C} (hnumbered : Numbered ctx)
    (hk : k < ctx.sends) (md5 : Bytes → Vector UInt8 16) (op : ServerOp H U) :
    StepFor k ctx (Coap.serverStep md5 ctx op) := by
  cases op with
  | send env remote message => exact .coapMessageSend hk env remote message
  | cancel msgid =>
    apply StepFor.of_sendlist
    intro n hn hnk
    exact ⟨n, mem_of_mem_filter hn, hnk, id, rfl⟩
  | receive env remote buf datalen => exact .coapMessageDispatch hk md5 env remote _
  | retansmit tick => exact .retansmit hnumbered tick
  | checkTimeout tick => exact .checkTimeout ctx tick
  | obsAdd malloc observe overrun path remote request =>
    obtain ⟨hlist, hsends, htrace⟩ :=
      coapObsServerAdd_frame md5 malloc observe overrun ctx path remote request
    exact .of_subset (le_of_eq hsends.symm) (fun n hn _ => hlist ▸ hn)
      (congrArg _ htrace) (congrArg _ htrace)
  | obsDelete remote resource => exact .of_subset (le_refl _) (fun n hn _ => hn) rfl rfl
  | obsAllDelete remote => exact .of_subset (le_refl _) (fun n hn _ => hn) rfl rfl

/-- The interval before the retransmission number `n`, in whole numbers. -/
def retransInterval : ℕ → ℕ
  | 0 => coapAckTimeout.toNat
  | n + 1 => retransInterval n * 3 / 2

/-- A node of the list is a request or a confirmable response, and its interval is the one
its counter stands for. -/
structure CoapSendNode.Ok (n : CoapSendNode H U) : Prop where
  kind : coapReqMsg n.header ∨ coapConRespMsg n.header
  con : n.header.type = coapMessageTypeCon →
    n.retransCount ≤ coapMaxRetryCount ∧
      n.timeoutVal.toNat = retransInterval (coapMaxRetryCount - n.retransCount).toNat
  non : n.header.type ≠ coapMessageTypeCon → n.retransCount = 0

/-- A new node starts with the tries and the interval of the header. -/
theorem coapSendNode_ok (send : ℕ) (remote : NetworkAddr) (message : CoapSendMessage H U)
    (buffer : Bytes) (hkind : coapReqMsg message.header ∨ coapConRespMsg message.header) :
    (coapSendNode tick send remote message buffer).Ok where
  kind := hkind
  con := by
    intro hcon
    have hcon' : message.header.type = coapMessageTypeCon := hcon
    simp only [coapSendNode, if_pos hcon']
    exact ⟨UInt8.le_refl _, rfl⟩
  non := by
    intro hcon
    have hcon' : message.header.type ≠ coapMessageTypeCon := hcon
    simp only [coapSendNode, if_neg hcon']

theorem retransInterval_succ_lt {n : ℕ} (h : n < 8) : retransInterval (n + 1) < 2 ^ 16 := by
  interval_cases n <;> decide

/-- The interval doubles for as long as there are tries. -/
theorem CoapSendNode.Ok.retransmit {n : CoapSendNode H U} (h : n.Ok) (tick : UInt64) :
    (n.retransmit tick).Ok := by
  unfold CoapSendNode.retransmit
  split_ifs with hwait
  · exact h
  · have hcon : n.header.type = coapMessageTypeCon := by
      by_contra hnon
      exact hwait (.inr (h.non hnon))
    obtain ⟨hle, hval⟩ := h.con hcon
    have hmax : coapMaxRetryCount.toNat = 8 := rfl
    have hone : (1 : UInt8).toNat = 1 := rfl
    have hle8 := UInt8.le_iff_toNat_le.mp hle
    have hpos : n.retransCount.toNat ≠ 0 := fun hz => hwait (.inr (UInt8.toNat_inj.mp hz))
    have hless : (n.retransCount - 1).toNat = n.retransCount.toNat - 1 := by
      rw [UInt8.toNat_sub_of_le _ _ (UInt8.le_iff_toNat_le.mpr (by omega)), hone]
    have hfrom : (coapMaxRetryCount - n.retransCount).toNat = 8 - n.retransCount.toNat := by
      rw [UInt8.toNat_sub_of_le _ _ hle, hmax]
    have hto : (coapMaxRetryCount - (n.retransCount - 1)).toNat = 8 - n.retransCount.toNat + 1 := by
      rw [UInt8.toNat_sub_of_le _ _ (UInt8.le_iff_toNat_le.mpr (by omega)), hmax, hless]
      omega
    refine ⟨h.kind, fun _ => ⟨?_, ?_⟩, fun hnon => absurd hcon hnon⟩
    · exact UInt8.le_iff_toNat_le.mpr (by simp only [hless]; omega)
    · have hlt := retransInterval_succ_lt (n := 8 - n.retransCount.toNat) (by omega)
      simp only [hto, hval, hfrom, UInt16.toNat_ofNat']
      exact Nat.mod_eq_of_lt hlt

/-- What every run keeps of the send list. -/
structure SendListInv (ctx : CoapIntContext H U C) : Prop extends Numbered ctx where
  counted : ctx.sendlist.Counted
  nodes : ∀ n ∈ ctx.sendlist.list, n.Ok

namespace SendListInv

variable {ctx ctx' : CoapIntContext H U C}

theorem of_sublist (h : SendListInv ctx)
    (hsub : (ctx'.sendlist.list.map CoapSendNode.send).Sublist
      (ctx.sendlist.list.map CoapSendNode.send))
    (hcounted : ctx'.sendlist.Counted) (hnodes : ∀ n ∈ ctx'.sendlist.list, n.Ok)
    (hsends : ctx'.sends = ctx.sends) (hwrites : ∀ k, writes k ctx'.trace = writes k ctx.trace) :
    SendListInv ctx' where
  nodup := h.nodup.sublist hsub
  nodes_lt := by
    intro n hn
    obtain ⟨m, hm, hmn⟩ := mem_map.mp (hsub.subset (mem_map_of_mem hn))
    rw [hsends, ← hmn]
    exact h.nodes_lt m hm
  trace_lt := by
    intro k hk
    rw [hwrites, h.trace_lt k (hsends ▸ hk)]
  counted := hcounted
  nodes := hnodes

theorem of_eq (h : SendListInv ctx) (hlist : ctx'.sendlist = ctx.sendlist)
    (hsends : ctx'.sends = ctx.sends) (hwrites : ∀ k, writes k ctx'.trace = writes k ctx.trace) :
    SendListInv ctx' :=
  h.of_sublist (hlist ▸ List.Sublist.refl _) (hlist ▸ h.counted) (hlist ▸ h.nodes) hsends hwrites

theorem emit (h : SendListInv ctx) {e : CoapEffect H U C} (he : ∀ k, e.isWrite k = false) :
    SendListInv (ctx.emit e) := by
  refine h.of_eq rfl rfl fun k => ?_
  rw [CoapIntContext.emit, writes_append]
  simp [writes, he k]

theorem delFirst (h : SendListInv ctx) (p : CoapSendNode H U → Bool) :
    SendListInv { ctx with sendlist := ctx.sendlist.delFirst p } := by
  have hsub : (ctx.sendlist.delFirst p).list.Sublist ctx.sendlist.list := by
    unfold CoapList.delFirst
    split_ifs
    · exact eraseP_sublist
    · exact List.Sublist.refl _
  exact h.of_sublist (hsub.map _) (h.counted.delFirst p) (fun n hn => h.nodes n (hsub.subset hn))
    rfl fun _ => rfl

theorem delAll (h : SendListInv ctx) (p : CoapSendNode H U → Bool) :
    SendListInv { ctx with sendlist := ctx.sendlist.delAll p } :=
  h.of_sublist (filter_sublist.map _) (h.counted.delAll p)
    (fun n hn => h.nodes n (mem_of_mem_filter hn)) rfl fun _ => rfl

theorem setAcked (h : SendListInv ctx) (p : CoapSendNode H U → Bool) :
    SendListInv { ctx with
      sendlist := ctx.sendlist.updateFirst p fun node => { node with acked := true } } := by
  refine h.of_sublist ?_ (h.counted.of_length_eq (length_updateFirst _ _ _)) ?_ rfl fun _ => rfl
  · simp only [CoapList.updateFirst]
    rw [map_updateFirst (g := CoapSendNode.send) p (by intro n; rfl)]
  · intro n hn
    rcases mem_updateFirst hn with hold | ⟨m, hfind, rfl⟩
    · exact h.nodes n hold
    · obtain ⟨hkind, hcon, hnon⟩ := h.nodes m (mem_of_find?_eq_some hfind)
      exact ⟨hkind, hcon, hnon⟩

theorem retansmit (h : SendListInv ctx) (tick : UInt64) : SendListInv (Coap.retansmit ctx tick) where
  nodup := by
    have : ((Coap.retansmit ctx tick).sendlist.list.map CoapSendNode.send)
        = ctx.sendlist.list.map CoapSendNode.send := by
      simp [Coap.retansmit, Function.comp_def]
    rw [this]
    exact h.nodup
  nodes_lt := by
    intro n hn
    obtain ⟨m, hm, rfl⟩ := mem_map.mp hn
    rw [CoapSendNode.send_retransmit]
    exact h.nodes_lt m hm
  trace_lt := by
    intro k hk
    rw [writes_retansmit, h.trace_lt k hk, zero_add]
    apply countP_eq_zero.mpr
    intro n hn
    have := h.nodes_lt n hn
    have hsends : (Coap.retansmit ctx tick).sends = ctx.sends := rfl
    simp only [decide_eq_true_eq, not_and]
    omega
  counted := h.counted.of_length_eq (length_map _)
  nodes := by
    intro n hn
    obtain ⟨m, hm, rfl⟩ := mem_map.mp hn
    exact (h.nodes m hm).retransmit tick

theorem written (h : SendListInv ctx) (remote : NetworkAddr) (message : CoapMessage Memory)
    (bytes : Bytes) : SendListInv (ctx.written remote message bytes) := by
  obtain ⟨hlist, hsends, htrace⟩ := coapObsClientDelete_frame ctx message
  exact {
    nodup := by
      simp only [CoapIntContext.writeNew, hlist]
      exact h.nodup
    nodes_lt := by
      simp only [CoapIntContext.writeNew, hlist, hsends]
      exact fun n hn => Nat.lt_succ_of_lt (h.nodes_lt n hn)
    trace_lt := by
      intro k hk
      simp only [CoapIntContext.writeNew, hsends] at hk
      simp only [CoapIntContext.writeNew, htrace, hsends, writes_append, h.trace_lt k (by omega)]
      have hne : ctx.sends ≠ k := by omega
      simp [writes, CoapEffect.isWrite, hne]
    counted := by
      simp only [CoapIntContext.writeNew, hlist]
      exact h.counted
    nodes := by
      simp only [CoapIntContext.writeNew, hlist]
      exact h.nodes }

theorem coapMessageSend (h : SendListInv ctx) (env : CoapEnv) (remote : NetworkAddr)
    (message : CoapSendMessage H U) : SendListInv (Coap.coapMessageSend env ctx remote message).2 := by
  rcases coapMessageSend_cases env ctx remote message with
    ⟨-, heq⟩ | ⟨bytes, heq | ⟨-, hroom, hkind, heq⟩⟩
  · rw [heq]
    exact h
  · rw [heq]
    exact h.written remote _ bytes
  rw [heq]
  have hwritten := h.written remote message.toCoapMessage bytes
  have hsends : (ctx.written remote message.toCoapMessage bytes).sends = ctx.sends + 1 := by
    simp only [CoapIntContext.writeNew, (coapObsClientDelete_frame ctx message.toCoapMessage).2.1]
  exact {
    nodup := by
      simp only [CoapList.addTail, map_append, map_cons, map_nil]
      refine nodup_append.mpr ⟨h.nodup, nodup_singleton _, ?_⟩
      intro k hk k' hk'
      obtain ⟨n, hn, rfl⟩ := mem_map.mp hk
      have := h.nodes_lt n hn
      have hnew : k' = ctx.sends := mem_singleton.mp hk'
      omega
    nodes_lt := by
      intro n hn
      rw [hsends]
      rcases mem_append.mp hn with hold | hnew
      · exact Nat.lt_succ_of_lt (h.nodes_lt n hold)
      · rw [mem_singleton.mp hnew]
        exact Nat.lt_succ_self _
    trace_lt := hwritten.trace_lt
    counted := h.counted.addTail hroom _
    nodes := forall_mem_append.mpr
      ⟨h.nodes, forall_mem_singleton.mpr (coapSendNode_ok _ _ _ _ _ hkind)⟩ }

theorem coapObsClientAdd (h : SendListInv ctx) (malloc : Bool) (message : CoapMessage Memory)
    (remote : NetworkAddr) (sendnode : Option (CoapSendNode H U)) :
    SendListInv (Coap.coapObsClientAdd malloc ctx message remote sendnode) := by
  have hframe := coapObsClientAdd_frame malloc ctx message remote sendnode
  exact h.of_eq (hframe 0).1 (hframe 0).2.1 fun k => (hframe k).2.2.1

theorem coapAckMessageHandle (h : SendListInv ctx) (message : CoapMessage Memory) :
    SendListInv (Coap.coapAckMessageHandle ctx message) := by
  unfold Coap.coapAckMessageHandle
  simp only
  split
  · exact h
  · split <;> split_ifs
    · exact h.delFirst _
    · exact h.setAcked _
    · exact (h.delFirst _).emit fun _ => rfl
    · exact (h.setAcked _).emit fun _ => rfl

section Received

variable (h : SendListInv ctx) (md5 : Bytes → Vector UInt8 16) (env : CoapEnv)
variable (remote : NetworkAddr) (message : CoapMessage Memory)
include h

theorem coapRespMessageHandle : SendListInv (Coap.coapRespMessageHandle env ctx remote message) := by
  obtain ⟨ctx1, heq, hack⟩ := exists_of_ack message h (h.coapMessageSend env remote _)
  rw [Coap.coapRespMessageHandle, heq]
  simp only
  split
  · exact hack.coapObsClientAdd _ _ _ _
  · split <;> split_ifs
    · exact hack.delFirst _
    · exact hack
    · exact ((hack.delFirst _).coapObsClientAdd _ _ _ _).emit fun _ => rfl
    · exact (hack.coapObsClientAdd _ _ _ _).emit fun _ => rfl

theorem coapRequestMessageHandle :
    SendListInv (Coap.coapRequestMessageHandle md5 env ctx remote message) := by
  unfold Coap.coapRequestMessageHandle
  simp only
  split
  · exact h.coapMessageSend env remote _
  · split
    · exact h.coapMessageSend env remote _
    · split_ifs
      · exact (h.coapMessageSend env remote _).emit fun _ => rfl
      · exact h.emit fun _ => rfl
      · exact h.coapMessageSend env remote _

theorem coapMessageDispatch :
    SendListInv (Coap.coapMessageDispatch md5 env ctx remote message) := by
  unfold Coap.coapMessageDispatch
  split_ifs
  · exact h.coapAckMessageHandle message
  · exact h.coapRespMessageHandle env remote message
  · exact h.coapMessageSend env remote _
  · exact h.coapRequestMessageHandle md5 env remote message
  · exact h

end Received

theorem checkTimeout (h : SendListInv ctx) (tick : UInt64) :
    SendListInv (Coap.checkTimeout ctx tick) := by
  unfold Coap.checkTimeout
  split
  · exact h
  · have hdel := h.delFirst (CoapSendNode.timedOut tick)
    split
    · exact hdel.of_eq rfl rfl fun _ => rfl
    · apply SendListInv.emit
      · exact hdel.of_eq rfl rfl fun _ => rfl
      · exact fun _ => rfl

theorem serverStep (h : SendListInv ctx) (md5 : Bytes → Vector UInt8 16) (op : ServerOp H U) :
    SendListInv (Coap.serverStep md5 ctx op) := by
  cases op with
  | send env remote message => exact h.coapMessageSend env remote message
  | cancel msgid => exact h.delAll _
  | receive env remote buf datalen => exact h.coapMessageDispatch md5 env remote _
  | retansmit tick => exact h.retansmit tick
  | checkTimeout tick => exact h.checkTimeout tick
  | obsAdd malloc observe overrun path remote request =>
    obtain ⟨hlist, hsends, htrace⟩ :=
      coapObsServerAdd_frame md5 malloc observe overrun ctx path remote request
    exact h.of_eq hlist hsends fun k => congrArg (writes k) htrace
  | obsDelete remote resource => exact h.of_eq rfl rfl fun _ => rfl
  | obsAllDelete remote => exact h.of_eq rfl rfl fun _ => rfl

end SendListInv

/-- A context starts with an empty send list. -/
theorem sendListInv_create (sendMax obsMax : UInt8) (resource : CoapList (CoapResource C)) :
    SendListInv (coapContextCreate sendMax obsMax resource : CoapIntContext H U C) where
  nodup := nodup_nil
  nodes_lt := by intro n hn; cases hn
  trace_lt := fun _ _ => rfl
  counted := CoapList.Counted.init sendMax
  nodes := by intro n hn; cases hn

/-- The invariant holds in every run of a server. -/
theorem sendListInv_run (md5 : Bytes → Vector UInt8 16) {ctx : CoapIntContext H U C}
    (h : SendListInv ctx) (ops : List (ServerOp H U)) : SendListInv (serverRun md5 ctx ops) :=
  GuardedRun.inv_foldl SendListInv (fun _ op hctx => hctx.serverStep md5 op) h ops

/-! ## One message along a run -/

/-- Message `k` is given to the network at most `b` times. -/
structure Budget (b k : ℕ) (ctx : CoapIntContext H U C) : Prop extends SendListInv ctx where
  sent : k < ctx.sends
  writes_le : writes k ctx.trace ≤ b
  node_le : ∀ n ∈ ctx.sendlist.list, n.send = k → writes k ctx.trace + n.retransCount.toNat ≤ b

theorem Budget.serverStep {b k : ℕ} {ctx : CoapIntContext H U C} (h : Budget b k ctx)
    (md5 : Bytes → Vector UInt8 16) (op : ServerOp H U) :
    Budget b k (Coap.serverStep md5 ctx op) := by
  have hstep := StepFor.serverStep h.toNumbered h.sent md5 op
  refine ⟨h.toSendListInv.serverStep md5 op, lt_of_lt_of_le h.sent hstep.sends_le, ?_, ?_⟩
  · rcases hstep.writes with heq | ⟨n, hn, hk, -, hle⟩
    · exact heq ▸ h.writes_le
    · exact hle.trans (h.node_le n hn hk)
  · intro n' hn' hk'
    obtain ⟨n, hn, hk, -, hle⟩ := hstep.node n' hn' hk'
    exact hle.trans (h.node_le n hn hk)

/-- Message `k` was written `w` times and is acknowledged, if it is still in the list. -/
structure Acked (k w : ℕ) (ctx : CoapIntContext H U C) : Prop extends SendListInv ctx where
  sent : k < ctx.sends
  writes_eq : writes k ctx.trace = w
  node_acked : ∀ n ∈ ctx.sendlist.list, n.send = k → n.acked = true

theorem Acked.serverStep {k w : ℕ} {ctx : CoapIntContext H U C} (h : Acked k w ctx)
    (md5 : Bytes → Vector UInt8 16) (op : ServerOp H U) :
    Acked k w (Coap.serverStep md5 ctx op) := by
  have hstep := StepFor.serverStep h.toNumbered h.sent md5 op
  refine ⟨h.toSendListInv.serverStep md5 op, lt_of_lt_of_le h.sent hstep.sends_le, ?_, ?_⟩
  · rcases hstep.writes with heq | ⟨n, hn, hk, hacked, -⟩
    · exact heq.trans h.writes_eq
    · rw [h.node_acked n hn hk] at hacked
      cases hacked
  · intro n' hn' hk'
    obtain ⟨n, hn, hk, hacked, -⟩ := hstep.node n' hn' hk'
    exact hacked (h.node_acked n hn hk)

/-- Message `k` is not in the list, and its handler was called `c` times. -/
structure Gone (k c : ℕ) (ctx : CoapIntContext H U C) : Prop extends SendListInv ctx where
  sent : k < ctx.sends
  calls_eq : calls k ctx.trace = c
  node_ne : ∀ n ∈ ctx.sendlist.list, n.send ≠ k

theorem Gone.serverStep {k c : ℕ} {ctx : CoapIntContext H U C} (h : Gone k c ctx)
    (md5 : Bytes → Vector UInt8 16) (op : ServerOp H U) :
    Gone k c (Coap.serverStep md5 ctx op) := by
  have hstep := StepFor.serverStep h.toNumbered h.sent md5 op
  refine ⟨h.toSendListInv.serverStep md5 op, lt_of_lt_of_le h.sent hstep.sends_le, ?_, ?_⟩
  · exact (hstep.calls h.node_ne).trans h.calls_eq
  · intro n' hn' hk'
    obtain ⟨n, hn, hk, -⟩ := hstep.node n' hn' hk'
    exact h.node_ne n hn hk

/-- A message that was just written has its retransmissions before it. -/
theorem budget_of_send {ctx : CoapIntContext H U C} (h : SendListInv ctx) (env : CoapEnv)
    (remote : NetworkAddr) (message : CoapSendMessage H U)
    (hwritten : ctx.sends < (coapMessageSend env ctx remote message).2.sends) :
    Budget (if message.header.type = coapMessageTypeCon then 1 + coapMaxRetryCount.toNat else 1)
      ctx.sends (coapMessageSend env ctx remote message).2 := by
  have hinv := h.coapMessageSend env remote message
  obtain ⟨hlist, hsends, htrace⟩ := coapObsClientDelete_frame ctx message.toCoapMessage
  have hone : ∀ bytes, writes ctx.sends (ctx.written remote message.toCoapMessage bytes).trace = 1 := by
    intro bytes
    simp only [CoapIntContext.writeNew, htrace, hsends, writes_append,
      h.trace_lt ctx.sends (le_refl _)]
    simp [writes, CoapEffect.isWrite]
  have hle : 1 ≤ if message.header.type = coapMessageTypeCon then 1 + coapMaxRetryCount.toNat
      else 1 := by
    split_ifs <;> omega
  rcases coapMessageSend_cases env ctx remote message with ⟨-, heq⟩ | ⟨bytes, heq | ⟨-, -, -, heq⟩⟩
  · rw [heq] at hwritten
    exact absurd hwritten (lt_irrefl _)
  · refine ⟨hinv, hwritten, ?_, ?_⟩
    · rw [heq, hone]
      exact hle
    · intro n hn hk
      rw [heq] at hn
      simp only [CoapIntContext.writeNew, hlist] at hn
      exact absurd hk (ne_of_lt (h.nodes_lt n hn))
  refine ⟨hinv, hwritten, ?_, ?_⟩
  · rw [heq, hone]
    exact hle
  · intro n hn hk
    rw [heq, hone]
    rw [heq] at hn
    rcases mem_append.mp hn with hold | hnew
    · exact absurd hk (ne_of_lt (h.nodes_lt n hold))
    · rw [mem_singleton.mp hnew]
      simp only [coapSendNode]
      split_ifs <;> decide

variable {p : CoapSendNode H U → Bool} {n : CoapSendNode H U}

section

variable (hnodup : (list.map CoapSendNode.send).Nodup) (hfind : list.find? p = some n)
include hnodup hfind

theorem find_split :
    ∃ l l', list = l ++ n :: l' ∧ (∀ m ∈ l ++ l', m.send ≠ n.send) ∧ list.eraseP p = l ++ l' ∧
      ∀ f, updateFirst p f list = l ++ f n :: l' := by
  obtain ⟨hp, l, l', rfl, hl⟩ := List.find?_eq_some_iff_append.mp hfind
  have hnot : ∀ m ∈ l, ¬ p m = true := fun m hm => by simpa using hl m hm
  refine ⟨l, l', rfl, fun m hm heq => ?_, ?_, fun f => ?_⟩
  · rw [map_append, map_cons, nodup_middle, nodup_cons, ← map_append]
      at hnodup
    exact hnodup.1 (heq ▸ mem_map_of_mem hm)
  · rw [eraseP_append_right _ hnot, eraseP_cons_of_pos hp]
  · clear hfind hnodup hl
    induction l with
    | nil => exact if_pos hp
    | cons a l ih =>
      have hrest := ih fun m hm => hnot m (mem_cons_of_mem a hm)
      rw [cons_append, updateFirst, if_neg (hnot a mem_cons_self), hrest]
      rfl

theorem send_ne_of_mem_eraseP : ∀ m ∈ list.eraseP p, m.send ≠ n.send := by
  obtain ⟨l, l', -, hne, herase, -⟩ := find_split hnodup hfind
  rwa [herase]

theorem eq_of_mem_updateFirst {f : CoapSendNode H U → CoapSendNode H U} :
    ∀ m ∈ updateFirst p f list, m.send = n.send → m = f n := by
  obtain ⟨l, l', -, hne, -, hupdate⟩ := find_split hnodup hfind
  intro m hm heq
  rw [hupdate] at hm
  by_contra hnot
  refine hne m ?_ heq
  simpa [hnot] using hm

end

/-- An acknowledgement marks the first node with the message id. -/
theorem coapAckMessageHandle_sendlist (ctx : CoapIntContext H U C)
    (message : CoapMessage Memory) {n : CoapSendNode H U}
    (hfind : ctx.sendlist.list.find? (fun node => node.header.msgid = message.header.msgid) = some n) :
    (coapAckMessageHandle ctx message).sendlist =
      if coapRespMsg n.header then
        ctx.sendlist.delFirst fun node => node.header.msgid = message.header.msgid
      else
        ctx.sendlist.updateFirst (fun node => node.header.msgid = message.header.msgid)
          fun node => { node with acked := true } := by
  unfold coapAckMessageHandle
  simp only [hfind]
  split <;> split_ifs <;> rfl

theorem acked_of_coapAckMessageHandle {ctx : CoapIntContext H U C} (h : SendListInv ctx)
    {message : CoapMessage Memory} {n : CoapSendNode H U}
    (hfind : ctx.sendlist.list.find? (fun node => node.header.msgid = message.header.msgid) = some n) :
    Acked n.send (writes n.send ctx.trace) (coapAckMessageHandle ctx message) := by
  have hmem := mem_of_find?_eq_some hfind
  have hstep := StepFor.coapAckMessageHandle (k := n.send) ctx message
  have hany : ctx.sendlist.list.any (fun node => node.header.msgid = message.header.msgid) = true := by
    have hid := List.find?_some hfind
    exact any_eq_true.mpr ⟨n, hmem, hid⟩
  refine ⟨h.coapAckMessageHandle message, lt_of_lt_of_le (h.nodes_lt n hmem) hstep.sends_le,
    ?_, ?_⟩
  · unfold coapAckMessageHandle
    simp only [hfind]
    split <;> split_ifs
    · rfl
    · rfl
    · rw [CoapIntContext.emit, writes_append]
      rfl
    · rw [CoapIntContext.emit, writes_append]
      rfl
  · intro m hm heq
    rw [coapAckMessageHandle_sendlist ctx message hfind] at hm
    split_ifs at hm
    · rw [CoapList.delFirst, if_pos hany] at hm
      exact absurd heq (send_ne_of_mem_eraseP h.nodup hfind m hm)
    · rw [eq_of_mem_updateFirst h.nodup hfind m hm heq]

/-! ## How a node ends -/

/-- The causes for which a node ends. -/
inductive EndCause
  | response
  | ackOfResponse
  | timeout
  | cancel

/-- The operation ends the node for this cause. -/
def EndsBy : ServerOp H U → CoapSendNode H U → EndCause → Prop
  | .receive _ _ buf datalen, n, .response =>
    ¬ (coapAckMsg (received buf datalen).header ∨ coapResetMsg (received buf datalen).header) ∧
      coapRespMsg (received buf datalen).header ∧ n.hasToken (received buf datalen) = true
  | .receive _ _ buf datalen, n, .ackOfResponse =>
    (coapAckMsg (received buf datalen).header ∨ coapResetMsg (received buf datalen).header) ∧
      n.header.msgid = (received buf datalen).header.msgid ∧ coapConRespMsg n.header
  | .checkTimeout tick, n, .timeout => n.timedOut tick = true
  | .cancel msgid, n, .cancel => n.header.msgid = msgid
  | _, _, _ => False

/-- A step ends a node for one cause. -/
theorem EndsBy.unique {op : ServerOp H U} {c c' : EndCause} (h : EndsBy op n c)
    (h' : EndsBy op n c') : c = c' := by
  cases op with
  | receive env remote buf datalen =>
    cases c <;> cases c' <;>
      first
      | rfl
      | exact absurd h'.1 h.1
      | exact absurd h.1 h'.1
      | exact False.elim h
      | exact False.elim h'
  | _ => cases c <;> cases c' <;> first | rfl | exact False.elim h | exact False.elim h'

theorem eq_of_not_mem_eraseP {α : Type} {l : List α} {p : α → Bool} {a b : α}
    (hfind : l.find? p = some a) (hb : b ∈ l) (hgone : b ∉ l.eraseP p) : b = a := by
  induction l with
  | nil => cases hb
  | cons c l ih =>
    by_cases hpc : p c = true
    · rw [List.find?_cons_of_pos hpc] at hfind
      rw [eraseP_cons_of_pos hpc] at hgone
      rcases mem_cons.mp hb with rfl | hmem
      · exact Option.some.inj hfind
      · exact absurd hmem hgone
    · rw [List.find?_cons_of_neg hpc] at hfind
      rw [eraseP_cons_of_neg hpc, mem_cons, not_or] at hgone
      exact ih hfind ((mem_cons.mp hb).resolve_left hgone.1) hgone.2

theorem mem_delFirst_of_not {sendlist : CoapList (CoapSendNode H U)} (hn : n ∈ sendlist.list)
    (hp : ¬ p n = true) : n ∈ (sendlist.delFirst p).list := by
  unfold CoapList.delFirst
  split_ifs
  · exact (mem_eraseP_of_neg hp).mpr hn
  · exact hn

theorem mem_sendlist_coapMessageSend {ctx : CoapIntContext H U C} (hn : n ∈ ctx.sendlist.list)
    (env : CoapEnv) (remote : NetworkAddr) (message : CoapSendMessage H U) :
    n ∈ (coapMessageSend env ctx remote message).2.sendlist.list := by
  have hlist := (coapObsClientDelete_frame ctx message.toCoapMessage).1
  rcases coapMessageSend_cases env ctx remote message with ⟨-, heq⟩ | ⟨bytes, heq | ⟨-, -, -, heq⟩⟩
  · rwa [heq]
  · rw [heq]
    simpa only [CoapIntContext.writeNew, hlist] using hn
  · rw [heq]
    exact mem_append_left _ hn

variable {message : CoapMessage Memory}

/-- Only a confirmable response ends by an ACK. -/
theorem ends_of_coapAckMessageHandle {ctx : CoapIntContext H U C} (h : SendListInv ctx)
    (hn : n ∈ ctx.sendlist.list)
    (hgone : ∀ m ∈ (coapAckMessageHandle ctx message).sendlist.list, m.send ≠ n.send) :
    n.header.msgid = message.header.msgid ∧ coapConRespMsg n.header := by
  cases hfind : ctx.sendlist.list.find? (fun node => node.header.msgid = message.header.msgid) with
  | none =>
    unfold coapAckMessageHandle at hgone
    simp only [hfind] at hgone
    exact absurd rfl (hgone n hn)
  | some node =>
    rw [coapAckMessageHandle_sendlist ctx message hfind] at hgone
    split_ifs at hgone with hresp
    · -- the node that was taken out is the first one, and it has the number of `n`
      have hany := any_eq_true.mpr
        ⟨node, mem_of_find?_eq_some hfind, List.find?_some hfind⟩
      rw [CoapList.delFirst, if_pos hany] at hgone
      obtain rfl := eq_of_not_mem_eraseP hfind hn fun hmem => hgone n hmem rfl
      have hid : n.header.msgid = message.header.msgid := by simpa using List.find?_some hfind
      refine ⟨hid, (h.nodes n hn).kind.resolve_left ?_⟩
      rintro ⟨-, hlt⟩
      exact absurd (UInt8.lt_of_le_of_lt hresp.1 hlt) (by decide)
    · exfalso
      have hmap := map_updateFirst (g := CoapSendNode.send) (l := ctx.sendlist.list)
        (f := fun node => { node with acked := true })
        (fun node => decide (node.header.msgid = message.header.msgid)) (by intro m; rfl)
      have hmem : n.send ∈ ctx.sendlist.list.map CoapSendNode.send := mem_map_of_mem hn
      rw [← hmap] at hmem
      obtain ⟨m, hm, heq⟩ := mem_map.mp hmem
      exact hgone m hm heq

/-- A response with another token leaves a node in the list. -/
theorem mem_sendlist_coapRespMessageHandle {ctx : CoapIntContext H U C} (hn : n ∈ ctx.sendlist.list)
    (env : CoapEnv) (remote : NetworkAddr) (htoken : ¬ n.hasToken message = true) :
    n ∈ (coapRespMessageHandle env ctx remote message).sendlist.list := by
  obtain ⟨ctx1, heq, hack⟩ := exists_of_ack (P := fun c => n ∈ c.sendlist.list) message hn
    (mem_sendlist_coapMessageSend hn env remote _)
  rw [coapRespMessageHandle, heq]
  simp only
  split
  · rwa [(coapObsClientAdd_frame _ _ _ _ _ 0).1]
  · split <;> split_ifs
    · exact mem_delFirst_of_not hack htoken
    · exact hack
    · simp only [CoapIntContext.emit, (coapObsClientAdd_some_frame _ _ _ _ _).1]
      exact mem_delFirst_of_not hack htoken
    · simp only [CoapIntContext.emit, (coapObsClientAdd_some_frame _ _ _ _ _).1]
      exact hack

theorem mem_sendlist_coapRequestMessageHandle {ctx : CoapIntContext H U C}
    (hn : n ∈ ctx.sendlist.list) (md5 : Bytes → Vector UInt8 16) (env : CoapEnv)
    (remote : NetworkAddr) (message : CoapMessage Memory) :
    n ∈ (coapRequestMessageHandle md5 env ctx remote message).sendlist.list := by
  unfold coapRequestMessageHandle
  simp only
  split
  · exact mem_sendlist_coapMessageSend hn env remote _
  · split
    · exact mem_sendlist_coapMessageSend hn env remote _
    · split_ifs
      · exact mem_sendlist_coapMessageSend hn env remote _
      · exact hn
      · exact mem_sendlist_coapMessageSend hn env remote _

/-- **The ends of a node.**  A node leaves the list for exactly one of the causes. -/
theorem endsBy_of_gone {ctx : CoapIntContext H U C} (h : SendListInv ctx)
    (md5 : Bytes → Vector UInt8 16) (op : ServerOp H U) (hn : n ∈ ctx.sendlist.list)
    (hgone : ∀ m ∈ (serverStep md5 ctx op).sendlist.list, m.send ≠ n.send) :
    ∃! c, EndsBy op n c := by
  suffices hex : ∃ c, EndsBy op n c by
    obtain ⟨c, hc⟩ := hex
    exact ⟨c, hc, fun c' hc' => hc'.unique hc⟩
  cases op with
  | send env remote message =>
    exact absurd rfl (hgone n (mem_sendlist_coapMessageSend hn env remote message))
  | cancel msgid =>
    refine ⟨.cancel, ?_⟩
    by_contra hne
    exact hgone n (mem_filter.mpr ⟨hn, by simpa [EndsBy] using hne⟩) rfl
  | receive env remote buf datalen =>
    have hgone' : ∀ m ∈ (coapMessageDispatch md5 env ctx remote
        (received buf datalen)).sendlist.list, m.send ≠ n.send := hgone
    unfold coapMessageDispatch at hgone'
    split_ifs at hgone' with hack hresp hping hreq
    · exact ⟨.ackOfResponse, hack, ends_of_coapAckMessageHandle h hn hgone'⟩
    · refine ⟨.response, hack, hresp, ?_⟩
      by_contra htoken
      exact hgone' n (mem_sendlist_coapRespMessageHandle hn env remote htoken) rfl
    · exact absurd rfl (hgone' n (mem_sendlist_coapMessageSend hn env remote _))
    · exact absurd rfl (hgone' n (mem_sendlist_coapRequestMessageHandle hn md5 env remote _))
    · exact absurd rfl (hgone' n hn)
  | retansmit tick =>
    exact absurd (CoapSendNode.send_retransmit tick n) (hgone _ (mem_map_of_mem hn))
  | checkTimeout tick =>
    refine ⟨.timeout, ?_⟩
    by_contra hwait
    have hstay : n ∈ (checkTimeout ctx tick).sendlist.list := by
      unfold checkTimeout
      split
      · exact hn
      · split <;> exact mem_delFirst_of_not hn hwait
    exact hgone n hstay rfl
  | obsAdd malloc observe overrun path remote request =>
    have hlist := (coapObsServerAdd_frame md5 malloc observe overrun ctx path remote request).1
    exact absurd rfl (hgone n (by simpa only [serverStep, hlist] using hn))
  | obsDelete remote resource => exact absurd rfl (hgone n hn)
  | obsAllDelete remote => exact absurd rfl (hgone n hn)

/-- A send that fails leaves the list as it was. -/
theorem sendlist_of_send_error (env : CoapEnv) (ctx : CoapIntContext H U C) (remote : NetworkAddr)
    (message : CoapSendMessage H U) (hrc : (coapMessageSend env ctx remote message).1 ≠ coapSuccess) :
    (coapMessageSend env ctx remote message).2.sendlist = ctx.sendlist := by
  rcases coapMessageSend_cases env ctx remote message with ⟨-, heq⟩ | ⟨bytes, heq | ⟨hok, -⟩⟩
  · rw [heq]
  · rw [heq]
    exact (coapObsClientDelete_frame ctx message.toCoapMessage).1
  · exact absurd hok hrc

/-! ## The send list along every run -/

/-- **The send list.**  In every run of the server, its count is the number of its nodes and at most
`maxcount`; a send that fails leaves it alone; a confirmable message is written at most nine times
and any other once, at intervals that never wrap; the first node with the id of an ACK or RST is not
sent again; and a node that is not kept ends for one of the four causes, its handler silent from
then on. -/
theorem server_send_list (md5 : Bytes → Vector UInt8 16) (sendMax obsMax : UInt8)
    (resource : CoapList (CoapResource C)) (ops : List (ServerOp H U)) :
    let ctx : CoapIntContext H U C := serverRun md5 (coapContextCreate sendMax obsMax resource) ops
    (ctx.sendlist.count.toNat = ctx.sendlist.list.length ∧
        ctx.sendlist.list.length ≤ ctx.sendlist.maxcount.toNat) ∧
      (∀ env remote message, (coapMessageSend env ctx remote message).1 ≠ coapSuccess →
        (coapMessageSend env ctx remote message).2.sendlist = ctx.sendlist) ∧
      (∀ env remote message later,
        ctx.sends < (serverStep md5 ctx (.send env remote message)).sends →
        writes ctx.sends (serverRun md5 (serverStep md5 ctx (.send env remote message)) later).trace
          ≤ if message.header.type = coapMessageTypeCon then 1 + coapMaxRetryCount.toNat else 1) ∧
      (∀ n ∈ ctx.sendlist.list, n.header.type = coapMessageTypeCon →
        n.timeoutVal.toNat = retransInterval (coapMaxRetryCount - n.retransCount).toNat) ∧
      (∀ env remote buf datalen n later,
        (coapAckMsg (received buf datalen).header ∨ coapResetMsg (received buf datalen).header) →
        ctx.sendlist.list.find? (fun m => m.header.msgid = (received buf datalen).header.msgid)
          = some n →
        writes n.send (serverRun md5 (serverStep md5 ctx (.receive env remote buf datalen)) later).trace
          = writes n.send ctx.trace) ∧
      (∀ op n later, n ∈ ctx.sendlist.list → n.keep = .nokeep →
        (∀ m ∈ (serverStep md5 ctx op).sendlist.list, m.send ≠ n.send) →
        (∃! c, EndsBy op n c) ∧
          (∀ m ∈ (serverRun md5 (serverStep md5 ctx op) later).sendlist.list, m.send ≠ n.send) ∧
          calls n.send (serverRun md5 (serverStep md5 ctx op) later).trace
            = calls n.send (serverStep md5 ctx op).trace) := by
  intro ctx
  have hinv : SendListInv ctx := sendListInv_run md5 (sendListInv_create sendMax obsMax resource) ops
  refine ⟨⟨hinv.counted.count_eq, hinv.counted.le_maxcount⟩, ?_, ?_, ?_, ?_, ?_⟩
  · intro env remote message
    exact sendlist_of_send_error env ctx remote message
  · intro env remote message later hwritten
    -- a message that is sent has its retransmissions in front of it
    have hbudget := GuardedRun.inv_foldl
      (Budget (if message.header.type = coapMessageTypeCon then 1 + coapMaxRetryCount.toNat else 1)
        ctx.sends)
      (fun _ op hctx => Budget.serverStep hctx md5 op)
      (budget_of_send hinv env remote message hwritten) later
    exact hbudget.writes_le
  · intro n hn hcon
    exact ((hinv.nodes n hn).con hcon).2
  · intro env remote buf datalen n later hack hfind
    have hdispatch : serverStep md5 ctx (.receive env remote buf datalen)
        = coapAckMessageHandle ctx (received buf datalen) := if_pos hack
    rw [hdispatch]
    -- an acknowledged message is not written again
    have hacked := GuardedRun.inv_foldl (Acked n.send (writes n.send ctx.trace))
      (fun _ op hctx => Acked.serverStep hctx md5 op) (acked_of_coapAckMessageHandle hinv hfind)
      later
    exact hacked.writes_eq
  · intro op n later hn _ hgone
    -- a node that has left the list does not come back, and is not called again
    have hstep := StepFor.serverStep hinv.toNumbered (hinv.nodes_lt n hn) md5 op
    have hend : Gone n.send (calls n.send (serverStep md5 ctx op).trace) (serverStep md5 ctx op) :=
      ⟨hinv.serverStep md5 op, lt_of_lt_of_le (hinv.nodes_lt n hn) hstep.sends_le, rfl, hgone⟩
    have hlater := GuardedRun.inv_foldl
      (Gone n.send (calls n.send (serverStep md5 ctx op).trace))
      (fun _ op hctx => Gone.serverStep hctx md5 op) hend later
    exact ⟨endsBy_of_gone hinv md5 op hn hgone, hlater.node_ne, hlater.calls_eq⟩

end Iotkit.Coap
