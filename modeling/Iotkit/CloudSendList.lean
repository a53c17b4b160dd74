/-
# The send list of the cloud client

What the code keeps as long as two things do not happen: a message is put into a full list,
which the comparison of two addresses in `Cloud_CoAPMessageList_add` lets pass, and a
confirmable message that waits is acknowledged, after which no cycle ever removes it.  Then
the count is the number of nodes, there is room for all of them, and every node is gone after
17 cycles.
-/
import Iotkit.CloudCoap
import Iotkit.GuardedRun

namespace Iotkit.Coap.Cloud

open List

variable {R U : Type}

/-! ## The life of a node -/

/-- How a node stands that will leave the list: it is not confirmable and waits, or it has
been written one, two or three times and is not acknowledged. -/
structure CloudSendNode.Ok (n : CloudSendNode R U) : Prop where
  stage : (n.retransCount = 4 ∧ n.timeout ≤ 10) ∨
    n.acked = false ∧ ((n.retransCount = 0 ∧ n.timeoutVal = 2 ∧ n.timeout ≤ 2) ∨
      (n.retransCount = 1 ∧ n.timeoutVal = 4 ∧ n.timeout ≤ 4) ∨
      (n.retransCount = 2 ∧ n.timeoutVal = 8 ∧ n.timeout ≤ 8))

/-- The number of cycles after which the node is gone. -/
def CloudSendNode.cyclesLeft (n : CloudSendNode R U) : ℕ :=
  if n.retransCount = 0 then n.timeout.toNat + 15
  else if n.retransCount = 1 then n.timeout.toNat + 10
  else n.timeout.toNat + 1

variable (env : CloudEnv)

theorem cloudSendNode_ok (send : ℕ) (message : CloudMessage R U) (sendbuf : Bytes) :
    (cloudSendNode env send message sendbuf).Ok := by
  by_cases hcon : message.header.type = coapMessageTypeCon
  · refine ⟨.inr ⟨rfl, .inl ?_⟩⟩
    simp only [cloudSendNode, if_pos hcon]
    decide
  · refine ⟨.inl ?_⟩
    simp only [cloudSendNode, if_neg hcon]
    decide

theorem CloudSendNode.Ok.cyclesLeft_le {n : CloudSendNode R U} (h : n.Ok) : n.cyclesLeft ≤ 17 := by
  unfold CloudSendNode.cyclesLeft
  rcases h.stage with ⟨hcount, hle⟩ | ⟨-, ⟨hcount, -, hle⟩ | ⟨hcount, -, hle⟩ | ⟨hcount, -, hle⟩⟩ <;>
    rw [UInt16.le_iff_toNat_le] at hle <;> simp [hcount] at hle ⊢ <;> omega

theorem CloudSendNode.Ok.wait {n : CloudSendNode R U} (h : n.Ok) (hwait : n.timeout ≠ 0) :
    ({ n with timeout := n.timeout - 1 } : CloudSendNode R U).Ok ∧
      ({ n with timeout := n.timeout - 1 } : CloudSendNode R U).cyclesLeft + 1 = n.cyclesLeft := by
  have hpos : 1 ≤ n.timeout.toNat := by
    rw [Nat.one_le_iff_ne_zero]
    intro hzero
    exact hwait (UInt16.toNat_inj.mp hzero)
  have hsub : (n.timeout - 1).toNat = n.timeout.toNat - 1 :=
    UInt16.toNat_sub_of_le _ _ (UInt16.le_iff_toNat_le.mpr hpos)
  have hle : n.timeout - 1 ≤ n.timeout := by
    rw [UInt16.le_iff_toNat_le, hsub]
    omega
  refine ⟨⟨?_⟩, ?_⟩
  · have htrans : ∀ {t : UInt16}, n.timeout ≤ t → n.timeout - 1 ≤ t := fun ht =>
      UInt16.le_trans hle ht
    exact h.stage.imp (.imp_right htrans) (.imp_right (.imp (.imp_right (.imp_right htrans))
        (.imp (.imp_right (.imp_right htrans)) (.imp_right (.imp_right htrans)))))
  · simp only [CloudSendNode.cyclesLeft, hsub]
    split_ifs <;> omega

/-- **One cycle.**  A node that stays in the list has one cycle less to go. -/
theorem CloudSendNode.Ok.cycle {n m : CloudSendNode R U} (h : n.Ok) (hm : n.cycle = some m) :
    m.send = n.send ∧ m.Ok ∧ m.cyclesLeft + 1 = n.cyclesLeft := by
  by_cases hzero : n.timeout = 0
  · unfold CloudSendNode.cycle at hm
    rw [if_pos hzero] at hm
    rcases h.stage with ⟨hcount, -⟩ | ⟨hacked, ⟨hcount, hval, -⟩ | ⟨hcount, hval, -⟩ | ⟨hcount, hval, -⟩⟩
    · have hdue : n.due = false := by simp [CloudSendNode.due, hcount, coapMaxRetryCount]
      simp [hdue, hcount, coapMaxRetryCount] at hm
    all_goals
      have hdue : n.due = true := by
        simp only [CloudSendNode.due, hzero, hcount, hacked]
        decide
      simp only [hdue, if_true, CloudSendNode.retransmitted, hcount, hval] at hm
    · rw [if_neg (by decide)] at hm
      cases hm
      refine ⟨rfl, ⟨.inr ⟨hacked, .inr (.inl ⟨rfl, rfl, ?_⟩)⟩⟩, ?_⟩
      · exact (by decide : (2 * 2 : UInt16) ≤ 4)
      · simp [CloudSendNode.cyclesLeft, hzero, hcount]
    · rw [if_neg (by decide)] at hm
      cases hm
      refine ⟨rfl, ⟨.inr ⟨hacked, .inr (.inr ⟨rfl, rfl, ?_⟩)⟩⟩, ?_⟩
      · exact (by decide : (4 * 2 : UInt16) ≤ 8)
      · simp [CloudSendNode.cyclesLeft, hzero, hcount]
    · rw [if_pos (by decide)] at hm
      cases hm
  · unfold CloudSendNode.cycle at hm
    rw [if_neg hzero] at hm
    cases hm
    exact ⟨rfl, h.wait hzero⟩

/-! ## The condition on the steps -/

variable (ctx : CloudContext R U)

/-- A message that will be listed finds room. -/
def HasRoom (message : CloudMessage R U) : Prop :=
  (coapSerializeMessageLength message.toCoapMessage).toNat ≤ coapMsgMaxPduLen →
    env.written = true → coapReqMsg message.header ∨ coapConRespMsg message.header →
    ctx.list.count < ctx.list.maxcount

/-- Each message that a response handler sends finds room. -/
def CallsHaveRoom (calls : List (CloudEnv × CloudMessage R U)) : Prop :=
  GuardedRun.AllSteps (fun ctx call => (cloudMessageSend call.1 ctx call.2).2)
    (fun ctx call => HasRoom call.1 ctx call.2) ctx calls

/-- The steps after which the list is as it should be: messages are listed only where there
is room, and an acknowledgement is for no confirmable message that still waits. -/
def Admissible : CloudOp R U → Prop
  | .send env message => HasRoom env ctx message
  | .receive env calls buf datalen =>
    (coapAckMsg (received buf datalen).header → ∀ node,
      ctx.list.list.find? (fun node => node.msgid = (received buf datalen).header.msgid) =
        some node → coapMaxRetryCount ≤ node.retransCount) ∧
    (coapRespMsg (received buf datalen).header → ∀ node resp,
      ctx.list.list.find? (CloudSendNode.hasToken (received buf datalen)) = some node →
      node.resp = some resp →
      CallsHaveRoom ((cloudRespMessageAck env ctx (received buf datalen)).emit
        (.resp node.send resp node.user (received buf datalen))) calls)
  | .cycle => True

/-! ## What the steps do to the list -/

/-- A step that is not a cycle: the nodes are old ones with as many cycles to go as before,
or new ones. -/
structure Quiet (ctx ctx' : CloudContext R U) : Prop where
  sends_le : ctx.sends ≤ ctx'.sends
  counted : ctx.list.Counted → ctx'.list.Counted
  mem : ∀ m ∈ ctx'.list.list,
    (∃ n ∈ ctx.list.list, m.send = n.send ∧ m.cyclesLeft = n.cyclesLeft ∧ (n.Ok → m.Ok)) ∨
      (ctx.sends ≤ m.send ∧ m.send < ctx'.sends ∧ m.Ok)

namespace Quiet

variable {ctx ctx' ctx'' : CloudContext R U}

theorem trans (h : Quiet ctx ctx') (h' : Quiet ctx' ctx'') : Quiet ctx ctx'' where
  sends_le := le_trans h.sends_le h'.sends_le
  counted hc := h'.counted (h.counted hc)
  mem := by
    intro m hm
    rcases h'.mem m hm with ⟨n, hn, hsend, hleft, hok⟩ | ⟨hle, hlt, hok⟩
    · rcases h.mem n hn with ⟨n', hn', hsend', hleft', hok'⟩ | ⟨hle, hlt, hok'⟩
      · exact .inl ⟨n', hn', hsend.trans hsend', hleft.trans hleft', fun h0 => hok (hok' h0)⟩
      · rw [← hsend] at hle hlt
        exact .inr ⟨hle, lt_of_lt_of_le hlt h'.sends_le, hok hok'⟩
    · exact .inr ⟨le_trans h.sends_le hle, hlt, hok⟩

theorem of_subset (hsends : ctx.sends ≤ ctx'.sends)
    (hcounted : ctx.list.Counted → ctx'.list.Counted)
    (hsub : ∀ m ∈ ctx'.list.list, m ∈ ctx.list.list) : Quiet ctx ctx' :=
  ⟨hsends, hcounted, fun m hm => .inl ⟨m, hsub m hm, rfl, rfl, id⟩⟩

theorem of_list_eq (hsends : ctx.sends ≤ ctx'.sends) (hlist : ctx'.list = ctx.list) :
    Quiet ctx ctx' :=
  of_subset hsends (hlist ▸ id) (fun _ hm => hlist ▸ hm)

end Quiet

theorem cloudMessageSend_cases (message : CloudMessage R U) :
    ((cloudMessageSend env ctx message).2.list = ctx.list ∧
        ctx.sends ≤ (cloudMessageSend env ctx message).2.sends) ∨
      ((coapSerializeMessageLength message.toCoapMessage).toNat ≤ coapMsgMaxPduLen ∧
        env.written = true ∧ (coapReqMsg message.header ∨ coapConRespMsg message.header) ∧
        (cloudMessageSend env ctx message).2.sends = ctx.sends + 1 ∧
        ∃ sendbuf, (cloudMessageSend env ctx message).2.list =
          ctx.list.addTail (cloudSendNode env ctx.sends message sendbuf)) := by
  unfold cloudMessageSend cloudMessageListAdd CloudContext.writeNew
  simp only
  rw [if_neg (by decide : ¬ countOffset ≥ maxcountOffset)]
  split_ifs with hlong hwritten hlisted hnode
  · exact .inl ⟨rfl, le_rfl⟩
  · exact .inr ⟨not_lt.mp hlong, hwritten, hlisted, rfl, _, rfl⟩
  · exact .inl ⟨rfl, Nat.le_succ _⟩
  · exact .inl ⟨rfl, Nat.le_succ _⟩
  · exact .inl ⟨rfl, Nat.le_succ _⟩

theorem Quiet.cloudMessageSend {env : CloudEnv} {ctx : CloudContext R U}
    {message : CloudMessage R U} (hroom : HasRoom env ctx message) :
    Quiet ctx (cloudMessageSend env ctx message).2 := by
  rcases cloudMessageSend_cases env ctx message with
    ⟨hlist, hsends⟩ | ⟨hfits, hwritten, hlisted, hsends, sendbuf, hlist⟩
  · exact Quiet.of_list_eq hsends hlist
  refine ⟨hsends ▸ Nat.le_succ _, fun hc => hlist ▸ hc.addTail (hroom hfits hwritten hlisted) _, ?_⟩
  intro m hm
  rw [hlist] at hm
  rcases mem_append.mp hm with hold | hnew
  · exact .inl ⟨m, hold, rfl, rfl, id⟩
  · obtain rfl := mem_singleton.mp hnew
    refine .inr ⟨le_rfl, ?_, cloudSendNode_ok env ctx.sends message sendbuf⟩
    rw [hsends]
    exact Nat.lt_succ_self _

theorem Quiet.handlerSends {ctx : CloudContext R U} {calls : List (CloudEnv × CloudMessage R U)}
    (hroom : CallsHaveRoom ctx calls) : Quiet ctx (Cloud.handlerSends ctx calls) := by
  induction calls generalizing ctx with
  | nil => exact Quiet.of_list_eq le_rfl rfl
  | cons call calls ih => exact (Quiet.cloudMessageSend hroom.1).trans (ih hroom.2)

theorem cloudRespMessageAck_list (message : CoapMessage Memory) :
    (cloudRespMessageAck env ctx message).list = ctx.list ∧
      ctx.sends ≤ (cloudRespMessageAck env ctx message).sends := by
  unfold cloudRespMessageAck
  split_ifs
  · rcases cloudMessageSend_cases env ctx { (cloudMessageInit : CloudMessage R U) with
      header := { (cloudMessageInit : CloudMessage R U).header with msgid := message.header.msgid } }
      with hsame | ⟨-, -, hlisted, -⟩
    · exact hsame
    · exact absurd hlisted (by
        show ¬ (((1 : UInt8) ≤ 0 ∧ (0 : UInt8) < 32) ∨ ((0 : UInt8) = 0x45 ∧ (2 : Fin 4) = 0))
        decide)
  · exact ⟨rfl, le_rfl⟩

theorem Quiet.cloudAckMessageHandle {ctx : CloudContext R U} {message : CoapMessage Memory}
    (hack : ∀ node, ctx.list.list.find? (fun node => node.msgid = message.header.msgid) =
      some node → coapMaxRetryCount ≤ node.retransCount) :
    Quiet ctx (Cloud.cloudAckMessageHandle ctx message) := by
  refine ⟨le_rfl, fun hc => hc.of_length_eq (length_updateFirst _ _ _), ?_⟩
  intro m hm
  rcases mem_updateFirst hm with hold | ⟨n, hfind, rfl⟩
  · exact .inl ⟨m, hold, rfl, rfl, id⟩
  refine .inl ⟨n, mem_of_find?_eq_some hfind, rfl, rfl, fun hok => ⟨.inl ?_⟩⟩
  rcases hok.stage with hlast | ⟨-, ⟨hcount, -⟩ | ⟨hcount, -⟩ | ⟨hcount, -⟩⟩
  · exact hlast
  all_goals
    have hmax := hack n hfind
    rw [hcount] at hmax
    exact absurd hmax (by decide)

theorem Quiet.delFirst (ctx : CloudContext R U) (p : CloudSendNode R U → Bool) :
    Quiet ctx { ctx with list := ctx.list.delFirst p } := by
  refine Quiet.of_subset le_rfl (fun hc => hc.delFirst p) fun m hm => ?_
  simp only [CoapList.delFirst] at hm
  split_ifs at hm
  · exact mem_of_mem_eraseP hm
  · exact hm

theorem Quiet.cloudMessageHandle {ctx : CloudContext R U} {env : CloudEnv}
    {calls : List (CloudEnv × CloudMessage R U)} {buf : Memory} {datalen : UInt16}
    (h : Admissible ctx (.receive env calls buf datalen)) :
    Quiet ctx (Cloud.cloudMessageHandle env calls ctx buf datalen) := by
  obtain ⟨hack, hresp⟩ := h
  unfold Cloud.cloudMessageHandle cloudMessageDispatch
  split_ifs with hisack hisresp
  · exact Quiet.cloudAckMessageHandle (hack hisack)
  · have hpre := cloudRespMessageAck_list env ctx (received buf datalen)
    have hfirst : Quiet ctx (cloudRespMessageAck env ctx (received buf datalen)) :=
      Quiet.of_list_eq hpre.2 hpre.1
    unfold cloudRespMessageHandle
    simp only [hpre.1]
    cases hfind : ctx.list.list.find? (CloudSendNode.hasToken (received buf datalen)) with
    | none => exact hfirst
    | some node =>
      simp only
      cases hnode : node.resp with
      | none => exact hfirst.trans (Quiet.delFirst _ _)
      | some resp =>
        refine (hfirst.trans ?_).trans (Quiet.delFirst _ _)
        have hcalls := hresp hisresp node resp hfind hnode
        have hemit : Quiet (cloudRespMessageAck env ctx (received buf datalen))
            ((cloudRespMessageAck env ctx (received buf datalen)).emit
              (.resp node.send resp node.user (received buf datalen))) :=
          Quiet.of_list_eq le_rfl rfl
        exact hemit.trans (Quiet.handlerSends hcalls)
  · exact Quiet.of_list_eq le_rfl rfl

/-! ## Runs -/

/-- The list is counted, and its nodes are on their way out. -/
structure CloudInv (ctx : CloudContext R U) : Prop where
  counted : ctx.list.Counted
  ok : ∀ n ∈ ctx.list.list, n.Ok
  send_lt : ∀ n ∈ ctx.list.list, n.send < ctx.sends

theorem cloudInv_create (maxcount : UInt8) :
    CloudInv (cloudContextCreate maxcount : CloudContext R U) := by
  refine ⟨CoapList.Counted.init maxcount, ?_, ?_⟩ <;> rintro n ⟨⟩

theorem CloudInv.of_quiet {ctx ctx' : CloudContext R U} (h : CloudInv ctx) (hq : Quiet ctx ctx') :
    CloudInv ctx' := by
  refine ⟨hq.counted h.counted, fun m hm => ?_, fun m hm => ?_⟩
  · rcases hq.mem m hm with ⟨n, hn, -, -, hok⟩ | ⟨-, -, hok⟩
    · exact hok (h.ok n hn)
    · exact hok
  · rcases hq.mem m hm with ⟨n, hn, hsend, -⟩ | ⟨-, hlt, -⟩
    · rw [hsend]
      exact lt_of_lt_of_le (h.send_lt n hn) hq.sends_le
    · exact hlt

theorem CloudInv.cycle {ctx : CloudContext R U} (h : CloudInv ctx) :
    CloudInv (cloudMessageCycle ctx) := by
  refine ⟨h.counted.remove ?_, fun m hm => ?_, fun m hm => ?_⟩
  · -- a node stays or is counted as removed
    induction ctx.list.list with
    | nil => rfl
    | cons n list ih =>
      cases hn : n.cycle with
      | none => simp [hn]; omega
      | some m => simp [hn]; omega
  · obtain ⟨n, hn, hcycle⟩ := mem_filterMap.mp hm
    exact ((h.ok n hn).cycle hcycle).2.1
  · obtain ⟨n, hn, hcycle⟩ := mem_filterMap.mp hm
    rw [((h.ok n hn).cycle hcycle).1]
    exact h.send_lt n hn

/-- The message number `k` was sent, and its node is gone after `b` more cycles. -/
structure Within (k b : ℕ) (ctx : CloudContext R U) : Prop extends CloudInv ctx where
  lt_sends : k < ctx.sends
  left_le : ∀ m ∈ ctx.list.list, m.send = k → m.cyclesLeft ≤ b

theorem Within.of_quiet {k b : ℕ} {ctx ctx' : CloudContext R U} (h : Within k b ctx)
    (hq : Quiet ctx ctx') : Within k b ctx' := by
  refine ⟨h.toCloudInv.of_quiet hq, lt_of_lt_of_le h.lt_sends hq.sends_le, fun m hm hk => ?_⟩
  rcases hq.mem m hm with ⟨n, hn, hsend, hleft, -⟩ | ⟨hle, -⟩
  · rw [hleft]
    exact h.left_le n hn (hsend.symm.trans hk)
  · have hlt := h.lt_sends
    omega

theorem Within.cycle {k b : ℕ} {ctx : CloudContext R U} (h : Within k b ctx) :
    Within k (b - 1) (cloudMessageCycle ctx) := by
  refine ⟨h.toCloudInv.cycle, h.lt_sends, fun m hm hk => ?_⟩
  obtain ⟨n, hn, hcycle⟩ := mem_filterMap.mp hm
  obtain ⟨hsend, -, hleft⟩ := (h.ok n hn).cycle hcycle
  have hle := h.left_le n hn (hsend.symm.trans hk)
  omega

theorem quiet_cloudStep {ctx : CloudContext R U} {op : CloudOp R U} (hop : Admissible ctx op)
    (hcycle : op ≠ .cycle) : Quiet ctx (cloudStep ctx op) := by
  cases op with
  | send env message => exact Quiet.cloudMessageSend hop
  | receive env calls buf datalen => exact Quiet.cloudMessageHandle hop
  | cycle => exact absurd rfl hcycle

theorem CloudInv.cloudStep {ctx : CloudContext R U} (h : CloudInv ctx) {op : CloudOp R U}
    (hop : Admissible ctx op) : CloudInv (Cloud.cloudStep ctx op) := by
  by_cases hcycle : op = .cycle
  · rw [hcycle]
    exact h.cycle
  · exact h.of_quiet (quiet_cloudStep hop hcycle)

/-- The number of cycles in a run. -/
def CloudOp.isCycle : CloudOp R U → Bool
  | .cycle => true
  | _ => false

/-- **A whole run.**  Each cycle brings the node of the message closer to its end. -/
theorem Within.cloudRun {k b : ℕ} {ctx : CloudContext R U} (h : Within k b ctx)
    {ops : List (CloudOp R U)} (hops : GuardedRun.AllSteps cloudStep Admissible ctx ops) :
    Within k (b - ops.countP CloudOp.isCycle) (Cloud.cloudRun ctx ops) := by
  induction ops generalizing ctx b with
  | nil => exact h
  | cons op ops ih =>
    by_cases hcycle : op = .cycle
    · subst hcycle
      have hrest := ih h.cycle hops.2
      have hcount : (CloudOp.cycle :: ops).countP (CloudOp.isCycle (R := R) (U := U)) =
          ops.countP CloudOp.isCycle + 1 := countP_cons_of_pos rfl
      rw [Nat.sub_sub, Nat.add_comm] at hrest
      rw [hcount]
      exact hrest
    have hrest := ih (h.of_quiet (quiet_cloudStep hops.1 hcycle)) hops.2
    have hcount : (op :: ops).countP CloudOp.isCycle = ops.countP CloudOp.isCycle := by
      cases op with
      | cycle => exact absurd rfl hcycle
      | _ => rfl
    rw [hcount]
    exact hrest

/-- **The send list of the cloud client.**  In every run in which messages are listed only
where there is room and no waiting confirmable message is acknowledged, the count is the
number of nodes and at most `maxcount`, a send into a full list fails and adds nothing, and
the node of a message is gone after 17 cycles. -/
theorem cloud_send_list (maxcount : UInt8) (ops : List (CloudOp R U))
    (hops : GuardedRun.AllSteps cloudStep Admissible (cloudContextCreate maxcount) ops) :
    let ctx : CloudContext R U := cloudRun (cloudContextCreate maxcount) ops
    (ctx.list.count.toNat = ctx.list.list.length ∧
        ctx.list.list.length ≤ ctx.list.maxcount.toNat) ∧
      (∀ env message, Admissible ctx (.send env message) →
        (coapReqMsg message.header ∨ coapConRespMsg message.header) →
        ctx.list.maxcount ≤ ctx.list.count →
        (cloudMessageSend env ctx message).1 ≠ coapSuccess ∧
          (cloudMessageSend env ctx message).2.list = ctx.list) ∧
      (∀ n ∈ ctx.list.list, ∀ later, GuardedRun.AllSteps cloudStep Admissible ctx later →
        17 ≤ later.countP CloudOp.isCycle →
        ∀ m ∈ (cloudRun ctx later).list.list, m.send ≠ n.send) := by
  intro ctx
  have hinv : CloudInv ctx :=
    GuardedRun.inv_of_allSteps (fun _ _ h hop => h.cloudStep hop) ops (cloudInv_create maxcount) hops
  refine ⟨⟨hinv.counted.count_eq, hinv.counted.le_maxcount⟩, ?_, ?_⟩
  · intro env message hroom hlisted hfull
    have hrefused : ¬ ((coapSerializeMessageLength message.toCoapMessage).toNat ≤ coapMsgMaxPduLen ∧
        env.written = true) := fun h => UInt8.not_lt.mpr hfull (hroom h.1 h.2 hlisted)
    unfold cloudMessageSend
    simp only
    split_ifs with hlong hwritten
    · exact ⟨(by decide : coapErrorDataSize ≠ coapSuccess), rfl⟩
    · exact absurd ⟨not_lt.mp hlong, hwritten⟩ hrefused
    · exact ⟨(by decide : coapErrorWriteFailed ≠ coapSuccess), rfl⟩
  · intro n hn later hlater hcycles m hm hsend
    have hstart : Within n.send 17 ctx :=
      ⟨hinv, hinv.send_lt n hn, fun m hm _ => (hinv.ok m hm).cyclesLeft_le⟩
    have hend := hstart.cloudRun hlater
    have hzero := hend.left_le m hm hsend
    have hpos : 0 < m.cyclesLeft := by
      unfold CloudSendNode.cyclesLeft
      split_ifs <;> omega
    omega

/-- A confirmable request without options. -/
def getRequest (msgid : UInt16) : CloudMessage ℕ ℕ where
  header := ⟨1, coapMessageTypeCon, 1, coapMsgCodeGet, msgid⟩
  token := fun _ => 0xAA
  options := []
  payloadlen := 0
  payload := none
  user := none
  resp := none

/-- One request and seventeen cycles. -/
theorem cloud_send_list_one_request :
    let ctx := cloudRun (cloudContextCreate 1) [.send ⟨true, true, true⟩ (getRequest 7)]
    ctx.list.list.map CloudSendNode.send = [0] ∧
      ∀ m ∈ (cloudRun ctx (List.replicate 17 .cycle)).list.list, m.send ≠ 0 := by
  intro ctx
  have hsend : ctx.list.list.map CloudSendNode.send = [0] := by decide
  have hops : GuardedRun.AllSteps cloudStep Admissible (cloudContextCreate 1)
      [.send ⟨true, true, true⟩ (getRequest 7)] := ⟨fun _ _ _ => by decide, trivial⟩
  have hcycles : ∀ (k : ℕ) (c : CloudContext ℕ ℕ),
      GuardedRun.AllSteps cloudStep Admissible c (List.replicate k .cycle) := by
    intro k
    induction k with
    | zero => intro c; trivial
    | succ k ih => intro c; exact ⟨trivial, ih _⟩
  refine ⟨hsend, ?_⟩
  obtain ⟨n, hn, hzero⟩ := mem_map.mp (hsend ▸ mem_singleton_self 0)
  have hgone := (cloud_send_list 1 [.send ⟨true, true, true⟩ (getRequest 7)] hops).2.2 n hn
    (List.replicate 17 .cycle) (hcycles 17 _) (by decide)
  rwa [hzero] at hgone

/-- A node that is acknowledged while it waits stays in the list for ever. -/
def Stuck (n : CloudSendNode R U) : Prop :=
  n.acked = true ∧ n.retransCount < coapMaxRetryCount ∧ n.timeout ≤ coapMaxTransmissionSpan

theorem Stuck.cycle {n : CloudSendNode R U} (h : Stuck n) : ∃ m, n.cycle = some m ∧ Stuck m := by
  obtain ⟨hacked, hcount, hle⟩ := h
  by_cases hzero : n.timeout = 0
  · refine ⟨n, ?_, hacked, hcount, hle⟩
    have hdue : n.due = false := by simp [CloudSendNode.due, hacked]
    unfold CloudSendNode.cycle
    simp only [if_pos hzero, hdue, Bool.false_eq_true, if_false]
    rw [if_neg]
    rintro (hgt | hge)
    · exact UInt16.not_lt.mpr hle hgt
    · exact UInt8.not_lt.mpr hge hcount
  · refine ⟨{ n with timeout := n.timeout - 1 }, if_neg hzero, hacked, hcount, ?_⟩
    refine UInt16.le_trans ?_ hle
    have hpos : (1 : UInt16) ≤ n.timeout := by
      rw [UInt16.le_iff_toNat_le]
      exact Nat.one_le_iff_ne_zero.mpr fun h0 => hzero (UInt16.toNat_inj.mp h0)
    rw [UInt16.le_iff_toNat_le, UInt16.toNat_sub_of_le _ _ hpos]
    exact Nat.sub_le _ _

theorem exists_stuck_of_cycles {ctx : CloudContext R U} (h : ∃ n ∈ ctx.list.list, Stuck n) (k : ℕ) :
    ∃ n ∈ (cloudRun ctx (List.replicate k .cycle)).list.list, Stuck n := by
  induction k generalizing ctx with
  | zero => exact h
  | succ k ih =>
    apply ih
    obtain ⟨n, hn, hstuck⟩ := h
    obtain ⟨m, hcycle, hm⟩ := hstuck.cycle
    exact ⟨m, mem_filterMap.mpr ⟨n, hn, hcycle⟩, hm⟩

/-- Two requests stand in a list with room for one; and a request that is acknowledged is
still listed after any number of cycles. -/
theorem cloud_send_list_overfull_and_stuck :
    let overfull := cloudRun (cloudContextCreate 1)
      [.send ⟨true, true, true⟩ (getRequest 7), .send ⟨true, true, true⟩ (getRequest 8)]
    let ctx := cloudRun (cloudContextCreate 1) [.send ⟨true, true, true⟩ (getRequest 7),
        .receive ⟨true, true, true⟩ [] (memOf [0x60, 0, 0, 7] fun _ => 0) 4]
    (overfull.list.list.length = 2 ∧ overfull.list.maxcount = 1) ∧
      ∀ k, (cloudRun ctx (List.replicate k .cycle)).list.list ≠ [] := by
  intro overfull ctx
  refine ⟨by decide, ?_⟩
  intro k hnil
  have hstuck : ∃ n ∈ ctx.list.list, Stuck n := by
    unfold Stuck
    decide
  obtain ⟨n, hn, -⟩ := exists_stuck_of_cycles hstuck k
  rw [hnil] at hn
  cases hn

end Iotkit.Coap.Cloud
