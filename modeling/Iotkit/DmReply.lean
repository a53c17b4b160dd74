/-
# Replies of the cloud (`dm_msg_process.c`, `dm_message.c`)

The handler of a reply looks the request up in the message cache and reports the reply, and then
removes the request.  Each of the two copies the text of the id and reads it with `atoi`: the first
tests that the length is at most 10, the second does not.
-/
import Iotkit.DmMsgCache
import Iotkit.LibC

namespace Iotkit.Dm

open LibC

/-! ## Replies and reports -/

def dmUtilsUint32Strlen : ℕ := 10

/-- A `dm_msg_response_payload_t`; a member `message` that is missing is empty. -/
structure DmMsgResponse where
  id : Bytes
  code : ℤ
  data : Bytes
  message : Bytes
  deriving DecidableEq

/-- The events that a reply is reported as. -/
inductive ReplyEvent where
  | eventPropertyPostReply
  | eventSpecificPostReply (eventid : Bytes)
  | propertyDesiredGetReply
  | propertyDesiredDeleteReply
  | deviceinfoUpdateReply
  | deviceinfoDeleteReply
  deriving DecidableEq

/-- A message to the user; not all formats have a device and a payload. -/
structure UserReport where
  event : ReplyEvent
  id : ℤ
  code : ℤ
  devid : Option ℤ
  payload : Option Bytes
  deriving DecidableEq

/-- The copy of `len` bytes of an id into an array of `size` zeros. -/
structure IdCopy where
  size : ℕ
  len : ℕ
  deriving DecidableEq

/-- Whether the message can be allocated, the entry of the queue to the user and its node too,
and whether the queue has room; and what stands behind the array of an id on the stack. -/
structure ReplyEnv where
  message : Bool
  ipcMsg : Bool
  ipcRoom : Bool
  ipcNode : Bool
  stack : Bytes

variable (env : ReplyEnv)

def dmMsgSendToUser : ℤ :=
  if env.ipcMsg = false then dmMemoryNotEnough
  else if env.ipcRoom = false ∨ env.ipcNode = false then failReturn
  else successReturn

/-- What an operation of `dm_message.c` on a reply returns, sends and copies. -/
structure ReplyResult where
  ret : ℤ
  reports : List UserReport
  copies : List IdCopy
  deriving DecidableEq

/-! ## The operations of `dm_message.c` -/

variable (s : MsgCache) (r : DmMsgResponse) (report : ℤ → MsgCacheNode → UserReport)

/-- What the operations on a reply have in common: the id is read, its request is looked up, and
the message is sent. -/
def dmMsgThingReply : ReplyResult :=
  if dmUtilsUint32Strlen < r.id.length then ⟨failReturn, [], []⟩
  else
    let copies := [⟨dmUtilsUint32Strlen + 1, r.id.length⟩]
    let id := atoi r.id
    match dmMsgCacheSearch s id true with
    | (_, none) => ⟨failReturn, [], copies⟩
    | (_, some node) =>
      if env.message = false then ⟨dmMemoryNotEnough, [], copies⟩
      else if dmMsgSendToUser env ≠ successReturn then ⟨failReturn, [], copies⟩
      else ⟨successReturn, [report id node], copies⟩

/-- The text `success`. -/
def successText : Bytes := [0x73, 0x75, 0x63, 0x63, 0x65, 0x73, 0x73]

/-- The text `property`. -/
def propertyText : Bytes := [0x70, 0x72, 0x6f, 0x70, 0x65, 0x72, 0x74, 0x79]

def dmMsgThingEventPropertyPostReply :
    ReplyResult :=
  dmMsgThingReply env s r fun id node =>
    ⟨.eventPropertyPostReply, id, r.code, some node.devid,
      some (if r.message = successText then r.data else r.message)⟩

def dmMsgThingEventPostReply (identifier : Bytes) (r : DmMsgResponse) : ReplyResult :=
  dmMsgThingReply env s r fun id node =>
    ⟨.eventSpecificPostReply identifier, id, r.code, some node.devid, some r.message⟩

def dmMsgThingPropertyDesiredGetReply :
    ReplyResult :=
  dmMsgThingReply env s r fun id _ => ⟨.propertyDesiredGetReply, id, r.code, none, some r.data⟩

def dmMsgThingPropertyDesiredDeleteReply :
    ReplyResult :=
  dmMsgThingReply env s r fun id node =>
    ⟨.propertyDesiredDeleteReply, id, r.code, some node.devid, some r.data⟩

def dmMsgThingDeviceinfoUpdateReply :
    ReplyResult :=
  dmMsgThingReply env s r fun id node =>
    ⟨.deviceinfoUpdateReply, id, r.code, some node.devid, none⟩

def dmMsgThingDeviceinfoDeleteReply :
    ReplyResult :=
  dmMsgThingReply env s r fun id node =>
    ⟨.deviceinfoDeleteReply, id, r.code, some node.devid, none⟩

/-! ## The handlers of `dm_msg_process.c` -/

/-- The second copy of an id, into an array without a terminator of its own: an id of 10 bytes
or more is read on into the stack. -/
def idInStack (id : Bytes) : Bytes :=
  if id.length < dmUtilsUint32Strlen then id else id ++ env.stack

/-- What the handlers have in common: after the operation the request is removed from the
cache. -/
def dmMsgProcReply (caller : ℕ) (r : DmMsgResponse) (operation : DmMsgResponse → ReplyResult) :
    ReplyResult × MsgCache :=
  let result := operation r
  ({ result with
      ret := successReturn
      copies := result.copies ++ [⟨dmUtilsUint32Strlen, r.id.length⟩] },
    dmMsgCacheRemove s caller (atoi (idInStack env r.id)))

/-- `dm_msg_proc_thing_event_post_reply`, for the event id of the topic. -/
def dmMsgProcThingEventPostReply (caller : ℕ) (eventid : Bytes) (r : DmMsgResponse) :
    ReplyResult × MsgCache :=
  dmMsgProcReply env s caller r
    (if eventid = propertyText then dmMsgThingEventPropertyPostReply env s
      else dmMsgThingEventPostReply env s eventid)

def dmMsgProcThingPropertyDesiredGetReply (caller : ℕ) (r : DmMsgResponse) :
    ReplyResult × MsgCache :=
  dmMsgProcReply env s caller r (dmMsgThingPropertyDesiredGetReply env s)

def dmMsgProcThingPropertyDesiredDeleteReply (caller : ℕ) (r : DmMsgResponse) :
    ReplyResult × MsgCache :=
  dmMsgProcReply env s caller r (dmMsgThingPropertyDesiredDeleteReply env s)

def dmMsgProcThingDeviceinfoUpdateReply (caller : ℕ) (r : DmMsgResponse) : ReplyResult × MsgCache :=
  dmMsgProcReply env s caller r (dmMsgThingDeviceinfoUpdateReply env s)

def dmMsgProcThingDeviceinfoDeleteReply (caller : ℕ) (r : DmMsgResponse) : ReplyResult × MsgCache :=
  dmMsgProcReply env s caller r (dmMsgThingDeviceinfoDeleteReply env s)

/-- The topics of the replies. -/
inductive ReplyTopic where
  | eventPost (eventid : Bytes)
  | propertyDesiredGet
  | propertyDesiredDelete
  | deviceinfoUpdate
  | deviceinfoDelete
  deriving DecidableEq

/-- The handler of a topic, for a reply that is parsed. -/
def procReply (caller : ℕ) (r : DmMsgResponse) :
    ReplyTopic → ReplyResult × MsgCache
  | .eventPost eventid => dmMsgProcThingEventPostReply env s caller eventid r
  | .propertyDesiredGet => dmMsgProcThingPropertyDesiredGetReply env s caller r
  | .propertyDesiredDelete => dmMsgProcThingPropertyDesiredDeleteReply env s caller r
  | .deviceinfoUpdate => dmMsgProcThingDeviceinfoUpdateReply env s caller r
  | .deviceinfoDelete => dmMsgProcThingDeviceinfoDeleteReply env s caller r

/-! ## One request is reported and removed -/

/-- The id of the reply is the text of the id of the request. -/
def MsgCacheNode.named (id : Bytes) (node : MsgCacheNode) : Bool := intText node.msgid = id

/-- A reply with the id of a cached request has that request reported once, with the code of the
reply, and removed; one with another id has nothing reported and nothing removed; and the copies
of the id fit their arrays with a terminator. -/
structure Correlated (s : MsgCache) (r : DmMsgResponse) (out : ReplyResult × MsgCache) : Prop where
  known : ∀ node, s.dmcList.find? (·.named r.id) = some node →
    (∃ report, out.1.reports = [report] ∧ report.id = node.msgid ∧ report.code = r.code ∧
      ∀ devid ∈ report.devid, devid = node.devid) ∧
    out.2.dmcList = s.dmcList.eraseP (·.named r.id)
  unknown : s.dmcList.find? (·.named r.id) = none →
    out.1.reports = [] ∧ out.2.dmcList = s.dmcList
  copies : ∀ copy ∈ out.1.copies, copy.len < copy.size

/-- The id has less than 10 bytes; when it is that of a cached request, that is positive and the
report can be sent; and otherwise `atoi` does not read the number of a cached request from it. -/
def Correlates : Prop :=
  r.id.length < dmUtilsUint32Strlen ∧
    (∀ node ∈ s.dmcList, node.named r.id = true →
      0 < node.msgid ∧ env.message = true ∧ dmMsgSendToUser env = successReturn) ∧
    ((∀ node ∈ s.dmcList, node.named r.id = false) →
      ∀ node ∈ s.dmcList, node.msgid ≠ atoi r.id)

/-- The report is one of the request, with the code of the reply. -/
def ReportsFor : Prop :=
  ∀ id node, (report id node).id = id ∧ (report id node).code = r.code ∧
    ∀ devid ∈ (report id node).devid, devid = node.devid

/-- All handlers do the same with different reports. -/
theorem procReply_eq (caller : ℕ) (r : DmMsgResponse) (topic : ReplyTopic) :
    ∃ report, ReportsFor r report ∧
      procReply env s caller r topic =
        dmMsgProcReply env s caller r fun r => dmMsgThingReply env s r report := by
  cases topic with
  | eventPost eventid =>
    by_cases hproperty : eventid = propertyText
    · exact ⟨_, fun id node => ⟨rfl, rfl, by simp⟩,
        (congrArg (dmMsgProcReply env s caller r) (if_pos hproperty)).trans rfl⟩
    · exact ⟨_, fun id node => ⟨rfl, rfl, by simp⟩,
        (congrArg (dmMsgProcReply env s caller r) (if_neg hproperty)).trans rfl⟩
  | propertyDesiredGet => exact ⟨_, fun id node => ⟨rfl, rfl, by simp⟩, rfl⟩
  | propertyDesiredDelete => exact ⟨_, fun id node => ⟨rfl, rfl, by simp⟩, rfl⟩
  | deviceinfoUpdate => exact ⟨_, fun id node => ⟨rfl, rfl, by simp⟩, rfl⟩
  | deviceinfoDelete => exact ⟨_, fun id node => ⟨rfl, rfl, by simp⟩, rfl⟩

theorem msgid_eq_atoi {id : Bytes} {node : MsgCacheNode}
    (hlen : id.length < dmUtilsUint32Strlen) (h : node.named id = true) : node.msgid = atoi id := by
  obtain rfl : intText node.msgid = id := of_decide_eq_true h
  exact (atoi_intText_of_short hlen).symm

theorem named_eq_of_named {id : Bytes} {node : MsgCacheNode}
    (hlen : id.length < dmUtilsUint32Strlen) (h : node.named id = true) (other : MsgCacheNode) :
    other.named id = decide (other.msgid = atoi id) := by
  rw [Bool.eq_iff_iff, decide_eq_true_iff]
  constructor
  · exact msgid_eq_atoi hlen
  · intro hother
    rw [← msgid_eq_atoi hlen h] at hother
    exact decide_eq_true (hother ▸ of_decide_eq_true h)

/-- The outcome of an operation: nothing is reported, or the request that was looked up is. -/
theorem dmMsgThingReply_reports {r : DmMsgResponse} (hlen : r.id.length ≤ dmUtilsUint32Strlen) :
    (dmMsgThingReply env s r report).copies = [⟨dmUtilsUint32Strlen + 1, r.id.length⟩] ∧
      (dmMsgThingReply env s r report).reports =
        if 0 < atoi r.id ∧ env.message = true ∧ dmMsgSendToUser env = successReturn then
          ((s.dmcList.find? fun node => node.msgid = atoi r.id).map (report (atoi r.id))).toList
        else [] := by
  unfold dmMsgThingReply dmMsgCacheSearch
  rw [if_neg (by omega)]
  by_cases hid : atoi r.id ≤ 0
  · simp [hid, not_lt.mpr hid]
  have hpos : 0 < atoi r.id := by omega
  cases hfind : s.dmcList.find? fun node => node.msgid = atoi r.id with
  | none => simp [hid, hfind]
  | some node =>
    by_cases hmem : env.message = true <;> by_cases hsent : dmMsgSendToUser env = successReturn <;>
        simp [hid, hpos, hfind, hmem, hsent]

theorem dmcList_dmMsgCacheRemove (caller : ℕ) (msgid : ℤ) :
    (dmMsgCacheRemove s caller msgid).dmcList =
      s.dmcList.eraseP (fun node => node.msgid = msgid) := by
  unfold dmMsgCacheRemove
  split_ifs with hany
  · rfl
  · symm
    refine List.eraseP_of_forall_not fun node hmem hyes => hany ?_
    exact List.any_eq_true.mpr ⟨node, hmem, hyes⟩

/-- A handler sends what its operation sends, and removes the request with the number. -/
theorem dmMsgProcReply_of_short (caller : ℕ) {r : DmMsgResponse}
    (report : ℤ → MsgCacheNode → UserReport) (hlen : r.id.length < dmUtilsUint32Strlen) :
    (dmMsgProcReply env s caller r fun r => dmMsgThingReply env s r report).1.reports =
        (if 0 < atoi r.id ∧ env.message = true ∧ dmMsgSendToUser env = successReturn then
          ((s.dmcList.find? fun node => node.msgid = atoi r.id).map (report (atoi r.id))).toList
        else []) ∧
      (dmMsgProcReply env s caller r fun r => dmMsgThingReply env s r report).1.copies =
        [⟨dmUtilsUint32Strlen + 1, r.id.length⟩, ⟨dmUtilsUint32Strlen, r.id.length⟩] ∧
      (dmMsgProcReply env s caller r fun r => dmMsgThingReply env s r report).2.dmcList =
        s.dmcList.eraseP (fun node => node.msgid = atoi r.id) := by
  obtain ⟨hcopies, hreports⟩ := dmMsgThingReply_reports env s report hlen.le
  refine ⟨hreports, ?_, ?_⟩
  · simp [dmMsgProcReply, hcopies]
  · simp [dmMsgProcReply, idInStack, hlen, dmcList_dmMsgCacheRemove]

/-- **Reply correlation.**  A reply is credited to its own request, and its id stays in the arrays,
exactly when the id has less than 10 bytes, the request with it has a positive number and can be
reported, and an id that is not cached is not read as the number of a request. -/
theorem reply_correlated_iff (env : ReplyEnv) (s : MsgCache) (caller : ℕ) (r : DmMsgResponse)
    (topic : ReplyTopic) :
    Correlated s r (procReply env s caller r topic) ↔ Correlates env s r := by
  obtain ⟨report, hreport, heq⟩ := procReply_eq env s caller r topic
  rw [heq]
  constructor
  · rintro ⟨hknown, hunknown, hcopies⟩
    have hlen : r.id.length < dmUtilsUint32Strlen :=
      hcopies ⟨dmUtilsUint32Strlen, r.id.length⟩ (by simp [dmMsgProcReply])
    obtain ⟨hreports, -, hlist⟩ := dmMsgProcReply_of_short env s caller report hlen
    refine ⟨hlen, fun node hmem hnamed => ?_, fun hnone node hmem hid => ?_⟩
    -- the report was sent
    · obtain ⟨first, hfirst⟩ : ∃ first, s.dmcList.find? (·.named r.id) = some first :=
        Option.isSome_iff_exists.mp (List.find?_isSome.mpr ⟨node, hmem, hnamed⟩)
      obtain ⟨⟨sent, hsent, -⟩, -⟩ := hknown first hfirst
      rw [hsent] at hreports
      split_ifs at hreports with hcan
      rwa [msgid_eq_atoi hlen hnamed]
    -- no request was removed
    · have hfind : s.dmcList.find? (·.named r.id) = none :=
        List.find?_eq_none.mpr fun other hother => by simp [hnone other hother]
      have hshort : (s.dmcList.eraseP fun other => other.msgid = atoi r.id).length =
          s.dmcList.length - 1 := List.length_eraseP_of_mem hmem (decide_eq_true hid)
      rw [← hlist, (hunknown hfind).2] at hshort
      have := List.length_pos_of_mem hmem
      omega
  · rintro ⟨hlen, hknown, hunknown⟩
    obtain ⟨hreports, hcopies, hlist⟩ := dmMsgProcReply_of_short env s caller report hlen
    refine ⟨fun node hfind => ?_, fun hfind => ?_, ?_⟩
    · have hnamed : node.named r.id = true := by simpa using List.find?_some hfind
      have hpred : (fun other : MsgCacheNode => other.named r.id) =
          fun other => decide (other.msgid = atoi r.id) := funext (named_eq_of_named hlen hnamed)
      obtain ⟨hpos, hmessage, hsend⟩ := hknown node (List.mem_of_find?_eq_some hfind) hnamed
      have hatoi := msgid_eq_atoi hlen hnamed
      rw [hpred] at hfind ⊢
      rw [if_pos ⟨hatoi ▸ hpos, hmessage, hsend⟩, hfind] at hreports
      obtain ⟨hid, hcode, hdevid⟩ := hreport (atoi r.id) node
      exact ⟨⟨_, hreports, hid.trans hatoi.symm, hcode, hdevid⟩, hlist⟩
    · have hnone : ∀ node ∈ s.dmcList, node.named r.id = false := fun node hmem => by
        simpa using List.find?_eq_none.mp hfind node hmem
      have hother := hunknown hnone
      have hnumber : (s.dmcList.find? fun node => node.msgid = atoi r.id) = none :=
        List.find?_eq_none.mpr fun node hmem => by simp [hother node hmem]
      refine ⟨?_, ?_⟩
      · rw [hreports, hnumber]
        simp
      · rw [hlist]
        exact List.eraseP_of_forall_not fun node hmem => by simp [hother node hmem]
    · rw [hcopies]
      intro copy hcopy
      simp only [List.mem_cons, List.not_mem_nil, or_false] at hcopy
      rcases hcopy with rfl | rfl
      · exact hlen.trans (Nat.lt_succ_self _)
      · exact hlen

/-- A request with the id 12 is cached. -/
def cachedTwelve : List CacheOp := [.insert 0 12 1 3 none, .newNode 0 true, .add 0]

/-- A reply with the id `12x` is credited to the request 12, and the reply to a request with the
number 1000000000 does not fit the second array of its id. -/
theorem reply_correlated_broken :
    let s := cachedTwelve.foldl cacheStep (dmMsgCacheInit 0)
    let env : ReplyEnv := ⟨true, true, true, true, []⟩
    let junk : DmMsgResponse := ⟨[0x31, 0x32, 0x78], 200, [], []⟩
    let long : DmMsgResponse :=
      ⟨[0x31, 0x30, 0x30, 0x30, 0x30, 0x30, 0x30, 0x30, 0x30, 0x30], 200, [], []⟩
    (procReply env s 0 junk .deviceinfoUpdate).1.reports =
        [⟨.deviceinfoUpdateReply, 12, 200, some 1, none⟩] ∧
      ¬ Correlated s junk (procReply env s 0 junk .deviceinfoUpdate) ∧
      ¬ Correlated s long (procReply env s 0 long .deviceinfoUpdate) := by
  intro s env junk long
  refine ⟨by decide +kernel, fun h => ?_, fun h => ?_⟩
  · have hunknown : s.dmcList.find? (·.named junk.id) = none := by decide +kernel
    exact absurd (h.unknown hunknown).1 (by decide +kernel)
  · have hfit := h.copies ⟨10, 10⟩ (by decide +kernel)
    exact absurd hfit (by decide)

end Iotkit.Dm
