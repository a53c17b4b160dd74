/-
# Response headers over HTTP/2 (`http2_api.c`)

The headers of a response go to `on_stream_header`; `IOT_HTTP2_Stream_Open` waits until two headers
that count have come, and looks at the status.  A header is taken for the first expected one whose
name begins like its own, and two statuses open a stream that has no id.
-/
import Iotkit.LibC
import Iotkit.InfraDefs

namespace Iotkit.Http2

open LibC List Option

/-! ## Headers -/

/-- The headers that `on_stream_header` looks for. -/
inductive HeaderField where
  | streamId
  | fileStoreId
  | fileUploadId
  | nextAppendPosition
  | responseStatus
  | status
  deriving DecidableEq

def headerText (s : String) : Bytes := s.toList.map fun c => UInt8.ofNat c.toNat

def HeaderField.name : HeaderField → Bytes
  | .streamId => headerText "x-data-stream-id"
  | .fileStoreId => headerText "x-file-store-id"
  | .fileUploadId => headerText "x-file-upload-id"
  | .nextAppendPosition => headerText "x-next-append-position"
  | .responseStatus => headerText "x-response-status"
  | .status => headerText ":status"

/-- The headers in the order in which `on_stream_header` compares the names, with and without
`FS_ENABLED`. -/
def headerFields (fs : Bool) : List HeaderField :=
  if fs then [.streamId, .fileStoreId, .fileUploadId, .nextAppendPosition, .responseStatus]
  else [.streamId, .status]

/-- A header that is received, and whether there is memory for a copy of its value.  The HTTP/2
library takes no names and values with a zero in them. -/
structure ResponseHeader where
  cat : ℕ
  name : CString
  value : CString
  malloc : Bool

/-- The comparison of a name, over the length that was received. -/
def HeaderField.isNamed (f : HeaderField) (name : CString) : Bool :=
  strncmpEq (ofString name.bytes) (ofString f.name) name.strlen

/-- The header that a received one is taken for. -/
def headerFieldOf (fs : Bool) (h : ResponseHeader) : Option HeaderField :=
  if h.cat = 0x01 then (headerFields fs).find? fun f => f.isNamed h.name else none

/-! ## The node of a stream -/

def fsUploadIdSize : ℕ := 50
def fsStoreIdSize : ℕ := 36
def statusCodeSize : ℕ := 5

/-- `fs_rsp_header_val_t` -/
structure FsRspHeaderVal where
  fsUploadId : Memory
  fsOffset : ℤ
  fsStoreId : Memory

/-- The record as `_http2_fs_node_handle` sets it up. -/
def FsRspHeaderVal.zero : FsRspHeaderVal := ⟨fun _ => 0, 0, fun _ => 0⟩

/-- `http2_stream_node_t`; `posted` says whether its semaphore was posted, and `userData` is the
record, where the stream has one. -/
structure StreamNode where
  channelId : Option CString
  statusCode : Memory
  rcvHdCnt : UInt8
  posted : Bool
  userData : Option FsRspHeaderVal

/-- `http2_stream_node_insert` -/
def StreamNode.new (userData : Option FsRspHeaderVal) : StreamNode :=
  ⟨none, fun _ => 0, 0, false, userData⟩

/-- A header that counts: the second one posts the semaphore. -/
def StreamNode.counted (node : StreamNode) : StreamNode :=
  { node with rcvHdCnt := node.rcvHdCnt + 1, posted := node.posted || node.rcvHdCnt + 1 == 2 }

/-- `memcpy` into a field of some size; what is written behind its end is not followed. -/
def copyInto (size : ℕ) (field : Memory) (value : CString) : Option Memory :=
  if value.strlen ≤ size then some (memStore field 0 value.bytes) else none

/-- `on_stream_header` for a node; there is no result where it writes outside of a field. -/
def onStreamHeader (fs : Bool) (node : StreamNode) (h : ResponseHeader) : Option StreamNode :=
  match headerFieldOf fs h with
  | none => some node
  | some .streamId =>
    if h.malloc then some { node with channelId := some h.value }.counted
    else some { node with channelId := none }
  | some .fileStoreId =>
    node.userData.bind fun rsp =>
      (copyInto fsStoreIdSize rsp.fsStoreId h.value).map fun field =>
        { node with userData := some { rsp with fsStoreId := field } }
  | some .fileUploadId =>
    node.userData.bind fun rsp =>
      (copyInto fsUploadIdSize rsp.fsUploadId h.value).map fun field =>
        { node with userData := some { rsp with fsUploadId := field } }
  | some .nextAppendPosition =>
    node.userData.map fun rsp =>
      { node with userData := some { rsp with fsOffset := atoi h.value.bytes } }
  | some .responseStatus | some .status =>
    some { node with
      statusCode :=
        strncpy node.statusCode (ofString h.value.bytes) (statusCodeSize - 1) }.counted

/-- The headers of a response, one after the other. -/
def onStreamHeaders (fs : Bool) (node : StreamNode) (hs : List ResponseHeader) :
    Option StreamNode :=
  hs.foldlM (onStreamHeader fs) node

/-! ## The opening -/

/-- How `IOT_HTTP2_Stream_Open` fares: whether it is called with what it needs, whether there is
memory for the headers of the request, what `iotx_http2_client_send` returns, whether the node
is inserted, and whether there is memory for the id. -/
structure OpenEnv where
  args : Bool
  nva : Bool
  rv : ℤ
  node : Bool
  channelId : Bool

/-- `memcmp(node->status_code, "200", 3)` -/
def statusIs200 (statusCode : Memory) : Bool := memSlice statusCode 0 3 = headerText "200"

/-- `IOT_HTTP2_Stream_Open`: what it returns, and `info->channel_id`, when these headers have come
by the end of the wait; there is no result where it reads a string that is not there. -/
def iotHttp2StreamOpen (fs : Bool) (env : OpenEnv) (userData : Option FsRspHeaderVal)
    (hs : List ResponseHeader) : Option (ℤ × Option CString) :=
  if env.args = false then some (nullValueError, none)
  else if env.nva = false then some (failReturn, none)
  else if env.rv < 0 then some (failReturn, none)
  else if env.node = false then some (failReturn, none)
  else
    (onStreamHeaders fs (StreamNode.new userData) hs).bind fun node =>
      if node.posted = false ∨ statusIs200 node.statusCode = false then some (failReturn, none)
      else
        node.channelId.map fun channelId =>
          if env.channelId = false then (failReturn, none) else (successReturn, some channelId)

/-! ## What is wanted -/

/-- The fields of a record hold strings. -/
structure FsRspHeaderVal.Terminated (rsp : FsRspHeaderVal) : Prop where
  uploadId : ∃ j < fsUploadIdSize, rsp.fsUploadId j = 0
  storeId : ∃ j < fsStoreIdSize, rsp.fsStoreId j = 0

/-- The arrays of a node hold strings. -/
structure StreamNode.Terminated (node : StreamNode) : Prop where
  status : ∃ j < statusCodeSize, node.statusCode j = 0
  userData : ∀ rsp, node.userData = some rsp → rsp.Terminated

def rspData (rsp : Bool) : Option FsRspHeaderVal := if rsp then some .zero else none

/-- The headers that say the status. -/
def isStatusField : Option HeaderField → Bool
  | some .responseStatus | some .status => true
  | _ => false

/-- Headers are known by their names, nothing is written outside of the fields and all of them
hold strings at all times, and a stream is opened only with a status of 200 and an id, which is
then its channel id. -/
structure HeadersSound (fs rsp : Bool) (env : OpenEnv) (hs : List ResponseHeader) : Prop where
  named : ∀ h ∈ hs, ∀ f, headerFieldOf fs h = some f → h.name.bytes = f.name
  stored : ∀ before, before <+: hs →
    ∃ node, onStreamHeaders fs (.new (rspData rsp)) before = some node ∧ node.Terminated
  opened : ∃ result, iotHttp2StreamOpen fs env (rspData rsp) hs = some result ∧
    (result.1 = successReturn →
      (∃ h ∈ hs, isStatusField (headerFieldOf fs h) = true ∧ h.value.bytes = headerText "200") ∧
        ∃ h ∈ hs, headerFieldOf fs h = some .streamId ∧ result.2 = some h.value)

/-- The value of a header fits into its field, with the zero that ends it. -/
def HeaderField.Fits (rsp : Bool) (value : CString) : HeaderField → Prop
  | .fileStoreId => rsp = true ∧ value.strlen < fsStoreIdSize
  | .fileUploadId => rsp = true ∧ value.strlen < fsUploadIdSize
  | .nextAppendPosition => rsp = true
  | .streamId | .responseStatus | .status => True

/-- A header counts: it says the status, or it brings an id that is kept. -/
def ResponseHeader.counts (fs : Bool) (h : ResponseHeader) : Bool :=
  isStatusField (headerFieldOf fs h) || (headerFieldOf fs h = some .streamId && h.malloc)

def lastStatus (fs : Bool) (hs : List ResponseHeader) : Option CString :=
  ((hs.filter fun h => isStatusField (headerFieldOf fs h)).getLast?).map (·.value)

/-- The last id of a response, if it was kept. -/
def lastStreamId (fs : Bool) (hs : List ResponseHeader) : Option CString :=
  ((hs.filter fun h => headerFieldOf fs h = some .streamId).getLast?).bind fun h =>
    if h.malloc then some h.value else none

/-- The request was sent, and the response is waited for. -/
def OpenEnv.Sent (env : OpenEnv) : Prop :=
  env.args = true ∧ env.nva = true ∧ 0 ≤ env.rv ∧ env.node = true

/-- Names that begin like an expected one are that one in full, the values fit, and when two
headers that count have come and the last status begins with 200, there is an id and a status
that is 200. -/
structure HeadersOrdinary (fs rsp : Bool) (env : OpenEnv) (hs : List ResponseHeader) : Prop where
  whole : ∀ h ∈ hs, h.cat = 0x01 → ∀ f ∈ headerFields fs, h.name.bytes <+: f.name →
    h.name.bytes = f.name
  fits : ∀ h ∈ hs, ∀ f, headerFieldOf fs h = some f → f.Fits rsp h.value
  answered : env.Sent → 2 ≤ hs.countP (·.counts fs) →
    (∃ status, lastStatus fs hs = some status ∧ headerText "200" <+: status.bytes) →
      (lastStreamId fs hs).isSome = true ∧ (env.channelId = true →
        ∃ h ∈ hs, isStatusField (headerFieldOf fs h) = true ∧ h.value.bytes = headerText "200")

/-! ## Names -/

theorem cstr_ofString_take {s : Bytes} (hnul : 0 ∉ s) (n : ℕ) :
    cstr (ofString s) n = s.take n := by
  rcases le_total s.length n with hle | hle
  · rw [cstr_ofString hnul hle, take_of_length_le hle]
  refine cstr_eq_of_forall (fun h => hnul (mem_of_mem_take h)) (fun j hj => ?_)
    (fun hlt => ?_) (length_take_le n s)
  · have hjn : j < n := hj.trans_le (length_take_le n s)
    rw [ofString, getD_eq_getElem?_getD, getD_eq_getElem?_getD,
      List.getElem?_take_of_lt hjn]
  · rw [length_take_of_le hle] at hlt
    exact absurd hlt (lt_irrefl n)

theorem HeaderField.zero_notMem_name (f : HeaderField) : 0 ∉ f.name := by
  cases f <;> decide

variable {f : HeaderField}

theorem HeaderField.eq_of_isPrefix {g : HeaderField} (h : f.name <+: g.name) : f = g := by
  revert h
  cases f <;> cases g <;> decide

/-- A name is taken for every expected one that begins like it. -/
theorem HeaderField.isNamed_iff (f : HeaderField) (name : CString) :
    f.isNamed name = true ↔ name.bytes <+: f.name := by
  have hname : cstr (ofString name.bytes) name.strlen = name.bytes :=
    cstr_ofString name.nul_notMem (le_refl _)
  rw [HeaderField.isNamed, strncmpEq_iff, hname, cstr_ofString_take f.zero_notMem_name,
    CString.strlen, prefix_iff_eq_take]

variable {fs : Bool} {h : ResponseHeader}

theorem headerFieldOf_some (hf : headerFieldOf fs h = some f) :
    h.cat = 0x01 ∧ f ∈ headerFields fs ∧ h.name.bytes <+: f.name := by
  unfold headerFieldOf at hf
  split_ifs at hf with hcat
  have hnamed := List.find?_some hf
  exact ⟨hcat, mem_of_find?_eq_some hf, (f.isNamed_iff h.name).mp hnamed⟩

theorem exists_headerFieldOf (hcat : h.cat = 0x01) (hf : f ∈ headerFields fs)
    (hname : h.name.bytes <+: f.name) : ∃ g, headerFieldOf fs h = some g := by
  rw [headerFieldOf, if_pos hcat, ← isSome_iff_exists, List.find?_isSome]
  exact ⟨f, hf, (f.isNamed_iff h.name).mpr hname⟩

theorem named_iff (fs : Bool) (h : ResponseHeader) :
    (∀ f, headerFieldOf fs h = some f → h.name.bytes = f.name) ↔
      (h.cat = 0x01 → ∀ f ∈ headerFields fs, h.name.bytes <+: f.name → h.name.bytes = f.name) := by
  constructor
  · intro hnamed hcat f hf hname
    obtain ⟨g, hg⟩ := exists_headerFieldOf hcat hf hname
    have hfull := hnamed g hg
    rw [hfull] at hname
    rw [hfull, HeaderField.eq_of_isPrefix hname]
  · intro hwhole f hf
    obtain ⟨hcat, hmem, hname⟩ := headerFieldOf_some hf
    exact hwhole hcat f hmem hname

/-! ## One header -/

/-- What has come to a node: the headers that count, the last id and the last status. -/
structure Collected (fs rsp : Bool) (hs : List ResponseHeader) (node : StreamNode) : Prop where
  rcvHdCnt : node.rcvHdCnt = UInt8.ofNat (hs.countP (·.counts fs))
  posted : node.posted = true ↔ 2 ≤ hs.countP (·.counts fs)
  channelId : node.channelId = lastStreamId fs hs
  status : statusIs200 node.statusCode = true ↔
    ∃ status, lastStatus fs hs = some status ∧ headerText "200" <+: status.bytes
  statusEnd : node.statusCode (statusCodeSize - 1) = 0
  userData : node.userData.isSome = rsp

theorem collected_new (fs rsp : Bool) : Collected fs rsp [] (.new (rspData rsp)) where
  rcvHdCnt := rfl
  posted := by simp [StreamNode.new]
  channelId := rfl
  status := by
    have hzero : statusIs200 (fun _ => 0) = false := by decide
    rw [StreamNode.new, hzero]
    simp [lastStatus]
  statusEnd := rfl
  userData := by cases rsp <;> rfl

theorem countP_concat (fs : Bool) (hs : List ResponseHeader) (h : ResponseHeader) :
    (hs ++ [h]).countP (·.counts fs) =
      hs.countP (·.counts fs) + if h.counts fs = true then 1 else 0 := by
  rw [countP_append, countP_singleton]

theorem lastStatus_concat (fs : Bool) (hs : List ResponseHeader) (h : ResponseHeader) :
    lastStatus fs (hs ++ [h]) =
      if isStatusField (headerFieldOf fs h) = true then some h.value else lastStatus fs hs := by
  unfold lastStatus
  rw [filter_append, filter_singleton]
  by_cases hstatus : isStatusField (headerFieldOf fs h) = true
  · rw [hstatus, if_pos rfl, cond_true, List.getLast?_concat, map_some]
  · rw [Bool.not_eq_true] at hstatus
    rw [hstatus, if_neg Bool.false_ne_true, cond_false, append_nil]

theorem lastStreamId_concat (fs : Bool) (hs : List ResponseHeader) (h : ResponseHeader) :
    lastStreamId fs (hs ++ [h]) =
      if headerFieldOf fs h = some .streamId then if h.malloc then some h.value else none
      else lastStreamId fs hs := by
  unfold lastStreamId
  rw [filter_append, filter_singleton]
  by_cases hid : headerFieldOf fs h = some .streamId
  · rw [decide_eq_true hid, if_pos hid, cond_true, List.getLast?_concat, bind_some]
  · rw [decide_eq_false hid, if_neg hid, cond_false, append_nil]

theorem counted_posted {k : ℕ} {cnt : UInt8} {posted : Bool} (hcnt : cnt = UInt8.ofNat k)
    (hposted : posted = true ↔ 2 ≤ k) :
    cnt + 1 = UInt8.ofNat (k + 1) ∧ ((posted || cnt + 1 == 2) = true ↔ 2 ≤ k + 1) := by
  have hnext : cnt + 1 = UInt8.ofNat (k + 1) := by
    rw [hcnt, UInt8.ofNat_add]
    rfl
  refine ⟨hnext, ?_⟩
  rw [Bool.or_eq_true, hposted, hnext, beq_iff_eq]
  have htwo : UInt8.ofNat (k + 1) = 2 ↔ (k + 1) % 256 = 2 := by
    rw [← UInt8.toNat_inj, UInt8.toNat_ofNat']
    rfl
  rw [htwo]
  omega

theorem statusIs200_strncpy (statusCode : Memory) (value : CString) :
    statusIs200 (strncpy statusCode (ofString value.bytes) (statusCodeSize - 1)) = true ↔
      headerText "200" <+: value.bytes := by
  have hbytes : memSlice (strncpy statusCode (ofString value.bytes) (statusCodeSize - 1)) 0 3 =
      (List.range 3).map fun j => (value.bytes.take 4).getD j 0 := by
    refine map_congr_left fun j hj => ?_
    have hlt : 0 + j < statusCodeSize - 1 := by
      have := mem_range.mp hj
      show 0 + j < 4
      omega
    rw [strncpy, if_pos hlt, cstr_ofString_take value.nul_notMem, Nat.zero_add]
    rfl
  have htext : headerText "200" = [50, 48, 48] := by decide
  rw [statusIs200, hbytes, decide_eq_true_eq, htext]
  obtain ⟨bytes, hnul⟩ := value
  rcases bytes with _ | ⟨a, _ | ⟨b, _ | ⟨c, rest⟩⟩⟩ <;>
    simp [range_succ, @eq_comm UInt8 50, @eq_comm UInt8 48]

variable {rsp : Bool} {hs : List ResponseHeader} {node : StreamNode}

section

variable (hnode : Collected fs rsp hs node)
include hnode

theorem Collected.counted (hcounts : h.counts fs = true) :
    node.rcvHdCnt + 1 = UInt8.ofNat ((hs ++ [h]).countP (·.counts fs)) ∧
      ((node.posted || node.rcvHdCnt + 1 == 2) = true ↔
        2 ≤ (hs ++ [h]).countP (·.counts fs)) := by
  rw [countP_concat, if_pos hcounts]
  exact counted_posted hnode.rcvHdCnt hnode.posted

theorem Collected.concat_other (hstatus : isStatusField (headerFieldOf fs h) = false)
    (hid : headerFieldOf fs h ≠ some .streamId) {userData : Option FsRspHeaderVal}
    (huser : userData.isSome = rsp) :
    Collected fs rsp (hs ++ [h]) { node with userData := userData } := by
  have hcounts : h.counts fs = false := by
    rw [ResponseHeader.counts, hstatus, decide_eq_false hid]
    rfl
  have hcount : (hs ++ [h]).countP (·.counts fs) = hs.countP (·.counts fs) := by
    rw [countP_concat, hcounts]
    rfl
  refine ⟨?_, ?_, ?_, ?_, hnode.statusEnd, huser⟩
  · rw [hcount]
    exact hnode.rcvHdCnt
  · rw [hcount]
    exact hnode.posted
  · rw [lastStreamId_concat, if_neg hid]
    exact hnode.channelId
  · rw [lastStatus_concat, hstatus, if_neg Bool.false_ne_true]
    exact hnode.status

theorem Collected.concat_status (hstatus : isStatusField (headerFieldOf fs h) = true)
    (hid : headerFieldOf fs h ≠ some .streamId) :
    Collected fs rsp (hs ++ [h]) { node with
      statusCode := strncpy node.statusCode (ofString h.value.bytes) (statusCodeSize - 1)
      }.counted := by
  have hcounts : h.counts fs = true := by
    rw [ResponseHeader.counts, hstatus]
    rfl
  obtain ⟨hcnt, hposted⟩ := hnode.counted hcounts
  refine ⟨hcnt, hposted, ?_, ?_, ?_, hnode.userData⟩
  · rw [lastStreamId_concat, if_neg hid]
    exact hnode.channelId
  · rw [lastStatus_concat, if_pos hstatus]
    show statusIs200 (strncpy node.statusCode (ofString h.value.bytes) (statusCodeSize - 1)) = true
      ↔ _
    rw [statusIs200_strncpy]
    simp
  · show strncpy node.statusCode (ofString h.value.bytes) (statusCodeSize - 1)
      (statusCodeSize - 1) = 0
    rw [strncpy_of_le _ _ (le_refl _)]
    exact hnode.statusEnd

theorem Collected.concat_streamId (hid : headerFieldOf fs h = some .streamId) :
    Collected fs rsp (hs ++ [h]) (if h.malloc then { node with channelId := some h.value }.counted
        else { node with channelId := none }) := by
  have hstatus : isStatusField (headerFieldOf fs h) = false := by
    rw [hid]
    rfl
  have hlast : lastStatus fs (hs ++ [h]) = lastStatus fs hs := by
    rw [lastStatus_concat, hstatus, if_neg Bool.false_ne_true]
  cases hmalloc : h.malloc with
  | true =>
    have hcounts : h.counts fs = true := by
      rw [ResponseHeader.counts, hid, hmalloc]
      rfl
    obtain ⟨hcnt, hposted⟩ := hnode.counted hcounts
    rw [if_pos rfl]
    refine ⟨hcnt, hposted, ?_, ?_, hnode.statusEnd, hnode.userData⟩
    · rw [lastStreamId_concat, if_pos hid, hmalloc]
      rfl
    · rw [hlast]
      exact hnode.status
  | false =>
    have hcounts : h.counts fs = false := by
      rw [ResponseHeader.counts, hid, hmalloc]
      rfl
    have hcount : (hs ++ [h]).countP (·.counts fs) = hs.countP (·.counts fs) := by
      rw [countP_concat, hcounts]
      rfl
    rw [if_neg Bool.false_ne_true]
    refine ⟨?_, ?_, ?_, ?_, hnode.statusEnd, hnode.userData⟩
    · rw [hcount]
      exact hnode.rcvHdCnt
    · rw [hcount]
      exact hnode.posted
    · rw [lastStreamId_concat, if_pos hid, hmalloc]
      rfl
    · rw [hlast]
      exact hnode.status

theorem Collected.step {node' : StreamNode} (hstep : onStreamHeader fs node h = some node') :
    Collected fs rsp (hs ++ [h]) node' := by
  unfold onStreamHeader at hstep
  cases hf : headerFieldOf fs h with
  | none =>
    rw [hf] at hstep
    rw [← Option.some.inj hstep]
    exact hnode.concat_other (by rw [hf]; rfl) (by rw [hf]; exact some_ne_none _ |>.symm)
      hnode.userData
  | some f =>
    rw [hf] at hstep
    cases f with
    | streamId =>
      have hid := hnode.concat_streamId hf
      cases hmalloc : h.malloc with
      | true =>
        rw [hmalloc] at hstep hid
        rw [← Option.some.inj hstep]
        exact hid
      | false =>
        rw [hmalloc] at hstep hid
        rw [← Option.some.inj hstep]
        exact hid
    | fileStoreId =>
      obtain ⟨record, hrecord, hcopy⟩ := bind_eq_some_iff.mp hstep
      obtain ⟨field, -, rfl⟩ := map_eq_some_iff.mp hcopy
      apply hnode.concat_other
      · rw [hf]
        rfl
      · rw [hf]
        decide
      · rw [← hnode.userData, hrecord]
        rfl
    | fileUploadId =>
      obtain ⟨record, hrecord, hcopy⟩ := bind_eq_some_iff.mp hstep
      obtain ⟨field, -, rfl⟩ := map_eq_some_iff.mp hcopy
      apply hnode.concat_other
      · rw [hf]
        rfl
      · rw [hf]
        decide
      · rw [← hnode.userData, hrecord]
        rfl
    | nextAppendPosition =>
      obtain ⟨record, hrecord, rfl⟩ := map_eq_some_iff.mp hstep
      apply hnode.concat_other
      · rw [hf]
        rfl
      · rw [hf]
        decide
      · rw [← hnode.userData, hrecord]
        rfl
    | responseStatus =>
      rw [← Option.some.inj hstep]
      apply hnode.concat_status
      · rw [hf]
        rfl
      · rw [hf]
        decide
    | status =>
      rw [← Option.some.inj hstep]
      apply hnode.concat_status
      · rw [hf]
        rfl
      · rw [hf]
        decide

end

/-! ## All headers -/

theorem onStreamHeaders_concat (fs : Bool) (node : StreamNode) (hs : List ResponseHeader)
    (h : ResponseHeader) :
    onStreamHeaders fs node (hs ++ [h]) =
      (onStreamHeaders fs node hs).bind fun node' => onStreamHeader fs node' h := by
  unfold onStreamHeaders
  rw [foldlM_append]
  cases hs.foldlM (onStreamHeader fs) node with
  | none => rfl
  | some node' =>
    show (onStreamHeader fs node' h >>= fun n => pure n) = _
    rw [bind_pure]
    rfl

theorem collected_run (hrun : onStreamHeaders fs (.new (rspData rsp)) hs = some node) :
    Collected fs rsp hs node := by
  induction hs using List.reverseRecOn generalizing node with
  | nil =>
    rw [← Option.some.inj hrun]
    exact collected_new fs rsp
  | append_singleton hs h ih =>
    rw [onStreamHeaders_concat] at hrun
    obtain ⟨before, hbefore, hstep⟩ := bind_eq_some_iff.mp hrun
    exact (ih hbefore).step hstep

/-- The last byte of the fields of a record is zero. -/
def StreamNode.Ends (node : StreamNode) : Prop :=
  ∀ rsp, node.userData = some rsp →
    rsp.fsUploadId (fsUploadIdSize - 1) = 0 ∧ rsp.fsStoreId (fsStoreIdSize - 1) = 0

theorem StreamNode.Ends.terminated (hends : node.Ends) (hnode : Collected fs rsp hs node) :
    node.Terminated where
  status := ⟨statusCodeSize - 1, by decide, hnode.statusEnd⟩
  userData := fun rsp hrsp =>
    ⟨⟨fsUploadIdSize - 1, by decide, (hends rsp hrsp).1⟩,
      ⟨fsStoreIdSize - 1, by decide, (hends rsp hrsp).2⟩⟩

theorem copyInto_of_lt {size : ℕ} {value : CString} (h : value.strlen < size)
    (field : Memory) :
    ∃ field', copyInto size field value = some field' ∧ field' (size - 1) = field (size - 1) := by
  refine ⟨memStore field 0 value.bytes, if_pos h.le, ?_⟩
  have hlen : ¬ (0 ≤ size - 1 ∧ size - 1 - 0 < value.bytes.length) := by
    unfold CString.strlen at h
    omega
  rw [memStore, dif_neg hlen]

theorem lt_of_copyInto {size : ℕ} {field field' : Memory} {value : CString}
    (hcopy : copyInto size field value = some field') (hend : ∃ j < size, field' j = 0) :
    value.strlen < size := by
  unfold copyInto at hcopy
  split_ifs at hcopy
  obtain ⟨j, hj, hzero⟩ := hend
  rw [← Option.some.inj hcopy, memStore] at hzero
  split_ifs at hzero with hin
  · exact absurd (hzero ▸ getElem_mem hin.2) value.nul_notMem
  · show value.bytes.length < size
    omega

theorem step_of_fits (hnode : Collected fs rsp hs node) (hends : node.Ends)
    (hfits : ∀ f, headerFieldOf fs h = some f → f.Fits rsp h.value) :
    ∃ node', onStreamHeader fs node h = some node' ∧ node'.Ends := by
  unfold onStreamHeader
  cases hf : headerFieldOf fs h with
  | none => exact ⟨node, rfl, hends⟩
  | some f =>
    have hfit := hfits f hf
    cases f with
    | streamId =>
      cases h.malloc with
      | true => exact ⟨_, rfl, hends⟩
      | false => exact ⟨_, rfl, hends⟩
    | fileStoreId =>
      obtain ⟨hrsp, hshort⟩ := hfit
      obtain ⟨record, hrecord⟩ := isSome_iff_exists.mp (hnode.userData.trans hrsp)
      obtain ⟨field, hcopy, hlast⟩ := copyInto_of_lt hshort record.fsStoreId
      refine ⟨{ node with userData := some { record with fsStoreId := field } }, ?_, ?_⟩
      · dsimp only
        rw [hrecord, bind_some, hcopy, map_some]
      · intro r hr
        rw [← Option.some.inj hr]
        exact ⟨(hends record hrecord).1, hlast.trans (hends record hrecord).2⟩
    | fileUploadId =>
      obtain ⟨hrsp, hshort⟩ := hfit
      obtain ⟨record, hrecord⟩ := isSome_iff_exists.mp (hnode.userData.trans hrsp)
      obtain ⟨field, hcopy, hlast⟩ := copyInto_of_lt hshort record.fsUploadId
      refine ⟨{ node with userData := some { record with fsUploadId := field } }, ?_, ?_⟩
      · dsimp only
        rw [hrecord, bind_some, hcopy, map_some]
      · intro r hr
        rw [← Option.some.inj hr]
        exact ⟨hlast.trans (hends record hrecord).1, (hends record hrecord).2⟩
    | nextAppendPosition =>
      obtain ⟨record, hrecord⟩ := isSome_iff_exists.mp (hnode.userData.trans hfit)
      refine ⟨{ node with userData := some { record with fsOffset := atoi h.value.bytes } },
        ?_, ?_⟩
      · dsimp only
        rw [hrecord, map_some]
      · intro r hr
        rw [← Option.some.inj hr]
        exact hends record hrecord
    | responseStatus => exact ⟨_, rfl, hends⟩
    | status => exact ⟨_, rfl, hends⟩

theorem fits_of_step {node' : StreamNode} (hnode : Collected fs rsp hs node)
    (hstep : onStreamHeader fs node h = some node') (hend : node'.Terminated)
    (hf : headerFieldOf fs h = some f) : f.Fits rsp h.value := by
  unfold onStreamHeader at hstep
  rw [hf] at hstep
  cases f with
  | streamId => trivial
  | responseStatus => trivial
  | status => trivial
  | fileStoreId =>
    obtain ⟨record, hrecord, hcopy⟩ := bind_eq_some_iff.mp hstep
    obtain ⟨field, hfield, rfl⟩ := map_eq_some_iff.mp hcopy
    refine ⟨hnode.userData ▸ isSome_of_mem hrecord, ?_⟩
    exact lt_of_copyInto hfield (hend.userData _ rfl).storeId
  | fileUploadId =>
    obtain ⟨record, hrecord, hcopy⟩ := bind_eq_some_iff.mp hstep
    obtain ⟨field, hfield, rfl⟩ := map_eq_some_iff.mp hcopy
    refine ⟨hnode.userData ▸ isSome_of_mem hrecord, ?_⟩
    exact lt_of_copyInto hfield (hend.userData _ rfl).uploadId
  | nextAppendPosition =>
    obtain ⟨record, hrecord, -⟩ := map_eq_some_iff.mp hstep
    exact hnode.userData ▸ isSome_of_mem hrecord

theorem run_of_fits (hfits : ∀ h ∈ hs, ∀ f, headerFieldOf fs h = some f → f.Fits rsp h.value) :
    ∃ node, onStreamHeaders fs (.new (rspData rsp)) hs = some node ∧ node.Ends := by
  induction hs using List.reverseRecOn with
  | nil =>
    refine ⟨.new (rspData rsp), rfl, fun r hr => ?_⟩
    cases rsp with
    | true =>
      rw [← Option.some.inj hr]
      exact ⟨rfl, rfl⟩
    | false => exact absurd hr.symm (some_ne_none r)
  | append_singleton hs h ih =>
    obtain ⟨node, hrun, hends⟩ := ih fun h' hh' => hfits h' (mem_append_left [h] hh')
    obtain ⟨node', hstep, hends'⟩ :=
      step_of_fits (collected_run hrun) hends (hfits h mem_concat_self)
    refine ⟨node', ?_, hends'⟩
    rw [onStreamHeaders_concat, hrun, bind_some, hstep]

/-- **Fields.**  Nothing is written outside of the fields, and all hold strings, exactly when
every value fits. -/
theorem stored_iff (fs rsp : Bool) (hs : List ResponseHeader) :
    (∀ before, before <+: hs →
      ∃ node, onStreamHeaders fs (.new (rspData rsp)) before = some node ∧ node.Terminated) ↔
      ∀ h ∈ hs, ∀ f, headerFieldOf fs h = some f → f.Fits rsp h.value := by
  constructor
  · intro hstored h hh f hf
    obtain ⟨before, after, rfl⟩ := append_of_mem hh
    have hfront : before ++ [h] <+: before ++ h :: after := ⟨after, by simp⟩
    obtain ⟨node', hrun, hend⟩ := hstored _ hfront
    rw [onStreamHeaders_concat] at hrun
    obtain ⟨node, hbefore, hstep⟩ := bind_eq_some_iff.mp hrun
    exact fits_of_step (collected_run hbefore) hstep hend hf
  · intro hfits before hbefore
    obtain ⟨node, hrun, hends⟩ := run_of_fits fun h hh => hfits h (hbefore.subset hh)
    exact ⟨node, hrun, hends.terminated (collected_run hrun)⟩

/-! ## The verdict of the opening -/

theorem lastStreamId_some {id : CString} (h : lastStreamId fs hs = some id) :
    ∃ h ∈ hs, headerFieldOf fs h = some .streamId ∧ h.value = id := by
  obtain ⟨last, hlast, hid⟩ := bind_eq_some_iff.mp h
  split_ifs at hid with hmalloc
  have hmem := mem_filter.mp (mem_of_getLast? hlast)
  exact ⟨last, hmem.1, of_decide_eq_true hmem.2, Option.some.inj hid⟩

theorem iotHttp2StreamOpen_not_sent {env : OpenEnv} (hsent : ¬ env.Sent) (fs : Bool)
    (userData : Option FsRspHeaderVal) (hs : List ResponseHeader) :
    ∃ code, iotHttp2StreamOpen fs env userData hs = some (code, none) ∧ code ≠ successReturn := by
  unfold iotHttp2StreamOpen
  by_cases hargs : env.args = false
  · rw [if_pos hargs]
    exact ⟨nullValueError, rfl, by decide⟩
  rw [if_neg hargs]
  by_cases hnva : env.nva = false
  · rw [if_pos hnva]
    exact ⟨failReturn, rfl, by decide⟩
  rw [if_neg hnva]
  by_cases hrv : env.rv < 0
  · rw [if_pos hrv]
    exact ⟨failReturn, rfl, by decide⟩
  rw [if_neg hrv]
  by_cases hnode : env.node = false
  · rw [if_pos hnode]
    exact ⟨failReturn, rfl, by decide⟩
  rw [Bool.not_eq_false] at hargs hnva hnode
  exact absurd ⟨hargs, hnva, not_lt.mp hrv, hnode⟩ hsent

/-- Two headers that count have come, and the last status begins with 200. -/
def Answered (fs : Bool) (hs : List ResponseHeader) : Prop :=
  2 ≤ hs.countP (·.counts fs) ∧
    ∃ status, lastStatus fs hs = some status ∧ headerText "200" <+: status.bytes

theorem iotHttp2StreamOpen_sent {env : OpenEnv} (hsent : env.Sent)
    (hrun : onStreamHeaders fs (.new (rspData rsp)) hs = some node) :
    (¬ Answered fs hs → iotHttp2StreamOpen fs env (rspData rsp) hs = some (failReturn, none)) ∧
      (Answered fs hs → iotHttp2StreamOpen fs env (rspData rsp) hs =
        (lastStreamId fs hs).map fun id =>
          if env.channelId = false then (failReturn, none) else (successReturn, some id)) := by
  have hnode := collected_run hrun
  obtain ⟨hargs, hnva, hrv, hinsert⟩ := hsent
  have hopen : iotHttp2StreamOpen fs env (rspData rsp) hs =
      if node.posted = false ∨ statusIs200 node.statusCode = false then some (failReturn, none)
      else
        node.channelId.map fun id =>
          if env.channelId = false then (failReturn, none) else (successReturn, some id) := by
    unfold iotHttp2StreamOpen
    rw [hargs, hnva, hinsert, if_neg Bool.noConfusion, if_neg Bool.noConfusion,
      if_neg (not_lt.mpr hrv), if_neg Bool.noConfusion, hrun, bind_some]
  have hfails : (node.posted = false ∨ statusIs200 node.statusCode = false) ↔ ¬ Answered fs hs := by
    rw [Answered, ← hnode.posted, ← hnode.status, not_and_or, Bool.not_eq_true, Bool.not_eq_true]
  rw [hopen]
  constructor
  · intro hno
    rw [if_pos (hfails.mpr hno)]
  · intro hyes
    rw [if_neg (mt hfails.mp (not_not_intro hyes)), hnode.channelId]

/-- **Verdict.**  When nothing was written outside of the fields, the opening is right exactly
when two headers that count are a status and an id. -/
theorem opened_iff (env : OpenEnv) (hrun : onStreamHeaders fs (.new (rspData rsp)) hs = some node) :
    (∃ result, iotHttp2StreamOpen fs env (rspData rsp) hs = some result ∧
      (result.1 = successReturn →
        (∃ h ∈ hs, isStatusField (headerFieldOf fs h) = true ∧
          h.value.bytes = headerText "200") ∧
          ∃ h ∈ hs, headerFieldOf fs h = some .streamId ∧ result.2 = some h.value)) ↔
      (env.Sent → Answered fs hs → (lastStreamId fs hs).isSome = true ∧
        (env.channelId = true → ∃ h ∈ hs, isStatusField (headerFieldOf fs h) = true ∧
          h.value.bytes = headerText "200")) := by
  have hfail : (failReturn : ℤ) ≠ successReturn := by decide
  by_cases hsent : env.Sent
  · obtain ⟨hno, hyes⟩ := iotHttp2StreamOpen_sent hsent hrun
    by_cases hanswered : Answered fs hs
    · rw [hyes hanswered]
      simp only [hsent, hanswered, true_implies]
      constructor
      · rintro ⟨result, hresult, hright⟩
        obtain ⟨id, hid, rfl⟩ := map_eq_some_iff.mp hresult
        refine ⟨isSome_of_mem hid, fun hmalloc => ?_⟩
        rw [hmalloc, if_neg Bool.noConfusion] at hright
        exact (hright rfl).1
      · rintro ⟨hsome, hstatus⟩
        obtain ⟨id, hid⟩ := isSome_iff_exists.mp hsome
        rw [hid, map_some]
        refine ⟨_, rfl, fun hsuccess => ?_⟩
        cases hmalloc : env.channelId with
        | false =>
          rw [hmalloc, if_pos rfl] at hsuccess
          exact absurd hsuccess hfail
        | true =>
          rw [if_neg Bool.noConfusion]
          obtain ⟨h, hh, hfield, hvalue⟩ := lastStreamId_some hid
          exact ⟨hstatus hmalloc, h, hh, hfield, by rw [hvalue]⟩
    · rw [hno hanswered]
      simp only [hanswered, false_implies, implies_true, iff_true]
      exact ⟨_, rfl, fun hsuccess => absurd hsuccess hfail⟩
  · obtain ⟨code, hcode, hne⟩ := iotHttp2StreamOpen_not_sent hsent fs (rspData rsp) hs
    rw [hcode]
    simp only [hsent, false_implies, iff_true]
    exact ⟨_, rfl, fun hsuccess => absurd hsuccess hne⟩

/-- **Response headers.**  The headers of a stream are handled as they should be exactly when
names that begin like an expected one are that one in full, the values fit, and the headers that
count include a status of 200 and an id once the last status begins with 200. -/
theorem response_headers_iff (fs rsp : Bool) (env : OpenEnv) (hs : List ResponseHeader) :
    HeadersSound fs rsp env hs ↔ HeadersOrdinary fs rsp env hs := by
  constructor
  · intro h
    obtain ⟨node, hrun, -⟩ := h.stored hs prefix_rfl
    refine ⟨fun h' hh' => (named_iff fs h').mp (h.named h' hh'), (stored_iff fs rsp hs).mp h.stored,
      fun hsent htwo hlast => ?_⟩
    exact (opened_iff env hrun).mp h.opened hsent ⟨htwo, hlast⟩
  · intro h
    obtain ⟨node, hrun, -⟩ := run_of_fits h.fits
    refine ⟨fun h' hh' => (named_iff fs h').mpr (h.whole h' hh'), (stored_iff fs rsp hs).mpr h.fits,
      (opened_iff env hrun).mpr fun hsent hanswered => ?_⟩
    exact h.answered hsent hanswered.1 hanswered.2

theorem nul_notMem_status : (0 : UInt8) ∉ headerText ":status" := by decide
theorem nul_notMem_200 : (0 : UInt8) ∉ headerText "200" := by decide

/-- The header `:status: 200`. -/
def status200Header : ResponseHeader :=
  ⟨1, ⟨headerText ":status", nul_notMem_status⟩, ⟨headerText "200", nul_notMem_200⟩, true⟩

/-- Everything goes well around the request. -/
def openEnv : OpenEnv := ⟨true, true, 1, true, true⟩

/-- Two statuses, and no id: the length of a string that is not there is asked for. -/
theorem response_headers_broken :
    ¬ ∀ (fs rsp : Bool) (env : OpenEnv) (hs : List ResponseHeader),
      HeadersSound fs rsp env hs := by
  intro hclaim
  obtain ⟨result, hresult, -⟩ :=
    (hclaim false false openEnv [status200Header, status200Header]).opened
  have hnone : iotHttp2StreamOpen false openEnv none [status200Header, status200Header] = none := by
    decide
  exact absurd (hnone.symm.trans hresult) (some_ne_none result).symm

end Iotkit.Http2
