/-
# Authentication and messages over HTTP (`iotx_http_api.c`)

When the server answers to a message that its token is out of date, the authentication is made
again on the spot, and one that succeeds reports the device information and the firmware version,
which are messages themselves.  So the two functions call each other, and nothing but the answers
of the server makes an end of it.
-/
import Iotkit.LibC
import Iotkit.InfraDefs
import Iotkit.HeapLedger

namespace Iotkit.HttpApi

open LibC HeapLedger List Option Bool

/-! ## What the calls find around them -/

def iotxHttpAuthTokenLen : ℕ := 192 + 1

abbrev iotxHttpSuccess : ℤ := 0
abbrev iotxHttpTokenExpiredError : ℤ := 20001

/-- What one call of either function meets: memory for the request, for the response and for the
header, whether `iotx_post` succeeds, what `httpclient_recv_response` returns, what
`LITE_json_value_of` finds in the response, and whether there is memory for the device
information. -/
structure HttpAttempt where
  reqMalloc : Bool
  rspMalloc : Bool
  headerMalloc : Bool
  post : Bool
  recv : ℤ
  value : String → Option CString
  devinfoMalloc : Bool

/-- Whether the handle is the one that was created, whether `HAL_GetFirmwareVersion` knows the
version, and what each attempt meets. -/
structure HttpEnv where
  handle : Bool
  firmwareVersion : Bool
  attempt : ℕ → HttpAttempt

/-- The pointers of a message that are not `NULL`. -/
structure HttpMessageParam where
  requestPayload : Bool
  responsePayload : Bool
  topicPath : Bool

/-- What `httpc->header` points to: nothing, the text in `IOT_HTTP_DeviceNameAuth`, or a block. -/
inductive HttpHeader where
  | null
  | literal
  | block (b : ℕ)
  deriving DecidableEq

/-- `iotx_http_t`, with the attempts and the blocks so far, and what was done to the heap. -/
structure HttpState where
  isAuthed : Bool
  token : CString
  header : HttpHeader
  attempts : ℕ
  blocks : ℕ
  log : List HeapEvent

/-- An authenticated device that has not sent anything yet. -/
def freshState : HttpState := ⟨true, ⟨[], CString.nul_notMem_nil⟩, .null, 0, 0, []⟩

/-! ## The heap -/

/-- A block is allocated; its number is the count of the blocks before it. -/
def HttpState.malloc (st : HttpState) : HttpState :=
  { st with blocks := st.blocks + 1, log := st.log ++ [.alloc st.blocks] }

def HttpState.free (st : HttpState) (b : ℕ) : HttpState := { st with log := st.log ++ [.free b] }

/-- A value of the response is allocated, looked at and released. -/
def HttpState.readValue (st : HttpState) : HttpState := st.malloc.free st.blocks

/-- `HTTP_API_FREE(httpc->header)`, unless it is `NULL`. -/
def HttpState.freeHeader (st : HttpState) : HttpState :=
  match st.header with
  | .null => st
  | .literal => { st with header := .null, log := st.log ++ [.freeLiteral] }
  | .block b => { st.free b with header := .null }

/-! ## The functions -/

/-- What a call returns and leaves behind; there is none while it goes on, and none where it
writes to memory that it did not get. -/
abbrev HttpCall := HttpState → Option (ℤ × HttpState)

/-- `iotx_report_devinfo`; it does not look at what the report function returns. -/
def iotxReportDevinfo (send : HttpCall) (malloc : Bool) (st : HttpState) :
    Option (ℤ × HttpState) :=
  if malloc = false then some (failReturn, st)
  else (send st.malloc).map fun r => (successReturn, r.2.free st.blocks)

def iotxReportFirmwareVersion (send : HttpCall) (version : Bool) (st : HttpState) :
    Option (ℤ × HttpState) :=
  if version = false then some (failReturn, st)
  else (send st).map fun r => (if r.1 < 0 then r.1 else successReturn, r.2)

variable (env : HttpEnv) (a : HttpAttempt)

/-- The reports after an authentication; `iotx_report_mid` sends nothing. -/
def authReports (send : HttpCall) (a : HttpAttempt) (st : HttpState) :
    Option (ℤ × HttpState) :=
  (iotxReportDevinfo send a.devinfoMalloc st).bind fun r =>
    if r.1 ≠ successReturn then some r
    else iotxReportFirmwareVersion send env.firmwareVersion r.2

def authResponse (send : HttpCall) (a : HttpAttempt) (st : HttpState) :
    Option (ℤ × HttpState) :=
  match a.value "code" with
  | none => some (a.recv, st)
  | some code =>
    match a.value "message" with
    | none => some (a.recv, st.readValue)
    | some _ =>
      if atoi code.bytes ≠ iotxHttpSuccess then some (failReturn, st.readValue.readValue)
      else
        match a.value "info.token" with
        | none => some (a.recv, st.readValue.readValue)
        | some token =>
          let st := st.readValue.readValue.readValue
          if iotxHttpAuthTokenLen - 1 < token.strlen then some (a.recv, st)
          else authReports env send a { st with token := token, isAuthed := true }

/-- `IOT_HTTP_DeviceNameAuth`, where messages are sent by `send`. -/
def deviceNameAuth (send : HttpCall) (st : HttpState) : Option (ℤ × HttpState) :=
  if env.handle = false then some (-1, st)
  else
    let a := env.attempt st.attempts
    let st := { st with isAuthed := false, attempts := st.attempts + 1 }
    if a.reqMalloc = false then none
    else if a.rspMalloc = false then some (-1, st.malloc.free st.blocks)
    else
      let req := st.blocks
      let rsp := st.blocks + 1
      let st := { st.malloc.malloc with header := .literal }
      if a.post = false then some (-1, (st.free req).free rsp)
      -- this return does not pass by the exit that releases the payloads
      else if a.recv < 0 then some (a.recv, st)
      else (authResponse env send a st).map fun r => (r.1, (r.2.free req).free rsp)

def sendResponse (auth : HttpCall) (a : HttpAttempt) (st : HttpState) : Option (ℤ × HttpState) :=
  match a.value "code" with
  | none => some (a.recv, st)
  | some code =>
    match a.value "message" with
    | none => some (a.recv, st.readValue)
    | some _ =>
      let st := st.readValue.readValue
      if atoi code.bytes = iotxHttpSuccess then
        match a.value "info.messageId" with
        | none => some (a.recv, st)
        | some _ =>
          let st := st.readValue
          some (0, if (a.value "info.data").isSome then st.readValue else st)
      else if atoi code.bytes = iotxHttpTokenExpiredError then
        (auth { st with isAuthed := false }).map fun r => (a.recv, r.2)
      else some (a.recv, st)

/-- The message can be sent: the pointers are there and the device is authenticated. -/
def sends (msg : Option HttpMessageParam) (st : HttpState) : Bool :=
  env.handle && st.isAuthed && msg.any fun m => m.requestPayload && m.responsePayload && m.topicPath

/-- `IOT_HTTP_SendMessage`, where authentications are made by `auth`. -/
def sendMessage (auth : HttpCall) (msg : Option HttpMessageParam) (st : HttpState) :
    Option (ℤ × HttpState) :=
  if sends env msg st = false then some (-1, st)
  else
    let a := env.attempt st.attempts
    let st := { st with attempts := st.attempts + 1 }
    if a.headerMalloc = false then some (-1, { st with header := .null })
    else
      let st := { st.malloc with header := .block st.blocks }
      if a.post = false then some (-1, st.freeHeader)
      else if a.recv < 0 then some (a.recv, st.freeHeader)
      else (sendResponse auth a st).map fun r => (r.1, r.2.freeHeader)

/-- The message of `http_report_func`. -/
def reportParam : Option HttpMessageParam := some ⟨true, true, true⟩

mutual

/-- `IOT_HTTP_DeviceNameAuth`, for calls that are not nested deeper than the fuel. -/
def iotHttpDeviceNameAuth (env : HttpEnv) : ℕ → HttpCall
  | 0, _ => none
  | fuel + 1, st => deviceNameAuth env (iotHttpSendMessage env fuel reportParam) st

/-- `IOT_HTTP_SendMessage`, for calls that are not nested deeper than the fuel. -/
def iotHttpSendMessage (env : HttpEnv) : ℕ → Option HttpMessageParam → HttpCall
  | 0, _, _ => none
  | fuel + 1, msg, st => sendMessage env (iotHttpDeviceNameAuth env fuel) msg st

end

/-! ## What an attempt is answered -/

/-- The code of a response that is read to its message. -/
def HttpAttempt.code (a : HttpAttempt) : Option ℤ :=
  if a.post = true ∧ 0 ≤ a.recv ∧ (a.value "message").isSome = true then
    (a.value "code").map fun code => atoi code.bytes
  else none

/-- A message is answered that the token is out of date. -/
def HttpAttempt.expired : Bool :=
  a.headerMalloc && decide (a.code = some iotxHttpTokenExpiredError)

/-- The token that an authentication is answered with, and that is kept. -/
def HttpAttempt.granted : Option CString :=
  if a.rspMalloc = true ∧ a.code = some iotxHttpSuccess then
    (a.value "info.token").filter fun token => token.strlen ≤ iotxHttpAuthTokenLen - 1
  else none

/-- The reports that a successful authentication makes. -/
def HttpEnv.reports : ℕ :=
  if a.devinfoMalloc = false then 0 else if env.firmwareVersion = false then 1 else 2

/-- An authentication is answered with another code than that of success. -/
def HttpAttempt.refused : Bool := a.code.any (· ≠ iotxHttpSuccess)

/-- A message is answered with the code of success and a message id. -/
def HttpAttempt.delivered : Bool :=
  decide (a.code = some iotxHttpSuccess) && (a.value "info.messageId").isSome

/-! ## Reading a response -/

def HttpState.reads (st : HttpState) : ℕ → HttpState
  | 0 => st
  | k + 1 => (st.reads k).readValue

variable (st : HttpState)

@[simp] theorem reads_isAuthed (k : ℕ) : (st.reads k).isAuthed = st.isAuthed := by
  induction k with
  | zero => rfl
  | succ k ih => exact ih

@[simp] theorem reads_token (k : ℕ) : (st.reads k).token = st.token := by
  induction k with
  | zero => rfl
  | succ k ih => exact ih

@[simp] theorem reads_header (k : ℕ) : (st.reads k).header = st.header := by
  induction k with
  | zero => rfl
  | succ k ih => exact ih

@[simp] theorem reads_attempts (k : ℕ) : (st.reads k).attempts = st.attempts := by
  induction k with
  | zero => rfl
  | succ k ih => exact ih

/-- A code comes from a response with a code and a message. -/
theorem value_of_code {a : HttpAttempt} {n : ℤ} (h : a.code = some n) :
    ∃ code message, a.value "code" = some code ∧ a.value "message" = some message ∧
      atoi code.bytes = n := by
  unfold HttpAttempt.code at h
  split_ifs at h with hread
  obtain ⟨code, hcode, hn⟩ := map_eq_some_iff.mp h
  obtain ⟨message, hmessage⟩ := isSome_iff_exists.mp hread.2.2
  exact ⟨code, message, hcode, hmessage, hn⟩

/-- A response that the token is expired leads to an authentication. -/
theorem sendResponse_expired {a : HttpAttempt}
    (h : a.code = some iotxHttpTokenExpiredError) (auth : HttpCall)
    (st : HttpState) :
    sendResponse auth a st =
      (auth { st.reads 2 with isAuthed := false }).map fun r => (a.recv, r.2) := by
  obtain ⟨code, message, hcode, hmessage, hn⟩ := value_of_code h
  have hne : iotxHttpTokenExpiredError ≠ iotxHttpSuccess := by decide
  unfold sendResponse
  rw [hcode, hmessage]
  dsimp only
  rw [hn, if_neg hne, if_pos rfl]
  rfl

/-- A granted token is stored and reported with. -/
theorem authResponse_granted {a : HttpAttempt} {token : CString} (h : a.granted = some token)
    (env : HttpEnv) (send : HttpCall) (st : HttpState) :
    authResponse env send a st =
      authReports env send a { st.reads 3 with token := token, isAuthed := true } := by
  unfold HttpAttempt.granted at h
  split_ifs at h with hsuccess
  obtain ⟨code, message, hcode, hmessage, hn⟩ := value_of_code hsuccess.2
  obtain ⟨htoken, hlen⟩ := filter_eq_some_iff.mp h
  unfold authResponse
  rw [hcode, hmessage, htoken]
  dsimp only
  rw [if_neg (not_not_intro hn), if_neg (not_lt.mpr (of_decide_eq_true hlen))]
  rfl

section Responses

variable {a : HttpAttempt}

/-- Without a code or a message there is no verdict. -/
theorem code_eq_none (h : a.value "code" = none ∨ a.value "message" = none) : a.code = none := by
  unfold HttpAttempt.code
  rcases h with h | h
  · rw [h]
    split_ifs <;> rfl
  · rw [h, if_neg fun hread => Bool.noConfusion hread.2.2]

variable (hpost : a.post = true) (hrecv : 0 ≤ a.recv)

include hpost hrecv

/-- The code of a response is its value as a number. -/
theorem code_of_value {code message : CString} (hcode : a.value "code" = some code)
    (hmessage : a.value "message" = some message) : a.code = some (atoi code.bytes) := by
  rw [HttpAttempt.code, if_pos ⟨hpost, hrecv, by rw [hmessage]; rfl⟩, hcode, map_some]

/-- Any other response only has its values read. -/
theorem sendResponse_other (h : a.code ≠ some iotxHttpTokenExpiredError) (auth : HttpCall)
    (st : HttpState) :
    ∃ k, sendResponse auth a st = some (if a.delivered = true then 0 else a.recv, st.reads k) := by
  unfold sendResponse HttpAttempt.delivered
  cases hcode : a.value "code" with
  | none =>
    exact ⟨0, by rw [code_eq_none (Or.inl hcode)]; rfl⟩
  | some code =>
    cases hmessage : a.value "message" with
    | none =>
      exact ⟨1, by rw [code_eq_none (Or.inr hmessage)]; rfl⟩
    | some message =>
      have hread := code_of_value hpost hrecv hcode hmessage
      rw [hread] at h ⊢
      have hn : atoi code.bytes ≠ iotxHttpTokenExpiredError := fun hn => h (by rw [hn])
      dsimp only
      by_cases hsuccess : atoi code.bytes = iotxHttpSuccess
      · rw [if_pos hsuccess, hsuccess]
        cases a.value "info.messageId" with
        | none => exact ⟨2, rfl⟩
        | some id =>
          cases (a.value "info.data").isSome with
          | true => exact ⟨4, rfl⟩
          | false => exact ⟨3, rfl⟩
      · rw [if_neg hsuccess, if_neg hn]
        have hno : decide (some (atoi code.bytes) = some iotxHttpSuccess) = false :=
          decide_eq_false fun heq => hsuccess (Option.some.inj heq)
        rw [hno]
        exact ⟨2, rfl⟩

/-- Without a token the authentication ends with what was received. -/
theorem authResponse_other (hmalloc : a.rspMalloc = true) (h : a.granted = none) (env : HttpEnv)
    (send : HttpCall) (st : HttpState) :
    ∃ k, authResponse env send a st =
      some (if a.refused = true then failReturn else a.recv, st.reads k) := by
  unfold authResponse HttpAttempt.refused
  cases hcode : a.value "code" with
  | none =>
    exact ⟨0, by rw [code_eq_none (Or.inl hcode)]; rfl⟩
  | some code =>
    cases hmessage : a.value "message" with
    | none =>
      exact ⟨1, by rw [code_eq_none (Or.inr hmessage)]; rfl⟩
    | some message =>
      have hread := code_of_value hpost hrecv hcode hmessage
      rw [hread]
      dsimp only
      by_cases hsuccess : atoi code.bytes = iotxHttpSuccess
      · rw [if_neg (not_not_intro hsuccess), hsuccess]
        cases htoken : a.value "info.token" with
        | none => exact ⟨2, rfl⟩
        | some token =>
          have hlong : iotxHttpAuthTokenLen - 1 < token.strlen := by
            rw [HttpAttempt.granted, if_pos ⟨hmalloc, by rw [hread, hsuccess]⟩, htoken,
              filter_some] at h
            by_contra hshort
            rw [if_pos (decide_eq_true (not_lt.mp hshort))] at h
            exact some_ne_none _ h
          dsimp only
          rw [if_pos hlong]
          exact ⟨3, rfl⟩
      · rw [if_pos hsuccess]
        have hyes : (some (atoi code.bytes)).any (· ≠ iotxHttpSuccess) = true :=
          decide_eq_true hsuccess
        rw [hyes]
        exact ⟨2, rfl⟩

end Responses

/-! ## The heap in a call -/

/-- Between two states, every block was allocated and released. -/
def Clean (st st' : HttpState) : Prop :=
  ∃ log, st'.log = st.log ++ log ∧ Released st.blocks st'.blocks log

variable {st' : HttpState}

/-- A step that logs and allocates nothing is clean. -/
theorem Clean.of_eq {st : HttpState} (hlog : st'.log = st.log) (hblocks : st'.blocks = st.blocks) :
    Clean st st' :=
  ⟨[], by rw [hlog, append_nil], hblocks ▸ released_nil _⟩

/-- Clean steps compose. -/
theorem Clean.trans {st st'' : HttpState} (h : Clean st st') (h' : Clean st' st'') :
    Clean st st'' := by
  obtain ⟨log, hlog, hrel⟩ := h
  obtain ⟨log', hlog', hrel'⟩ := h'
  exact ⟨log ++ log', by rw [hlog', hlog, append_assoc], hrel.append hrel'⟩

/-- Reading a value frees what it allocates. -/
theorem clean_readValue : Clean st st.readValue :=
  ⟨[.alloc st.blocks, .free st.blocks], by
    show (st.log ++ [_]) ++ [_] = _
    rw [append_assoc]
    rfl, released_block st.blocks⟩

/-- So do several. -/
theorem clean_reads (k : ℕ) : Clean st (st.reads k) := by
  induction k with
  | zero => exact .of_eq rfl rfl
  | succ k ih => exact ih.trans (clean_readValue _)

/-- A block that is freed at the end is no leak. -/
theorem clean_block {st : HttpState} (h : Clean st.malloc st') : Clean st (st'.free st.blocks) := by
  obtain ⟨log, hlog, hrel⟩ := h
  have hlong : (st'.free st.blocks).log =
      st.log ++ (.alloc st.blocks :: log ++ [HeapEvent.free st.blocks]) := by
    show st'.log ++ [_] = _
    rw [hlog]
    show (st.log ++ [_]) ++ log ++ [_] = _
    simp only [append_assoc, cons_append, nil_append]
  exact ⟨_, hlong, hrel.block⟩

/-- Nor is a header that is freed at the end. -/
theorem clean_freeHeader {st : HttpState} (h : Clean st.malloc st')
    (hheader : st'.header = .block st.blocks) : Clean st st'.freeHeader := by
  obtain ⟨log, hlog, hrel⟩ := clean_block h
  refine ⟨log, ?_, ?_⟩
  · rw [HttpState.freeHeader, hheader]
    exact hlog
  · rw [HttpState.freeHeader, hheader]
    exact hrel

/-- Two blocks around what happens while they are held, the first one released first. -/
theorem clean_two {st : HttpState} (h : Clean st.malloc.malloc st') :
    Clean st ((st'.free st.blocks).free (st.blocks + 1)) := by
  obtain ⟨log, hlog, hrel⟩ := h
  have hlong : ((st'.free st.blocks).free (st.blocks + 1)).log =
      st.log ++ ([HeapEvent.alloc st.blocks, .alloc (st.blocks + 1)] ++ log ++
        [HeapEvent.free st.blocks, .free (st.blocks + 1)]) := by
    show (st'.log ++ [_]) ++ [_] = _
    rw [hlog]
    show (((st.log ++ [_]) ++ [_]) ++ log ++ [_]) ++ [_] = _
    simp only [append_assoc, cons_append, nil_append]
    rfl
  refine ⟨_, hlong, hrel.block.block.perm ?_⟩
  have hswap : [HeapEvent.free (st.blocks + 1), .free st.blocks].Perm
      [.free st.blocks, .free (st.blocks + 1)] := List.Perm.swap _ _ _
  have hlast := hswap.append_left ([HeapEvent.alloc st.blocks, .alloc (st.blocks + 1)] ++ log)
  have hnext : st.malloc.blocks = st.blocks + 1 := rfl
  rw [hnext]
  simpa only [append_assoc, cons_append, nil_append] using hlast

theorem freeHeader_header : st.freeHeader.header = .null := by
  unfold HttpState.freeHeader
  split
  · assumption
  · rfl
  · rfl

/-- Freeing the header leaves the session alone. -/
theorem freeHeader_kept :
    st.freeHeader.isAuthed = st.isAuthed ∧ st.freeHeader.token = st.token ∧
      st.freeHeader.attempts = st.attempts ∧ st.freeHeader.blocks = st.blocks := by
  unfold HttpState.freeHeader
  split <;> exact ⟨rfl, rfl, rfl, rfl⟩

/-! ## One call of `IOT_HTTP_SendMessage` -/

/-- What a message returns that is not answered with an expired token. -/
def HttpAttempt.sendVerdict : ℤ :=
  if a.headerMalloc = false ∨ a.post = false then -1
  else if a.delivered = true then 0 else a.recv

/-- The state in which an authentication is made again. -/
def HttpState.outdated (st : HttpState) : HttpState :=
  { ({ { st with attempts := st.attempts + 1 }.malloc with
      header := .block st.blocks } : HttpState).reads 2 with isAuthed := false }

@[simp] theorem outdated_attempts :
    st.outdated.attempts = st.attempts + 1 := rfl

/-- What a call leaves behind that makes no other one. -/
structure Answered (st : HttpState) (isAuthed : Bool) (header : HttpHeader) (ret : ℤ)
    (r : ℤ × HttpState) : Prop where
  ret : r.1 = ret
  attempts : r.2.attempts = st.attempts + 1
  isAuthed : r.2.isAuthed = isAuthed
  token : r.2.token = st.token
  header : r.2.header = header

variable {env : HttpEnv} {msg : Option HttpMessageParam} {st : HttpState}

/-- A message that is not admitted is not sent. -/
theorem sendMessage_not_sends (hsends : sends env msg st = false) (auth : HttpCall) :
    sendMessage env auth msg st = some (-1, st) := if_pos hsends

/-- A verdict comes with a response that was received. -/
theorem HttpAttempt.received_of_code {a : HttpAttempt} {n : ℤ} (h : a.code = some n) :
    a.post = true ∧ 0 ≤ a.recv := by
  unfold HttpAttempt.code at h
  split_ifs at h with hread
  exact ⟨hread.1, hread.2.1⟩

/-- When the server calls the token expired. -/
theorem HttpAttempt.expired_iff :
    a.expired = true ↔
      a.headerMalloc = true ∧ a.code = some iotxHttpTokenExpiredError := by
  rw [HttpAttempt.expired, and_eq_true, decide_eq_true_eq]

/-- A send with an expired token authenticates once and frees its header. -/
theorem sendMessage_expired (hsends : sends env msg st = true)
    (hexpired : (env.attempt st.attempts).expired = true) (auth : HttpCall) :
    sendMessage env auth msg st =
      (auth st.outdated).map fun r => ((env.attempt st.attempts).recv, r.2.freeHeader) := by
  obtain ⟨hmalloc, hcode⟩ := (HttpAttempt.expired_iff _).mp hexpired
  obtain ⟨hpost, hrecv⟩ := HttpAttempt.received_of_code hcode
  unfold sendMessage
  rw [hsends, if_neg Bool.noConfusion]
  dsimp only
  rw [hmalloc, hpost, if_neg Bool.noConfusion, if_neg Bool.noConfusion, if_neg (not_lt.mpr hrecv),
    sendResponse_expired hcode, Option.map_map]
  rfl

/-- Any other send answers by itself and leaks nothing. -/
theorem sendMessage_other (hsends : sends env msg st = true)
    (hexpired : (env.attempt st.attempts).expired = false) (auth : HttpCall) :
    ∃ r, sendMessage env auth msg st = some r ∧
      Answered st st.isAuthed .null (env.attempt st.attempts).sendVerdict r ∧ Clean st r.2 := by
  have hcode : (env.attempt st.attempts).headerMalloc = true →
      (env.attempt st.attempts).code ≠ some iotxHttpTokenExpiredError := by
    intro hmalloc hcode
    rw [(HttpAttempt.expired_iff _).mpr ⟨hmalloc, hcode⟩] at hexpired
    exact Bool.noConfusion hexpired
  unfold sendMessage HttpAttempt.sendVerdict
  rw [hsends, if_neg Bool.noConfusion]
  generalize env.attempt st.attempts = a at hcode
  by_cases hmalloc : a.headerMalloc = false
  · rw [if_pos hmalloc, if_pos (Or.inl hmalloc)]
    exact ⟨_, rfl, ⟨rfl, rfl, rfl, rfl, rfl⟩, .of_eq rfl rfl⟩
  set st₁ : HttpState := { { st with attempts := st.attempts + 1 }.malloc with
    header := .block st.blocks } with hst₁
  have hdone : ∀ ret k, Answered st st.isAuthed .null ret (ret, (st₁.reads k).freeHeader) ∧
      Clean st (st₁.reads k).freeHeader := by
    intro ret k
    obtain ⟨hauthed, htoken, hattempts, -⟩ := freeHeader_kept (st₁.reads k)
    refine ⟨⟨rfl, ?_, ?_, ?_, freeHeader_header _⟩, clean_freeHeader ?_ (reads_header st₁ k)⟩
    · exact hattempts.trans (reads_attempts st₁ k)
    · exact hauthed.trans (reads_isAuthed st₁ k)
    · exact htoken.trans (reads_token st₁ k)
    · exact clean_reads st₁ k
  rw [if_neg hmalloc]
  by_cases hpost : a.post = false
  · rw [if_pos hpost, if_pos (Or.inr hpost)]
    exact ⟨_, rfl, hdone (-1) 0⟩
  rw [if_neg hpost, if_neg (not_or_intro hmalloc hpost)]
  by_cases hrecv : a.recv < 0
  · have hnot : a.delivered = false := by
      cases hyes : a.delivered with
      | false => rfl
      | true =>
        rw [HttpAttempt.delivered, and_eq_true, decide_eq_true_eq] at hyes
        exact absurd (HttpAttempt.received_of_code hyes.1).2 (not_le.mpr hrecv)
    rw [if_pos hrecv, hnot, if_neg Bool.false_ne_true]
    exact ⟨_, rfl, hdone a.recv 0⟩
  · rw [not_eq_false] at hmalloc hpost
    obtain ⟨k, hk⟩ := sendResponse_other hpost (not_lt.mp hrecv) (hcode hmalloc) auth st₁
    rw [if_neg hrecv, hk]
    exact ⟨_, rfl, hdone _ k⟩

/-! ## One call of `IOT_HTTP_DeviceNameAuth` -/

/-- What an authentication returns that brings no token. -/
def HttpAttempt.authVerdict : ℤ :=
  if a.rspMalloc = false ∨ a.post = false then -1
  else if a.refused = true then failReturn else a.recv

/-- The state in which the reports are made. -/
def HttpState.authed (st : HttpState) (token : CString) : HttpState :=
  { ({ { st with isAuthed := false, attempts := st.attempts + 1 }.malloc.malloc with
      header := .literal } : HttpState).reads 3 with token := token, isAuthed := true }

/-- The payloads are lost when the response does not come. -/
def HttpAttempt.loses : Prop :=
  a.rspMalloc = true ∧ a.post = true ∧ a.recv < 0

/-- What an authentication leaves behind that is answered without a token. -/
def Ungranted (st : HttpState) (a : HttpAttempt) (r : ℤ × HttpState) : Prop :=
  Answered st false (if a.rspMalloc = true then .literal else st.header) a.authVerdict r ∧
    (¬ a.loses → Clean st r.2) ∧
    (a.loses → r.2.log = st.log ++ [.alloc st.blocks, .alloc (st.blocks + 1)]) ∧
    st.blocks ≤ r.2.blocks

/-- Without a handle nothing is sent. -/
theorem deviceNameAuth_handle (hhandle : env.handle = false) (send : HttpCall) :
    deviceNameAuth env send st = some (-1, st) := if_pos hhandle

/-- Without memory for the request a null pointer is written. -/
theorem deviceNameAuth_crash (hhandle : env.handle = true)
    (hreq : (env.attempt st.attempts).reqMalloc = false) (send : HttpCall) :
    deviceNameAuth env send st = none := by
  unfold deviceNameAuth
  rw [hhandle, if_neg Bool.noConfusion]
  rw [if_pos hreq]

/-- An authentication that is granted a token reports the firmware. -/
theorem deviceNameAuth_granted (hhandle : env.handle = true)
    (hreq : (env.attempt st.attempts).reqMalloc = true) {token : CString}
    (h : (env.attempt st.attempts).granted = some token) (send : HttpCall) :
    deviceNameAuth env send st =
      (authReports env send (env.attempt st.attempts) (st.authed token)).map fun r =>
        (r.1, (r.2.free st.blocks).free (st.blocks + 1)) := by
  have hsuccess : (env.attempt st.attempts).rspMalloc = true ∧
      (env.attempt st.attempts).code = some iotxHttpSuccess := by
    unfold HttpAttempt.granted at h
    split_ifs at h with hyes
    exact hyes
  obtain ⟨hpost, hrecv⟩ := HttpAttempt.received_of_code hsuccess.2
  unfold deviceNameAuth
  rw [hhandle, if_neg Bool.noConfusion]
  dsimp only
  rw [hreq, hsuccess.1, hpost, if_neg Bool.noConfusion, if_neg Bool.noConfusion,
    if_neg Bool.noConfusion, if_neg (not_lt.mpr hrecv), authResponse_granted h]
  rfl

/-- An authentication without a token leaves the session unauthenticated. -/
theorem deviceNameAuth_other (hhandle : env.handle = true)
    (hreq : (env.attempt st.attempts).reqMalloc = true)
    (h : (env.attempt st.attempts).granted = none) (send : HttpCall) :
    ∃ r, deviceNameAuth env send st = some r ∧ Ungranted st (env.attempt st.attempts) r := by
  unfold Ungranted deviceNameAuth HttpAttempt.authVerdict HttpAttempt.loses
  rw [hhandle, if_neg Bool.noConfusion]
  dsimp only
  generalize env.attempt st.attempts = a at hreq h
  rw [hreq, if_neg Bool.noConfusion]
  by_cases hrsp : a.rspMalloc = false
  · have hrsp' : ¬ a.rspMalloc = true := not_eq_true _ ▸ hrsp
    rw [if_pos hrsp, if_pos (Or.inl hrsp), if_neg hrsp']
    exact ⟨_, rfl, ⟨rfl, rfl, rfl, rfl, rfl⟩, fun _ => clean_readValue _,
      fun hlost => absurd hlost.1 hrsp', Nat.le_succ _⟩
  rw [if_neg hrsp]
  set st₁ : HttpState :=
    { { st with isAuthed := false, attempts := st.attempts + 1 }.malloc.malloc with
      header := .literal } with hst₁
  have hdone : ∀ ret k, Answered st false .literal ret
      (ret, ((st₁.reads k).free st.blocks).free (st.blocks + 1)) ∧
      Clean st (((st₁.reads k).free st.blocks).free (st.blocks + 1)) := by
    intro ret k
    refine ⟨⟨rfl, reads_attempts st₁ k, reads_isAuthed st₁ k, reads_token st₁ k,
      reads_header st₁ k⟩, clean_two ?_⟩
    exact clean_reads st₁ k
  have hmono : ∀ {r : HttpState}, Clean st r → st.blocks ≤ r.blocks :=
    fun hclean => hclean.choose_spec.2.le
  by_cases hpost : a.post = false
  · have hpost' : ¬ a.post = true := not_eq_true _ ▸ hpost
    rw [if_pos hpost, if_pos (Or.inr hpost), if_pos (not_eq_false _ ▸ hrsp)]
    obtain ⟨hanswered, hclean⟩ := hdone (-1) 0
    exact ⟨_, rfl, hanswered, fun _ => hclean, fun hlost => absurd hlost.2.1 hpost',
      hmono hclean⟩
  rw [if_neg hpost, if_neg (not_or_intro hrsp hpost)]
  rw [not_eq_false] at hrsp hpost
  rw [if_pos hrsp]
  by_cases hrecv : a.recv < 0
  · have hnot : a.refused = false := by
      cases hcode : a.code with
      | none =>
        rw [HttpAttempt.refused, hcode]
        rfl
      | some n => exact absurd (HttpAttempt.received_of_code hcode).2 (not_le.mpr hrecv)
    rw [if_pos hrecv, hnot, if_neg Bool.false_ne_true]
    refine ⟨_, rfl, ⟨rfl, rfl, rfl, rfl, rfl⟩, fun hkept => absurd ⟨hrsp, hpost, hrecv⟩ hkept,
      fun _ => ?_, Nat.le_add_right _ 2⟩
    show (st.log ++ [_]) ++ [_] = _
    rw [append_assoc]
    rfl
  · obtain ⟨k, hk⟩ := authResponse_other hpost (not_lt.mp hrecv) hrsp h env send st₁
    rw [if_neg hrecv, hk]
    obtain ⟨hanswered, hclean⟩ := hdone (if a.refused = true then failReturn else a.recv) k
    exact ⟨_, rfl, hanswered, fun _ => hclean, fun hlost => absurd hlost.2.2 hrecv,
      hmono hclean⟩

/-! ## The reports -/

/-- A report is sent exactly by an authenticated session. -/
theorem sends_report (hhandle : env.handle = true) (st : HttpState) :
    sends env reportParam st = st.isAuthed := by
  rw [sends, hhandle]
  cases st.isAuthed <;> rfl

/-- Without memory for the device info there is no report. -/
theorem authReports_none {a : HttpAttempt} (h : a.devinfoMalloc = false) (send : HttpCall)
    (st : HttpState) : authReports env send a st = some (failReturn, st) := by
  unfold authReports iotxReportDevinfo
  rw [if_pos h]
  rfl

/-- The report of the device info comes before that of the version. -/
theorem authReports_some {a : HttpAttempt} (h : a.devinfoMalloc = true) (send : HttpCall)
    (st : HttpState) :
    authReports env send a st = (send st.malloc).bind fun r =>
        iotxReportFirmwareVersion send env.firmwareVersion (r.2.free st.blocks) := by
  unfold authReports iotxReportDevinfo
  rw [h, if_neg Bool.noConfusion]
  cases send st.malloc with
  | none => rfl
  | some r => rfl

/-! ## Calls that have returned -/

section Returned

variable {call : HttpCall} {r : ℤ × HttpState}

/-- What a send can come to. -/
theorem sendMessage_cases (hsends : sends env msg st = true)
    (h : sendMessage env call msg st = some r) :
    ((env.attempt st.attempts).expired = false ∧
      Answered st st.isAuthed .null (env.attempt st.attempts).sendVerdict r ∧ Clean st r.2) ∨
    ((env.attempt st.attempts).expired = true ∧ ∃ r₀, call st.outdated = some r₀ ∧
      r = ((env.attempt st.attempts).recv, r₀.2.freeHeader)) := by
  cases hexpired : (env.attempt st.attempts).expired with
  | false =>
    obtain ⟨r', hr', hdone⟩ := sendMessage_other hsends hexpired call
    obtain rfl := Option.some.inj (h.symm.trans hr')
    exact .inl ⟨rfl, hdone⟩
  | true =>
    rw [sendMessage_expired hsends hexpired] at h
    obtain ⟨r₀, hauth, rfl⟩ := map_eq_some_iff.mp h
    exact .inr ⟨rfl, r₀, hauth, rfl⟩

/-- What an authentication can come to. -/
theorem deviceNameAuth_cases (hhandle : env.handle = true)
    (h : deviceNameAuth env call st = some r) :
    (env.attempt st.attempts).reqMalloc = true ∧
      ((env.attempt st.attempts).granted = none ∧ Ungranted st (env.attempt st.attempts) r ∨
      ∃ token r₀, (env.attempt st.attempts).granted = some token ∧
        authReports env call (env.attempt st.attempts) (st.authed token) = some r₀ ∧
        r = (r₀.1, (r₀.2.free st.blocks).free (st.blocks + 1))) := by
  cases hreq : (env.attempt st.attempts).reqMalloc with
  | false =>
    rw [deviceNameAuth_crash hhandle hreq] at h
    exact absurd h.symm (some_ne_none r)
  | true =>
    refine ⟨rfl, ?_⟩
    cases hgranted : (env.attempt st.attempts).granted with
    | none =>
      obtain ⟨r', hr', hdone⟩ := deviceNameAuth_other hhandle hreq hgranted call
      obtain rfl := Option.some.inj (h.symm.trans hr')
      exact .inl ⟨rfl, hdone⟩
    | some token =>
      rw [deviceNameAuth_granted hhandle hreq hgranted] at h
      obtain ⟨r₀, hreports, rfl⟩ := map_eq_some_iff.mp h
      exact .inr ⟨token, r₀, rfl, hreports, rfl⟩

/-- What the reports can come to. -/
theorem authReports_cases {a : HttpAttempt} (h : authReports env call a st = some r) :
    (a.devinfoMalloc = false ∧ r = (failReturn, st)) ∨
    (a.devinfoMalloc = true ∧ ∃ r₁, call st.malloc = some r₁ ∧
      (env.firmwareVersion = false ∧ r = (failReturn, r₁.2.free st.blocks) ∨
      env.firmwareVersion = true ∧ ∃ r₂, call (r₁.2.free st.blocks) = some r₂ ∧
        r = (if r₂.1 < 0 then r₂.1 else successReturn, r₂.2))) := by
  cases hdevinfo : a.devinfoMalloc with
  | false =>
    rw [authReports_none hdevinfo] at h
    exact .inl ⟨rfl, (Option.some.inj h).symm⟩
  | true =>
    rw [authReports_some hdevinfo] at h
    obtain ⟨r₁, hfirst, hsecond⟩ := bind_eq_some_iff.mp h
    refine .inr ⟨rfl, r₁, hfirst, ?_⟩
    unfold iotxReportFirmwareVersion at hsecond
    split_ifs at hsecond with hversion
    · exact .inl ⟨hversion, (Option.some.inj hsecond).symm⟩
    · obtain ⟨r₂, hsent, rfl⟩ := map_eq_some_iff.mp hsecond
      exact .inr ⟨not_eq_false _ ▸ hversion, r₂, hsent, rfl⟩

end Returned

end Iotkit.HttpApi
