/-
# The receive parser of AT commands (`at_parser.c`)

The worker reads the stream of the modem byte by byte.  The callbacks see each byte first: one
whose prefix ends the line buffer is called at once, or, when it has a postfix, collects the bytes
from its prefix on until the postfix comes.  The byte then goes to the reply of the first task.

Several callbacks may have the same buffer.  The bytes that a callback reads itself, with
`at_read`, are not of the stream of the worker.
-/
import Iotkit.FlatMemory
import Iotkit.GuardedRun
import Iotkit.LibC

namespace Iotkit.At

open FlatMemory GuardedRun

/-! ## The parser -/

def recvBufferSize : ℕ := 512

def oobMax : ℕ := 5

/-- An `oob_t`; `oobinputdata` is the address of the buffer of its caller, 0 when that is
null. -/
structure Oob where
  oobPrefix : Bytes
  oobPostfix : Option Bytes
  oobinputdata : ℕ
  reallen : ℕ
  maxlen : ℕ
  deriving DecidableEq

/-- The call of a callback, which is told by its prefix, with the data that it is given. -/
structure OobCall where
  oobPrefix : Bytes
  oobPostfix : Option Bytes
  data : Option Bytes
  deriving DecidableEq

/-- Bytes are written to the buffer of a callback, which has room for `maxlen`, up to the
index `upto`. -/
structure OobWrite where
  maxlen : ℕ
  upto : ℕ
  deriving DecidableEq

/-- An `atcmd_config_t`. -/
structure AtcmdConfig where
  replyPrefix : Option Bytes
  replySuccessPostfix : Option Bytes
  replyFailPostfix : Option Bytes
  deriving DecidableEq

/-- An `at_task_t`: the `rspOffset` first bytes of its reply are `rsp`, and `smpr` counts the
posts of its semaphore. -/
structure AtTask where
  config : AtcmdConfig
  rsp : Bytes
  rspOffset : ℕ
  rspLen : ℕ
  smpr : ℕ
  deriving DecidableEq

/-- The delimiters of a reply. -/
structure RspDelims where
  rspPrefix : Bytes
  rspSuccessPostfix : Bytes
  rspFailPostfix : Bytes
  deriving DecidableEq

/-- The parser and the variables of its worker.  `line` is the first `offset` bytes of
`at_rx_buf`, and `delims` what the worker has last taken from a task.  The last three are not in
the program: the bytes that the worker has read, the calls and the writes that were made. -/
structure AtParser where
  oobs : List Oob
  tasks : List AtTask
  mem : Memory
  line : Bytes
  rspBegin : Bool
  delims : RspDelims
  received : Bytes
  calls : List OobCall
  writes : List OobWrite

/-- `at_parser_init`, with the worker before its loop. -/
def atParserInit (mem : Memory) : AtParser :=
  ⟨[], [], mem, [], false, ⟨[], [], []⟩, [], [], []⟩

/-- The comparison of the end of a buffer with a string. -/
def endsWith (data s : Bytes) : Bool :=
  s.length ≤ data.length ∧ data.drop (data.length - s.length) = s

variable (s : AtParser)

/-- Bytes are written to the buffer of a callback from the index `i` on. -/
def AtParser.write (oob : Oob) (i : ℕ) (bytes : Bytes) : AtParser :=
  { s with
    mem := store s.mem (oob.oobinputdata + i) bytes
    writes := s.writes ++ [⟨oob.maxlen, i + bytes.length⟩] }

def Oob.data (mem : Memory) (oob : Oob) : Bytes := load mem oob.oobinputdata oob.reallen

/-! ## Registration -/

/-- The arguments of `at_register_callback`; a null buffer has the address 0. -/
structure OobArgs where
  oobPrefix : Option Bytes
  oobPostfix : Option Bytes
  recvbuf : ℕ
  bufsize : ℤ
  deriving DecidableEq

def atRegisterCallback (a : OobArgs) : ℤ × AtParser :=
  match a.oobPrefix with
  | none => (-1, s)
  | some oobPrefix =>
    if a.bufsize < 0 ∨ recvBufferSize ≤ a.bufsize then (-1, s)
    else if a.oobPostfix ≠ none ∧ (a.recvbuf = 0 ∨ a.bufsize = 0) then (-1, s)
    else if oobMax ≤ s.oobs.length then (-1, s)
    else if ∃ oob ∈ s.oobs, oob.oobPrefix = oobPrefix then (-1, s)
    else
      let oob : Oob := ⟨oobPrefix, a.oobPostfix, a.recvbuf, 0, a.bufsize.toNat⟩
      let s := if a.recvbuf = 0 then s else s.write oob 0 (List.replicate oob.maxlen 0)
      (0, { s with oobs := s.oobs ++ [oob] })

/-! ## The scan for callbacks -/

/-- A callback that has collected nothing clears its buffer and copies its prefix, without the
last byte, which is the one that has just come. -/
def oobStart (oob : Oob) : AtParser × Oob :=
  if oob.reallen = 0 then
    let len := oob.oobPrefix.length - 1
    ((s.write oob 0 (List.replicate oob.maxlen 0)).write oob 0 (oob.oobPrefix.take len),
      { oob with reallen := len })
  else (s, oob)

variable (c : UInt8)

/-- A callback that has started takes the byte: it is called when this ends the postfix, and it
drops what it has collected when its buffer is full. -/
def oobTake (oobPostfix : Bytes) (s : AtParser) (oob : Oob) : AtParser × Oob :=
  if oob.reallen < oob.maxlen then
    let s := s.write oob oob.reallen [c]
    let oob := { oob with reallen := oob.reallen + 1 }
    if oob.oobPrefix.length + oobPostfix.length ≤ oob.reallen ∧
        endsWith (oob.data s.mem) oobPostfix then
      ({ s.write oob 0 (List.replicate oob.reallen 0) with
          calls := s.calls ++ [⟨oob.oobPrefix, oob.oobPostfix, some (oob.data s.mem)⟩]
          line := [] },
        { oob with reallen := 0 })
    else (s, oob)
  else
    ({ s.write oob 0 (List.replicate oob.reallen 0) with line := [] }, { oob with reallen := 0 })

/-- The line buffer is emptied when it is full. -/
def emptyFull : AtParser :=
  if recvBufferSize - 2 < s.line.length then { s with line := [] } else s

/-- The pass of the loop of `at_scan_for_callback` over the callback `k`. -/
def scanPass (s : AtParser) (k : ℕ) : AtParser :=
  match s.oobs[k]? with
  | none => s
  | some oob =>
    if 0 < oob.reallen ∨ endsWith s.line oob.oobPrefix then
      match oob.oobPostfix with
      | none => { s with calls := s.calls ++ [⟨oob.oobPrefix, none, none⟩], line := [] }
      | some oobPostfix =>
        let start := oobStart s oob
        let taken := oobTake c oobPostfix start.1 start.2
        emptyFull { taken.1 with oobs := taken.1.oobs.set k taken.2 }
    else s

def atScanForCallback (s : AtParser) : AtParser :=
  (List.range s.oobs.length).foldl (scanPass c) s

/-! ## The worker -/

/-- `AT_RECV_PREFIX`, `AT_RECV_SUCCESS_POSTFIX` and `AT_RECV_FAIL_POSTFIX`. -/
def defaultDelims : RspDelims :=
  ⟨[0x0d, 0x0a], [0x4f, 0x4b, 0x0d, 0x0a], [0x45, 0x52, 0x52, 0x4f, 0x52, 0x0d, 0x0a]⟩

def delimiter (own : Option Bytes) (default : Bytes) : Bytes :=
  match own with
  | none => default
  | some delim => if delim.length = 0 then default else delim

def AtTask.delims (tsk : AtTask) : RspDelims :=
  ⟨delimiter tsk.config.replyPrefix defaultDelims.rspPrefix,
    delimiter tsk.config.replySuccessPostfix defaultDelims.rspSuccessPostfix,
    delimiter tsk.config.replyFailPostfix defaultDelims.rspFailPostfix⟩

/-- A reply that has begun takes the byte; whether its semaphore is posted. -/
def AtTask.take (tsk : AtTask) : AtTask × Bool :=
  if tsk.rspOffset < tsk.rspLen then
    let tsk := { tsk with rsp := tsk.rsp ++ [c], rspOffset := tsk.rspOffset + 1 }
    if endsWith tsk.rsp tsk.delims.rspSuccessPostfix ∨
        endsWith tsk.rsp tsk.delims.rspFailPostfix then
      ({ tsk with smpr := tsk.smpr + 1 }, true)
    else (tsk, false)
  else ({ tsk with rsp := tsk.delims.rspFailPostfix, smpr := tsk.smpr + 1 }, true)

/-- The part of `at_worker` for the first task. -/
def atWorkerTask (s : AtParser) : AtParser :=
  match s.tasks with
  | [] => s
  | tsk :: tasks =>
    if s.rspBegin || endsWith s.line tsk.delims.rspPrefix then
      let taken := tsk.take c
      { s with
        tasks := taken.1 :: tasks
        delims := tsk.delims
        rspBegin := !taken.2
        line := if taken.2 then [] else s.line }
    else { s with delims := tsk.delims }

def RspDelims.memcpySize (d : RspDelims) : ℕ :=
  max (max d.rspPrefix.length d.rspSuccessPostfix.length) d.rspFailPostfix.length

/-- The part of `at_worker` after `check_buffer`.  A `memcpy_size` above the offset reads what
lies below the buffer; zeros stand for it. -/
def checkBuffer : AtParser :=
  if recvBufferSize - 2 < s.line.length then
    { s with
      line := List.replicate (s.delims.memcpySize - s.line.length) 0 ++
        s.line.drop (s.line.length - s.delims.memcpySize) }
  else s

/-- The pass of the loop of `at_worker` over the byte `c`. -/
def atWorkerPass : AtParser :=
  let s := { s with received := s.received ++ [c] }
  if recvBufferSize ≤ s.line.length + 1 then checkBuffer s
  else checkBuffer (atWorkerTask c (atScanForCallback c { s with line := s.line ++ [c] }))

/-- What happens to the parser: a callback is registered, `at_send_wait_reply` adds a task or
deletes it, or a byte comes. -/
inductive AtEvent where
  | registerCallback (a : OobArgs)
  | taskAdd (config : AtcmdConfig) (rspLen : ℕ)
  | taskDel (i : ℕ)
  | byte (c : UInt8)
  deriving DecidableEq

def atParserStep : AtEvent → AtParser
  | .registerCallback a => (atRegisterCallback s a).2
  | .taskAdd config rspLen => { s with tasks := s.tasks ++ [⟨config, [], 0, rspLen, 0⟩] }
  | .taskDel i => { s with tasks := s.tasks.eraseIdx i }
  | .byte c => atWorkerPass s c

/-! ## The receive function of a single task -/

/-- The arguments of `at_yield`; `replybuf` is whether there is one. -/
structure YieldArgs where
  replybuf : Bool
  bufsize : ℤ
  config : Option AtcmdConfig
  deriving DecidableEq

/-- The delimiters of `at_yield`, which takes an empty one as it is. -/
def YieldArgs.delims (a : YieldArgs) : RspDelims :=
  ⟨(a.config.bind (·.replyPrefix)).getD defaultDelims.rspPrefix,
    (a.config.bind (·.replySuccessPostfix)).getD defaultDelims.rspSuccessPostfix,
    (a.config.bind (·.replyFailPostfix)).getD defaultDelims.rspFailPostfix⟩

/-- The parser with the variables of the last call of `at_yield`, and what it has returned. -/
structure AtYield where
  parser : AtParser
  args : YieldArgs
  replyBegin : Bool
  reply : Bytes
  ret : Option ℤ

def atYieldInit (mem : Memory) : AtYield :=
  ⟨atParserInit mem, ⟨false, 0, none⟩, false, [], some 0⟩

def yieldCall (y : AtYield) (a : YieldArgs) : AtYield :=
  if a.replybuf = true ∧ a.bufsize ≤ 0 then { y with ret := some (-1) }
  else ⟨{ y.parser with line := [] }, a, false, [], none⟩

def yieldReply (y : AtYield) : AtYield :=
  if y.args.replybuf = false ∨ y.args.bufsize ≤ 0 then y
  else if y.replyBegin || endsWith y.parser.line y.args.delims.rspPrefix then
    if y.reply.length < y.args.bufsize then
      { y with
        replyBegin := true
        reply := y.reply ++ [c]
        ret := if endsWith (y.reply ++ [c]) y.args.delims.rspSuccessPostfix ∨
            endsWith (y.reply ++ [c]) y.args.delims.rspFailPostfix then some 0 else none }
    else { y with replyBegin := true, reply := y.args.delims.rspFailPostfix, ret := some (-1) }
  else y

/-- The pass of the loop of `at_yield` over the byte `c`. -/
def yieldPass (y : AtYield) (c : UInt8) : AtYield :=
  let s := { y.parser with received := y.parser.received ++ [c] }
  if recvBufferSize ≤ s.line.length + 1 then { y with parser := s, ret := some (-1) }
  else yieldReply c { y with parser := atScanForCallback c { s with line := s.line ++ [c] } }

/-- What happens to the parser of a single task: a callback is registered, `at_yield` is called,
and while it runs a byte comes or none does in time. -/
inductive YieldEvent where
  | registerCallback (a : OobArgs)
  | call (a : YieldArgs)
  | byte (c : UInt8)
  | timeout
  deriving DecidableEq

def atYieldStep (y : AtYield) : YieldEvent → AtYield
  | .registerCallback a => { y with parser := (atRegisterCallback y.parser a).2 }
  | .call a => if y.ret = none then y else yieldCall y a
  | .byte c => if y.ret = none then yieldPass y c else y
  | .timeout => if y.ret = none then { y with ret := some (-1) } else y

end Iotkit.At
