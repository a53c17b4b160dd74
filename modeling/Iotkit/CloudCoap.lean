/-
# The CoAP client of the cloud connection

`client/CoAPMessage.c` with the data of `Cloud_CoAPExport.h`: the messages that are sent to
the cloud, the list of those that wait for an answer, and what a received datagram and a
call of `Cloud_CoAPMessage_cycle` do to it.

`R` and `U` are the types of the response handlers and of the user data passed to them.
What is written and which handlers are called is kept in `trace`; `sends` numbers the
messages that were written, and a node of the list carries the number of its message.
-/
import Iotkit.CoapContext

namespace Iotkit.Coap.Cloud

/-! ## Data -/

def coapMaxRetryCount : UInt8 := 4
def coapAckTimeout : UInt16 := 2
def coapAckRandomFactor : UInt16 := 1
def coapMaxTransmissionSpan : UInt16 := 10

/-- The fields of `Cloud_CoAPMessage` that are passed to the list, with the message. -/
structure CloudMessage (R U : Type) extends CoapMessage Memory where
  user : Option U
  resp : Option R

/-- `Cloud_CoAPSendNode`; `send` is the number of its message, and `tokenlen` is the length
of `token`. -/
structure CloudSendNode (R U : Type) where
  send : ℕ
  user : Option U
  msgid : UInt16
  acked : Bool
  token : Bytes
  retransCount : UInt8
  timeout : UInt16
  timeoutVal : UInt16
  message : Option Bytes
  resp : Option R

/-- What the client does to its surroundings: it writes the message number `send`, or calls
the response handler of its node. -/
inductive CloudEffect (R U : Type)
  | write (send : ℕ) (bytes : Option Bytes)
  | resp (send : ℕ) (resp : R) (user : Option U) (message : CoapMessage Memory)

/-- `Cloud_CoAPContext`. -/
structure CloudContext (R U : Type) where
  list : CoapList (CloudSendNode R U)
  sends : ℕ
  trace : List (CloudEffect R U)

/-- What a call finds around it: whether the network takes the message, and whether the node
and the copy of the message can be allocated. -/
structure CloudEnv where
  written : Bool
  node : Bool
  message : Bool

variable {R U : Type}

variable (ctx : CloudContext R U)

def CloudContext.emit (effect : CloudEffect R U) : CloudContext R U :=
  { ctx with trace := ctx.trace ++ [effect] }

/-! ## Sending -/

/-- The addresses of `count` and `maxcount` within `Cloud_CoAPSendList`. -/
def countOffset : ℕ := 0
def maxcountOffset : ℕ := 1

variable (env : CloudEnv)

/-- The node `Cloud_CoAPMessageList_add` makes. -/
def cloudSendNode (send : ℕ) (message : CloudMessage R U) (sendbuf : Bytes) :
    CloudSendNode R U where
  send := send
  user := message.user
  msgid := message.header.msgid
  acked := false
  token := message.tokenBytes
  retransCount := if message.header.type = coapMessageTypeCon then 0 else coapMaxRetryCount
  timeout :=
    if message.header.type = coapMessageTypeCon then coapAckTimeout * coapAckRandomFactor
    else coapMaxTransmissionSpan
  timeoutVal := coapAckTimeout * coapAckRandomFactor
  message := if env.message then some sendbuf else none
  resp := message.resp

/-- `Cloud_CoAPMessageList_add`, which compares the addresses of `count` and `maxcount`. -/
def cloudMessageListAdd (ctx : CloudContext R U) (send : ℕ) (message : CloudMessage R U)
    (sendbuf : Bytes) : ℤ × CloudContext R U :=
  if ¬ env.node then (-1, ctx)
  else if countOffset ≥ maxcountOffset then (-1, ctx)
  else (0, { ctx with list := ctx.list.addTail (cloudSendNode env send message sendbuf) })

/-- `Cloud_CoAPNetwork_write` of a message that is sent for the first time. -/
def CloudContext.writeNew (bytes : Bytes) : CloudContext R U :=
  { ctx with sends := ctx.sends + 1, trace := ctx.trace ++ [.write ctx.sends (some bytes)] }

/-- `Cloud_CoAPMessage_send`. -/
def cloudMessageSend (ctx : CloudContext R U) (message : CloudMessage R U) :
    ℤ × CloudContext R U :=
  if coapMsgMaxPduLen < (coapSerializeMessageLength message.toCoapMessage).toNat then
    (coapErrorDataSize, ctx)
  else
    let bytes := coapSerializedBytes message.toCoapMessage (UInt16.ofNat coapMsgMaxPduLen)
    let send := ctx.sends
    let ctx := ctx.writeNew bytes
    if env.written then
      if coapReqMsg message.header ∨ coapConRespMsg message.header then
        (coapSuccess, (cloudMessageListAdd env ctx send message bytes).2)
      else (coapSuccess, ctx)
    else (coapErrorWriteFailed, ctx)

/-- `CoAPMessage_init`. -/
def cloudMessageInit : CloudMessage R U where
  header := ⟨1, coapMessageTypeAck, 0, coapMsgCodeEmptyMessage, 0⟩
  token := fun _ => 0
  options := []
  payloadlen := 0
  payload := none
  user := none
  resp := none

/-- `Cloud_CoAPAckMessage_send`. -/
def cloudAckMessageSend (ctx : CloudContext R U) (msgid : UInt16) :
    ℤ × CloudContext R U :=
  let message : CloudMessage R U := cloudMessageInit
  cloudMessageSend env ctx { message with header := { message.header with msgid := msgid } }

/-! ## Receiving -/

/-- `Cloud_CoAPAckMessage_handle`. -/
def cloudAckMessageHandle (message : CoapMessage Memory) :
    CloudContext R U :=
  { ctx with
    list := ctx.list.updateFirst (fun node => node.msgid = message.header.msgid)
      fun node => { node with acked := true } }

variable (node : CloudSendNode R U)

/-- The test by token in `Cloud_CoAPRespMessage_handle`. -/
def CloudSendNode.hasToken (message : CoapMessage Memory) (node : CloudSendNode R U) : Bool :=
  0 ≠ node.token.length ∧ node.token.length = message.header.tokenlen.val ∧
    node.token = message.tokenBytes

variable (calls : List (CloudEnv × CloudMessage R U))

/-- The messages that a response handler sends before it returns. -/
def handlerSends :
    CloudContext R U :=
  calls.foldl (fun ctx call => (cloudMessageSend call.1 ctx call.2).2) ctx

/-- The acknowledgement of a confirmable response in `Cloud_CoAPRespMessage_handle`. -/
def cloudRespMessageAck (ctx : CloudContext R U) (message : CoapMessage Memory) :
    CloudContext R U :=
  if message.header.type = coapMessageTypeCon then
    (cloudAckMessageSend env ctx message.header.msgid).2
  else ctx

/-- `Cloud_CoAPRespMessage_handle`; the node stays in the list until its handler, which may
send further messages, has returned. -/
def cloudRespMessageHandle (ctx : CloudContext R U) (message : CoapMessage Memory) :
    CloudContext R U :=
  let ctx := cloudRespMessageAck env ctx message
  match ctx.list.list.find? (CloudSendNode.hasToken message) with
  | none => ctx
  | some node =>
    let ctx :=
      match node.resp with
      | none => ctx
      | some resp => handlerSends (ctx.emit (.resp node.send resp node.user message)) calls
    { ctx with list := ctx.list.delFirst (CloudSendNode.hasToken message) }

/-- `Cloud_CoAPMessage_handle` after the datagram was read: the message is dispatched,
whether it was read with success or not. -/
def cloudMessageDispatch (ctx : CloudContext R U) (message : CoapMessage Memory) :
    CloudContext R U :=
  if coapAckMsg message.header then cloudAckMessageHandle ctx message
  else if coapRespMsg message.header then cloudRespMessageHandle env calls ctx message
  else ctx

/-- `Cloud_CoAPMessage_handle` of the datagram of `datalen` bytes at `buf`. -/
def cloudMessageHandle (ctx : CloudContext R U) (buf : Memory) (datalen : UInt16) :
    CloudContext R U :=
  cloudMessageDispatch env calls ctx (received buf datalen)

/-! ## The cycle -/

/-- The node is written again in this cycle. -/
def CloudSendNode.due : Bool :=
  node.timeout = 0 ∧ node.retransCount < coapMaxRetryCount ∧ ¬ node.acked

/-- The node after it was written again. -/
def CloudSendNode.retransmitted : CloudSendNode R U :=
  { node with
    timeout := node.timeoutVal * 2
    timeoutVal := node.timeoutVal * 2
    retransCount := node.retransCount + 1 }

/-- What one pass over the list leaves of a node, which may be nothing. -/
def CloudSendNode.cycle : Option (CloudSendNode R U) :=
  if node.timeout = 0 then
    let node := if node.due then node.retransmitted else node
    if node.timeout > coapMaxTransmissionSpan ∨ node.retransCount ≥ coapMaxRetryCount then none
    else some node
  else some { node with timeout := node.timeout - 1 }

/-- `Cloud_CoAPMessage_cycle`, after the datagrams that have arrived were handled. -/
def cloudMessageCycle : CloudContext R U :=
  { ctx with
    list := { ctx.list with
      list := ctx.list.list.filterMap CloudSendNode.cycle
      count := ctx.list.count - UInt8.ofNat (ctx.list.list.countP fun node => node.cycle.isNone) }
    trace := ctx.trace ++ (ctx.list.list.filter CloudSendNode.due).map
      fun node => .write node.send node.message }

/-! ## Runs -/

/-- The operations of the client, with what each of them finds around it.  A call of
`Cloud_CoAPMessage_cycle` receives any number of datagrams and ends with `cycle`. -/
inductive CloudOp (R U : Type)
  | send (env : CloudEnv) (message : CloudMessage R U)
  | receive (env : CloudEnv) (calls : List (CloudEnv × CloudMessage R U)) (buf : Memory)
      (datalen : UInt16)
  | cycle

def cloudStep : CloudOp R U → CloudContext R U
  | .send env message => (cloudMessageSend env ctx message).2
  | .receive env calls buf datalen => cloudMessageHandle env calls ctx buf datalen
  | .cycle => cloudMessageCycle ctx

def cloudRun (ops : List (CloudOp R U)) : CloudContext R U :=
  ops.foldl cloudStep ctx

/-- A context as `Cloud_CoAPContext_create` leaves it. -/
def cloudContextCreate (maxcount : UInt8) : CloudContext R U := ⟨CoapList.init _ maxcount, 0, []⟩

end Iotkit.Coap.Cloud
