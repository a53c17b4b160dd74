/-
# Secured requests

`alcs_sendmsg_secure` and `secure_sendmsg_handler` of `alcs_api.c`, over the CoAP server: a
request is sent with a record of its handler, and the handler of the record is called when the
send list or the observed resources call `secure_sendmsg_handler`.
-/
import Iotkit.AlcsSession
import Iotkit.CoapServer

namespace Iotkit.Alcs

open Coap

abbrev coapOptionContentFormat : UInt16 := 12
abbrev coapCtAppOctetStream : UInt32 := 42
abbrev alcsErrAuthUnauth : ℤ := 2 ^ 8 + (100 ||| 3 : ℕ)
def coapMsgMaxOptionNum : ℕ := 12

variable (crypto : Crypto) {A C : Type}

/-! ## Records and handlers -/

/-- The handlers of the send list: `secure_sendmsg_handler` and all others. -/
inductive SendHandler (A : Type)
  | other (handler : A)
  | secureSendmsgHandler

def SendHandler.isSecure : SendHandler A → Bool
  | .other _ => false
  | .secureSendmsgHandler => true

structure SecureSendItem (A : Type) where
  origUserData : Option ℕ
  pkDn : Bytes
  origHandler : A

/-- What becomes of the record at the address `item`: its handler is called, with the payload
of the response or `NULL`; it is freed; or the handler goes to a message that is `NULL`. -/
inductive SecureEffect (A : Type)
  | call (item : ℕ) (handler : A) (result : CoapReqResult) (user : Option ℕ)
      (remote : NetworkAddr) (payload : Option Bytes)
  | free (item : ℕ)
  | nullMessage (item : ℕ)
deriving DecidableEq

/-- A CoAP context with its sessions and the records that were allocated. -/
structure AlcsClient (A C : Type) where
  ctx : CoapIntContext (SendHandler A) ℕ C
  ctlSessions : List SessionItem
  svrSessions : List SessionItem
  items : List (SecureSendItem A)
  log : List (SecureEffect A)

variable (client : AlcsClient A C)

def AlcsClient.emit (effect : SecureEffect A) : AlcsClient A C :=
  { client with log := client.log ++ [effect] }

/-! ## Sending -/

/-- `CoAPUintOption_add`; the numbers of the options are differences, and `optdelta` is the low
byte of their sum. -/
def coapUintOptionAdd (optnum : UInt16) (data : UInt32) (message : CoapMessage Memory) :
    CoapMessage Memory :=
  let byte (shift : ℕ) : UInt8 := UInt8.ofNat (data.toNat / 2 ^ shift)
  let val : Bytes :=
    if data = 0 then [] else if data ≤ 255 then [byte 0]
    else if data ≤ 65535 then [byte 8, byte 0] else [byte 24, byte 16, byte 8, byte 0]
  if coapMsgMaxOptionNum ≤ message.options.length then message
  else { message with
    options := message.options ++
      [⟨optnum - (message.options.map CoapMsgOption.num).sum.toUInt8.toUInt16,
        UInt16.ofNat val.length, fun i => val.getD i 0⟩] }

def authedSession (session : Option SessionItem) : Option SessionItem :=
  session.filter fun session => session.sessionId ≠ 0

def getAuthSession (devKey : AlcsDeviceKey) : Option SessionItem :=
  (authedSession (getSession crypto client.ctlSessions devKey)).or
    (authedSession (getSession crypto client.svrSessions devKey))

/-- The message `internal_secure_send` sends for a record, with the options and the encrypted
payload. -/
def secureMessage (session : SessionItem) (observe : ℕ) (item : ℕ)
    (message : CoapSendMessage A ℕ) : CoapSendMessage (SendHandler A) ℕ :=
  let src := payloadBytes message.toCoapMessage
  let optioned := coapUintOptionAdd coapOptionSessionid session.sessionId
    (coapUintOptionAdd coapOptionContentFormat coapCtAppOctetStream
      (if observe = 0 then coapUintOptionAdd coapOptionObserve 0 message.toCoapMessage
        else message.toCoapMessage))
  let payload := crypto.encrypt session.sessionKey src
  { toCoapMessage := { optioned with
      payloadlen := UInt16.ofNat payload.length
      payload := some fun i => payload.getD i 0 }
    handler := some .secureSendmsgHandler
    user := some item
    keep := message.keep }

/-- `alcs_sendmsg_secure` with a handler; the record can be allocated. -/
def alcsSendmsgSecure (env : CoapEnv) (client : AlcsClient A C) (devKey : AlcsDeviceKey)
    (message : CoapSendMessage A ℕ) (observe : ℕ) (handler : A) : ℤ × AlcsClient A C :=
  match getAuthSession crypto client devKey with
  | none => (alcsErrAuthUnauth, client)
  | some session =>
    let item := client.items.length
    let sent := coapMessageSend env client.ctx devKey.addr
      (secureMessage crypto session observe item message)
    (sent.1, { client with
      ctx := sent.2
      items := client.items ++ [⟨message.user, session.pkDn, handler⟩] })

/-! ## The handler -/

def getAuthSessionByChecksum (addr : NetworkAddr) (ck : Bytes) :
    Option SessionItem :=
  (authedSession (getSessionByChecksum client.ctlSessions addr ck)).or
    (authedSession (getSessionByChecksum client.svrSessions addr ck))

/-- The session that is found is given a new time. -/
def AlcsClient.touch (addr : NetworkAddr) (ck : Bytes) (uptime : UInt64) : AlcsClient A C :=
  let touched (sessions : List SessionItem) := updateFirst (SessionItem.isFor addr ck)
    (fun session => { session with heartTime := uptimeInt uptime }) sessions
  if (authedSession (getSessionByChecksum client.ctlSessions addr ck)).isSome then
    { client with ctlSessions := touched client.ctlSessions }
  else { client with svrSessions := touched client.svrSessions }

/-- The end of `secure_sendmsg_handler`: the record is freed if the message has no option
`Observe`. -/
def AlcsClient.release (item : ℕ) (message : Option (CoapMessage Memory)) : AlcsClient A C :=
  match message with
  | none => client.emit (.nullMessage item)
  | some message =>
    if coapOptionPresent message.options coapOptionObserve then client
    else client.emit (.free item)

/-- `secure_sendmsg_handler`; `malloc` says whether the buffer for a long payload can be
allocated.  After it has gone to a message that is `NULL`, nothing is known. -/
def secureSendmsgHandler (malloc : Bool) (uptime : UInt64) (client : AlcsClient A C)
    (result : CoapReqResult) (item : ℕ) (remote : NetworkAddr)
    (message : Option (CoapMessage Memory)) : AlcsClient A C :=
  match client.items[item]? with
  | none => client
  | some sendItem =>
    if result = .recvRespTimeout then
      (client.emit (.call item sendItem.origHandler .recvRespTimeout sendItem.origUserData remote
        none)).release item message
    else
      match message with
      | none => client.emit (.nullMessage item)
      | some message =>
        match getAuthSessionByChecksum client remote sendItem.pkDn with
        | none => client.release item (some message)
        | some session =>
          if session.sessionId ≠ requestSessionId message then
            client.release item (some message)
          else
            let client := client.touch remote sendItem.pkDn uptime
            let client :=
              if message.payloadlen < 128 ∨ malloc then
                client.emit (.call item sendItem.origHandler .requestSuccess
                  sendItem.origUserData remote
                  (some (crypto.decrypt session.sessionKey (payloadBytes message))))
              else client
            client.release item (some message)

/-- The arguments of a call of the handler. -/
structure HandlerCall where
  result : CoapReqResult
  item : ℕ
  remote : NetworkAddr
  message : Option (CoapMessage Memory)

/-- The call of the handler that an effect of the CoAP server is. -/
def secureCall : CoapEffect (SendHandler A) ℕ C → Option HandlerCall
  | .handler _ .secureSendmsgHandler result (some item) remote message =>
    some ⟨result, item, remote, message⟩
  | .observed .secureSendmsgHandler (some item) remote message =>
    some ⟨.requestSuccess, item, remote, some message⟩
  | _ => none

/-! ## Runs -/

/-- The operations: a request is secured, the CoAP server does something, or sessions come and
go. -/
inductive AlcsOp (A : Type)
  | secureSend (env : CoapEnv) (devKey : AlcsDeviceKey) (message : CoapSendMessage A ℕ)
      (observe : ℕ) (handler : A)
  | server (op : ServerOp A ℕ) (malloc : Bool) (uptime : UInt64)
  | sessions (ctlSessions svrSessions : List SessionItem)

/-- An operation of the CoAP server for handlers that are not `secure_sendmsg_handler`. -/
def otherOp : ServerOp A ℕ → ServerOp (SendHandler A) ℕ
  | .send env remote message =>
    .send env remote { message with handler := message.handler.map SendHandler.other }
  | .cancel msgid => .cancel msgid
  | .receive env remote buf datalen => .receive env remote buf datalen
  | .retansmit tick => .retansmit tick
  | .checkTimeout tick => .checkTimeout tick
  | .obsAdd malloc observe overrun path remote request =>
    .obsAdd malloc observe overrun path remote request
  | .obsDelete remote resource => .obsDelete remote resource
  | .obsAllDelete remote => .obsAllDelete remote

/-- One operation of the CoAP server, and the calls of the handler it makes. -/
def alcsServerStep (malloc : Bool) (uptime : UInt64) (client : AlcsClient A C)
    (op : ServerOp A ℕ) : AlcsClient A C :=
  let ctx := serverStep crypto.md5 client.ctx (otherOp op)
  let calls := (ctx.trace.drop client.ctx.trace.length).filterMap secureCall
  calls.foldl (fun client call => secureSendmsgHandler crypto malloc uptime client call.result
    call.item call.remote call.message) { client with ctx := ctx }

def alcsStep : AlcsOp A → AlcsClient A C
  | .secureSend env devKey message observe handler =>
    (alcsSendmsgSecure crypto env client devKey message observe handler).2
  | .server op malloc uptime => alcsServerStep crypto malloc uptime client op
  | .sessions ctlSessions svrSessions =>
    { client with ctlSessions := ctlSessions, svrSessions := svrSessions }

def alcsRun (ops : List (AlcsOp A)) : AlcsClient A C :=
  ops.foldl (alcsStep crypto) client

/-- A client that has not sent anything. -/
def alcsClientInit (sendMax obsMax : UInt8) (resource : CoapList (CoapResource C)) :
    AlcsClient A C where
  ctx := coapContextCreate sendMax obsMax resource
  ctlSessions := []
  svrSessions := []
  items := []
  log := []

end Iotkit.Alcs
