/-
# The CoAP server

`CoAPObserve.c` and `CoAPMessage.c` of the server: sending, acknowledging, answering,
retransmitting and timing out messages, and the observers of resources.

A handler that is called may itself call into the server.  It does so after the node it
belongs to has left the send list and before anything else happens, so that its calls are
further steps of the run.
-/
import Iotkit.CoapContext

namespace Iotkit.Coap

variable {H U C : Type}

/-! ## Observers (`CoAPObserve.c`) -/

/-- The test for an observer in `CoAPObsServer_add` and `CoapObsServer_delete`. -/
def CoapObserver.isFor (resource : ℕ) (remote : NetworkAddr) (node : CoapObserver) : Bool :=
  node.resource = resource ∧ node.remote.port = remote.port ∧ node.remote.addr = remote.addr

/-- The test for an observer in `CoapObsServerAll_delete`. -/
def CoapObserver.isOf (remote : NetworkAddr) (node : CoapObserver) : Bool :=
  node.remote.port = remote.port ∧ node.remote.addr = remote.addr

/-- The token of a request is copied into an observer.  A token that is longer than the array
runs over the fields behind it; `overrun` is what that makes of the observer. -/
def CoapObserver.copyToken (overrun : CoapObserver → CoapObserver)
    (request : CoapMessage Memory) (node : CoapObserver) : CoapObserver :=
  { (if request.header.tokenlen.val ≤ coapMsgMaxTokenLen then node else overrun node) with
    token := request.tokenBytes }

variable (md5 : Bytes → Vector UInt8 16) (ctx : CoapIntContext H U C)

/-- `CoAPObsServer_add`; `observe` is what the uninitialised local holds. -/
def coapObsServerAdd (malloc : Bool) (observe : UInt32) (overrun : CoapObserver → CoapObserver)
    (ctx : CoapIntContext H U C) (path : Bytes) (remote : NetworkAddr)
    (request : CoapMessage Memory) : ℤ × CoapIntContext H U C :=
  match coapResourceByPathGet md5 ctx path,
      coapUintOptionGet request.options coapOptionObserve observe with
  | some resource, some 0 =>
    if ctx.obsserver.list.any (CoapObserver.isFor resource.ptr remote) then
      (coapErrorObjAlreadyExist, { ctx with
        obsserver := ctx.obsserver.updateFirst (CoapObserver.isFor resource.ptr remote)
          (CoapObserver.copyToken overrun request) })
    else if ¬ malloc then (coapErrorMalloc, ctx)
    else
      let acceptype := (coapUintOptionGet request.options coapOptionAccept 0).getD 0
      let ctype := if acceptype = 0 then coapCtAppJson else acceptype
      let obs := CoapObserver.copyToken overrun request
        ⟨remote, [], 0, resource.ptr, 0, request.header.type⟩
      if ctx.obsserver.count ≥ ctx.obsserver.maxcount then (coapErrorDataSize, ctx)
      else
        (coapSuccess, { ctx with
          obsserver := ctx.obsserver.addTail
            { obs with ctype := UInt8.ofNat ctype.toNat, observerSequenceNum := 0 } })
  | _, _ => (coapErrorNotFound, ctx)

def coapObsServerDelete (remote : NetworkAddr) (resource : ℕ) :
    CoapIntContext H U C :=
  { ctx with obsserver := ctx.obsserver.delFirst (CoapObserver.isFor resource remote) }

def coapObsServerAllDelete (remote : NetworkAddr) :
    CoapIntContext H U C :=
  { ctx with obsserver := ctx.obsserver.delAll (CoapObserver.isOf remote) }

variable (message : CoapMessage Memory)

/-- The test by token in `CoAPObsClient_add` and `CoAPObsClient_delete`. -/
def CoapObservable.hasToken (node : CoapObservable H U) : Bool :=
  0 ≠ node.token.length ∧ node.token.length = message.header.tokenlen.val ∧
    node.token = message.tokenBytes

/-- `CoAPObsClient_add`, for a response to the message of `sendnode` or for another one. -/
def coapObsClientAdd (malloc : Bool) (ctx : CoapIntContext H U C)
    (message : CoapMessage Memory) (remote : NetworkAddr)
    (sendnode : Option (CoapSendNode H U)) : CoapIntContext H U C :=
  if coapOptionPresent message.options coapOptionObserve then
    match sendnode with
    | none =>
      match ctx.obsclient.list.find? (CoapObservable.hasToken message) with
      | none => ctx
      | some node =>
        let ctx := { ctx with
          obsclient := ctx.obsclient.updateFirst (CoapObservable.hasToken message)
            fun node => { node with
              maxAge := (coapUintOptionGet message.options coapOptionMaxage node.maxAge).getD
                node.maxAge } }
        match node.callback with
        | none => ctx
        | some callback => ctx.emit (.observed callback node.userdata remote message)
    | some sendnode =>
      if ¬ ctx.obsclient.list.any (CoapObservable.hasToken message) ∧
          ctx.obsclient.count < ctx.obsclient.maxcount ∧ malloc then
        { ctx with
          obsclient := ctx.obsclient.addTail ⟨remote, message.tokenBytes, sendnode.handler,
              (coapUintOptionGet message.options coapOptionMaxage 0).getD 0, sendnode.user⟩ }
      else ctx
  else { ctx with obsclient := ctx.obsclient.delFirst (CoapObservable.hasToken message) }

def coapObsClientDelete :
    CoapIntContext H U C :=
  if message.header.code = coapMsgCodeGet ∧
      coapUintOptionGet message.options coapOptionObserve 0 = some 1 then
    { ctx with obsclient := ctx.obsclient.delFirst (CoapObservable.hasToken message) }
  else ctx

/-! ## Sending (`CoAPMessage.c`) -/

def coapMaxRetryCount : UInt8 := 8
def coapAckTimeout : UInt16 := 600

variable (tick : UInt64)

/-- The node `CoAPMessageList_add` makes. -/
def coapSendNode (send : ℕ) (remote : NetworkAddr) (message : CoapSendMessage H U)
    (buffer : Bytes) : CoapSendNode H U where
  send := send
  header := message.header
  retransCount := if message.header.type = coapMessageTypeCon then coapMaxRetryCount else 0
  token := message.tokenBytes
  timeout :=
    if message.header.type = coapMessageTypeCon then coapAckTimeout.toUInt64 + tick
    else coapAckTimeout.toUInt64 * 4 + tick
  timeoutVal := coapAckTimeout
  handler := message.handler
  remote := remote
  user := message.user
  message := buffer
  acked := false
  keep := if platformIsMulticast remote ∨ message.keep = 1 then .keeping else .nokeep

variable (env : CoapEnv)

def coapMessageListAdd (ctx : CoapIntContext H U C) (send : ℕ) (remote : NetworkAddr)
    (message : CoapSendMessage H U) (buffer : Bytes) :
    ℤ × CoapIntContext H U C :=
  if ¬ env.node then (coapErrorNull, ctx)
  else if ctx.sendlist.count ≥ ctx.sendlist.maxcount then (coapErrorDataSize, ctx)
  else
    (coapSuccess,
      { ctx with sendlist := ctx.sendlist.addTail (coapSendNode env.tick send remote message buffer) })

/-- `CoAPNetwork_write` of a message that is sent for the first time. -/
def CoapIntContext.writeNew (remote : NetworkAddr) (bytes : Bytes) : CoapIntContext H U C :=
  { ctx with sends := ctx.sends + 1, trace := ctx.trace ++ [.write ctx.sends remote bytes] }

def coapMessageSend (ctx : CoapIntContext H U C) (remote : NetworkAddr)
    (message : CoapSendMessage H U) : ℤ × CoapIntContext H U C :=
  let msglen := coapSerializeMessageLength message.toCoapMessage
  if coapMsgMaxPduLen < msglen.toNat then (coapErrorDataSize, ctx)
  else if ¬ env.buff then (coapErrorNull, ctx)
  else
    let bytes := coapSerializedBytes message.toCoapMessage msglen
    let send := ctx.sends
    let ctx := (coapObsClientDelete ctx message.toCoapMessage).writeNew remote bytes
    if bytes.length = env.written.toNat then
      if coapReqMsg message.header ∨ coapConRespMsg message.header then
        coapMessageListAdd env ctx send remote message bytes
      else (coapSuccess, ctx)
    else (coapErrorWriteFailed, ctx)

def coapMessageInit : CoapSendMessage H U where
  header := ⟨1, coapMessageTypeAck, 0, coapMsgCodeEmptyMessage, 0⟩
  token := fun _ => 0
  options := []
  payloadlen := 0
  payload := none
  handler := none
  user := none
  keep := 0

/-- `CoAPAckMessage_send` and `CoAPRequestMessage_ack_send`. -/
def coapAckMessageSend (ctx : CoapIntContext H U C) (remote : NetworkAddr) (msgid : UInt16) :
    ℤ × CoapIntContext H U C :=
  let message : CoapSendMessage H U := coapMessageInit
  coapMessageSend env ctx remote { message with header := { message.header with msgid := msgid } }

def coapRestMessageSend (ctx : CoapIntContext H U C) (remote : NetworkAddr) (msgid : UInt16) :
    ℤ × CoapIntContext H U C :=
  let message : CoapSendMessage H U := coapMessageInit
  coapMessageSend env ctx remote
    { message with header := { message.header with type := coapMessageTypeRst, msgid := msgid } }

/-- `CoAPErrRespMessage_send`; `CoAPMessageToken_set` leaves a long token out. -/
def coapErrRespMessageSend (ctx : CoapIntContext H U C) (remote : NetworkAddr)
    (message : CoapMessage Memory) (errCode : UInt8) : ℤ × CoapIntContext H U C :=
  let response : CoapSendMessage H U := coapMessageInit
  let short := message.header.tokenlen.val ≤ coapMsgMaxTokenLen
  let type :=
    if message.header.type = coapMessageTypeCon then coapMessageTypeAck else message.header.type
  coapMessageSend env ctx remote { response with
    header := { response.header with
      code := errCode
      msgid := message.header.msgid
      tokenlen := if short then message.header.tokenlen else 0
      type := type }
    token := if short then memStore response.token 0 message.tokenBytes else response.token }

/-! ## Cancelling and receiving -/

/-- `CoAPMessage_cancel` and `CoAPMessageId_cancel`. -/
def coapMessageIdCancel (msgid : UInt16) : CoapIntContext H U C :=
  { ctx with sendlist := ctx.sendlist.delAll fun node => node.header.msgid = msgid }

def coapAckMessageHandle :
    CoapIntContext H U C :=
  let isFor (node : CoapSendNode H U) : Bool := node.header.msgid = message.header.msgid
  match ctx.sendlist.list.find? isFor with
  | none => ctx
  | some node =>
    let ctx :=
      if coapRespMsg node.header then { ctx with sendlist := ctx.sendlist.delFirst isFor }
      else { ctx with
        sendlist := ctx.sendlist.updateFirst isFor fun node => { node with acked := true } }
    match node.handler with
    | none => ctx
    | some handler => ctx.emit (.handler node.send handler .recvRespSuc node.user node.remote none)

variable (node : CoapSendNode H U)

/-- The test by token in `CoAPRespMessage_handle`. -/
def CoapSendNode.hasToken : Bool :=
  0 ≠ node.header.tokenlen.val ∧ node.header.tokenlen = message.header.tokenlen ∧
    node.token = message.tokenBytes

def coapRespMessageHandle (ctx : CoapIntContext H U C) (remote : NetworkAddr)
    (message : CoapMessage Memory) : CoapIntContext H U C :=
  let ctx :=
    if message.header.type = coapMessageTypeCon then
      (coapAckMessageSend env ctx remote message.header.msgid).2
    else ctx
  match ctx.sendlist.list.find? (CoapSendNode.hasToken message) with
  | none => coapObsClientAdd env.obs ctx message remote none
  | some node =>
    let ctx :=
      if node.keep = .nokeep then
        { ctx with sendlist := ctx.sendlist.delFirst (CoapSendNode.hasToken message) }
      else ctx
    match node.handler with
    | none => ctx
    | some handler =>
      (coapObsClientAdd env.obs ctx message remote (some node)).emit
        (.handler node.send handler .requestSuccess node.user remote (some message))

/-- The context in which `CoAPRespMessage_handle` goes on, the acknowledgement sent if need be. -/
theorem exists_of_ack {P : CoapIntContext H U C → Prop} {env : CoapEnv} {ctx : CoapIntContext H U C}
    {remote : NetworkAddr} (h : P ctx)
    (hack : P (coapAckMessageSend env ctx remote message.header.msgid).2) :
    ∃ ctx1, (if message.header.type = coapMessageTypeCon then
      (coapAckMessageSend env ctx remote message.header.msgid).2 else ctx) = ctx1 ∧ P ctx1 := by
  split_ifs
  · exact ⟨_, rfl, hack⟩
  · exact ⟨_, rfl, h⟩

/-- What `strncpy` of `n` bytes makes of the bytes at `val`. -/
def strncpyBytes (val : Memory) (n : ℕ) : Bytes :=
  let chars := cChars (memSlice val 0 n)
  chars ++ List.replicate (n - chars.length) 0

/-- The path that `CoAPRequestMessage_handle` joins, in a buffer of `COAP_MSG_MAX_PATH_LEN`
bytes. -/
def coapRequestPath : Bytes → List (CoapMsgOption Memory) → Bytes
  | path, [] => path
  | path, option :: options =>
    if option.num = coapOptionUriPath ∧
        path.length + option.len.toNat ≤ coapMsgMaxPathLen - 1 then
      coapRequestPath (path ++ 0x2f :: strncpyBytes option.val option.len.toNat) options
    else coapRequestPath path options

def coapRequestMessageHandle (ctx : CoapIntContext H U C) (remote : NetworkAddr)
    (message : CoapMessage Memory) :
    CoapIntContext H U C :=
  let path := cChars (coapRequestPath [] message.options)
  match coapResourceByPathGet md5 ctx path with
  | none => (coapErrRespMessageSend env ctx remote message coapMsgCode404NotFound).2
  | some resource =>
    match resource.callback with
    | none => (coapErrRespMessageSend env ctx remote message coapMsgCode405MethodNotAllowed).2
    | some callback =>
      if 0 < resource.permission.toNat &&& 1 <<< (message.header.code.toNat - 1) then
        let ctx :=
          if message.header.type = coapMessageTypeCon then
            (coapAckMessageSend env ctx remote message.header.msgid).2
          else ctx
        ctx.emit (.callback callback path remote message)
      else (coapErrRespMessageSend env ctx remote message coapMsgCode405MethodNotAllowed).2

/-- `CoAPMessage_handle` after the datagram was read: the message is dispatched, whether it
was read with success or not. -/
def coapMessageDispatch (ctx : CoapIntContext H U C) (remote : NetworkAddr)
    (message : CoapMessage Memory) :
    CoapIntContext H U C :=
  if coapAckMsg message.header ∨ coapResetMsg message.header then coapAckMessageHandle ctx message
  else if coapRespMsg message.header then coapRespMessageHandle env ctx remote message
  else if coapPingMsg message.header then
    (coapRestMessageSend env ctx remote message.header.msgid).2
  else if coapReqMsg message.header then coapRequestMessageHandle md5 env ctx remote message
  else ctx

/-- `CoAPMessage_handle` of the datagram of `datalen` bytes at `buf`. -/
def coapMessageHandle (ctx : CoapIntContext H U C) (remote : NetworkAddr) (buf : Memory)
    (datalen : UInt16) :
    CoapIntContext H U C :=
  coapMessageDispatch md5 env ctx remote (received buf datalen)

/-! ## Timers -/

/-- The node leaves `Retansmit` when its time has come. -/
def CoapSendNode.retransmit : CoapSendNode H U :=
  if node.timeout > tick ∨ node.retransCount = 0 then node
  else
    let timeoutVal := UInt16.ofNat (node.timeoutVal.toNat * 3 / 2)
    let retransCount := node.retransCount - 1
    { node with
      timeoutVal := timeoutVal
      retransCount := retransCount
      timeout := tick + if retransCount = 0 then coapAckTimeout.toUInt64 else timeoutVal.toUInt64 }

/-- The node is written again by `Retansmit`. -/
def CoapSendNode.due : Bool :=
  ¬ node.timeout > tick ∧ node.retransCount ≠ 0 ∧ ¬ node.acked

def retansmit : CoapIntContext H U C :=
  { ctx with
    sendlist := { ctx.sendlist with list := ctx.sendlist.list.map (CoapSendNode.retransmit tick) }
    trace := ctx.trace ++ (ctx.sendlist.list.filter (CoapSendNode.due tick)).map
      fun node => .write node.send node.remote node.message }

/-- The node has timed out. -/
def CoapSendNode.timedOut : Bool :=
  node.keep = .nokeep ∧ ¬ (node.retransCount > 0 ∨ node.timeout ≥ tick)

/-- One pass of the loop of `Check_timeout`, which ends when a pass finds no node. -/
def checkTimeout : CoapIntContext H U C :=
  match ctx.sendlist.list.find? (CoapSendNode.timedOut tick) with
  | none => ctx
  | some node =>
    let ctx := { ctx with sendlist := ctx.sendlist.delFirst (CoapSendNode.timedOut tick) }
    let ctx := coapObsServerAllDelete ctx node.remote
    match node.handler with
    | none => ctx
    | some handler =>
      ctx.emit (.handler node.send handler .recvRespTimeout node.user node.remote none)

/-! ## Runs -/

/-- The operations of the server, with what each of them finds around it. -/
inductive ServerOp (H U : Type)
  | send (env : CoapEnv) (remote : NetworkAddr) (message : CoapSendMessage H U)
  | cancel (msgid : UInt16)
  | receive (env : CoapEnv) (remote : NetworkAddr) (buf : Memory) (datalen : UInt16)
  | retansmit (tick : UInt64)
  | checkTimeout (tick : UInt64)
  | obsAdd (malloc : Bool) (observe : UInt32) (overrun : CoapObserver → CoapObserver)
      (path : Bytes) (remote : NetworkAddr) (request : CoapMessage Memory)
  | obsDelete (remote : NetworkAddr) (resource : ℕ)
  | obsAllDelete (remote : NetworkAddr)

def serverStep :
    ServerOp H U → CoapIntContext H U C
  | .send env remote message => (coapMessageSend env ctx remote message).2
  | .cancel msgid => coapMessageIdCancel ctx msgid
  | .receive env remote buf datalen => coapMessageHandle md5 env ctx remote buf datalen
  | .retansmit tick => Coap.retansmit ctx tick
  | .checkTimeout tick => Coap.checkTimeout ctx tick
  | .obsAdd malloc observe overrun path remote request =>
    (coapObsServerAdd md5 malloc observe overrun ctx path remote request).2
  | .obsDelete remote resource => coapObsServerDelete ctx remote resource
  | .obsAllDelete remote => coapObsServerAllDelete ctx remote

def serverRun (ops : List (ServerOp H U)) : CoapIntContext H U C :=
  ops.foldl (serverStep md5) ctx

/-- A context as `CoAPContext_create` leaves it, with its table of resources. -/
def coapContextCreate (sendMax obsMax : UInt8) (resource : CoapList (CoapResource C)) :
    CoapIntContext H U C where
  sendlist := CoapList.init _ sendMax
  obsserver := CoapList.init _ obsMax
  obsclient := CoapList.init _ obsMax
  resource := resource
  sends := 0
  trace := []

end Iotkit.Coap
