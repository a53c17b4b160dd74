/-
# The context of the CoAP server

The data of `CoAPInternal.h`, `CoAPMessage.h`, `CoAPObserve.h` and `CoAPResource.h`: the
send list, the two observer lists and the resource table, together with the functions on
messages, addresses and paths that the server calls.

`H`, `U` and `C` are the types of the handlers of sent messages, of the user data passed to
them and of the callbacks of resources.  What the network is given and which handlers are
called is kept in `trace`; `sends` numbers the messages that were written, and a node of the
send list carries the number of its message.
-/
import Iotkit.CoapPacket

namespace Iotkit.Coap

open List hiding Vector

/-! ## Constants (`iotx_coap_internal.h`, `iotx_coap_config.h`) -/

abbrev coapErrorNull : ℤ := 2 ^ 8 + 2
abbrev coapErrorMalloc : ℤ := 2 ^ 8 + 3
abbrev coapErrorDataSize : ℤ := 2 ^ 8 + 5
abbrev coapErrorNotFound : ℤ := 2 ^ 8 + 7
abbrev coapErrorWriteFailed : ℤ := 2 ^ 8 + 10
abbrev coapErrorObjAlreadyExist : ℤ := 2 ^ 8 + 14

abbrev coapMessageTypeCon : Fin 4 := 0
abbrev coapMessageTypeAck : Fin 4 := 2
abbrev coapMessageTypeRst : Fin 4 := 3

abbrev coapMsgCodeEmptyMessage : UInt8 := 0
abbrev coapMsgCodeGet : UInt8 := 1
abbrev coapMsgCode205Content : UInt8 := 0x45
abbrev coapMsgCode404NotFound : UInt8 := 0x84
abbrev coapMsgCode405MethodNotAllowed : UInt8 := 0x85

abbrev coapOptionObserve : UInt16 := 6
abbrev coapOptionUriPath : UInt16 := 11
abbrev coapOptionMaxage : UInt16 := 14
abbrev coapOptionAccept : UInt16 := 17

abbrev coapCtAppJson : UInt32 := 50

def coapMsgMaxPathLen : ℕ := 128

/-- What a handler is told of its request. -/
inductive CoapReqResult
  | requestSuccess
  | recvRespTimeout
  | recvRespSuc
  deriving DecidableEq

/-! ## Kinds of messages (`CoAPMessage.c`) -/

variable (header : CoapMsgHeader)

abbrev coapAckMsg : Prop :=
  header.code = coapMsgCodeEmptyMessage ∧ header.type = coapMessageTypeAck
abbrev coapRespMsg : Prop := 0x40 ≤ header.code ∧ header.code < 0xc0
abbrev coapPingMsg : Prop :=
  header.code = coapMsgCodeEmptyMessage ∧ header.type = coapMessageTypeCon
abbrev coapResetMsg : Prop := header.type = coapMessageTypeRst
abbrev coapConRespMsg : Prop :=
  header.code = coapMsgCode205Content ∧ header.type = coapMessageTypeCon
abbrev coapReqMsg : Prop := 1 ≤ header.code ∧ header.code < 32

/-! ## Messages in memory (`CoAPMessage_common.c`) -/

/-- A message that was read from a datagram at `buf`, with the pointers in it. -/
def CoapMessage.atMemory (buf : Memory) (m : CoapMessage ℕ) : CoapMessage Memory where
  header := m.header
  token := m.token
  options := m.options.map fun o => ⟨o.num, o.len, fun i => buf (o.val + i)⟩
  payloadlen := m.payloadlen
  payload := m.payload.map fun p i => buf (p + i)

/-- The message that is left when the datagram of `datalen` bytes at `buf` was read into a
message of zeros, with success or not. -/
def received (buf : Memory) (datalen : UInt16) : CoapMessage Memory :=
  (coapDeserializeMessage zeroMessage buf datalen.toNat).2.atMemory buf

/-- The token of a message. -/
def CoapMessage.tokenBytes {P : Type} (m : CoapMessage P) : Bytes :=
  memSlice m.token 0 m.header.tokenlen

/-- `CoAPUintOption_get`: what `data` becomes if there is such an option.  The bytes are
joined to what `data` was before. -/
def coapUintOptionGet (options : List (CoapMsgOption Memory)) (optnum : UInt16)
    (data : UInt32) : Option UInt32 :=
  (options.find? fun o => o.num = optnum).map fun o =>
    let byte (i : ℕ) : UInt32 := UInt32.ofNat (o.val i).toNat
    match o.len.toNat with
    | 1 => data ||| byte 0
    | 2 => data ||| byte 0 <<< 8 ||| byte 1
    | 3 => data ||| byte 0 <<< 16 ||| byte 1 <<< 8 ||| byte 2
    | 4 => data ||| byte 0 <<< 24 ||| byte 1 <<< 16 ||| byte 2 <<< 8 ||| byte 3
    | _ => 0

/-- An option with the number is in the message. -/
def coapOptionPresent (options : List (CoapMsgOption Memory)) (option : UInt16) : Bool :=
  options.any fun o => o.num = option

/-- The length `CoAPSerialize_OptionLen` counts. -/
def coapSerializeOptionLen (option : CoapMsgOption Memory) : UInt16 :=
  1 + (if 269 ≤ option.num then 2 else if 13 ≤ option.num then 1 else 0)
    + (if 269 ≤ option.len then 2 else if 13 ≤ option.len then 1 else 0) + option.len

/-- `CoAPSerialize_OptionsLen`, from `count` on. -/
def coapSerializeOptionsLen : UInt16 → List (CoapMsgOption Memory) → UInt16
  | count, [] => count
  | count, option :: options =>
    let len := coapSerializeOptionLen option
    if 0 < len then coapSerializeOptionsLen (count + len) options else 0

/-- The bytes of the message without its payload. -/
def coapSerializeMessageLength (msg : CoapMessage Memory) : UInt16 :=
  4 + UInt16.ofNat msg.header.tokenlen + coapSerializeOptionsLen 0 msg.options
    + if 0 < msg.payloadlen then msg.payloadlen + 1 else 0

/-- The bytes `CoAPSerialize_Message` writes into a cleared buffer of `buflen` bytes. -/
def coapSerializedBytes (msg : CoapMessage Memory) (buflen : UInt16) : Bytes :=
  match coapSerializeMessage msg (fun _ => 0) buflen with
  | (len, buf) => memSlice buf 0 (len % 2 ^ 16).toNat

/-! ## Addresses (`CoAPPlatform.c`) -/

structure NetworkAddr where
  addr : Vector UInt8 16
  port : UInt16
  deriving DecidableEq

/-- The characters of a C string that stands in `bytes`. -/
def cChars (bytes : Bytes) : Bytes := bytes.takeWhile (· ≠ 0)

theorem cChars_eq_self {a : Bytes} (ha : 0 ∉ a) : cChars a = a := by
  apply takeWhile_eq_self_iff.mpr
  intro c hc
  exact decide_eq_true fun h0 => ha (h0 ▸ hc)

theorem cChars_append {a : Bytes} (ha : 0 ∈ a) (b : Bytes) :
    cChars (a ++ b) = cChars a ∧ (cChars a).length < a.length := by
  induction a with
  | nil => cases ha
  | cons c a ih =>
    by_cases hc : c = 0
    · simp [cChars, hc]
    · obtain ⟨heq, hlt⟩ := ih ((mem_cons.mp ha).resolve_left (Ne.symm hc))
      have hcons : ∀ l, cChars (c :: l) = c :: cChars l := fun l => by simp [cChars, hc]
      rw [cons_append, hcons, hcons, heq]
      exact ⟨rfl, Nat.succ_lt_succ hlt⟩

theorem zero_notMem_cChars (a : Bytes) : 0 ∉ cChars a := by
  intro hmem
  simpa using mem_takeWhile_imp hmem

abbrev isDigit (c : UInt8) : Prop := 0x30 ≤ c ∧ c ≤ 0x39
abbrev isLower (c : UInt8) : Prop := 0x61 ≤ c ∧ c ≤ 0x7a
abbrev isXdigit (c : UInt8) : Prop :=
  isDigit c ∨ (0x41 ≤ c ∧ c ≤ 0x46) ∨ (0x61 ≤ c ∧ c ≤ 0x66)
abbrev isSpace (c : UInt8) : Prop := c = 0x20 ∨ (0x09 ≤ c ∧ c ≤ 0x0d)

/-- The inner loop of `platform_aton`. -/
def platformAtonDigits (base : UInt32) : UInt32 → Bytes → UInt32 × Bytes
  | val, [] => (val, [])
  | val, c :: ipStr =>
    if isDigit c then
      platformAtonDigits base (val * base + UInt32.ofNat (c.toNat - 0x30)) ipStr
    else if base = 16 ∧ isXdigit c then
      let digit := c.toNat + 10 - if isLower c then 0x61 else 0x41
      platformAtonDigits base (val <<< 4 ||| UInt32.ofNat digit) ipStr
    else (val, c :: ipStr)

/-- One number of `platform_aton`, with its base. -/
def platformAtonNumber : Bytes → Option (UInt32 × Bytes)
  | [] => none
  | c :: ipStr =>
    if ¬ isDigit c then none
    else if c = 0x30 then
      match ipStr with
      | [] => some (0, [])
      | x :: rest =>
        if x = 0x78 ∨ x = 0x58 then some (platformAtonDigits 16 0 rest)
        else some (platformAtonDigits 8 0 ipStr)
    else some (platformAtonDigits 10 0 (c :: ipStr))

/-- The outer loop of `platform_aton`, with room for `room` more parts. -/
def platformAtonParts : ℕ → List UInt32 → Bytes → Option (List UInt32 × UInt32 × Bytes)
  | room, parts, ipStr =>
    match platformAtonNumber ipStr with
    | none => none
    | some (val, []) => some (parts, val, [])
    | some (val, c :: rest) =>
      if c = 0x2e then
        match room with
        | 0 => none
        | room + 1 => platformAtonParts room (parts ++ [val]) rest
      else some (parts, val, c :: rest)

/-- The address of a dotted text, 0 if there is none. -/
def platformAton (ipStr : Bytes) : UInt32 :=
  match platformAtonParts 3 [] ipStr with
  | none => 0
  | some (parts, val, rest) =>
    if rest.head?.any fun c => ¬ isSpace c then 0
    else
      match parts with
      | [a] => if val > 0xffffff then 0 else val ||| a <<< 24
      | [a, b] => if val > 0xffff then 0 else val ||| (a <<< 24 ||| b <<< 16)
      | [a, b, c] => if val > 0xff then 0 else val ||| (a <<< 24 ||| b <<< 16 ||| c <<< 8)
      | _ => val

/-- An address of the multicast range. -/
def platformIsMulticast (remote : NetworkAddr) : Bool :=
  let addrIn := platformAton (cChars remote.addr.toList)
  0xE00000FF < addrIn ∧ addrIn ≤ 0xEFFFFFFF

/-! ## Lists -/

/-- A list with its counter and its limit. -/
structure CoapList (α : Type) where
  list : List α
  count : UInt8
  maxcount : UInt8

def CoapList.init (α : Type) (maxcount : UInt8) : CoapList α := ⟨[], 0, maxcount⟩

/-- `list_add_tail` and `count ++`. -/
def CoapList.addTail {α : Type} (l : CoapList α) (a : α) : CoapList α :=
  { l with list := l.list ++ [a], count := l.count + 1 }

/-- `list_del` of the first node with `p`, and `count --`. -/
def CoapList.delFirst {α : Type} (l : CoapList α) (p : α → Bool) : CoapList α :=
  if l.list.any p then { l with list := l.list.eraseP p, count := l.count - 1 } else l

/-- `list_del` of every node with `p`, and `count --` for each. -/
def CoapList.delAll {α : Type} (l : CoapList α) (p : α → Bool) : CoapList α :=
  { l with
    list := l.list.filter fun a => !p a
    count := l.count - UInt8.ofNat (l.list.countP p) }

/-- The first node with `p` is changed by `f`. -/
def updateFirst {α : Type} (p : α → Bool) (f : α → α) : List α → List α
  | [] => []
  | a :: l => if p a then f a :: l else a :: updateFirst p f l

/-- The first node with `p` is changed by `f`. -/
def CoapList.updateFirst {α : Type} (l : CoapList α) (p : α → Bool) (f : α → α) : CoapList α :=
  { l with list := Coap.updateFirst p f l.list }

/-- The count is the number of nodes, and there is room for them. -/
structure CoapList.Counted {α : Type} (l : CoapList α) : Prop where
  count_eq : l.count.toNat = l.list.length
  le_maxcount : l.list.length ≤ l.maxcount.toNat

namespace CoapList.Counted

variable {α : Type} {l : CoapList α}

theorem init (maxcount : UInt8) : (CoapList.init α maxcount).Counted :=
  ⟨rfl, Nat.zero_le _⟩

theorem addTail (h : l.Counted) (hroom : l.count < l.maxcount) (a : α) : (l.addTail a).Counted := by
  have hlt : l.list.length < l.maxcount.toNat := by
    rw [← h.count_eq]
    exact UInt8.lt_iff_toNat_lt.mp hroom
  have hmax := l.maxcount.toNat_lt
  have hcount := h.count_eq
  refine ⟨?_, by simpa [CoapList.addTail] using hlt⟩
  simp only [CoapList.addTail, length_append, length_singleton, UInt8.toNat_add, hcount]
  exact Nat.mod_eq_of_lt (by simp; omega)

theorem remove (h : l.Counted) {list : List α} {n : ℕ} (hlen : list.length + n = l.list.length) :
    ({ l with list := list, count := l.count - UInt8.ofNat n } : CoapList α).Counted := by
  have hcount := h.count_eq
  have hmax := h.le_maxcount
  have hlt := l.maxcount.toNat_lt
  have hn : (UInt8.ofNat n).toNat = n := by
    rw [UInt8.toNat_ofNat']
    exact Nat.mod_eq_of_lt (by omega)
  refine ⟨?_, by simp only; omega⟩
  have hle : UInt8.ofNat n ≤ l.count := by
    rw [UInt8.le_iff_toNat_le, hn]
    omega
  simp only [UInt8.toNat_sub_of_le _ _ hle, hn]
  omega

theorem delFirst (h : l.Counted) (p : α → Bool) : (l.delFirst p).Counted := by
  unfold CoapList.delFirst
  split_ifs with hany
  · obtain ⟨a, ha, hpa⟩ := any_eq_true.mp hany
    have hpos := length_pos_of_mem ha
    have hlen := length_eraseP_of_mem ha hpa
    exact h.remove (n := 1) (by omega)
  · exact h

theorem delAll (h : l.Counted) (p : α → Bool) : (l.delAll p).Counted := by
  apply h.remove
  rw [countP_eq_length_filter, Nat.add_comm]
  exact (length_eq_length_filter_add p).symm

theorem of_length_eq (h : l.Counted) {list : List α} (hlen : list.length = l.list.length) :
    ({ l with list := list } : CoapList α).Counted :=
  ⟨h.count_eq.trans hlen.symm, hlen ▸ h.le_maxcount⟩

end CoapList.Counted

theorem length_updateFirst {α : Type} (p : α → Bool) (f : α → α) (l : List α) :
    (updateFirst p f l).length = l.length := by
  induction l with
  | nil => rfl
  | cons a l ih =>
    unfold updateFirst
    split_ifs
    · rfl
    · simp [ih]

theorem mem_updateFirst {α : Type} {p : α → Bool} {f : α → α} {l : List α} {b : α}
    (h : b ∈ updateFirst p f l) : b ∈ l ∨ ∃ a, l.find? p = some a ∧ b = f a := by
  induction l with
  | nil => cases h
  | cons a l ih =>
    unfold updateFirst at h
    split_ifs at h with ha
    · rcases mem_cons.mp h with rfl | hmem
      · exact Or.inr ⟨a, by simp [ha], rfl⟩
      · exact .inl (mem_cons_of_mem _ hmem)
    · rcases mem_cons.mp h with rfl | hmem
      · exact .inl mem_cons_self
      · rcases ih hmem with hold | ⟨a', hfind, rfl⟩
        · exact .inl (mem_cons_of_mem _ hold)
        · exact Or.inr ⟨a', by simp [ha, hfind], rfl⟩

theorem map_updateFirst {α β : Type} (p : α → Bool) {f : α → α} {g : α → β}
    (hg : ∀ a, g (f a) = g a) (l : List α) : (updateFirst p f l).map g = l.map g := by
  induction l with
  | nil => rfl
  | cons a l ih =>
    unfold updateFirst
    split_ifs <;> simp [hg, ih]

/-! ## Nodes and contexts -/

/-- The values of `keep` in a node: `NOKEEP`, `KEEPING` and `TOREMOVEKEEP`. -/
inductive Keep
  | nokeep
  | keeping
  | toremovekeep
  deriving DecidableEq

/-- The fields of `CoAPMessage` that are passed to the send list, with the message. -/
structure CoapSendMessage (H U : Type) extends CoapMessage Memory where
  handler : Option H
  user : Option U
  keep : ℤ

/-- `CoAPSendNode`; `send` is the number of its message. -/
structure CoapSendNode (H U : Type) where
  send : ℕ
  header : CoapMsgHeader
  retransCount : UInt8
  token : Bytes
  timeout : UInt64
  timeoutVal : UInt16
  handler : Option H
  remote : NetworkAddr
  user : Option U
  message : Bytes
  acked : Bool
  keep : Keep

/-- `CoapObserver`; `resource` is the address of `p_resource_of_interest`. -/
structure CoapObserver where
  remote : NetworkAddr
  token : Bytes
  ctype : UInt8
  resource : ℕ
  observerSequenceNum : UInt32
  msgType : Fin 4
  deriving DecidableEq

/-- An observation of a resource of another server. -/
structure CoapObservable (H U : Type) where
  remote : NetworkAddr
  token : Bytes
  callback : Option H
  maxAge : UInt32
  userdata : Option U

/-- `path_type_t`. -/
inductive PathType
  | normal
  | filter
  deriving DecidableEq

/-- `CoAPResource`; `ptr` is its address. -/
structure CoapResource (C : Type) where
  ptr : ℕ
  permission : UInt16
  callback : Option C
  ctype : UInt32
  maxage : UInt32
  path : Bytes
  filterPath : Bytes
  pathType : PathType

/-- What the context does to its surroundings: it writes the message number `send`, calls
its handler, calls the callback of an observed resource, or that of its own resource. -/
inductive CoapEffect (H U C : Type)
  | write (send : ℕ) (remote : NetworkAddr) (bytes : Bytes)
  | handler (send : ℕ) (handler : H) (result : CoapReqResult) (user : Option U)
      (remote : NetworkAddr) (message : Option (CoapMessage Memory))
  | observed (callback : H) (user : Option U) (remote : NetworkAddr)
      (message : CoapMessage Memory)
  | callback (callback : C) (path : Bytes) (remote : NetworkAddr)
      (message : CoapMessage Memory)

/-- The context of a CoAP server or client. -/
structure CoapIntContext (H U C : Type) where
  sendlist : CoapList (CoapSendNode H U)
  obsserver : CoapList CoapObserver
  obsclient : CoapList (CoapObservable H U)
  resource : CoapList (CoapResource C)
  sends : ℕ
  trace : List (CoapEffect H U C)

variable {H U C : Type}

def CoapIntContext.emit (ctx : CoapIntContext H U C) (effect : CoapEffect H U C) :
    CoapIntContext H U C :=
  { ctx with trace := ctx.trace ++ [effect] }

/-- What a call finds around it: whether the buffer of a message, its node and an observer
can be allocated, what the network write returns, and the time. -/
structure CoapEnv where
  buff : Bool
  node : Bool
  obs : Bool
  written : UInt16
  tick : UInt64

/-! ## Resources (`CoAPResource.c`) -/

/-- `CoAPPathMD5_sum` into a cleared buffer of `outlen` bytes; `md5` is `utils_md5`. -/
def coapPathMD5Sum (md5 : Bytes → Vector UInt8 16) (path : Bytes) (outlen : ℕ) :
    Bytes :=
  if path = [] then List.replicate outlen 0 else (md5 path).toList.take outlen

/-- `CoAPResource_topicFilterMatch` returns 0. -/
def coapResourceTopicFilterMatch (filter topic : Bytes) : Bool :=
  let n := filter.length - 1
  (filter.take n == topic.take n) && n < topic.length && !(topic.drop n).contains 0x2f

/-- The first resource registered for the path. -/
def coapResourceByPathGet (md5 : Bytes → Vector UInt8 16) (ctx : CoapIntContext H U C)
    (path : Bytes) : Option (CoapResource C) :=
  (ctx.resource.list.find? fun node => node.path = coapPathMD5Sum md5 path 5).or
    (ctx.resource.list.find? fun node =>
      node.pathType = .filter ∧ 0 < node.filterPath.length ∧
        coapResourceTopicFilterMatch node.filterPath path)

end Iotkit.Coap
