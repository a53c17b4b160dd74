/-
# CoAP packets

`CoAPSerialize_common.c` and `CoAPDeserialize_common.c`.

A pointer in a message is a value of a type `P`: the bytes it points to
(`ℕ → UInt8`) in a message that is sent, the offset into the datagram in a message
that is read from one.  Sixteen-bit fields are `UInt16`s and wrap as in the source.
-/
import Iotkit.InfraDefs

namespace Iotkit.Coap

/-! ## Messages (`iotx_coap_internal.h`) -/

abbrev coapSuccess : ℤ := 0
abbrev coapErrorInvalidLength : ℤ := 2 ^ 8 + 4

/-- `COAP_MSG_MAX_TOKEN_LEN`, `COAP_MSG_MAX_OPTION_NUM` and `COAP_MSG_MAX_PDU_LEN`. -/
def coapMsgMaxTokenLen : ℕ := 8
def coapMsgMaxOptionNum : ℕ := 12
def coapMsgMaxPduLen : ℕ := 1280

/-- The bit fields of a header are not empty, so that they have literals. -/
instance neZero_four : NeZero 4 := ⟨by decide⟩
instance neZero_sixteen : NeZero 16 := ⟨by decide⟩

structure CoapMsgHeader where
  version : Fin 4
  type : Fin 4
  tokenlen : Fin 16
  code : UInt8
  msgid : UInt16
  deriving DecidableEq

structure CoapMsgOption (P : Type) where
  num : UInt16
  len : UInt16
  val : P
  deriving DecidableEq

/-- `CoAPMessage`; `token` is the memory from the start of its token array on, and
`payload` is `none` for a `NULL` pointer. -/
structure CoapMessage (P : Type) where
  header : CoapMsgHeader
  token : Memory
  options : List (CoapMsgOption P)
  payloadlen : UInt16
  payload : Option P

/-! ## Serializing -/

/-- The four bytes `CoAPSerialize_Header` writes. -/
def headerBytes (header : CoapMsgHeader) : Bytes :=
  [UInt8.ofNat (((header.version.val &&& 0x3) <<< 6 ||| (header.type.val &&& 0x3) <<< 4)
      ||| (header.tokenlen.val &&& 0x0F)),
    header.code, UInt8.ofNat (header.msgid.toNat / 256), UInt8.ofNat (header.msgid.toNat % 256)]

variable (msg : CoapMessage Memory) (buf : Memory)

/-- `CoAPSerialize_Header`: return value and buffer afterwards. -/
def coapSerializeHeader (p : ℕ) (buflen : UInt16) : UInt16 × Memory :=
  if 4 > buflen.toNat then (0, buf) else (4, memStore buf p (headerBytes msg.header))

def coapSerializeToken (p : ℕ) (buflen : UInt16) : UInt16 × Memory :=
  let tokenlen := msg.header.tokenlen.val
  if buflen.toNat < tokenlen then (0, buf)
  else (UInt16.ofNat tokenlen, memStore buf p (memSlice msg.token 0 tokenlen))

/-- The nibble `CoAPSerialize_Option` writes for a delta or a length. -/
def optionNibble (n : ℕ) : ℕ := if 269 ≤ n then 14 else if 13 ≤ n then 13 else n

/-- The extension bytes `CoAPSerialize_Option` writes for a delta or a length. -/
def optionExt (n : ℕ) : Bytes :=
  if 269 ≤ n then [UInt8.ofNat ((n - 269) / 256), UInt8.ofNat ((n - 269) % 256)]
  else if 13 ≤ n then [UInt8.ofNat (n - 13)]
  else []

/-- The bytes `CoAPSerialize_Option` writes; `num` holds the option's delta. -/
def coapSerializeOption (option : CoapMsgOption Memory) : Bytes :=
  UInt8.ofNat (optionNibble option.num.toNat <<< 4 ||| optionNibble option.len.toNat)
    :: optionExt option.num.toNat ++ optionExt option.len.toNat
    ++ memSlice option.val 0 option.len.toNat

/-- The loop of `CoAPSerialize_Options`, which returns `count` and keeps the buffer. -/
def coapSerializeOptions (p : ℕ) :
    List (CoapMsgOption Memory) → UInt16 → Memory → UInt16 × Memory
  | [], count, buf => (count, buf)
  | option :: options, count, buf =>
    let bytes := coapSerializeOption option
    let buf := memStore buf (p + count.toNat) bytes
    let len := UInt16.ofNat bytes.length
    if 0 < len then coapSerializeOptions p options (count + len) buf else (0, buf)

def coapSerializePayload (p : ℕ) (buflen : UInt16) : UInt16 × Memory :=
  if msg.payloadlen.toNat + 1 > buflen.toNat then (0, buf)
  else
    match msg.payload with
    | some payload =>
      if 0 < msg.payloadlen then
        (msg.payloadlen + 1, memStore buf p (0xFF :: memSlice payload 0 msg.payloadlen.toNat))
      else (0, buf)
    | none => (0, buf)

/-- `CoAPSerialize_Message`: the number of bytes written, and the buffer. -/
def coapSerializeMessage (buflen : UInt16) :
    ℤ × Memory :=
  let remlen := buflen
  let (count, buf) := coapSerializeHeader msg buf 0 remlen
  let p := count.toNat
  let remlen := remlen - count
  let (count, buf) := coapSerializeToken msg buf p remlen
  let p := p + count.toNat
  let remlen := remlen - count
  let (count, buf) := coapSerializeOptions p msg.options 0 buf
  let p := p + count.toNat
  let remlen := remlen - count
  let (count, buf) := coapSerializePayload msg buf p remlen
  let remlen := remlen - count
  ((buflen.toNat : ℤ) - remlen.toNat, buf)

/-! ## Deserializing -/

def coapDeserializeHeader : CoapMsgHeader where
  version := Fin.ofNat 4 ((buf 0).toNat >>> 6)
  type := Fin.ofNat 4 ((buf 0).toNat >>> 4)
  tokenlen := Fin.ofNat 16 (buf 0).toNat
  code := buf 1
  msgid := UInt16.ofNat ((buf 2).toNat <<< 8) + UInt16.ofNat (buf 3).toNat

/-- `CoAPDeserialize_Token`: at most the token array is overwritten. -/
def coapDeserializeToken (token : Memory) (tokenlen : ℕ) (buf : Memory) (p : ℕ) :
    ℕ → UInt8 :=
  memStore token 0 (memSlice buf p (min tokenlen coapMsgMaxTokenLen))

/-- `COAP_OPT_CHECK`: what is left after `step` bytes, of which there must be one. -/
def coapOptCheck (left : ℤ) (step : ℤ) : Option ℤ :=
  if left < step then none else if left - step < 1 then none else some (left - step)

/-- The option number in `CoAPDeserialize_Option`: the number, the place behind it and
what is left there. -/
def coapOptionDelta (ptr : ℕ) (left : ℤ) (optdelta : ℕ) (predelta : UInt16) :
    Option (UInt16 × ℕ × ℤ) :=
  if optdelta = 13 then
    (coapOptCheck left 1).map fun left =>
      (predelta + UInt16.ofNat (13 + (buf ptr).toNat), ptr + 1, left)
  else if optdelta = 14 then
    (coapOptCheck left 2).map fun left =>
      (predelta + (269 : UInt16) + UInt16.ofNat ((buf ptr).toNat <<< 8)
        + UInt16.ofNat (buf (ptr + 1)).toNat, ptr + 2, left)
  else some (predelta + UInt16.ofNat optdelta, ptr, left)

/-- The option length in `CoAPDeserialize_Option`. -/
def coapOptionLen (ptr : ℕ) (left : ℤ) (optlen : ℕ) :
    Option (UInt16 × ℕ × ℤ) :=
  if optlen = 13 then
    (coapOptCheck left 1).map fun left =>
      (UInt16.ofNat (13 + (buf ptr).toNat), ptr + 1, left)
  else if optlen = 14 then
    let optlen := UInt16.ofNat (((buf ptr).toNat <<< 8) + (buf (ptr + 1)).toNat)
    -- `int` arithmetic: the test never succeeds
    if optlen.toNat + 269 < 269 then none
    else (coapOptCheck left 2).map fun left => (optlen + 269, ptr + 2, left)
  else some (UInt16.ofNat optlen, ptr, left)

/-- `CoAPDeserialize_Option` at offset `p`: the option and the number of bytes it takes,
or `none` for the return value `-1`. -/
def coapDeserializeOption (p : ℕ) (left : ℤ) (predeltas : UInt16) :
    Option (CoapMsgOption ℕ × ℕ) :=
  let optdelta := (buf p).toNat >>> 4
  let optlen := (buf p).toNat &&& 0x0F
  (coapOptCheck left 1).bind fun left =>
    (coapOptionDelta buf (p + 1) left optdelta predeltas).bind fun (num, ptr, left) =>
      (coapOptionLen buf ptr left optlen).map fun (len, ptr, _) =>
        (⟨num, len, ptr⟩, ptr - p + len.toNat)

/-- The loop of `CoAPDeserialize_Options`, with room for `room` more options: the end of
the options, or `none` for an error, and the options read. -/
def coapDeserializeOptions (buf : Memory) :
    ℕ → ℕ → ℤ → UInt16 → Option ℕ × List (CoapMsgOption ℕ)
  | 0, ptr, _, _ => (some ptr, [])
  | room + 1, ptr, left, optdeltas =>
    if 0 < left ∧ buf ptr ≠ 0xFF then
      match coapDeserializeOption buf ptr left optdeltas with
      | none => (none, [])
      | some (option, len) =>
        match coapDeserializeOptions buf room (ptr + len) (left - len) option.num with
        | (stop, options) => (stop, option :: options)
    else (some ptr, [])

def coapDeserializePayload (msg : CoapMessage ℕ) (buf : Memory) (ptr : ℕ) (buflen : ℤ) :
    CoapMessage ℕ :=
  if buf ptr = 0xFF then
    { msg with payloadlen := UInt16.ofNat ((buflen - 1) % 2 ^ 16).toNat, payload := some (ptr + 1) }
  else msg

/-- `CoAPDeserialize_Message` into `msg`: return value and message. -/
def coapDeserializeMessage (msg : CoapMessage ℕ) (buf : Memory) (buflen : ℤ) :
    ℤ × CoapMessage ℕ :=
  if buflen < 4 then (coapErrorInvalidLength, msg)
  else
    let header := coapDeserializeHeader buf
    let tokenlen := header.tokenlen.val
    let msg := { msg with
      header := header, token := coapDeserializeToken msg.token tokenlen buf 4 }
    if (tokenlen : ℤ) > buflen - 4 then (coapErrorInvalidLength, msg)
    else
      let ptr := 4 + tokenlen
      let remlen := buflen - 4 - tokenlen
      let (stop, options) := coapDeserializeOptions buf coapMsgMaxOptionNum ptr remlen 0
      let msg := { msg with options := options }
      match stop with
      | none => (coapErrorInvalidLength, msg)
      | some stop =>
        let count : ℤ := (stop : ℤ) - ptr
        if count > remlen then (coapErrorInvalidLength, msg)
        else (coapSuccess, coapDeserializePayload msg buf stop (remlen - count))

/-- A message of zeros, as both callers of the decoder pass it. -/
def zeroMessage : CoapMessage ℕ := ⟨⟨0, 0, 0, 0, 0⟩, fun _ => 0, [], 0, none⟩

end Iotkit.Coap
