/-
# MQTT packet primitives

The helpers of `MQTTPacket.c` and the (de)serializers built on them
(`MQTTSerializePublish.c`, `MQTTDeserializePublish.c`, `MQTTSubscribeClient.c`,
`MQTTUnsubscribeClient.c`, the acknowledgement half of `MQTTConnectClient.c`).

A serializer returns its C return value together with the bytes it wrote; a
deserializer reads a memory `buf : ℕ → UInt8` through offsets from the start of
the receive buffer and returns its out-parameters next to the return value.
-/
import Iotkit.InfraDefs
import Iotkit.VarLen

namespace Iotkit.Mqtt

/-! ## Fixed header -/

/-- `enum msgTypes`. -/
inductive MsgType
  | reserved | connect | connack | publish | puback | pubrec | pubrel | pubcomp
  | subscribe | suback | unsubscribe | unsuback | pingreq | pingresp | disconnect
  deriving DecidableEq, Repr

/-- The number an `enum msgTypes` constant stands for. -/
def MsgType.code : MsgType → ℕ
  | reserved => 0 | connect => 1 | connack => 2 | publish => 3 | puback => 4
  | pubrec => 5 | pubrel => 6 | pubcomp => 7 | subscribe => 8 | suback => 9
  | unsubscribe => 10 | unsuback => 11 | pingreq => 12 | pingresp => 13
  | disconnect => 14

def mqttHeaderGetType (head : UInt8) : ℕ := ((head &&& 0xF0) >>> 4).toNat

def mqttHeaderGetDup (head : UInt8) : ℕ := ((head &&& 0x08) >>> 3).toNat

def mqttHeaderGetQos (head : UInt8) : ℕ := ((head &&& 0x06) >>> 1).toNat

def mqttHeaderGetRetain (head : UInt8) : ℕ := (head &&& 0x01).toNat

/-- The header byte built by the four `MQTT_HEADER_SET_*` macros from zero. -/
def mqttHeaderSet (type : MsgType) (dup qos retain : ℕ) : UInt8 :=
  UInt8.ofNat (((type.code <<< 4) &&& 0xF0) ||| ((dup <<< 3) &&& 0x08)
    ||| ((qos <<< 1) &&& 0x06) ||| (retain &&& 0x01))

/-! ## Remaining length -/

def mqttPacketEncode (length : ℕ) : Bytes := VarLen.encode length

/-- The loop of `MQTTPacket_decode`, with `left` of the four length bytes still
allowed: the bytes taken so far, the multiplier and the value are its locals. -/
def mqttPacketDecodeLoop (buf : Memory) (p : ℕ) : ℕ → ℕ → ℕ → ℕ → ℕ × ℕ
  | 0, len, _, value => (len + 1, value)
  | left + 1, len, multiplier, value =>
    let c := buf (p + len)
    let value' := value + (c &&& 127).toNat * multiplier
    if c &&& 128 ≠ 0 then
      mqttPacketDecodeLoop buf p left (len + 1) (multiplier * 128) value'
    else (len + 1, value')

/-- `MQTTPacket_decodeBuf`: the returned number of bytes, and the value. -/
def mqttPacketDecodeBuf (buf : Memory) (p : ℕ) : ℕ × ℕ :=
  mqttPacketDecodeLoop buf p 4 0 1 0

def mqttPacketLen (remLen : ℕ) : ℕ :=
  let remLen := remLen + 1
  if remLen < 128 then remLen + 1
  else if remLen < 16384 then remLen + 2
  else if remLen < 2097151 then remLen + 3
  else remLen + 4

theorem toNat_and_127 (b : UInt8) : (b &&& 127).toNat = b.toNat % 128 := by
  rw [UInt8.toNat_and, show (127 : UInt8).toNat = 2 ^ 7 - 1 from rfl,
    Nat.and_two_pow_sub_one_eq_mod]

theorem and_128_ne_zero_iff (b : UInt8) : b &&& 128 ≠ 0 ↔ 128 ≤ b.toNat := by
  revert b
  decide +kernel

variable {buf : Memory}

/-- Decoding a well-formed length field of at most four bytes reads exactly that
field. -/
theorem mqttPacketDecodeLoop_eq {p : ℕ} :
    ∀ (bs : Bytes) (left len multiplier value : ℕ), VarLen.WellFormed bs →
      bs.length ≤ left → (∀ i (h : i < bs.length), buf (p + len + i) = bs[i]) →
      mqttPacketDecodeLoop buf p left len multiplier value
        = (len + bs.length, value + multiplier * VarLen.value bs) := by
  intro bs
  induction bs with
  | nil => intro left len multiplier value hwf; exact hwf.elim
  | cons b bs ih =>
    intro left len multiplier value hwf hleft hbuf
    obtain ⟨left, rfl⟩ : ∃ l, left = l + 1 := ⟨left - 1, by simp at hleft; omega⟩
    have hb : buf (p + len) = b := by
      have h0 := hbuf 0 (by simp)
      rw [List.getElem_cons_zero] at h0
      exact h0
    simp only [mqttPacketDecodeLoop, hb, toNat_and_127]
    cases bs with
    | nil =>
      have hlt : ¬ (b &&& 128 ≠ 0) := by
        rw [and_128_ne_zero_iff]
        exact Nat.not_le.mpr hwf
      rw [if_neg hlt]
      simp [VarLen.value, Nat.mul_comm]
    | cons c cs =>
      have hge : b &&& 128 ≠ 0 := (and_128_ne_zero_iff b).mpr hwf.1
      rw [if_pos hge, ih left (len + 1) (multiplier * 128) _ hwf.2
        (by simp at hleft ⊢; omega) (fun i hi => ?_)]
      · simp only [List.length_cons, VarLen.value]
        refine Prod.ext ?_ ?_
        · simp; omega
        · simp; ring
      · have := hbuf (i + 1) (by simpa using hi)
        rw [show p + (len + 1) + i = p + len + (i + 1) by omega, this]
        simp

theorem mqttPacketDecodeBuf_encode {p n : ℕ} (hn : n < 128 ^ 4)
    (hbuf : ∀ i (h : i < (mqttPacketEncode n).length), buf (p + i) = (mqttPacketEncode n)[i]) :
    mqttPacketDecodeBuf buf p = ((mqttPacketEncode n).length, n) := by
  unfold mqttPacketDecodeBuf
  rw [mqttPacketDecodeLoop_eq (mqttPacketEncode n) 4 0 1 0 (VarLen.wellFormed_encode n)
    (VarLen.length_encode_le 3 n hn) (by simpa using hbuf)]
  simp [mqttPacketEncode, VarLen.value_encode]

theorem length_encode_le_mqttPacketLen (remLen : ℕ) (h : remLen < 128 ^ 4) :
    1 + (mqttPacketEncode remLen).length + remLen ≤ mqttPacketLen remLen := by
  have h1 := VarLen.length_encode_le 0 remLen
  have h2 := VarLen.length_encode_le 1 remLen
  have h3 := VarLen.length_encode_le 2 remLen
  have h4 := VarLen.length_encode_le 3 remLen
  simp only [mqttPacketLen, mqttPacketEncode]
  norm_num at h h1 h2 h3 h4
  split_ifs <;> omega

/-! ## Integers and strings -/

/-- `readInt`: two bytes, most significant first. -/
def readInt (buf : Memory) (p : ℕ) : ℕ := 256 * (buf p).toNat + (buf (p + 1)).toNat

def writeInt (anInt : ℕ) : Bytes := [UInt8.ofNat (anInt / 256), UInt8.ofNat (anInt % 256)]

theorem readInt_writeInt {p n : ℕ} (h : HoldsAt buf p (writeInt n)) (hn : n < 2 ^ 16) :
    readInt buf p = n := by
  rw [writeInt, holdsAt_cons, holdsAt_cons] at h
  rw [readInt, h.1, h.2.1, UInt8.toNat_ofNat', UInt8.toNat_ofNat']
  omega

def writeCString (string : CString) : Bytes := writeInt string.strlen ++ string.bytes

/-- `MQTTString`: a C string if there is one, else a length-delimited one. -/
structure MqttString where
  cstring : Option CString
  lenstring : Bytes

/-- `MQTTPacket_equals` without topic compression. -/
def mqttPacketEquals (a : MqttString) (b : CString) : Bool :=
  let aptr := match a.cstring with
    | some s => s.bytes
    | none => a.lenstring
  aptr.length = b.strlen && aptr = b.bytes

/-! ## Serializers -/

def mqttSerializePublishLength (qos : ℕ) (topicName : CString) (payloadlen : ℕ) : ℕ :=
  let len := 2 + topicName.strlen + payloadlen
  if 0 < qos then len + 2 else len

/-- `MQTTSerialize_publish` into a buffer of `buflen` bytes. -/
def mqttSerializePublish (buflen dup qos retained packetid : ℕ) (topicName : CString)
    (payload : Bytes) : ℤ × Bytes :=
  let remLen := mqttSerializePublishLength qos topicName payload.length
  if mqttPacketLen remLen > buflen then (mqttPacketBufferTooShort, [])
  else
    let bytes := mqttHeaderSet .publish dup qos retained :: mqttPacketEncode remLen
      ++ writeCString topicName ++ (if 0 < qos then writeInt packetid else []) ++ payload
    (bytes.length, bytes)

def mqttSerializeAck (buflen : ℕ) (type : MsgType) (dup packetid : ℕ) : ℤ × Bytes :=
  if buflen < 4 then (mqttPacketBufferTooShort, [])
  else
    let bytes := mqttHeaderSet type dup (if type = .pubrel then 1 else 0) 0
      :: mqttPacketEncode 2 ++ writeInt packetid
    (bytes.length, bytes)

/-- `MQTTSerialize_subscribe` for one topic filter. -/
def mqttSerializeSubscribe (buflen dup packetid : ℕ) (topicFilter : CString)
    (requestedQos : ℕ) : ℤ × Bytes :=
  let remLen := 2 + (2 + topicFilter.strlen + 1)
  if mqttPacketLen remLen > buflen then (mqttPacketBufferTooShort, [])
  else
    let bytes := mqttHeaderSet .subscribe dup 1 0 :: mqttPacketEncode remLen
      ++ writeInt packetid ++ writeCString topicFilter ++ [UInt8.ofNat requestedQos]
    (bytes.length, bytes)

/-- `MQTTSerialize_unsubscribe` for one topic filter. -/
def mqttSerializeUnsubscribe (buflen dup packetid : ℕ) (topicFilter : CString) :
    ℤ × Bytes :=
  let remLen := 2 + (2 + topicFilter.strlen)
  if mqttPacketLen remLen > buflen then (mqttPacketBufferTooShort, [])
  else
    let bytes := mqttHeaderSet .unsubscribe dup 1 0 :: mqttPacketEncode remLen
      ++ writeInt packetid ++ writeCString topicFilter
    (bytes.length, bytes)

def mqttSerializeZero (buflen : ℕ) (type : MsgType) : ℤ × Bytes :=
  if buflen < 2 then (mqttPacketBufferTooShort, [])
  else
    let bytes := mqttHeaderSet type 0 0 0 :: mqttPacketEncode 0
    (bytes.length, bytes)

/-! ## Deserializers -/

/-- What `MQTTDeserialize_publish` leaves behind: its return value and its
out-parameters, which the caller zeroed beforehand.  Pointers are offsets into the
receive buffer; `topicData` is `none` while the topic pointer is still `NULL`. -/
structure PublishFields where
  rc : ℤ := 0
  dup : ℕ := 0
  qos : ℕ := 0
  retained : ℕ := 0
  packetid : ℕ := 0
  topicLen : ℕ := 0
  topicData : Option ℕ := none
  payload : ℕ := 0
  payloadlen : ℤ := 0

def mqttDeserializePublish (buf : Memory) : PublishFields :=
  let header := buf 0
  if mqttHeaderGetType header ≠ MsgType.publish.code then {}
  else
    let fields : PublishFields :=
      { dup := mqttHeaderGetDup header, qos := mqttHeaderGetQos header,
        retained := mqttHeaderGetRetain header }
    let (n, mylen) := mqttPacketDecodeBuf buf 1
    let curdata := 1 + n
    let enddata := curdata + mylen
    -- `rc` holds the number of length bytes until the topic has been read
    if ¬ (enddata - curdata > 1) then { fields with rc := n }
    else
      let topicLen := readInt buf curdata
      let curdata := curdata + 2
      if ¬ (curdata + topicLen ≤ enddata) then { fields with rc := n, topicLen := topicLen }
      else
        let topicData := curdata
        let curdata := curdata + topicLen
        let packetid := if 0 < fields.qos then readInt buf curdata else 0
        let curdata := if 0 < fields.qos then curdata + 2 else curdata
        { fields with
          rc := 1, topicLen := topicLen, topicData := some topicData,
          packetid := packetid, payload := curdata,
          payloadlen := (enddata : ℤ) - curdata }

/-- `MQTTDeserialize_ack`: the return value, the packet type and the packet id.
`mypacketid` is what the caller's variable holds before the call. -/
def mqttDeserializeAck (buf : Memory) (mypacketid : ℕ) : ℤ × ℕ × ℕ :=
  let header := buf 0
  let (n, mylen) := mqttPacketDecodeBuf buf 1
  -- on a short packet `rc` still holds the number of length bytes
  if mylen < 2 then ((n : ℤ), mqttHeaderGetType header, mypacketid)
  else (1, mqttHeaderGetType header, readInt buf (1 + n))

def mqttDeserializeUnsuback (buf : Memory) (mypacketid : ℕ) : ℤ × ℕ :=
  let (rc, type, packetid) := mqttDeserializeAck buf mypacketid
  (if type = MsgType.unsuback.code then 1 else rc, packetid)

/-- `MQTTDeserialize_suback`: the return value, the packet id and the granted
return codes (`count` of them); both out-parameters keep what they held before on
an early exit. -/
def mqttDeserializeSuback (buf : Memory) (maxcount mypacketid : ℕ) : ℤ × ℕ × Bytes :=
  let header := buf 0
  if mqttHeaderGetType header ≠ MsgType.suback.code then (0, mypacketid, [])
  else
    let (n, mylen) := mqttPacketDecodeBuf buf 1
    if mylen < 2 then ((n : ℤ), mypacketid, [])
    else
      let packetid := readInt buf (1 + n)
      let granted := memSlice buf (1 + n + 2) (mylen - 2)
      if granted.length > maxcount then (-1, packetid, granted.take maxcount)
      else (1, packetid, granted)

/-- `MQTTDeserialize_connack`: the return value and the CONNACK return code, which
the caller preset to 255. -/
def mqttDeserializeConnack (buf : Memory) : ℤ × ℕ :=
  let header := buf 0
  if mqttHeaderGetType header ≠ MsgType.connack.code then (0, 255)
  else
    let (n, mylen) := mqttPacketDecodeBuf buf 1
    if mylen < 2 then ((n : ℤ), 255)
    else (1, (buf (1 + n + 1)).toNat)

end Iotkit.Mqtt
