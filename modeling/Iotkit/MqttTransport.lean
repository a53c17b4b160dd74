/-
# The transport under the MQTT client and the packet reader

`ipstack.read` and `ipstack.write` (`infra_net.c`) over an incoming byte stream,
`iotx_mc_send_packet`, `iotx_mc_decode_packet` and `iotx_mc_read_packet`
(`iotx_mqtt_client.c`).

What the network and the allocator do is an input of each function: a `ReadEvent`
for every read, a `WriteEvent` for every write, a flag for every allocation.  A
read returns all it was asked for, any shorter prefix (timeout), or an error.
-/
import Iotkit.MqttPacket

namespace Iotkit.Mqtt

/-! ## Reads and writes -/

/-- The incoming side of `ipstack`: whether its handle is valid, the bytes the peer
sends on this connection, and how many of them have been read. -/
structure Net where
  established : Bool
  bytes : Memory
  pos : ℕ

/-- What one `ipstack.read` does: everything asked for arrives, at most `k` bytes and
not all of them arrive before the timeout, or an error is reported. -/
inductive ReadEvent
  | full
  | short (k : ℕ)
  | error
  deriving DecidableEq

/-- The largest byte count an `int` return value can report. -/
def intMax : ℕ := 2 ^ 31 - 1

/-- How many bytes a read of `n` bytes takes from the stream. -/
def ReadEvent.count (n : ℕ) : ReadEvent → ℕ
  | full => min n intMax
  | short k => min k (min (n - 1) intMax)
  | error => 0

theorem ReadEvent.count_le (n : ℕ) (ev : ReadEvent) : ev.count n ≤ n := by
  cases ev <;> simp only [ReadEvent.count] <;> omega

/-- `ipstack.read` of `n` bytes: return value, bytes stored, stream afterwards.
On a handle that is not valid the HAL reports an error. -/
def ipstackRead (net : Net) (n : ℕ) (ev : ReadEvent) : ℤ × Bytes × Net :=
  if net.established = false ∨ ev = .error then (-1, [], net)
  else
    let m := ev.count n
    ((m : ℤ), memSlice net.bytes net.pos m, { net with pos := net.pos + m })

/-- A read that does not fail stores as many bytes as it reports, and no more than it
was asked for. -/
theorem length_ipstackRead (net : Net) (n : ℕ) (ev : ReadEvent) :
    (ipstackRead net n ev).2.1.length ≤ n ∧
      ((ipstackRead net n ev).1 < 0 ∧ (ipstackRead net n ev).2.1 = [] ∨
        (ipstackRead net n ev).1 = (ipstackRead net n ev).2.1.length) := by
  unfold ipstackRead
  split_ifs
  · exact ⟨Nat.zero_le _, Or.inl ⟨by simp, rfl⟩⟩
  · exact ⟨by simpa using ev.count_le n, Or.inr (by simp)⟩

/-- The checks of a body leave as many bytes as were asked for; an empty body is not checked, but
nothing is read for it either. -/
theorem length_body_of_checks {net : Net} {n : ℕ} {ev : ReadEvent}
    (herr : ¬ (0 < n ∧ (ipstackRead net n ev).1 < 0))
    (hshort : ¬ (0 < n ∧ (ipstackRead net n ev).1 ≠ n)) :
    (ipstackRead net n ev).2.1.length = n := by
  obtain ⟨hle, hcases⟩ := length_ipstackRead net n ev
  rcases Nat.eq_zero_or_pos n with rfl | hpos
  · exact Nat.le_zero.mp hle
  · rcases hcases with ⟨hneg, -⟩ | hcount
    · exact absurd ⟨hpos, hneg⟩ herr
    · have hall := not_not.mp (not_and.mp hshort hpos)
      omega

/-- What one `ipstack.write` does: some of the bytes are taken, or an error. -/
inductive WriteEvent
  | wrote (k : ℕ)
  | error
  deriving DecidableEq

/-- The loop of `iotx_mc_send_packet`: how much of `length` bytes is sent.  The list
of write outcomes ends when the timer expires. -/
def iotxMcSendPacketLoop (length : ℕ) : List WriteEvent → ℕ → ℕ
  | [], sent => sent
  | ev :: evs, sent =>
    if sent < length then
      match ev with
      | .error => sent
      | .wrote k => iotxMcSendPacketLoop length evs (sent + min k (length - sent))
    else sent

/-- The bytes of `buf` that `iotx_mc_send_packet` puts on the wire. -/
def sentBytes (buf : Bytes) (writes : List WriteEvent) : Bytes :=
  buf.take (iotxMcSendPacketLoop buf.length writes 0)

def iotxMcSendPacket (buf : Bytes) (writes : List WriteEvent) : ℤ :=
  if iotxMcSendPacketLoop buf.length writes 0 = buf.length then successReturn
  else mqttNetworkError

theorem sentBytes_of_success {buf : Bytes} {writes : List WriteEvent}
    (h : iotxMcSendPacket buf writes = successReturn) : sentBytes buf writes = buf := by
  unfold iotxMcSendPacket at h
  unfold sentBytes
  by_cases heq : iotxMcSendPacketLoop buf.length writes 0 = buf.length
  · rw [heq, List.take_length]
  · rw [if_neg heq] at h
    simp at h

/-! ## The packet reader -/

/-- The loop of `iotx_mc_decode_packet` with `left` length bytes still allowed. -/
def iotxMcDecodePacketLoop (reads : ℕ → ReadEvent) :
    ℕ → ℕ → ℕ → ℕ → Net → ℤ × ℕ × Net
  | 0, _, _, value, net => (mqttPacketReadError, value, net)
  | left + 1, len, multiplier, value, net =>
    match ipstackRead net 1 (reads len) with
    | (rc, i, net) =>
      if rc = 0 then (failReturn, value, net)
      else if rc ≠ 1 then (mqttNetworkError, value, net)
      else
        let c := i.headD 0
        let value := value + (c &&& 127).toNat * multiplier
        if c &&& 128 ≠ 0 then
          iotxMcDecodePacketLoop reads left (len + 1) (multiplier * 128) value net
        else ((len + 1 : ℕ), value, net)

/-- `iotx_mc_decode_packet`: return value, remaining length, stream afterwards. -/
def iotxMcDecodePacket (net : Net) (reads : ℕ → ReadEvent) : ℤ × ℕ × Net :=
  iotxMcDecodePacketLoop reads 4 0 1 0 net

/-- How a packet buffer is provided: allocated on demand up to a maximum
(`WITH_MQTT_DYN_BUF`), allocated once, or an array in a build without dynamic
memory. -/
inductive BufMode
  | dynBuf (bufSizeMax : ℕ)
  | fixedBuf (bufSize : ℕ)
  | staticBuf

/-- `IOTX_MC_RX_MAX_LEN` and `IOTX_MC_TX_MAX_LEN`. -/
def iotxMcRxMaxLen : ℕ := 512
def iotxMcTxMaxLen : ℕ := 512

/-- `MQTT_DYNBUF_RECV_MARGIN` and `MQTT_DYNBUF_SEND_MARGIN`. -/
def mqttDynbufRecvMargin : ℕ := 8
def mqttDynbufSendMargin : ℕ := 64

/-- The buffer size for `len` bytes with the given margin and static length. -/
def BufMode.size (margin maxLen len : ℕ) : BufMode → ℕ
  | dynBuf bufSizeMax => min (margin + len) bufSizeMax
  | fixedBuf bufSize => bufSize
  | staticBuf => maxLen

/-- The size `_alloc_recv_buffer` gives the read buffer for `len` bytes. -/
def BufMode.recvSize (m : BufMode) (len : ℕ) : ℕ :=
  m.size mqttDynbufRecvMargin iotxMcRxMaxLen len

/-- The size `_alloc_send_buffer` gives the send buffer for `len` bytes. -/
def BufMode.sendSize (m : BufMode) (len : ℕ) : ℕ :=
  m.size mqttDynbufSendMargin iotxMcTxMaxLen len

/-- `_alloc_recv_buffer` and `_alloc_send_buffer` fail only where they allocate. -/
def BufMode.allocFails (ok : Bool) : BufMode → Bool
  | dynBuf _ => !ok
  | fixedBuf _ => false
  | staticBuf => false

/-- Whether the buffer for the dropped part of an oversized packet can be had. -/
def BufMode.remainBufFails (ok : Bool) (remainDataLen : ℤ) : BufMode → Bool
  | dynBuf _ => !ok
  | fixedBuf _ => !ok
  | staticBuf => decide ((iotxMcRxMaxLen : ℤ) ≤ remainDataLen)

/-- What the network and the allocator do during one `iotx_mc_read_packet`: the two
`_alloc_recv_buffer` calls, the header read, the read of each length byte, the read
of the body, and for an oversized packet the read of the part that fits, the
allocation and the read of the part that is dropped. -/
structure ReadEnv where
  alloc0 : Bool
  header : ReadEvent
  length : ℕ → ReadEvent
  alloc1 : Bool
  body : ReadEvent
  head : ReadEvent
  allocRemain : Bool
  tail : ReadEvent

/-- Memory can be had and every read is served. -/
def ReadEnv.served : ReadEnv where
  alloc0 := true
  header := .full
  length := fun _ => .full
  alloc1 := true
  body := .full
  head := .full
  allocRemain := true
  tail := .full

/-- The outcome of `iotx_mc_read_packet`: return value, packet type, the packet as
it stands in the read buffer, the stream afterwards, and whether the buffer overflow
event was raised. -/
structure ReadResult where
  rc : ℤ
  packetType : ℕ := MsgType.reserved.code
  buf : Bytes := []
  net : Net
  overflow : Bool := false

/-- The branch of `iotx_mc_read_packet` for a packet that exceeds the read buffer:
what fits is read, the rest is read and dropped. -/
def iotxMcReadOversized (m : BufMode) (net : Net) (env : ReadEnv) (size len remLen : ℕ) :
    ReadResult :=
  let needReadLen : ℤ := (size : ℤ) - len
  -- the length argument of `ipstack.read` is a `uint32_t`
  let (rc, _, net) := ipstackRead net (needReadLen % 2 ^ 32).toNat env.head
  if rc < 0 then { rc := mqttNetworkError, net := net }
  else if rc ≠ needReadLen then { rc := failReturn, net := net }
  else
    let remainDataLen : ℤ := (remLen : ℤ) - needReadLen
    if m.remainBufFails env.allocRemain remainDataLen then { rc := failReturn, net := net }
    else
      let (rc, _, net) := ipstackRead net (remainDataLen % 2 ^ 32).toNat env.tail
      if rc < 0 then { rc := mqttNetworkError, net := net }
      else if rc ≠ remainDataLen then { rc := failReturn, net := net }
      else { rc := successReturn, net := net, overflow := true }

/-- The length of the fixed header that `iotx_mc_read_packet` puts back into the
buffer for a packet with remaining length `remLen`. -/
def fixedHeaderLen (remLen : ℕ) : ℕ := 1 + (mqttPacketEncode remLen).length

/-- `iotx_mc_read_packet` from the point where the remaining length is known: the
length is put back into the buffer behind the header byte, the buffer is grown, and
the rest of the packet is read. -/
def iotxMcReadRest (m : BufMode) (net : Net) (env : ReadEnv) (header : Bytes)
    (remLen : ℕ) : ReadResult :=
  let buf := header ++ mqttPacketEncode remLen
  let len := fixedHeaderLen remLen
  if m.allocFails env.alloc1 then { rc := failReturn, net := net }
  else
    let size := m.recvSize (remLen + len)
    if 0 < remLen ∧ size < remLen + len then iotxMcReadOversized m net env size len remLen
    else
      let (rc, body, net) := ipstackRead net remLen env.body
      if 0 < remLen ∧ rc < 0 then { rc := mqttNetworkError, net := net }
      else if 0 < remLen ∧ rc ≠ remLen then { rc := failReturn, net := net }
      else
        { rc := successReturn, packetType := mqttHeaderGetType (buf.headD 0),
          buf := buf ++ body, net := net }

def iotxMcReadPacket (m : BufMode) (net : Net) (env : ReadEnv) : ReadResult :=
  if m.allocFails env.alloc0 then { rc := failReturn, net := net }
  else
    let (rc, header, net) := ipstackRead net 1 env.header
    if rc = 0 then { rc := successReturn, net := net }
    else if rc ≠ 1 then { rc := mqttNetworkError, net := net }
    else
      let (rc, remLen, net) := iotxMcDecodePacket net env.length
      if rc < 0 then { rc := rc, net := net }
      else iotxMcReadRest m net env header remLen

end Iotkit.Mqtt
