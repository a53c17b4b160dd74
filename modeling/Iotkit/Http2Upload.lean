/-
# File upload over HTTP/2 (`http2_upload_api.c`, `http2_api.c`)

A file is sent from the offset that the server asks for, in parts that are HTTP/2 requests of their
own, and a part in packets of `FS_UPLOAD_PACKET_LEN` bytes.  The size of the file is an `int`; the
offset and the end of the upload are computed with 32 bits, and the end may come around.
-/
import Iotkit.LibC
import Iotkit.InfraDefs

namespace Iotkit.Http2

open LibC List

/-! ## What the upload finds around it -/

def fsUploadPacketLen : ℕ := 10240
def fsUploadPartLen : ℕ := 1024 * 1024 * 4

abbrev uploadFileNotExist : ℤ := -9
abbrev uploadFileReadFailed : ℤ := -8
abbrev uploadStreamOpenFailed : ℤ := -7
abbrev uploadStreamSendFailed : ℤ := -6
abbrev uploadMallocFailed : ℤ := -5
abbrev uploadErrorCommon : ℤ := -1
abbrev uploadStopByIoctl : ℤ := -14
abbrev uploadSuccess : ℤ := 0

/-- The value of a `uint32_t` expression. -/
def toUInt32 (x : ℤ) : ℕ := (x % 2 ^ 32).toNat

/-- How `IOT_HTTP2_Stream_Send` fares: whether the window opens in time, the headers can be
allocated and the stream is entered in the list; what `iotx_http2_client_send` and the wait for
the response return, and whether the status of the response is 200. -/
structure SendEnv where
  window : Bool
  nva : Bool
  node : Bool
  rv : ℤ
  waited : ℤ
  status200 : Bool

/-- How the upload fares: what the server answers to the opening, whether there is memory for a
packet, what stands in it, and, for each packet, whether the connection and the file are there,
how it is sent and whether the user asks to stop after it.  `unset` is the value of a result that
nothing was assigned to. -/
structure UploadEnv where
  streamOpen : ℤ
  uploadId : Bool
  fsOffset : Int32
  malloc : Bool
  buffer : Memory
  initState : ℕ → Bool
  opened : ℕ → Bool
  send : ℕ → SendEnv
  ifStop : ℕ → Bool
  unset : ℤ

/-- The lengths of an `http2_file_stream_t`. -/
structure FileStream where
  specLen : UInt32
  partLen : UInt32

/-- A packet that is passed to `IOT_HTTP2_Stream_Send`: the length that it announces, its bytes,
and whether it ends the stream. -/
structure SentPacket where
  contentLength : Option ℕ
  data : Bytes
  endStream : Bool
  deriving DecidableEq

/-! ## Sending a packet -/

/-- `IOT_HTTP2_Stream_Send`: what it returns, the new `send_len`, and the packet. -/
def iotHttp2StreamSend (env : SendEnv) (buffer : Memory) (streamLen sendLen packetLen : ℕ) :
    ℤ × ℕ × SentPacket :=
  let packet : SentPacket :=
    { contentLength := if sendLen = 0 then some streamLen else none
      data := (List.range packetLen).map buffer
      endStream := toUInt32 (packetLen + sendLen) = streamLen }
  let sent := toUInt32 (sendLen + packetLen)
  if streamLen = 0 ∨ packetLen = 0 then (failReturn, sendLen, packet)
  else if env.window = false ∨ (sendLen = 0 ∧ env.nva = false) then (failReturn, sendLen, packet)
  else if env.rv < 0 ∨ (sendLen = 0 ∧ env.node = false) then (failReturn, sendLen, packet)
  else if packet.endStream then
    if env.node = false ∨ env.waited < 0 ∨ env.status200 = false then (failReturn, sent, packet)
    else (env.waited, sent, packet)
  else (env.rv, sent, packet)

/-- `HAL_Fread` of `len` bytes from an offset: the bytes that are present are read. -/
def readInto (buffer : Memory) (file : Bytes) (offset len : ℕ) : ℕ → UInt8 :=
  fun i => if i < len then file.getD (offset + i) (buffer i) else buffer i

/-- `http2_stream_get_file_data`; the offset is an `int`, and what was read is not looked at. -/
def http2StreamGetFileData (opened : Bool) (file : Bytes) (buffer : Memory) (len : ℕ)
    (offset : ℤ) : ℤ × Memory :=
  if opened = false then (-1, buffer)
  else if offset < 0 then (-1, buffer)
  else (len, readInto buffer file offset.toNat len)

/-- Where `_http2_fs_part_send_sync` stands: `count` packets of the upload were sent before, and
`packets` are those of the part. -/
structure PartState where
  sendLen : ℕ
  buffer : Memory
  count : ℕ
  packets : List SentPacket

/-- One pass of the loop of `_http2_fs_part_send_sync`, and whether it leaves the loop. -/
def sendPacket (env : UploadEnv) (file : Bytes) (fileOffset streamLen : ℕ) (st : PartState) :
    ℤ × PartState × Bool :=
  if env.initState st.count = false then (uploadErrorCommon, st, true)
  else
    match http2StreamGetFileData (env.opened st.count) file st.buffer fsUploadPacketLen
        (toInt32 (toUInt32 (st.sendLen + fileOffset))) with
    | (res, buffer) =>
      if res ≤ 0 then (uploadFileReadFailed, { st with buffer := buffer }, true)
      else
        let packetLen := if streamLen - st.sendLen < res.toNat then streamLen - st.sendLen else res.toNat
        match iotHttp2StreamSend (env.send st.count) buffer streamLen st.sendLen packetLen with
        | (res, sendLen, packet) =>
          let st' : PartState := ⟨sendLen, buffer, st.count + 1, st.packets ++ [packet]⟩
          if res < 0 then (uploadStreamSendFailed, st', true)
          else if env.ifStop st.count = true then (uploadStopByIoctl, st', true)
          else (successReturn, st', false)

/-- The loop of `_http2_fs_part_send_sync`. -/
def partLoop (env : UploadEnv) (file : Bytes) (fileOffset streamLen : ℕ) :
    ℕ → ℤ → PartState → Option (ℤ × PartState)
  | 0, _, _ => none
  | fuel + 1, res, st =>
    if st.sendLen < streamLen then
      match sendPacket env file fileOffset streamLen st with
      | (res, st, true) => some (res, st)
      | (res, st, false) => partLoop env file fileOffset streamLen fuel res st
    else some (res, st)

/-! ## The upload -/

/-- `http2_stream_get_file_size` of a file that is there. -/
def http2StreamGetFileSize (file : Bytes) : ℤ := toInt32 file.length

def http2FsOpenChannel (env : UploadEnv) : ℤ :=
  if env.streamOpen < 0 ∨ env.fsOffset.toInt = -1 ∨ env.uploadId = false then uploadStreamOpenFailed
  else successReturn

variable (node : FileStream)

def uploadLen (fsOffset filesize : ℤ) : ℤ :=
  if node.specLen ≠ 0 ∧ toUInt32 (node.specLen.toNat + fsOffset) < toUInt32 filesize then
    toInt32 (toUInt32 (node.specLen.toNat + fsOffset))
  else filesize

/-- `part_len`. -/
def effectivePartLen : ℕ :=
  if node.partLen.toNat < 1024 * 100 ∨ 1024 * 1024 * 100 < node.partLen.toNat then fsUploadPartLen
  else node.partLen.toNat

/-- The loop of `_http2_fs_node_handle`: the last result, and the packets of the parts. -/
def partsLoop (env : UploadEnv) (file : Bytes) (uploadLen : ℤ) (partLen bound : ℕ) :
    ℕ → ℕ → Memory → ℕ → List (List SentPacket) → Option (ℤ × List (List SentPacket))
  | 0, _, _, _, _ => none
  | fuel + 1, fileOffset, buffer, count, parts =>
    let left := toUInt32 (uploadLen - fileOffset)
    let len := if left < partLen then left else partLen
    match partLoop env file fileOffset len bound env.unset ⟨0, buffer, count, []⟩ with
    | none => none
    | some (res, st) =>
      if res < 0 then some (res, parts ++ [st.packets])
      else
        let fileOffset := toUInt32 (fileOffset + len)
        if fileOffset < toUInt32 uploadLen then
          partsLoop env file uploadLen partLen bound fuel fileOffset st.buffer st.count
            (parts ++ [st.packets])
        else some (res, parts ++ [st.packets])

/-- The results that `end_cb` is called with, and the packets of the parts. -/
structure UploadResult where
  endCb : List ℤ
  parts : List (List SentPacket)
  deriving DecidableEq

/-- `_http2_fs_node_handle` of a node with an `end_cb`, when the loops make `fuel` passes at
most. -/
def http2FsNodeHandle (env : UploadEnv) (file : Bytes) (node : FileStream) (fuel : ℕ) :
    Option UploadResult :=
  let filesize := http2StreamGetFileSize file
  if filesize ≤ 0 then some ⟨[uploadFileNotExist], []⟩
  else if http2FsOpenChannel env < successReturn then some ⟨[http2FsOpenChannel env], []⟩
  else if env.malloc = false then some ⟨[uploadMallocFailed], []⟩
  else
    match partsLoop env file (uploadLen node env.fsOffset.toInt filesize) (effectivePartLen node)
        fuel fuel (toUInt32 env.fsOffset.toInt) env.buffer 0 [] with
    | none => none
    | some (res, parts) => some ⟨[if res < 0 then res else uploadSuccess], parts⟩

/-! ## The bytes that are asked for -/

def bytesOf (packets : List SentPacket) : Bytes := packets.flatMap (·.data)

/-- The first packet of a part announces the number of its bytes, the last one and no other ends
the stream, and the part is not too long. -/
structure PartOk (maxLen : ℕ) (part : List SentPacket) : Prop where
  announced : part.map (·.contentLength) =
    some (bytesOf part).length :: List.replicate (part.length - 1) none
  ended : part.map (·.endStream) = List.replicate (part.length - 1) false ++ [true]
  bounded : (bytesOf part).length ≤ maxLen

def requestedEnd (offset size : ℕ) : ℕ :=
  if node.specLen ≠ 0 ∧ offset + node.specLen.toNat < size then offset + node.specLen.toNat else size

/-- The bytes of the file from the offset to the end are sent in order in parts, and `end_cb` is
called once, with success. -/
structure Covers (file : Bytes) (node : FileStream) (offset : ℕ) (r : UploadResult) :
    Prop where
  bytes : r.parts.flatMap bytesOf = (file.take (requestedEnd node offset file.length)).drop offset
  parts : ∀ part ∈ r.parts, PartOk (effectivePartLen node) part
  endCb : r.endCb = [uploadSuccess]

/-- Every send succeeds with status 200. -/
def SendEnv.Succeeds (env : SendEnv) : Prop :=
  env.window = true ∧ env.nva = true ∧ env.node = true ∧ 0 ≤ env.rv ∧ 0 ≤ env.waited ∧
    env.status200 = true

/-- Nothing fails, the file can be opened, and the user does not ask to stop. -/
structure UploadEnv.Undisturbed (env : UploadEnv) : Prop where
  streamOpen : 0 ≤ env.streamOpen
  uploadId : env.uploadId = true
  malloc : env.malloc = true
  initState : ∀ n, env.initState n = true
  opened : ∀ n, env.opened n = true
  send : ∀ n, (env.send n).Succeeds
  ifStop : ∀ n, env.ifStop n = false

/-- The size of the file is an `int`, and the end of the upload does not come around, or the
file ends one part after the offset; or the size comes around, but its value is positive and
behind the end that is asked for, or one part is asked for that starts behind it and can be
read. -/
def Uploads (file : Bytes) (node : FileStream) (offset : ℕ) : Prop :=
  if file.length < 2 ^ 31 then
    offset + node.specLen.toNat < 2 ^ 32 ∨ file.length = offset + effectivePartLen node
  else
    0 < toInt32 file.length ∧ node.specLen ≠ 0 ∧
      ((offset + node.specLen.toNat : ℤ) ≤ toInt32 file.length ∨
        (toInt32 file.length < offset ∧ node.specLen.toNat = effectivePartLen node ∧
          ∀ i, i * fsUploadPacketLen < effectivePartLen node →
            offset + i * fsUploadPacketLen < 2 ^ 31))

/-! ## One part -/

theorem toUInt32_of_lt {x : ℕ} (h : x < 2 ^ 32) : toUInt32 x = x := by
  unfold toUInt32
  omega

theorem length_map_range (f : Memory) (n : ℕ) : ((List.range n).map f).length = n := by simp

theorem map_readInto {buffer : Memory} {file : Bytes} {offset len n : ℕ} (hn : n ≤ len)
    (hfile : offset + n ≤ file.length) :
    (List.range n).map (readInto buffer file offset len) = (file.drop offset).take n := by
  refine ext_getElem (by simp; omega) fun i hi hi' => ?_
  have hlt : i < n := by simpa using hi
  rw [getElem_map, getElem_range, getElem_take, getElem_drop]
  simp only [readInto, if_pos (hlt.trans_le hn)]
  exact getD_eq_getElem _ _ (by omega)

theorem iotHttp2StreamSend_of_succeeds {env : SendEnv} (h : env.Succeeds) (buffer : Memory)
    {streamLen sendLen packetLen : ℕ} (hpacket : 0 < packetLen)
    (hle : sendLen + packetLen ≤ streamLen) (hlt : streamLen < 2 ^ 32) :
    ∃ ret, 0 ≤ ret ∧ iotHttp2StreamSend env buffer streamLen sendLen packetLen =
      (ret, sendLen + packetLen,
        ⟨if sendLen = 0 then some streamLen else none, (List.range packetLen).map buffer,
          decide (sendLen + packetLen = streamLen)⟩) := by
  obtain ⟨hwindow, hnva, hnode, hrv, hwaited, hstatus⟩ := h
  have hsum : toUInt32 (packetLen + sendLen) = sendLen + packetLen := by
    unfold toUInt32
    omega
  have hsum' : toUInt32 (sendLen + packetLen) = sendLen + packetLen := by
    unfold toUInt32
    omega
  by_cases hend : sendLen + packetLen = streamLen
  · refine ⟨env.waited, hwaited, ?_⟩
    simp [iotHttp2StreamSend, hsum, hsum', hwindow, hnva, hnode, hstatus, not_lt.mpr hrv,
      not_lt.mpr hwaited, hpacket.ne', show streamLen ≠ 0 by omega, hend]
  · refine ⟨env.rv, hrv, ?_⟩
    simp [iotHttp2StreamSend, hsum, hsum', hwindow, hnva, hnode, not_lt.mpr hrv,
      hpacket.ne', show streamLen ≠ 0 by omega, hend]

/-- The packets of a part from the byte `sendLen` of it on. -/
structure Covering (file : Bytes) (fileOffset streamLen sendLen : ℕ)
    (packets : List SentPacket) : Prop where
  announced : packets.map (·.contentLength) =
    (if sendLen = 0 then some streamLen else none) :: List.replicate (packets.length - 1) none
  ended : packets.map (·.endStream) = List.replicate (packets.length - 1) false ++ [true]
  length : (bytesOf packets).length = streamLen - sendLen
  bytes : fileOffset + streamLen ≤ file.length →
    bytesOf packets = (file.drop (fileOffset + sendLen)).take (streamLen - sendLen)

/-- A packet of a part from which bytes are left. -/
theorem Covering.cons {file : Bytes} {fileOffset streamLen sendLen len : ℕ}
    {packets : List SentPacket} {data : Bytes} (hpos : 0 < len)
    (h : Covering file fileOffset streamLen (sendLen + len) packets)
    (hlt : sendLen + len < streamLen) (hlength : data.length = len)
    (hdata : fileOffset + streamLen ≤ file.length →
      data = (file.drop (fileOffset + sendLen)).take len) :
    Covering file fileOffset streamLen sendLen
      (⟨if sendLen = 0 then some streamLen else none, data, false⟩ :: packets) := by
  have hne : packets ≠ [] := by
    rintro rfl
    simpa using h.ended
  obtain ⟨count, hcount⟩ : ∃ count, packets.length = count + 1 :=
    Nat.exists_eq_succ_of_ne_zero (length_pos_iff.mpr hne).ne'
  refine ⟨?_, ?_, ?_, fun hfile => ?_⟩
  · rw [map_cons, h.announced, if_neg (show sendLen + len ≠ 0 by omega)]
    simp [hcount, replicate_succ]
  · rw [map_cons, h.ended]
    simp [hcount, replicate_succ]
  · rw [bytesOf, flatMap_cons, length_append, hlength]
    show len + (bytesOf packets).length = _
    rw [h.length]
    omega
  · rw [bytesOf, flatMap_cons]
    show data ++ bytesOf packets = _
    rw [hdata hfile, h.bytes hfile, show streamLen - sendLen = len + (streamLen - (sendLen + len)) by
      omega, take_add, drop_drop, Nat.add_assoc]

theorem Covering.last {file : Bytes} {fileOffset streamLen sendLen : ℕ} (data : Bytes)
    (hlength : data.length = streamLen - sendLen)
    (hdata : fileOffset + streamLen ≤ file.length →
      data = (file.drop (fileOffset + sendLen)).take (streamLen - sendLen)) :
    Covering file fileOffset streamLen sendLen
      [⟨if sendLen = 0 then some streamLen else none, data, true⟩] :=
  ⟨rfl, rfl, by simpa [bytesOf] using hlength, fun hfile => by simpa [bytesOf] using hdata hfile⟩

variable {env : UploadEnv} (file : Bytes) {fileOffset streamLen : ℕ}

/-- One pass whose offset is an `int` sends a packet. -/
theorem sendPacket_of_undisturbed (henv : env.Undisturbed) {st : PartState}
    (hlt : st.sendLen < streamLen) (hstream : streamLen < 2 ^ 31)
    (hoffset : fileOffset + st.sendLen < 2 ^ 31) :
    ∃ buffer, sendPacket env file fileOffset streamLen st =
      (0, ⟨st.sendLen + min fsUploadPacketLen (streamLen - st.sendLen), buffer, st.count + 1,
        st.packets ++ [⟨if st.sendLen = 0 then some streamLen else none,
            (List.range (min fsUploadPacketLen (streamLen - st.sendLen))).map
              (readInto st.buffer file (fileOffset + st.sendLen) fsUploadPacketLen),
            decide (st.sendLen + min fsUploadPacketLen (streamLen - st.sendLen) = streamLen)⟩]⟩,
        false) := by
  have hadd : toInt32 (toUInt32 (st.sendLen + fileOffset)) = (fileOffset + st.sendLen : ℕ) := by
    have hsum : toUInt32 (st.sendLen + fileOffset) = fileOffset + st.sendLen := by
      unfold toUInt32
      omega
    rw [hsum]
    exact toInt32_of_bounds (by omega) (by omega)
  have hread : http2StreamGetFileData (env.opened st.count) file st.buffer fsUploadPacketLen
      (toInt32 (toUInt32 (st.sendLen + fileOffset))) =
        ((fsUploadPacketLen : ℤ), readInto st.buffer file (fileOffset + st.sendLen)
          fsUploadPacketLen) := by
    rw [hadd]
    simp only [http2StreamGetFileData, henv.opened, Bool.true_eq_false, if_false,
      if_neg (show ¬ ((fileOffset + st.sendLen : ℕ) : ℤ) < 0 by omega), Int.toNat_natCast]
  have hlen : (if streamLen - st.sendLen < ((fsUploadPacketLen : ℕ) : ℤ).toNat then
      streamLen - st.sendLen else ((fsUploadPacketLen : ℕ) : ℤ).toNat) =
        min fsUploadPacketLen (streamLen - st.sendLen) := by
    rw [Int.toNat_natCast]
    split_ifs <;> omega
  have hpos : 0 < min fsUploadPacketLen (streamLen - st.sendLen) := by
    have : 0 < fsUploadPacketLen := by decide
    omega
  obtain ⟨ret, hret, hsend⟩ := iotHttp2StreamSend_of_succeeds (henv.send st.count)
    (readInto st.buffer file (fileOffset + st.sendLen) fsUploadPacketLen) hpos
    (show st.sendLen + min fsUploadPacketLen (streamLen - st.sendLen) ≤ streamLen by omega)
    (show streamLen < 2 ^ 32 by omega)
  refine ⟨readInto st.buffer file (fileOffset + st.sendLen) fsUploadPacketLen, ?_⟩
  rw [sendPacket, henv.initState, hread]
  simp only [Bool.true_eq_false, if_false, hlen, hsend, henv.ifStop, Bool.false_eq_true,
    not_lt.mpr hret]
  rw [if_neg (by decide)]

theorem sendPacket_fails (streamLen : ℕ) (henv : env.Undisturbed) {st : PartState}
    (hoffset : 2 ^ 31 ≤ fileOffset + st.sendLen) (hlt : fileOffset + st.sendLen < 2 ^ 32) :
    ∃ st', sendPacket env file fileOffset streamLen st = (uploadFileReadFailed, st', true) := by
  have hneg : toInt32 (toUInt32 (st.sendLen + fileOffset)) < 0 := by
    have hsum : toUInt32 (st.sendLen + fileOffset) = fileOffset + st.sendLen := by
      unfold toUInt32
      omega
    rw [hsum, toInt32, Int.bmod_def]
    omega
  refine ⟨{ st with buffer := st.buffer }, ?_⟩
  simp only [sendPacket, henv.initState, http2StreamGetFileData, henv.opened, if_pos hneg,
    Bool.true_eq_false, if_false]
  rw [if_pos (by decide)]

/-- **One part.**  The rest of a part is sent in packets. -/
theorem partLoop_of_undisturbed (henv : env.Undisturbed) (hstream : streamLen < 2 ^ 31)
    (hoffset : ∀ i, i * fsUploadPacketLen < streamLen → fileOffset + i * fsUploadPacketLen < 2 ^ 31)
    (fuel : ℕ) (res : ℤ) (st : PartState) (i : ℕ) (hst : st.sendLen = i * fsUploadPacketLen)
    (hlt : st.sendLen < streamLen) (hfuel : streamLen - st.sendLen < fuel) :
    ∃ packets buffer count, partLoop env file fileOffset streamLen fuel res st =
        some (0, ⟨streamLen, buffer, count, st.packets ++ packets⟩) ∧
      Covering file fileOffset streamLen st.sendLen packets := by
  induction fuel generalizing res st i with
  | zero => omega
  | succ fuel ih =>
    have hpacket : 0 < fsUploadPacketLen := by decide
    obtain ⟨buffer, hpass⟩ := sendPacket_of_undisturbed file henv hlt hstream
      (hst ▸ hoffset i (hst ▸ hlt))
    set len := min fsUploadPacketLen (streamLen - st.sendLen) with hlen
    have hdata : fileOffset + streamLen ≤ file.length →
        (List.range len).map (readInto st.buffer file (fileOffset + st.sendLen) fsUploadPacketLen) =
          (file.drop (fileOffset + st.sendLen)).take len :=
      fun hfile => map_readInto (by omega) (by omega)
    rw [partLoop, if_pos hlt, hpass]
    by_cases hend : st.sendLen + len = streamLen
    · obtain ⟨rest, rfl⟩ : ∃ rest, fuel = rest + 1 := ⟨fuel - 1, by omega⟩
      refine ⟨_, buffer, st.count + 1, ?_, Covering.last ((List.range len).map
        (readInto st.buffer file (fileOffset + st.sendLen) fsUploadPacketLen)) ?_ ?_⟩
      · simp only [partLoop, hend, lt_irrefl, if_false, decide_true]
      · rw [length_map_range]
        omega
      · rw [show streamLen - st.sendLen = len by omega]
        exact hdata
    -- a whole packet was sent
    · have hwhole : len = fsUploadPacketLen := by omega
      obtain ⟨packets, buffer', count, hloop, hcovering⟩ := ih 0
        ⟨st.sendLen + len, buffer, st.count + 1, st.packets ++
          [⟨if st.sendLen = 0 then some streamLen else none,
            (List.range len).map
              (readInto st.buffer file (fileOffset + st.sendLen) fsUploadPacketLen),
            decide (st.sendLen + len = streamLen)⟩]⟩ (i + 1)
        (by dsimp only; rw [hst, hwhole, Nat.succ_mul]) (by dsimp only; omega)
        (by dsimp only; omega)
      refine ⟨_, buffer', count, ?_, hcovering.cons (by omega) (by omega) (length_map_range _ _)
        hdata⟩
      dsimp only
      rw [hloop, append_assoc, decide_eq_false hend]
      rfl

/-- A part with a packet whose offset is no `int` fails. -/
theorem partLoop_fails (henv : env.Undisturbed) (hstream : streamLen < 2 ^ 31)
    (hlast : fileOffset + streamLen < 2 ^ 32) {j : ℕ} (hj : j * fsUploadPacketLen < streamLen)
    (hbad : 2 ^ 31 ≤ fileOffset + j * fsUploadPacketLen) (fuel : ℕ) (res : ℤ) (st : PartState)
    (i : ℕ) (hst : st.sendLen = i * fsUploadPacketLen) (hi : i ≤ j)
    (hfuel : streamLen - st.sendLen < fuel) :
    ∃ st', partLoop env file fileOffset streamLen fuel res st =
      some (uploadFileReadFailed, st') := by
  induction fuel generalizing res st i with
  | zero => omega
  | succ fuel ih =>
    have hmul : i * fsUploadPacketLen ≤ j * fsUploadPacketLen := Nat.mul_le_mul_right _ hi
    have hpacket : 0 < fsUploadPacketLen := by decide
    have hlt : st.sendLen < streamLen := by omega
    rw [partLoop, if_pos hlt]
    by_cases hoffset : fileOffset + st.sendLen < 2 ^ 31
    · obtain ⟨buffer, hpass⟩ := sendPacket_of_undisturbed file henv hlt hstream hoffset
      have hne : i ≠ j := by
        rintro rfl
        omega
      have hnext : (i + 1) * fsUploadPacketLen ≤ j * fsUploadPacketLen :=
        Nat.mul_le_mul_right _ (by omega)
      rw [Nat.succ_mul] at hnext
      rw [hpass]
      refine ih _ _ (i + 1) ?_ (by omega) ?_
      · dsimp only
        rw [Nat.succ_mul]
        omega
      · dsimp only
        omega
    · obtain ⟨st', hpass⟩ := sendPacket_fails file streamLen henv (not_lt.mp hoffset) (by omega)
      exact ⟨st', by rw [hpass]⟩

variable {file}

theorem Covering.partOk {packets : List SentPacket} {maxLen : ℕ}
    (h : Covering file fileOffset streamLen 0 packets) (hle : streamLen ≤ maxLen) :
    PartOk maxLen packets := by
  refine ⟨?_, h.ended, ?_⟩
  · rw [h.announced, h.length]
    rfl
  · rw [h.length]
    exact hle

/-! ## All parts -/

variable (file) in
/-- **All parts.**  From an offset in front of the end, the bytes up to the end are sent. -/
theorem partsLoop_of_lt (henv : env.Undisturbed) {uploadEnd partLen bound : ℕ}
    (hend : uploadEnd < 2 ^ 31) (hpart : 0 < partLen) (hbound : uploadEnd < bound)
    (fuel offset : ℕ) (buffer : Memory) (count : ℕ) (parts : List (List SentPacket))
    (hlt : offset < uploadEnd) (hfuel : uploadEnd - offset < fuel) :
    ∃ sent, partsLoop env file uploadEnd partLen bound fuel offset buffer count parts =
        some (0, parts ++ sent) ∧
      (∀ part ∈ sent, PartOk partLen part) ∧ (sent.flatMap bytesOf).length = uploadEnd - offset ∧
      (uploadEnd ≤ file.length →
        sent.flatMap bytesOf = (file.drop offset).take (uploadEnd - offset)) := by
  induction fuel generalizing offset buffer count parts with
  | zero => omega
  | succ fuel ih =>
    have hleft : toUInt32 ((uploadEnd : ℤ) - offset) = uploadEnd - offset := by
      unfold toUInt32
      omega
    -- the last part is what is left
    set len := if uploadEnd - offset < partLen then uploadEnd - offset else partLen with hlen
    have hlenLe : len ≤ partLen ∧ len ≤ uploadEnd - offset ∧ 0 < len := by
      rw [hlen]
      split_ifs <;> omega
    obtain ⟨packets, buffer', count', hloop, hcovering⟩ :=
      partLoop_of_undisturbed file henv (show len < 2 ^ 31 by omega)
        (show ∀ i, i * fsUploadPacketLen < len → offset + i * fsUploadPacketLen < 2 ^ 31 from
          fun i hi => by omega)
        bound env.unset ⟨0, buffer, count, []⟩ 0 (Nat.zero_mul _).symm hlenLe.2.2
        (by dsimp only; omega)
    have hnext : toUInt32 ((offset : ℤ) + (len : ℕ)) = offset + len := by
      unfold toUInt32
      omega
    have hendValue : toUInt32 (uploadEnd : ℤ) = uploadEnd := toUInt32_of_lt (by omega)
    rw [nil_append] at hloop
    rw [partsLoop]
    simp only [hleft, ← hlen, hloop, hnext, hendValue, lt_irrefl, if_false]
    have hbytes : (bytesOf packets).length = len := by
      rw [hcovering.length, Nat.sub_zero]
    -- another part follows, or this one ends the upload
    by_cases hmore : offset + len < uploadEnd
    · rw [if_pos hmore]
      obtain ⟨sent, hsent, hok, hlength, hdata⟩ :=
        ih (offset + len) buffer' count' (parts ++ [packets]) hmore (by omega)
      refine ⟨packets :: sent, ?_, ?_, ?_, fun hfile => ?_⟩
      · rw [hsent, append_assoc]
        rfl
      · exact forall_mem_cons.mpr ⟨hcovering.partOk hlenLe.1, hok⟩
      · rw [flatMap_cons, length_append, hbytes, hlength]
        omega
      · have hfirst := hcovering.bytes (by omega)
        rw [Nat.add_zero, Nat.sub_zero] at hfirst
        rw [flatMap_cons, hfirst, hdata hfile,
          show uploadEnd - offset = len + (uploadEnd - (offset + len)) by omega, take_add,
          drop_drop]
    · rw [if_neg hmore]
      have hwhole : len = uploadEnd - offset := by omega
      refine ⟨[packets], rfl, ?_, ?_, fun hfile => ?_⟩
      · exact forall_mem_singleton.mpr (hcovering.partOk hlenLe.1)
      · rw [flatMap_singleton, hbytes, hwhole]
      · have hfirst := hcovering.bytes (by omega)
        rw [Nat.add_zero, Nat.sub_zero] at hfirst
        rw [flatMap_singleton, hfirst, hwhole]

/-! ## The whole upload -/

theorem effectivePartLen_bounds :
    0 < effectivePartLen node ∧ effectivePartLen node ≤ 1024 * 1024 * 100 := by
  unfold effectivePartLen
  split_ifs with hdefault
  · decide
  · omega

/-- A file that is too large has no size, or that of a shorter file. -/
theorem http2StreamGetFileSize_cases (file : Bytes) :
    (file.length < 2 ^ 31 ∧ http2StreamGetFileSize file = file.length) ∨
      (2 ^ 31 ≤ file.length ∧ http2StreamGetFileSize file ≤ 0) ∨
      (2 ^ 32 ≤ file.length ∧ 0 < http2StreamGetFileSize file ∧
        http2StreamGetFileSize file < 2 ^ 31) := by
  unfold http2StreamGetFileSize
  rw [toInt32, Int.bmod_def]
  omega

theorem uploadLen_eq (offset : ℕ) {filesize : ℤ} (hpos : 0 < filesize) (hlt : filesize < 2 ^ 31) :
    uploadLen node offset filesize =
      if node.specLen ≠ 0 ∧ (((offset + node.specLen.toNat) % 2 ^ 32 : ℕ) : ℤ) < filesize then
        (((offset + node.specLen.toNat) % 2 ^ 32 : ℕ) : ℤ)
      else filesize := by
  have hsum : toUInt32 (node.specLen.toNat + (offset : ℤ)) =
      (offset + node.specLen.toNat) % 2 ^ 32 := by
    unfold toUInt32
    omega
  have hsize : toUInt32 filesize = filesize.toNat := by
    unfold toUInt32
    omega
  rw [uploadLen, hsum, hsize]
  by_cases hspec : node.specLen ≠ 0 ∧ (offset + node.specLen.toNat) % 2 ^ 32 < filesize.toNat
  · rw [if_pos hspec, if_pos ⟨hspec.1, by omega⟩]
    exact toInt32_of_bounds (by omega) (by omega)
  · rw [if_neg hspec, if_neg fun h => hspec ⟨h.1, by omega⟩]

variable {node : FileStream} {offset : ℕ}

theorem http2FsNodeHandle_eq (henv : env.Undisturbed) (hoffset : env.fsOffset.toInt = offset)
    (hsize : 0 < http2StreamGetFileSize file) (fuel : ℕ) :
    http2FsNodeHandle env file node fuel =
      (partsLoop env file (uploadLen node offset (http2StreamGetFileSize file))
        (effectivePartLen node) fuel fuel offset env.buffer 0 []).map fun r =>
          ⟨[if r.1 < 0 then r.1 else uploadSuccess], r.2⟩ := by
  have hopen : http2FsOpenChannel env = successReturn := by
    unfold http2FsOpenChannel
    rw [if_neg]
    rw [hoffset, henv.uploadId]
    rintro (hret | hno | hid)
    · exact absurd hret (not_lt.mpr henv.streamOpen)
    · have hnonneg : (0 : ℤ) ≤ offset := Int.natCast_nonneg _
      rw [hno] at hnonneg
      exact absurd hnonneg (by decide)
    · exact Bool.noConfusion hid
  have hlt : offset < 2 ^ 31 := by
    have := Int32.toInt_lt env.fsOffset
    omega
  have hvalue : toUInt32 (offset : ℤ) = offset := toUInt32_of_lt (by omega)
  simp only [http2FsNodeHandle, not_le.mpr hsize, if_false, hopen, lt_irrefl, henv.malloc,
    Bool.true_eq_false, hoffset, hvalue]
  cases partsLoop env file (uploadLen node offset (http2StreamGetFileSize file))
    (effectivePartLen node) fuel fuel offset env.buffer 0 [] <;> rfl

theorem requestedEnd_bounds (node : FileStream) {offset size : ℕ} (hlt : offset < size) :
    offset < requestedEnd node offset size ∧ requestedEnd node offset size ≤ size := by
  unfold requestedEnd
  split_ifs with hspec
  · have : node.specLen.toNat ≠ 0 := fun hzero => hspec.1 (UInt32.toNat_inj.mp hzero)
    omega
  · omega

theorem length_requested (node : FileStream) {offset : ℕ} (hlt : offset < file.length) :
    ((file.take (requestedEnd node offset file.length)).drop offset).length =
      requestedEnd node offset file.length - offset := by
  have := requestedEnd_bounds node hlt
  rw [length_drop, length_take, Nat.min_eq_left this.2]

section

variable (henv : env.Undisturbed) (hoffset : env.fsOffset.toInt = offset)
  (hlt : offset < file.length) (hsize : 0 < http2StreamGetFileSize file)
include henv hoffset hlt hsize

/-- An upload that ends behind the offset covers the bytes exactly when it ends where it is
asked to. -/
theorem covers_iff_of_lt {uploadEnd : ℕ}
    (hend : uploadLen node offset (http2StreamGetFileSize file) = uploadEnd)
    (hbefore : offset < uploadEnd) (hendLt : uploadEnd < 2 ^ 31) (hle : uploadEnd ≤ file.length)
    {fuel : ℕ} (hfuel : 2 ^ 31 ≤ fuel) :
    (∃ r, http2FsNodeHandle env file node fuel = some r ∧ Covers file node offset r) ↔
      requestedEnd node offset file.length = uploadEnd := by
  obtain ⟨sent, hloop, hok, hlength, hbytes⟩ := partsLoop_of_lt file henv hendLt
    (effectivePartLen_bounds node).1 (show uploadEnd < fuel by omega) fuel offset env.buffer 0 []
    hbefore (by omega)
  rw [http2FsNodeHandle_eq henv hoffset hsize, hend, hloop]
  constructor
  · rintro ⟨r, hr, hcovers⟩
    obtain rfl := Option.some.inj hr
    have hsame := congrArg List.length hcovers.bytes
    rw [length_requested node hlt] at hsame
    have := requestedEnd_bounds node hlt
    have hsent : (List.flatMap bytesOf ([] ++ sent)).length = uploadEnd - offset := hlength
    rw [hsent] at hsame
    omega
  · intro hrequested
    refine ⟨_, rfl, ?_, hok, rfl⟩
    show sent.flatMap bytesOf = _
    rw [hbytes hle, hrequested, drop_take]

/-- An upload that ends before the offset sends one part. -/
theorem covers_iff_of_gt {uploadEnd : ℕ}
    (hend : uploadLen node offset (http2StreamGetFileSize file) = uploadEnd)
    (hbehind : uploadEnd < offset) {fuel : ℕ} (hfuel : 2 ^ 31 ≤ fuel) :
    (∃ r, http2FsNodeHandle env file node fuel = some r ∧ Covers file node offset r) ↔
      requestedEnd node offset file.length = offset + effectivePartLen node ∧
        ∀ i, i * fsUploadPacketLen < effectivePartLen node →
          offset + i * fsUploadPacketLen < 2 ^ 31 := by
  obtain ⟨hpos, hpart⟩ := effectivePartLen_bounds node
  have hoffsetLt : offset < 2 ^ 31 := by
    have := Int32.toInt_lt env.fsOffset
    omega
  -- the part behind the end is taken for a whole one, as the difference wraps
  have hleft : ¬ toUInt32 ((uploadEnd : ℤ) - offset) < effectivePartLen node := by
    unfold toUInt32
    omega
  have hnext : ¬ toUInt32 ((offset : ℤ) + effectivePartLen node) < toUInt32 (uploadEnd : ℤ) := by
    unfold toUInt32
    omega
  obtain ⟨rest, rfl⟩ : ∃ rest, fuel = rest + 1 := ⟨fuel - 1, by omega⟩
  rw [http2FsNodeHandle_eq henv hoffset hsize, hend, partsLoop]
  simp only [if_neg hleft]
  -- whether every offset in the part can be read from
  by_cases hread : ∀ i, i * fsUploadPacketLen < effectivePartLen node →
      offset + i * fsUploadPacketLen < 2 ^ 31
  · obtain ⟨packets, buffer, count, hloop, hcovering⟩ :=
      partLoop_of_undisturbed file henv (by omega) hread (rest + 1) env.unset
        ⟨0, env.buffer, 0, []⟩ 0 (Nat.zero_mul _).symm hpos (by dsimp only; omega)
    have hbytes := hcovering.length
    rw [nil_append] at hloop
    simp only [hloop, lt_irrefl, if_false, if_neg hnext]
    constructor
    · rintro ⟨r, hr, hcovers⟩
      obtain rfl := Option.some.inj hr
      have hsame := congrArg List.length hcovers.bytes
      rw [length_requested node hlt] at hsame
      have := requestedEnd_bounds node hlt
      have hsent : (List.flatMap bytesOf ([] ++ [packets])).length = effectivePartLen node := by
        rw [nil_append, flatMap_singleton, hbytes, Nat.sub_zero]
      rw [hsent] at hsame
      exact ⟨by omega, hread⟩
    · rintro ⟨hrequested, -⟩
      have hle := (requestedEnd_bounds node hlt).2
      refine ⟨_, rfl, ?_, ?_, rfl⟩
      · show List.flatMap bytesOf ([] ++ [packets]) = _
        rw [nil_append, flatMap_singleton, hcovering.bytes (by omega), hrequested,
          drop_take, Nat.add_sub_cancel_left, Nat.add_zero, Nat.sub_zero]
      · exact forall_mem_singleton.mpr (hcovering.partOk le_rfl)
  · push Not at hread
    obtain ⟨j, hj, hbad⟩ := hread
    obtain ⟨st', hloop⟩ := partLoop_fails file henv (by omega) (by omega) hj hbad
      (rest + 1) env.unset ⟨0, env.buffer, 0, []⟩ 0 (Nat.zero_mul _).symm (Nat.zero_le _)
      (by dsimp only; omega)
    simp only [hloop]
    constructor
    · rintro ⟨r, hr, hcovers⟩
      have hneg : uploadFileReadFailed < 0 := by decide
      rw [if_pos hneg] at hr
      obtain rfl := Option.some.inj hr
      have hend : [uploadFileReadFailed] = [uploadSuccess] := hcovers.endCb
      exact absurd hend (by decide)
    · rintro ⟨-, hread⟩
      exact absurd (hread j hj) (not_lt.mpr hbad)

/-- An upload that ends with the offset sends nothing. -/
theorem not_covers_of_eq (hend : uploadLen node offset (http2StreamGetFileSize file) = offset)
    {fuel : ℕ} (hfuel : 2 ^ 31 ≤ fuel) :
    ¬ ∃ r, http2FsNodeHandle env file node fuel = some r ∧ Covers file node offset r := by
  rintro ⟨r, hr, hcovers⟩
  obtain ⟨rest, rfl⟩ : ∃ rest, fuel = rest + 1 := ⟨fuel - 1, by omega⟩
  have hpos := (effectivePartLen_bounds node).1
  have hleft : toUInt32 ((offset : ℤ) - offset) = 0 := by
    rw [Int.sub_self]
    rfl
  have hnext : toUInt32 ((offset : ℤ) + (0 : ℕ)) = toUInt32 (offset : ℤ) := by
    rw [Nat.cast_zero, Int.add_zero]
  rw [http2FsNodeHandle_eq henv hoffset hsize, hend, partsLoop] at hr
  simp only [hleft, if_pos hpos, partLoop, lt_irrefl, if_false, hnext] at hr
  have hparts : r.parts = [[]] := by
    split_ifs at hr <;> (obtain rfl := Option.some.inj hr; rfl)
  have hsame := congrArg List.length hcovers.bytes
  rw [length_requested node hlt, hparts] at hsame
  have := requestedEnd_bounds node hlt
  simp [bytesOf] at hsame
  omega

end

/-- **Upload.**  Undisturbed, and with an offset inside the file, the upload ends and covers
exactly the bytes that are asked for if and only if the size and the end of the upload do not
come around, or one part happens to end where the upload is asked to. -/
theorem upload_covers_iff (env : UploadEnv) (file : Bytes) (node : FileStream) (offset : ℕ)
    (henv : env.Undisturbed) (hoffset : env.fsOffset.toInt = offset)
    (hlt : offset < file.length) :
    (∀ fuel ≥ 2 ^ 31, ∃ r, http2FsNodeHandle env file node fuel = some r ∧
      Covers file node offset r) ↔ Uploads file node offset := by
  have hoffsetLt : offset < 2 ^ 31 := by
    have := Int32.toInt_lt env.fsOffset
    omega
  have hspecLt := node.specLen.toNat_lt
  have hspecZero : node.specLen ≠ 0 ↔ node.specLen.toNat ≠ 0 :=
    not_congr ⟨fun h => h ▸ rfl, fun h => UInt32.toNat_inj.mp h⟩
  obtain ⟨hpartPos, hpartLe⟩ := effectivePartLen_bounds node
  have hcases := http2StreamGetFileSize_cases file
  have huploads : Uploads file node offset ↔ if file.length < 2 ^ 31 then
      offset + node.specLen.toNat < 2 ^ 32 ∨ file.length = offset + effectivePartLen node
    else 0 < http2StreamGetFileSize file ∧ node.specLen ≠ 0 ∧
      ((offset + node.specLen.toNat : ℤ) ≤ http2StreamGetFileSize file ∨
        (http2StreamGetFileSize file < offset ∧ node.specLen.toNat = effectivePartLen node ∧
          ∀ i, i * fsUploadPacketLen < effectivePartLen node →
            offset + i * fsUploadPacketLen < 2 ^ 31)) := Iff.rfl
  by_cases hsize : 0 < http2StreamGetFileSize file
  · have hsizeLt : http2StreamGetFileSize file < 2 ^ 31 := by omega
    obtain ⟨uploadEnd, hend⟩ : ∃ uploadEnd : ℕ,
        uploadLen node offset (http2StreamGetFileSize file) = uploadEnd := by
      refine ⟨(uploadLen node offset (http2StreamGetFileSize file)).toNat, ?_⟩
      rw [uploadLen_eq node offset hsize hsizeLt]
      split_ifs <;> omega
    have hvalue := uploadLen_eq node offset hsize hsizeLt
    rw [hend] at hvalue
    rw [huploads]
    simp only [hspecZero] at hvalue ⊢
    have hrequested : requestedEnd node offset file.length =
        if node.specLen.toNat ≠ 0 ∧ offset + node.specLen.toNat < file.length then
          offset + node.specLen.toNat else file.length := by
      rw [requestedEnd]
      simp only [hspecZero]
    have hgoal : ∀ {P Q : Prop}, (∀ fuel ≥ 2 ^ 31, (∃ r, http2FsNodeHandle env file node fuel =
        some r ∧ Covers file node offset r) ↔ P) → (P ↔ Q) →
          ((∀ fuel ≥ 2 ^ 31, ∃ r, http2FsNodeHandle env file node fuel = some r ∧
            Covers file node offset r) ↔ Q) := by
      intro P Q hfuel hPQ
      exact ⟨fun hall => hPQ.mp ((hfuel _ le_rfl).mp (hall _ le_rfl)),
        fun hQ fuel hge => (hfuel fuel hge).mpr (hPQ.mpr hQ)⟩
    rcases lt_trichotomy offset uploadEnd with hbefore | heq | hbehind
    · refine hgoal (fun fuel hfuel => covers_iff_of_lt henv hoffset hlt hsize hend hbefore
        (by split_ifs at hvalue <;> omega) (by split_ifs at hvalue <;> omega) hfuel) ?_
      generalize requestedEnd node offset file.length = requested at hrequested
      split_ifs at hvalue hrequested ⊢ <;> omega
    · refine hgoal (fun fuel hfuel => iff_false_intro (not_covers_of_eq henv hoffset hlt hsize
        (heq ▸ hend) hfuel)) ?_
      rw [false_iff]
      by_cases hsmall : file.length < 2 ^ 31
      · rw [if_pos hsmall]
        split_ifs at hvalue <;> omega
      · rw [if_neg hsmall]
        rintro ⟨-, hspec, hwithin | ⟨hpast, hwhole, -⟩⟩
        · split_ifs at hvalue <;> omega
        · split_ifs at hvalue <;> omega
    · refine hgoal (fun fuel hfuel => covers_iff_of_gt henv hoffset hlt hsize hend hbehind hfuel) ?_
      generalize requestedEnd node offset file.length = requested at hrequested
      -- a part that ends with the file stays in front of the end of the file
      have hread : offset + effectivePartLen node = file.length → file.length < 2 ^ 31 →
          ∀ i, i * fsUploadPacketLen < effectivePartLen node →
            offset + i * fsUploadPacketLen < 2 ^ 31 := fun _ _ i hi => by omega
      generalize (∀ i, i * fsUploadPacketLen < effectivePartLen node →
        offset + i * fsUploadPacketLen < 2 ^ 31) = reads at hread ⊢
      by_cases hreads : reads
      · simp only [hreads, and_true]
        split_ifs at hvalue hrequested ⊢ <;> omega
      · simp only [hreads, imp_false] at hread
        simp only [hreads, and_false, or_false, false_iff]
        split_ifs at hvalue hrequested ⊢ <;> omega
  · have hlarge : ¬ file.length < 2 ^ 31 := by omega
    rw [huploads, if_neg hlarge]
    constructor
    · intro hall
      obtain ⟨r, hr, hcovers⟩ := hall _ le_rfl
      rw [http2FsNodeHandle, if_pos (not_lt.mp hsize)] at hr
      obtain rfl := Option.some.inj hr
      exact absurd hcovers.endCb (by decide)
    · rintro ⟨hpos, -⟩
      exact absurd hpos hsize

/-- A connection that does not fail, and a server that asks for the bytes from `offset` on. -/
def steadyEnv (offset : Int32) : UploadEnv where
  streamOpen := 0
  uploadId := true
  fsOffset := offset
  malloc := true
  buffer := fun _ => 0
  initState := fun _ => true
  opened := fun _ => true
  send := fun _ => ⟨true, true, true, 0, 0, true⟩
  ifStop := fun _ => false
  unset := 0

theorem steadyEnv_undisturbed (offset : Int32) : (steadyEnv offset).Undisturbed where
  streamOpen := le_rfl
  uploadId := rfl
  malloc := rfl
  initState := fun _ => rfl
  opened := fun _ => rfl
  send := fun _ => ⟨rfl, rfl, rfl, le_rfl, le_rfl, rfl⟩
  ifStop := fun _ => rfl

/-- One byte of three is asked for. -/
theorem upload_covers_middle :
    ∃ r, http2FsNodeHandle (steadyEnv 1) [7, 8, 9] ⟨1, 0⟩ (2 ^ 31) = some r ∧
      Covers [7, 8, 9] ⟨1, 0⟩ 1 r :=
  (upload_covers_iff (steadyEnv 1) [7, 8, 9] ⟨1, 0⟩ 1 (steadyEnv_undisturbed 1) (by decide)
    (by decide)).mpr (by rw [Uploads, if_pos (by decide)]; exact Or.inl (by decide)) (2 ^ 31) le_rfl

/-- The two bytes that are left of a file of three are asked for with the largest length: the end
comes around to zero, and a whole part is sent. -/
theorem upload_covers_broken :
    ¬ ∀ (env : UploadEnv) (file : Bytes) (node : FileStream) (offset : ℕ),
      env.Undisturbed → env.fsOffset.toInt = offset → offset < file.length →
        ∀ fuel ≥ 2 ^ 31, ∃ r, http2FsNodeHandle env file node fuel = some r ∧
          Covers file node offset r := by
  intro hclaim
  have hcovers := hclaim (steadyEnv 1) [7, 8, 9] ⟨4294967295, 0⟩ 1 (steadyEnv_undisturbed 1)
    (by decide) (by decide) (2 ^ 31) le_rfl
  have hend : uploadLen ⟨4294967295, 0⟩ (1 : ℕ) (http2StreamGetFileSize [7, 8, 9]) = (0 : ℕ) := by
    decide
  rw [covers_iff_of_gt (steadyEnv_undisturbed 1) (by decide) (by decide) (by decide) hend
    Nat.zero_lt_one le_rfl] at hcovers
  exact absurd hcovers.1 (by decide)

end Iotkit.Http2
