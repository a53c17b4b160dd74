/-
# The verdict of an upload (`http2_upload_api.c`)

`http2_stream_get_file_data` drops the count that `HAL_Fread` delivers, and the bytes that were in
the buffer before are sent for those of the file.  Here the buffer holds the place in the file that
each of its bytes was read from.  The packets of an upload are laid out first; the loops follow
them until one fails.
-/
import Iotkit.Http2Upload

namespace Iotkit.Http2

open LibC List

/-- How an upload fares whose reads may come up short: `HAL_Fread` delivers at most so many bytes
for each packet. -/
structure VerdictEnv extends UploadEnv where
  read : ℕ → ℕ

variable (env : VerdictEnv) (file : Bytes)

/-- The bytes that `HAL_Fread` delivers of `len` at an offset, for the packet `n`. -/
def VerdictEnv.delivered (n offset len : ℕ) : ℕ :=
  min (env.read n) (min len (file.length - offset))

/-- A packet with its place in the file, the places that its bytes were read from, and whether it
is handed to `iotx_http2_client_send`. -/
structure TracedPacket where
  offset : ℕ
  origin : List (Option ℕ)
  handed : Bool
  packet : SentPacket
  deriving DecidableEq

/-- The results that `end_cb` is called with, and the packets of the parts. -/
structure TracedResult where
  endCb : List ℤ
  parts : List (List TracedPacket)
  deriving DecidableEq

/-- Whether `IOT_HTTP2_Stream_Send` comes to `iotx_http2_client_send`. -/
def SendEnv.hands (env : SendEnv) (sendLen : ℕ) : Bool :=
  env.window && (sendLen != 0 || env.nva)

namespace Traced

def readFrom (origin : ℕ → Option ℕ) (offset delivered : ℕ) : ℕ → Option ℕ :=
  fun i => if i < delivered then some (offset + i) else origin i

def bytes (origin : ℕ → Option ℕ) : ℕ → UInt8 :=
  fun i => ((origin i).map fun p => file.getD p 0).getD (env.buffer i)

def http2StreamGetFileData (n : ℕ) (origin : ℕ → Option ℕ) (len : ℕ) (offset : ℤ) :
    ℤ × (ℕ → Option ℕ) :=
  if env.opened n = false then (-1, origin)
  else if offset < 0 then (-1, origin)
  else (len, readFrom origin offset.toNat (env.delivered file n offset.toNat len))

/-- Where `_http2_fs_part_send_sync` stands. -/
structure PartState where
  sendLen : ℕ
  origin : ℕ → Option ℕ
  count : ℕ
  packets : List TracedPacket

/-- One pass of the loop of `_http2_fs_part_send_sync`, and whether it leaves the loop. -/
def sendPacket (fileOffset streamLen : ℕ) (st : PartState) : ℤ × PartState × Bool :=
  if env.initState st.count = false then (uploadErrorCommon, st, true)
  else
    match http2StreamGetFileData env file st.count st.origin fsUploadPacketLen
        (toInt32 (toUInt32 (st.sendLen + fileOffset))) with
    | (res, origin) =>
      if res ≤ 0 then (uploadFileReadFailed, { st with origin := origin }, true)
      else
        let packetLen :=
          if streamLen - st.sendLen < res.toNat then streamLen - st.sendLen else res.toNat
        match iotHttp2StreamSend (env.send st.count) (bytes env file origin) streamLen
            st.sendLen packetLen with
        | (res, sendLen, packet) =>
          let traced : TracedPacket :=
            ⟨toUInt32 (st.sendLen + fileOffset), (List.range packetLen).map origin,
              (env.send st.count).hands st.sendLen, packet⟩
          let st' : PartState := ⟨sendLen, origin, st.count + 1, st.packets ++ [traced]⟩
          if res < 0 then (uploadStreamSendFailed, st', true)
          else if env.ifStop st.count = true then (uploadStopByIoctl, st', true)
          else (successReturn, st', false)

/-- The loop of `_http2_fs_part_send_sync`. -/
def partLoop (env : VerdictEnv) (file : Bytes) (fileOffset streamLen : ℕ) :
    ℕ → ℤ → PartState → Option (ℤ × PartState)
  | 0, _, _ => none
  | fuel + 1, res, st =>
    if st.sendLen < streamLen then
      match sendPacket env file fileOffset streamLen st with
      | (res, st, true) => some (res, st)
      | (res, st, false) => partLoop env file fileOffset streamLen fuel res st
    else some (res, st)

/-- The loop of `_http2_fs_node_handle`. -/
def partsLoop (env : VerdictEnv) (file : Bytes) (uploadLen : ℤ) (partLen bound : ℕ) :
    ℕ → ℕ → (ℕ → Option ℕ) → ℕ → List (List TracedPacket) →
      Option (ℤ × List (List TracedPacket))
  | 0, _, _, _, _ => none
  | fuel + 1, fileOffset, origin, count, parts =>
    let left := toUInt32 (uploadLen - fileOffset)
    let len := if left < partLen then left else partLen
    match partLoop env file fileOffset len bound env.unset ⟨0, origin, count, []⟩ with
    | none => none
    | some (res, st) =>
      if res < 0 then some (res, parts ++ [st.packets])
      else
        let fileOffset := toUInt32 (fileOffset + len)
        if fileOffset < toUInt32 uploadLen then
          partsLoop env file uploadLen partLen bound fuel fileOffset st.origin st.count
            (parts ++ [st.packets])
        else some (res, parts ++ [st.packets])

/-- `_http2_fs_node_handle` of a node with an `end_cb`, when the loops make `fuel` passes at
most.  Nothing in the buffer was read from the file at first. -/
def http2FsNodeHandle (node : FileStream) (fuel : ℕ) :
    Option TracedResult :=
  let filesize := http2StreamGetFileSize file
  if filesize ≤ 0 then some ⟨[uploadFileNotExist], []⟩
  else if http2FsOpenChannel env.toUploadEnv < successReturn then
    some ⟨[http2FsOpenChannel env.toUploadEnv], []⟩
  else if env.malloc = false then some ⟨[uploadMallocFailed], []⟩
  else
    match partsLoop env file (uploadLen node env.fsOffset.toInt filesize) (effectivePartLen node)
        fuel fuel (toUInt32 env.fsOffset.toInt) (fun _ => none) 0 [] with
    | none => none
    | some (res, parts) => some ⟨[if res < 0 then res else uploadSuccess], parts⟩

end Traced

/-! ## The verdict -/

/-- The bytes of a packet were read for it from its place in the file. -/
def TracedPacket.InPlace (t : TracedPacket) : Prop :=
  t.origin = (List.range t.origin.length).map fun i => some (t.offset + i)

/-- The packets that are handed to the HTTP/2 client. -/
def TracedResult.handed (r : TracedResult) : List TracedPacket :=
  r.parts.flatten.filter (·.handed)

/-- `end_cb` is called once, with success only if every byte from the offset to the end was read
and sent; no byte is sent but for the one of the file in its place; and the result is the same
whatever stands in the uninitialised variable. -/
structure Truthful (env : VerdictEnv) (file : Bytes) (node : FileStream) (fuel : ℕ)
    (r : TracedResult) : Prop where
  once : r.endCb.length = 1
  covers : uploadSuccess ∈ r.endCb → ∀ x : ℕ, env.fsOffset.toInt ≤ x →
    (x : ℤ) < uploadLen node env.fsOffset.toInt (http2StreamGetFileSize file) →
      ∃ t ∈ r.handed, some x ∈ t.origin
  inPlace : ∀ t ∈ r.handed, t.InPlace
  determined : ∀ unset, ∃ r', Traced.http2FsNodeHandle
    { env with unset := unset } file node fuel = some r' ∧ r'.endCb = r.endCb

/-! ## The bytes of an upload that reads in full -/

namespace Traced

variable (env : VerdictEnv) (file : Bytes)

/-- A state without the places that its bytes were read from. -/
def PartState.forget (st : PartState) : Http2.PartState :=
  ⟨st.sendLen, bytes env file st.origin, st.count, st.packets.map (·.packet)⟩

variable {env} (hread : ∀ n, fsUploadPacketLen ≤ env.read n)
include hread

theorem bytes_readFrom (origin : ℕ → Option ℕ) (n offset : ℕ) :
    bytes env file (readFrom origin offset (env.delivered file n offset fsUploadPacketLen)) =
      readInto (bytes env file origin) file offset fsUploadPacketLen := by
  have hall := hread n
  funext i
  by_cases hi : i < env.delivered file n offset fsUploadPacketLen
  · have hin : i < fsUploadPacketLen ∧ offset + i < file.length := by
      unfold VerdictEnv.delivered at hi
      omega
    simp only [bytes, readFrom, readInto, if_pos hi, if_pos hin.1, Option.map_some,
      Option.getD_some, getD_eq_getElem _ _ hin.2]
  simp only [bytes, readFrom, readInto, if_neg hi]
  split_ifs with hlen
  · have hout : file.length ≤ offset + i := by
      unfold VerdictEnv.delivered at hi
      omega
    rw [getD_eq_default _ _ hout]
  · rfl

theorem http2StreamGetFileData_forget (n : ℕ) (origin : ℕ → Option ℕ) (offset : ℤ) :
    Http2.http2StreamGetFileData (env.opened n) file (bytes env file origin) fsUploadPacketLen
        offset =
      ((http2StreamGetFileData env file n origin fsUploadPacketLen offset).1,
        bytes env file (http2StreamGetFileData env file n origin fsUploadPacketLen offset).2) := by
  unfold Http2.http2StreamGetFileData http2StreamGetFileData
  split_ifs
  · rfl
  · rfl
  · rw [bytes_readFrom file hread]

theorem sendPacket_forget (fileOffset streamLen : ℕ) (st : PartState) :
    Http2.sendPacket env.toUploadEnv file fileOffset streamLen (st.forget env file) =
      ((sendPacket env file fileOffset streamLen st).1,
        (sendPacket env file fileOffset streamLen st).2.1.forget env file,
        (sendPacket env file fileOffset streamLen st).2.2) := by
  have hdata := http2StreamGetFileData_forget file hread st.count st.origin
    (toInt32 (toUInt32 (st.sendLen + fileOffset)))
  unfold Http2.sendPacket sendPacket
  simp only [PartState.forget, hdata]
  split_ifs <;> simp

theorem partLoop_forget (fileOffset streamLen fuel : ℕ) (res : ℤ) (st : PartState) :
    Http2.partLoop env.toUploadEnv file fileOffset streamLen fuel res (st.forget env file) =
      (partLoop env file fileOffset streamLen fuel res st).map fun r =>
        (r.1, r.2.forget env file) := by
  induction fuel generalizing res st with
  | zero => rfl
  | succ fuel ih =>
    rw [Http2.partLoop, partLoop, sendPacket_forget file hread]
    show (if st.sendLen < streamLen then _ else _) = _
    split_ifs
    · rcases sendPacket env file fileOffset streamLen st with ⟨res', st', left⟩
      cases left with
      | true => rfl
      | false => exact ih res' st'
    · rfl

theorem partsLoop_forget (uploadLen : ℤ) (partLen bound fuel fileOffset : ℕ)
    (origin : ℕ → Option ℕ) (count : ℕ) (parts : List (List TracedPacket)) :
    Http2.partsLoop env.toUploadEnv file uploadLen partLen bound fuel fileOffset
        (bytes env file origin) count (parts.map (·.map (·.packet))) =
      (partsLoop env file uploadLen partLen bound fuel fileOffset origin count parts).map fun r =>
        (r.1, r.2.map (·.map (·.packet))) := by
  induction fuel generalizing fileOffset origin count parts with
  | zero => rfl
  | succ fuel ih =>
    have hpart := partLoop_forget file hread fileOffset
      (if toUInt32 (uploadLen - fileOffset) < partLen then toUInt32 (uploadLen - fileOffset)
        else partLen) bound env.unset ⟨0, origin, count, []⟩
    simp only [PartState.forget, map_nil] at hpart
    simp only [Http2.partsLoop, partsLoop, hpart]
    generalize (if toUInt32 (uploadLen - fileOffset) < partLen then
      toUInt32 (uploadLen - fileOffset) else partLen) = len
    have hparts : ∀ packets : List TracedPacket,
        parts.map (·.map (·.packet)) ++ [packets.map (·.packet)] =
          (parts ++ [packets]).map (·.map (·.packet)) := by simp
    rcases partLoop env file fileOffset len bound env.unset ⟨0, origin, count, []⟩ with
      _ | ⟨res, st⟩
    · rfl
    · simp only [Option.map_some, hparts]
      split_ifs
      · rfl
      · exact ih _ _ _ _
      · rfl

/-- **Refinement.**  An upload whose reads are not cut short sends the bytes that the file and the
buffer have. -/
theorem http2FsNodeHandle_forget (node : FileStream) (fuel : ℕ) :
    Http2.http2FsNodeHandle env.toUploadEnv file node fuel =
      (http2FsNodeHandle env file node fuel).map fun r =>
        ⟨r.endCb, r.parts.map (·.map (·.packet))⟩ := by
  have hparts := partsLoop_forget file hread (uploadLen node env.fsOffset.toInt
    (http2StreamGetFileSize file)) (effectivePartLen node) fuel fuel (toUInt32 env.fsOffset.toInt)
    (fun _ => none) 0 []
  have hbuffer : bytes env file (fun _ => none) = env.buffer := rfl
  rw [hbuffer, map_nil] at hparts
  simp only [Http2.http2FsNodeHandle, http2FsNodeHandle, hparts]
  split_ifs
  · rfl
  · rfl
  · rfl
  · rcases partsLoop env file (uploadLen node env.fsOffset.toInt (http2StreamGetFileSize file))
      (effectivePartLen node) fuel fuel (toUInt32 env.fsOffset.toInt) (fun _ => none) 0 [] with
      _ | ⟨res, parts⟩ <;> rfl

end Traced

/-! ## The packets that are laid out -/

/-- A packet of an upload: its place in the file, its length, the bytes of its part in front of
it, and the length of the part. -/
structure PlannedPacket where
  offset : ℕ
  len : ℕ
  sendLen : ℕ
  streamLen : ℕ

variable {sendLen streamLen : ℕ}

theorem packet_pos (h : sendLen < streamLen) : 0 < min fsUploadPacketLen (streamLen - sendLen) :=
  lt_min (by decide) (by omega)

/-- The packets of a part from the byte `sendLen` of it on. -/
def packetsFrom (fileOffset streamLen sendLen : ℕ) : List PlannedPacket :=
  if sendLen < streamLen then
    ⟨toUInt32 (sendLen + fileOffset), min fsUploadPacketLen (streamLen - sendLen), sendLen,
        streamLen⟩ ::
      packetsFrom fileOffset streamLen (sendLen + min fsUploadPacketLen (streamLen - sendLen))
  else []
termination_by streamLen - sendLen
decreasing_by
  have := packet_pos ‹sendLen < streamLen›
  omega

/-- The packets up to the end of the upload, part by part. -/
def partsFrom (node : FileStream) (uploadEnd fileOffset : ℕ) : List PlannedPacket :=
  if fileOffset < uploadEnd then
    packetsFrom fileOffset (min (uploadEnd - fileOffset) (effectivePartLen node)) 0 ++
      partsFrom node uploadEnd (fileOffset + min (uploadEnd - fileOffset) (effectivePartLen node))
  else []
termination_by uploadEnd - fileOffset
decreasing_by
  have := (effectivePartLen_bounds node).1
  omega

/-- The packets of an upload that starts at an offset; behind the end, one part. -/
def plannedPackets (node : FileStream) (uploadEnd offset : ℕ) : List PlannedPacket :=
  if offset < uploadEnd then partsFrom node uploadEnd offset
  else packetsFrom offset (min (toUInt32 ((uploadEnd : ℤ) - offset)) (effectivePartLen node)) 0

/-- Whether a send succeeds: the first packet of a part needs its headers and its stream, the
last one waits for the response. -/
def SendEnv.Accepts (env : SendEnv) (p : PlannedPacket) : Prop :=
  env.hands p.sendLen = true ∧ 0 ≤ env.rv ∧ (p.sendLen = 0 → env.node = true) ∧
    (p.sendLen + p.len = p.streamLen →
      env.node = true ∧ 0 ≤ env.waited ∧ env.status200 = true)

instance (env : SendEnv) (p : PlannedPacket) : Decidable (env.Accepts p) :=
  inferInstanceAs (Decidable (_ ∧ _))

/-- A packet is read, if not in full: the connection is up, and the file opens and has the
place. -/
def VerdictEnv.Reads (n : ℕ) (p : PlannedPacket) : Prop :=
  env.initState n = true ∧ env.opened n = true ∧ p.offset < 2 ^ 31

instance (env : VerdictEnv) (n : ℕ) (p : PlannedPacket) : Decidable (env.Reads n p) :=
  inferInstanceAs (Decidable (_ ∧ _))

/-- The packets that are handed to the HTTP/2 client, with their numbers: up to the first one
that cannot be read or sent or after which the user stops. -/
def handedOver (env : VerdictEnv) : ℕ → List PlannedPacket → List (ℕ × PlannedPacket)
  | _, [] => []
  | n, p :: ps =>
    if env.Reads n p then
      (if (env.send n).hands p.sendLen = true then [(n, p)] else []) ++
        if (env.send n).Accepts p ∧ env.ifStop n = false then handedOver env (n + 1) ps else []
    else []

/-- The file has a size, the channel opens, and there is memory for a packet. -/
def Starts : Prop :=
  0 < http2StreamGetFileSize file ∧ http2FsOpenChannel env.toUploadEnv = successReturn ∧
    env.malloc = true

/-- An upload that starts does not start at its end, and every packet that is handed over was
read in full. -/
def ReadsInFull (node : FileStream) : Prop :=
  Starts env file →
    env.fsOffset.toInt ≠ uploadLen node env.fsOffset.toInt (http2StreamGetFileSize file) ∧
    ∀ np ∈ handedOver env 0 (plannedPackets node
        (uploadLen node env.fsOffset.toInt (http2StreamGetFileSize file)).toNat
        (toUInt32 env.fsOffset.toInt)),
      np.2.len ≤ env.delivered file np.1 np.2.offset fsUploadPacketLen

/-! ## The loops follow the packets -/

/-- What became of packets: the last result, and where the upload stands. -/
structure Followed where
  res : ℤ
  origin : ℕ → Option ℕ
  count : ℕ
  packets : List TracedPacket

/-- A packet that is passed to `IOT_HTTP2_Stream_Send` from a buffer. -/
def PlannedPacket.traced (p : PlannedPacket) (env : VerdictEnv) (file : Bytes) (n : ℕ)
    (origin : ℕ → Option ℕ) : TracedPacket :=
  ⟨p.offset, (List.range p.len).map origin, (env.send n).hands p.sendLen,
    (iotHttp2StreamSend (env.send n) (Traced.bytes env file origin) p.streamLen p.sendLen
      p.len).2.2⟩

def PlannedPacket.read (p : PlannedPacket) (env : VerdictEnv) (file : Bytes) (n : ℕ)
    (origin : ℕ → Option ℕ) : ℕ → Option ℕ :=
  Traced.readFrom origin p.offset (env.delivered file n p.offset fsUploadPacketLen)

/-- Packets are sent one after the other until one fails. -/
def follow (env : VerdictEnv) (file : Bytes) :
    ℕ → (ℕ → Option ℕ) → List PlannedPacket → Followed
  | n, origin, [] => ⟨successReturn, origin, n, []⟩
  | n, origin, p :: ps =>
    if env.initState n = false then ⟨uploadErrorCommon, origin, n, []⟩
    else if ¬ env.Reads n p then ⟨uploadFileReadFailed, origin, n, []⟩
    else
      let origin' := p.read env file n origin
      if ¬ (env.send n).Accepts p then
        ⟨uploadStreamSendFailed, origin', n + 1, [p.traced env file n origin']⟩
      else if env.ifStop n = true then
        ⟨uploadStopByIoctl, origin', n + 1, [p.traced env file n origin']⟩
      else
        let f := follow env file (n + 1) origin' ps
        { f with packets := p.traced env file n origin' :: f.packets }

theorem iotHttp2StreamSend_accepts (env : SendEnv) (buffer : Memory) {p : PlannedPacket}
    (hlen : 0 < p.len) (hle : p.sendLen + p.len ≤ p.streamLen) (hlt : p.streamLen < 2 ^ 32) :
    (0 ≤ (iotHttp2StreamSend env buffer p.streamLen p.sendLen p.len).1 ↔ env.Accepts p) ∧
      (env.Accepts p →
        (iotHttp2StreamSend env buffer p.streamLen p.sendLen p.len).2.1 = p.sendLen + p.len) := by
  have hsum : toUInt32 ((p.len : ℤ) + p.sendLen) = p.sendLen + p.len := by
    unfold toUInt32
    omega
  have hsum' : toUInt32 ((p.sendLen : ℤ) + p.len) = p.sendLen + p.len := by
    unfold toUInt32
    omega
  have hfail : ¬ 0 ≤ failReturn := by decide
  have hne : ¬ (p.streamLen = 0 ∨ p.len = 0) := by omega
  simp only [iotHttp2StreamSend, if_neg hne, hsum, hsum', decide_eq_true_eq]
  unfold SendEnv.Accepts SendEnv.hands
  by_cases hwindow : env.window = false ∨ (p.sendLen = 0 ∧ env.nva = false)
  · rw [if_pos hwindow]
    constructor
    · simp only [hfail, false_iff]
      rintro ⟨hhands, -⟩
      rcases hwindow with hno | ⟨hzero, hno⟩ <;> simp_all
    · rintro ⟨hhands, -⟩
      rcases hwindow with hno | ⟨hzero, hno⟩ <;> simp_all
  have hhands : (env.window && (p.sendLen != 0 || env.nva)) = true := by
    by_cases hzero : p.sendLen = 0 <;> simp_all
  simp only [if_neg hwindow, hhands, true_and]
  by_cases hrv : env.rv < 0 ∨ (p.sendLen = 0 ∧ env.node = false)
  · rw [if_pos hrv]
    constructor
    · simp only [hfail, false_iff]
      rintro ⟨hpos, hnode, -⟩
      rcases hrv with hneg | ⟨hzero, hno⟩
      · exact absurd hpos (not_le.mpr hneg)
      · simp_all
    · rintro ⟨hpos, hnode, -⟩
      rcases hrv with hneg | ⟨hzero, hno⟩
      · exact absurd hpos (not_le.mpr hneg)
      · simp_all
  · rw [if_neg hrv]
    push Not at hrv
    by_cases hend : p.sendLen + p.len = p.streamLen
    · rw [if_pos hend]
      by_cases hwait : env.node = false ∨ env.waited < 0 ∨ env.status200 = false
      · rw [if_pos hwait]
        simp only [hfail, false_iff, implies_true, and_true, not_and]
        intro _ _ hlast
        have := hlast hend
        rcases hwait with hno | hno | hno
        · simp_all
        · omega
        · simp_all
      · rw [if_neg hwait]
        push Not at hwait
        simp_all
    · rw [if_neg hend]
      simp_all

def nextPacket (fileOffset streamLen sendLen : ℕ) : PlannedPacket :=
  ⟨toUInt32 (sendLen + fileOffset), min fsUploadPacketLen (streamLen - sendLen), sendLen, streamLen⟩

variable {fileOffset : ℕ}

theorem packetsFrom_of_lt (h : sendLen < streamLen) :
    packetsFrom fileOffset streamLen sendLen = nextPacket fileOffset streamLen sendLen ::
        packetsFrom fileOffset streamLen
          (sendLen + min fsUploadPacketLen (streamLen - sendLen)) := by
  rw [packetsFrom, if_pos h]
  rfl

theorem packetsFrom_of_le (h : streamLen ≤ sendLen) :
    packetsFrom fileOffset streamLen sendLen = [] := by
  rw [packetsFrom, if_neg (not_lt.mpr h)]

theorem partsFrom_of_lt {node : FileStream} {uploadEnd : ℕ} (h : fileOffset < uploadEnd) :
    partsFrom node uploadEnd fileOffset =
      packetsFrom fileOffset (min (uploadEnd - fileOffset) (effectivePartLen node)) 0 ++
        partsFrom node uploadEnd
          (fileOffset + min (uploadEnd - fileOffset) (effectivePartLen node)) := by
  rw [partsFrom, if_pos h]

theorem partsFrom_of_le {node : FileStream} {uploadEnd : ℕ} (h : uploadEnd ≤ fileOffset) :
    partsFrom node uploadEnd fileOffset = [] := by
  rw [partsFrom, if_neg (not_lt.mpr h)]

theorem toInt32_toUInt32_neg_iff (x : ℤ) : toInt32 (toUInt32 x) < 0 ↔ 2 ^ 31 ≤ toUInt32 x := by
  have : toUInt32 x < 2 ^ 32 := by
    unfold toUInt32
    omega
  rw [toInt32, Int.bmod_def]
  omega

theorem toNat_toInt32_toUInt32 {x : ℤ} (h : toUInt32 x < 2 ^ 31) :
    (toInt32 (toUInt32 x)).toNat = toUInt32 x := by
  rw [toInt32_of_bounds (by omega) (by omega), Int.toNat_natCast]

variable (env : VerdictEnv) (file : Bytes)

variable {fileOffset streamLen n : ℕ}

theorem http2StreamGetFileData_fails {sendLen : ℕ} (origin : ℕ → Option ℕ)
    (hinit : env.initState n = true)
    (hreads : ¬ env.Reads n (nextPacket fileOffset streamLen sendLen)) :
    Traced.http2StreamGetFileData env file n origin fsUploadPacketLen
      (toInt32 (toUInt32 (sendLen + fileOffset))) = (-1, origin) := by
  unfold Traced.http2StreamGetFileData
  by_cases hopened : env.opened n = false
  · rw [if_pos hopened]
  · have hneg : toInt32 (toUInt32 (sendLen + fileOffset)) < 0 := by
      rw [toInt32_toUInt32_neg_iff]
      by_contra hlt
      exact hreads ⟨hinit, by simpa using hopened, not_le.mp hlt⟩
    rw [if_neg hopened, if_pos hneg]

theorem http2StreamGetFileData_reads {sendLen : ℕ} (origin : ℕ → Option ℕ)
    (hreads : env.Reads n (nextPacket fileOffset streamLen sendLen)) :
    Traced.http2StreamGetFileData env file n origin fsUploadPacketLen
      (toInt32 (toUInt32 (sendLen + fileOffset))) = ((fsUploadPacketLen : ℤ),
          (nextPacket fileOffset streamLen sendLen).read env file n origin) := by
  obtain ⟨-, hopened, hlt⟩ := hreads
  have hnonneg : ¬ toInt32 (toUInt32 (sendLen + fileOffset)) < 0 := by
    rw [toInt32_toUInt32_neg_iff]
    exact not_le.mpr hlt
  unfold Traced.http2StreamGetFileData
  have hvalue : (toInt32 (toUInt32 (sendLen + fileOffset))).toNat =
      (nextPacket fileOffset streamLen sendLen).offset := toNat_toInt32_toUInt32 hlt
  rw [hopened, if_neg Bool.noConfusion, if_neg hnonneg, hvalue]
  rfl

/-- One pass of the loop: it goes on after a packet that was read and sent, and else it is left
with what became of the packet. -/
theorem sendPacket_follow (fileOffset : ℕ) {st : Traced.PartState} (hlt : st.sendLen < streamLen)
    (hstream : streamLen < 2 ^ 32) (ps : List PlannedPacket) :
    let p := nextPacket fileOffset streamLen st.sendLen
    if env.Reads st.count p ∧ (env.send st.count).Accepts p ∧ env.ifStop st.count = false then
      Traced.sendPacket env file fileOffset streamLen st =
        (0, ⟨st.sendLen + min fsUploadPacketLen (streamLen - st.sendLen),
          p.read env file st.count st.origin, st.count + 1,
          st.packets ++ [p.traced env file st.count (p.read env file st.count st.origin)]⟩, false)
    else
      ∃ st', Traced.sendPacket env file fileOffset streamLen st =
          ((follow env file st.count st.origin (p :: ps)).res, st', true) ∧
        st'.packets = st.packets ++ (follow env file st.count st.origin (p :: ps)).packets ∧
        (follow env file st.count st.origin (p :: ps)).res < 0 := by
  intro p
  by_cases hinit : env.initState st.count = false
  · rw [if_neg fun h => Bool.noConfusion (hinit.symm.trans h.1.1)]
    refine ⟨st, ?_, ?_, ?_⟩
    · rw [Traced.sendPacket, if_pos hinit, follow, if_pos hinit]
    · rw [follow, if_pos hinit, append_nil]
    · rw [follow, if_pos hinit]
      show uploadErrorCommon < 0
      decide
  have hup : env.initState st.count = true := by simpa using hinit
  by_cases hreads : env.Reads st.count p
  · have hlen : (if streamLen - st.sendLen < ((fsUploadPacketLen : ℕ) : ℤ).toNat then
        streamLen - st.sendLen else ((fsUploadPacketLen : ℕ) : ℤ).toNat) = p.len := by
      show _ = min fsUploadPacketLen (streamLen - st.sendLen)
      rw [Int.toNat_natCast]
      split_ifs <;> omega
    obtain ⟨hret, hsent⟩ := iotHttp2StreamSend_accepts (env.send st.count)
      (Traced.bytes env file (p.read env file st.count st.origin)) (p := p) (packet_pos hlt)
      (show st.sendLen + min fsUploadPacketLen (streamLen - st.sendLen) ≤ streamLen by omega)
      hstream
    have hpass : Traced.sendPacket env file fileOffset streamLen st =
        match iotHttp2StreamSend (env.send st.count)
          (Traced.bytes env file (p.read env file st.count st.origin)) streamLen st.sendLen
            p.len with
        | (res, sendLen, packet) =>
          let st' : Traced.PartState := ⟨sendLen, p.read env file st.count st.origin,
            st.count + 1, st.packets ++ [⟨p.offset,
              (List.range p.len).map (p.read env file st.count st.origin),
              (env.send st.count).hands st.sendLen, packet⟩]⟩
          if res < 0 then (uploadStreamSendFailed, st', true)
          else if env.ifStop st.count = true then (uploadStopByIoctl, st', true)
          else (successReturn, st', false) := by
      rw [Traced.sendPacket, if_neg hinit, http2StreamGetFileData_reads env file st.origin hreads]
      simp only [hlen]
      rw [if_neg (by decide)]
      rfl
    rw [hpass, follow, if_neg hinit, if_neg (not_not_intro hreads)]
    by_cases haccepts : (env.send st.count).Accepts p
    · have hpos : ¬ (iotHttp2StreamSend (env.send st.count)
          (Traced.bytes env file (p.read env file st.count st.origin)) streamLen st.sendLen
            p.len).1 < 0 := not_lt.mpr (hret.mpr haccepts)
      rw [if_neg (not_not_intro haccepts)]
      simp only [if_neg hpos]
      by_cases hstop : env.ifStop st.count = true
      · rw [if_neg fun h => Bool.noConfusion (hstop.symm.trans h.2.2), if_pos hstop, if_pos hstop]
        exact ⟨_, rfl, rfl, show uploadStopByIoctl < 0 by decide⟩
      · rw [if_pos ⟨hreads, haccepts, by simpa using hstop⟩, if_neg hstop]
        refine congrArg (fun sendLen => ((0 : ℤ), (⟨sendLen, p.read env file st.count st.origin,
          st.count + 1, st.packets ++ [p.traced env file st.count
            (p.read env file st.count st.origin)]⟩ : Traced.PartState), false)) ?_
        exact hsent haccepts
    · have hneg : (iotHttp2StreamSend (env.send st.count)
          (Traced.bytes env file (p.read env file st.count st.origin)) streamLen st.sendLen
            p.len).1 < 0 := not_le.mp fun h => haccepts (hret.mp h)
      rw [if_neg fun h => haccepts h.2.1, if_pos haccepts]
      simp only [if_pos hneg]
      exact ⟨_, rfl, rfl, show uploadStreamSendFailed < 0 by decide⟩
  · rw [if_neg fun h => hreads h.1]
    refine ⟨st, ?_, ?_, ?_⟩
    · rw [Traced.sendPacket, if_neg hinit,
        http2StreamGetFileData_fails env file st.origin hup hreads, follow, if_neg hinit,
        if_pos hreads]
      rfl
    · rw [follow, if_neg hinit, if_pos hreads, append_nil]
    · rw [follow, if_neg hinit, if_pos hreads]
      show uploadFileReadFailed < 0
      decide

variable {origin : ℕ → Option ℕ} {p : PlannedPacket} (ps : List PlannedPacket)

theorem follow_cons (hpass : env.Reads n p ∧ (env.send n).Accepts p ∧ env.ifStop n = false) :
    follow env file n origin (p :: ps) =
      { follow env file (n + 1) (p.read env file n origin) ps with
        packets := p.traced env file n (p.read env file n origin) ::
          (follow env file (n + 1) (p.read env file n origin) ps).packets } := by
  obtain ⟨hreads, haccepts, hstop⟩ := hpass
  rw [follow, if_neg (by simp [hreads.1]), if_neg (not_not_intro hreads),
    if_neg (not_not_intro haccepts), if_neg (by simp [hstop])]

theorem follow_cons_fails (qs : List PlannedPacket)
    (hpass : ¬ (env.Reads n p ∧ (env.send n).Accepts p ∧ env.ifStop n = false)) :
    follow env file n origin (p :: ps) = follow env file n origin (p :: qs) ∧
      (follow env file n origin (p :: ps)).res < 0 := by
  by_cases hinit : env.initState n = false
  · rw [follow, follow, if_pos hinit, if_pos hinit]
    exact ⟨rfl, show uploadErrorCommon < 0 by decide⟩
  by_cases hreads : env.Reads n p
  · by_cases haccepts : (env.send n).Accepts p
    · have hstop : env.ifStop n = true := by simpa [hreads, haccepts] using hpass
      rw [follow, follow, if_neg hinit, if_neg hinit, if_neg (not_not_intro hreads),
        if_neg (not_not_intro hreads), if_neg (not_not_intro haccepts),
        if_neg (not_not_intro haccepts), if_pos hstop, if_pos hstop]
      exact ⟨rfl, show uploadStopByIoctl < 0 by decide⟩
    · rw [follow, follow, if_neg hinit, if_neg hinit, if_neg (not_not_intro hreads),
        if_neg (not_not_intro hreads), if_pos haccepts, if_pos haccepts]
      exact ⟨rfl, show uploadStreamSendFailed < 0 by decide⟩
  · rw [follow, follow, if_neg hinit, if_neg hinit, if_pos hreads, if_pos hreads]
    exact ⟨rfl, show uploadFileReadFailed < 0 by decide⟩

theorem follow_res (n : ℕ) (origin : ℕ → Option ℕ) :
    (follow env file n origin ps).res = 0 ∨ (follow env file n origin ps).res < 0 := by
  induction ps generalizing n origin with
  | nil => exact .inl rfl
  | cons p ps ih =>
    by_cases hpass : env.Reads n p ∧ (env.send n).Accepts p ∧ env.ifStop n = false
    · rw [follow_cons env file ps hpass]
      exact ih _ _
    · exact .inr (follow_cons_fails env file ps [] hpass).2

theorem follow_append (qs : List PlannedPacket) (n : ℕ) (origin : ℕ → Option ℕ) :
    follow env file n origin (ps ++ qs) =
      if (follow env file n origin ps).res < 0 then follow env file n origin ps
      else
        { follow env file (follow env file n origin ps).count
            (follow env file n origin ps).origin qs with
          packets := (follow env file n origin ps).packets ++
            (follow env file (follow env file n origin ps).count
              (follow env file n origin ps).origin qs).packets } := by
  induction ps generalizing n origin with
  | nil => rfl
  | cons p ps ih =>
    rw [cons_append]
    by_cases hpass : env.Reads n p ∧ (env.send n).Accepts p ∧ env.ifStop n = false
    · rw [follow_cons env file (ps ++ qs) hpass, follow_cons env file ps hpass, ih]
      split_ifs <;> rfl
    · obtain ⟨hsame, hneg⟩ := follow_cons_fails env file ps (ps ++ qs) hpass
      rw [if_pos hneg, hsame]

/-- **One part.**  The loop sends the packets of the part. -/
theorem partLoop_follow (fileOffset : ℕ) (hstream : streamLen < 2 ^ 32) (fuel : ℕ) (res : ℤ)
    (st : Traced.PartState) (hfuel : streamLen - st.sendLen < fuel) :
    ∃ st', Traced.partLoop env file fileOffset streamLen fuel res st =
        some (if st.sendLen < streamLen then (follow env file st.count st.origin
          (packetsFrom fileOffset streamLen st.sendLen)).res else res, st') ∧
      st'.packets = st.packets ++ (follow env file st.count st.origin
        (packetsFrom fileOffset streamLen st.sendLen)).packets ∧
      ((follow env file st.count st.origin (packetsFrom fileOffset streamLen st.sendLen)).res = 0 →
        st'.origin = (follow env file st.count st.origin
            (packetsFrom fileOffset streamLen st.sendLen)).origin ∧
          st'.count = (follow env file st.count st.origin
            (packetsFrom fileOffset streamLen st.sendLen)).count) := by
  induction fuel generalizing res st with
  | zero => omega
  | succ fuel ih =>
    rw [Traced.partLoop]
    by_cases hlt : st.sendLen < streamLen
    · have hpos := packet_pos hlt
      have hstep := sendPacket_follow env file fileOffset hlt hstream
        (packetsFrom fileOffset streamLen
          (st.sendLen + min fsUploadPacketLen (streamLen - st.sendLen)))
      rw [if_pos hlt, if_pos hlt, packetsFrom_of_lt hlt]
      set p := nextPacket fileOffset streamLen st.sendLen
      by_cases hpass : env.Reads st.count p ∧ (env.send st.count).Accepts p ∧
          env.ifStop st.count = false
      · rw [if_pos hpass] at hstep
        obtain ⟨st', hloop, hpackets, hwhere⟩ := ih 0
          ⟨st.sendLen + min fsUploadPacketLen (streamLen - st.sendLen),
            p.read env file st.count st.origin, st.count + 1,
            st.packets ++ [p.traced env file st.count (p.read env file st.count st.origin)]⟩
          (by dsimp only; omega)
        rw [hstep, follow_cons env file _ hpass]
        refine ⟨st', ?_, ?_, hwhere⟩
        · show Traced.partLoop env file fileOffset streamLen fuel 0 _ = _
          rw [hloop]
          split_ifs with hmore
          · rfl
          · rw [packetsFrom_of_le (not_lt.mp hmore)]
            rfl
        · rw [hpackets, append_assoc]
          rfl
      · rw [if_neg hpass] at hstep
        obtain ⟨st', hsend, hpackets, hneg⟩ := hstep
        rw [hsend]
        exact ⟨st', rfl, hpackets, fun hzero => absurd hzero hneg.ne⟩
    · rw [if_neg hlt, if_neg hlt, packetsFrom_of_le (not_lt.mp hlt)]
      exact ⟨st, rfl, (append_nil _).symm, fun _ => ⟨rfl, rfl⟩⟩

variable {uploadEnd : ℕ}

variable (node : FileStream)

/-- **All parts.**  From an offset in front of the end, the loop sends the packets of the
upload. -/
theorem partsLoop_follow {bound : ℕ} (hend : uploadEnd < 2 ^ 31) (hbound : 2 ^ 31 ≤ bound)
    (fuel offset : ℕ) (origin : ℕ → Option ℕ) (count : ℕ) (parts : List (List TracedPacket))
    (hlt : offset < uploadEnd) (hfuel : uploadEnd - offset < fuel) :
    ∃ sent, Traced.partsLoop env file uploadEnd (effectivePartLen node) bound fuel offset origin
        count parts = some ((follow env file count origin (partsFrom node uploadEnd offset)).res,
            parts ++ sent) ∧
      sent.flatten = (follow env file count origin (partsFrom node uploadEnd offset)).packets := by
  induction fuel generalizing offset origin count parts with
  | zero => omega
  | succ fuel ih =>
    obtain ⟨hpos, hle⟩ := effectivePartLen_bounds node
    have hleft : toUInt32 ((uploadEnd : ℤ) - offset) = uploadEnd - offset := by
      unfold toUInt32
      omega
    have hlen : (if uploadEnd - offset < effectivePartLen node then uploadEnd - offset
        else effectivePartLen node) = min (uploadEnd - offset) (effectivePartLen node) := by
      split_ifs <;> omega
    rw [partsFrom_of_lt hlt, follow_append]
    simp only [Traced.partsLoop, hleft, hlen]
    set len := min (uploadEnd - offset) (effectivePartLen node)
    have hlenPos : 0 < len := by omega
    have hnext : toUInt32 ((offset : ℤ) + (len : ℕ)) = offset + len := by
      unfold toUInt32
      omega
    have hendValue : toUInt32 (uploadEnd : ℤ) = uploadEnd := toUInt32_of_lt (by omega)
    obtain ⟨st', hloop, hpackets, hwhere⟩ := partLoop_follow env file offset
      (show len < 2 ^ 32 by omega) bound env.unset
      ⟨0, origin, count, []⟩ (by dsimp only; omega)
    rw [if_pos hlenPos] at hloop
    rw [nil_append] at hpackets
    rw [hloop]
    dsimp only
    rcases follow_res env file (packetsFrom offset len 0) count origin with hzero | hneg
    · have hnot : ¬ (follow env file count origin (packetsFrom offset len 0)).res < 0 := by
        rw [hzero]
        exact lt_irrefl 0
      obtain ⟨horigin, hcount⟩ := hwhere hzero
      rw [if_neg hnot, if_neg hnot, hnext, hendValue]
      by_cases hmore : offset + len < uploadEnd
      · rw [if_pos hmore]
        obtain ⟨sent, hsent, hflat⟩ := ih (offset + len) st'.origin st'.count
          (parts ++ [st'.packets]) hmore (by omega)
        rw [horigin, hcount] at hsent hflat
        refine ⟨st'.packets :: sent, ?_, ?_⟩
        · rw [horigin, hcount, hsent, append_assoc]
          rfl
        · rw [flatten_cons, hflat, hpackets]
      · rw [if_neg hmore, partsFrom_of_le (not_lt.mp hmore)]
        refine ⟨[st'.packets], ?_, ?_⟩
        · rw [hzero]
          rfl
        · rw [flatten_singleton, hpackets]
          exact (append_nil _).symm
    · rw [if_pos hneg, if_pos hneg]
      exact ⟨[st'.packets], rfl, by rw [flatten_singleton, hpackets]⟩

/-! ## The bytes of the packets -/

/-- The packets lie one behind the other from an offset on, as far as they can be read. -/
def Chained : ℕ → List PlannedPacket → Prop
  | _, [] => True
  | o, p :: ps => p.offset = o ∧ 0 < p.len ∧ p.len ≤ fsUploadPacketLen ∧
      (o < 2 ^ 31 → Chained (o + p.len) ps)

/-- What stands in the buffer was read from in front of its place. -/
def Before (origin : ℕ → Option ℕ) (o : ℕ) : Prop := ∀ i x, origin i = some x → x < o + i

theorem before_read (h : Before origin p.offset) (n : ℕ) (hpos : 0 < p.len) :
    Before (p.read env file n origin) (p.offset + p.len) := by
  intro i x hx
  unfold PlannedPacket.read Traced.readFrom at hx
  split_ifs at hx with hlt
  · obtain rfl := Option.some.inj hx
    omega
  · have := h i x hx
    omega

theorem traced_inPlace_iff (h : Before origin p.offset) (n : ℕ) :
    (p.traced env file n (p.read env file n origin)).InPlace ↔
      p.len ≤ env.delivered file n p.offset fsUploadPacketLen := by
  unfold TracedPacket.InPlace PlannedPacket.traced
  simp only [length_map, length_range, map_inj_left, mem_range]
  constructor
  · intro hplace
    by_contra hshort
    have hat := hplace _ (not_le.mp hshort)
    rw [PlannedPacket.read, Traced.readFrom, if_neg (lt_irrefl _)] at hat
    exact absurd (h _ _ hat) (lt_irrefl _)
  · intro hle i hi
    rw [PlannedPacket.read, Traced.readFrom, if_pos (hi.trans_le hle)]

/-- **The bytes of the packets.**  What is handed over is in place if and only if it was read in
full. -/
theorem follow_inPlace_iff (n o : ℕ) (origin : ℕ → Option ℕ) (hchained : Chained o ps)
    (hbefore : Before origin o) :
    (∀ t ∈ (follow env file n origin ps).packets, t.handed = true → t.InPlace) ↔
      ∀ np ∈ handedOver env n ps,
        np.2.len ≤ env.delivered file np.1 np.2.offset fsUploadPacketLen := by
  induction ps generalizing n o origin with
  | nil => simp [follow, handedOver]
  | cons p ps ih =>
    obtain ⟨rfl, hpos, -, hrest⟩ := hchained
    have hplace := traced_inPlace_iff env file hbefore n
    by_cases hreads : env.Reads n p
    · have hnext := before_read env file hbefore n hpos
      have hhanded : ((p.traced env file n (p.read env file n origin)).handed = true →
          (p.traced env file n (p.read env file n origin)).InPlace) ↔
          ∀ np ∈ (if (env.send n).hands p.sendLen = true then [(n, p)] else []),
            np.2.len ≤ env.delivered file np.1 np.2.offset fsUploadPacketLen := by
        rw [hplace]
        show ((env.send n).hands p.sendLen = true → _) ↔ _
        split_ifs with hhands <;> simp [hhands]
      by_cases hpass : (env.send n).Accepts p ∧ env.ifStop n = false
      · rw [follow_cons env file ps ⟨hreads, hpass⟩, handedOver, if_pos hreads, if_pos hpass]
        rw [forall_mem_cons, forall_mem_append, hhanded,
          ih (n + 1) _ _ (hrest hreads.2.2) hnext]
      rw [handedOver, if_pos hreads, if_neg hpass, append_nil, ← hhanded]
      have honly : (follow env file n origin (p :: ps)).packets =
          [p.traced env file n (p.read env file n origin)] := by
        rw [follow, if_neg (by simp [hreads.1]), if_neg (not_not_intro hreads)]
        by_cases haccepts : (env.send n).Accepts p
        · rw [if_neg (not_not_intro haccepts),
            if_pos (by simpa [haccepts] using hpass)]
        · rw [if_pos haccepts]
      rw [honly]
      simp
    · have hnone : (follow env file n origin (p :: ps)).packets = [] := by
        rw [follow]
        split_ifs <;> rfl
      rw [hnone, handedOver, if_neg hreads]
      simp

/-- When all packets are sent in place, the bytes that they were laid out for are. -/
theorem follow_covers (n : ℕ) (origin : ℕ → Option ℕ) (hres : (follow env file n origin ps).res = 0)
    (hplace : ∀ t ∈ (follow env file n origin ps).packets, t.handed = true → t.InPlace) {x : ℕ}
    {q : PlannedPacket} (hq : q ∈ ps) (hx : q.offset ≤ x) (hlt : x < q.offset + q.len) :
    ∃ t ∈ (follow env file n origin ps).packets, t.handed = true ∧ some x ∈ t.origin := by
  induction ps generalizing n origin with
  | nil => exact absurd hq (not_mem_nil)
  | cons p ps ih =>
    have hpass : env.Reads n p ∧ (env.send n).Accepts p ∧ env.ifStop n = false := by
      by_contra hpass
      exact absurd hres (follow_cons_fails env file ps [] hpass).2.ne
    rw [follow_cons env file ps hpass] at hres hplace ⊢
    rcases mem_cons.mp hq with rfl | hrest
    · refine ⟨_, mem_cons_self, hpass.2.1.1, ?_⟩
      have hin := hplace _ mem_cons_self hpass.2.1.1
      unfold TracedPacket.InPlace at hin
      rw [hin, mem_map]
      refine ⟨x - q.offset, ?_, congrArg some ?_⟩
      · rw [mem_range]
        simp only [PlannedPacket.traced, length_map, length_range]
        omega
      · show q.offset + (x - q.offset) = x
        omega
    · obtain ⟨t, ht, hhanded, hmem⟩ := ih (n + 1) _ hres
        (fun t ht => hplace t (mem_cons_of_mem _ ht)) hrest
      exact ⟨t, mem_cons_of_mem _ ht, hhanded, hmem⟩

theorem chained_packetsFrom (fileOffset : ℕ) (hstream : streamLen < 2 ^ 31)
    (rest : List PlannedPacket) (sendLen : ℕ) (hle : sendLen ≤ streamLen)
    (hrest : Chained (toUInt32 (streamLen + fileOffset)) rest) :
    Chained (toUInt32 (sendLen + fileOffset))
      (packetsFrom fileOffset streamLen sendLen ++ rest) := by
  induction hleft : streamLen - sendLen using Nat.strong_induction_on generalizing sendLen with
  | _ left ih =>
    by_cases hlt : sendLen < streamLen
    · have hpos := packet_pos hlt
      rw [packetsFrom_of_lt hlt, cons_append]
      refine ⟨rfl, hpos, min_le_left _ _, fun hoffset => ?_⟩
      have hnext : toUInt32 (sendLen + fileOffset) + (nextPacket fileOffset streamLen sendLen).len =
            toUInt32 ((sendLen + min fsUploadPacketLen (streamLen - sendLen) : ℕ) +
              fileOffset) := by
        show _ + min fsUploadPacketLen (streamLen - sendLen) = _
        unfold toUInt32 at hoffset ⊢
        omega
      rw [hnext]
      exact ih _ (by omega) _ (by omega) rfl
    · rw [packetsFrom_of_le (not_lt.mp hlt), show sendLen = streamLen by omega]
      exact hrest

theorem chained_partsFrom (hend : uploadEnd < 2 ^ 31) (offset : ℕ) (hlt : offset < 2 ^ 32) :
    Chained offset (partsFrom node uploadEnd offset) := by
  induction hleft : uploadEnd - offset using Nat.strong_induction_on generalizing offset with
  | _ left ih =>
    by_cases hmore : offset < uploadEnd
    · obtain ⟨hpos, hle⟩ := effectivePartLen_bounds node
      have hoffset : toUInt32 ((0 : ℕ) + (offset : ℤ)) = offset := by
        unfold toUInt32
        omega
      rw [partsFrom_of_lt hmore]
      set len := min (uploadEnd - offset) (effectivePartLen node)
      have hnext : toUInt32 ((len : ℤ) + offset) = offset + len := by
        unfold toUInt32
        omega
      have hchain := chained_packetsFrom offset (show len < 2 ^ 31 by omega)
        (partsFrom node uploadEnd (offset + len)) 0 (Nat.zero_le _)
      rw [hoffset, hnext] at hchain
      exact hchain (ih _ (by omega) _ (by omega) rfl)
    · rw [partsFrom_of_le (not_lt.mp hmore)]
      trivial

theorem chained_plannedPackets {offset : ℕ} (hend : uploadEnd < 2 ^ 31) (hlt : offset < 2 ^ 32) :
    Chained offset (plannedPackets node uploadEnd offset) := by
  unfold plannedPackets
  split_ifs
  · exact chained_partsFrom node hend offset hlt
  · have hle := (effectivePartLen_bounds node).2
    have hchain := chained_packetsFrom offset
      (show min (toUInt32 ((uploadEnd : ℤ) - offset)) (effectivePartLen node) < 2 ^ 31 by omega)
      [] 0 (Nat.zero_le _) trivial
    have hoffset : toUInt32 ((0 : ℕ) + (offset : ℤ)) = offset := by
      unfold toUInt32
      omega
    rwa [hoffset, append_nil] at hchain

theorem mem_packetsFrom {x : ℕ} (hlast : fileOffset + streamLen < 2 ^ 32)
    (hlt : x < fileOffset + streamLen) (sendLen : ℕ) (hx : fileOffset + sendLen ≤ x) :
    ∃ q ∈ packetsFrom fileOffset streamLen sendLen, q.offset ≤ x ∧ x < q.offset + q.len := by
  induction hleft : streamLen - sendLen using Nat.strong_induction_on generalizing sendLen with
  | _ left ih =>
    have hmore : sendLen < streamLen := by omega
    have hpos := packet_pos hmore
    have hoffset : toUInt32 ((sendLen : ℤ) + fileOffset) = fileOffset + sendLen := by
      unfold toUInt32
      omega
    rw [packetsFrom_of_lt hmore]
    by_cases hhere : x < fileOffset + (sendLen + min fsUploadPacketLen (streamLen - sendLen))
    · refine ⟨_, mem_cons_self, ?_, ?_⟩
      · show toUInt32 ((sendLen : ℤ) + fileOffset) ≤ x
        rw [hoffset]
        exact hx
      · show x < toUInt32 ((sendLen : ℤ) + fileOffset) + min fsUploadPacketLen (streamLen - sendLen)
        omega
    · obtain ⟨q, hq, hbounds⟩ := ih _ (by omega)
        (sendLen + min fsUploadPacketLen (streamLen - sendLen)) (not_lt.mp hhere) rfl
      exact ⟨q, mem_cons_of_mem _ hq, hbounds⟩

theorem mem_partsFrom {x : ℕ} (hend : uploadEnd < 2 ^ 31) (hlt : x < uploadEnd) (offset : ℕ)
    (hx : offset ≤ x) :
    ∃ q ∈ partsFrom node uploadEnd offset, q.offset ≤ x ∧ x < q.offset + q.len := by
  induction hleft : uploadEnd - offset using Nat.strong_induction_on generalizing offset with
  | _ left ih =>
    have hpos := (effectivePartLen_bounds node).1
    rw [partsFrom_of_lt (by omega)]
    set len := min (uploadEnd - offset) (effectivePartLen node)
    by_cases hhere : x < offset + len
    · obtain ⟨q, hq, hbounds⟩ := mem_packetsFrom (by omega) hhere 0 hx
      exact ⟨q, mem_append_left _ hq, hbounds⟩
    · obtain ⟨q, hq, hbounds⟩ := ih _ (by omega) (offset + len) (not_lt.mp hhere) rfl
      exact ⟨q, mem_append_right _ hq, hbounds⟩

/-! ## The whole upload -/

theorem uploadLen_bounds (offset : ℤ) (hsize : 0 < http2StreamGetFileSize file) :
    0 ≤ uploadLen node offset (http2StreamGetFileSize file) ∧
      uploadLen node offset (http2StreamGetFileSize file) < 2 ^ 31 := by
  have hcases := http2StreamGetFileSize_cases file
  have hvalue : toUInt32 (http2StreamGetFileSize file) = (http2StreamGetFileSize file).toNat := by
    unfold toUInt32
    omega
  unfold uploadLen
  split_ifs with hspec
  · rw [toInt32_of_bounds (by omega) (by omega)]
    omega
  · omega

theorem toUInt32_fsOffset (offset : Int32) :
    (0 ≤ offset.toInt → (toUInt32 offset.toInt : ℤ) = offset.toInt) ∧
      (offset.toInt < 0 → 2 ^ 31 ≤ toUInt32 offset.toInt) ∧ toUInt32 offset.toInt < 2 ^ 32 := by
  have hle := Int32.le_toInt offset
  have hlt := Int32.toInt_lt offset
  unfold toUInt32
  omega

theorem offset_lt_of_sent {offset len : ℕ} (hlen : 0 < len) (hoffset : offset < 2 ^ 32)
    (hzero : (follow env file n origin (packetsFrom offset len 0)).res = 0) : offset < 2 ^ 31 := by
  rw [packetsFrom_of_lt hlen] at hzero
  have hpass := by_contra fun hpass => absurd hzero (follow_cons_fails env file _ [] hpass).2.ne
  have hplace : toUInt32 ((0 : ℕ) + (offset : ℤ)) < 2 ^ 31 := hpass.1.2.2
  unfold toUInt32 at hplace
  omega

theorem follow_unset (unset : ℤ) (ps : List PlannedPacket) (n : ℕ) (origin : ℕ → Option ℕ) :
    follow { env with unset := unset } file n origin ps = follow env file n origin ps := by
  induction ps generalizing n origin with
  | nil => rfl
  | cons p ps ih =>
    by_cases hpass : env.Reads n p ∧ (env.send n).Accepts p ∧ env.ifStop n = false
    · have hnext := ih (n + 1) (p.read env file n origin)
      rw [follow_cons env file ps hpass, ← hnext]
      exact follow_cons { env with unset := unset } file ps hpass
    · rw [(follow_cons_fails env file ps [] hpass).1]
      exact (follow_cons_fails { env with unset := unset } file ps [] hpass).1

/-- An upload that starts away from its end is what becomes of its packets. -/
theorem http2FsNodeHandle_follow (hstarts : Starts env file)
    (hend : uploadLen node env.fsOffset.toInt (http2StreamGetFileSize file) = uploadEnd)
    (hne : toUInt32 env.fsOffset.toInt ≠ uploadEnd) {fuel : ℕ} (hfuel : 2 ^ 32 ≤ fuel) :
    ∃ parts, Traced.http2FsNodeHandle env file node fuel = some ⟨[(follow env file 0 (fun _ => none)
          (plannedPackets node uploadEnd (toUInt32 env.fsOffset.toInt))).res], parts⟩ ∧
      parts.flatten = (follow env file 0 (fun _ => none)
        (plannedPackets node uploadEnd (toUInt32 env.fsOffset.toInt))).packets := by
  obtain ⟨hsize, hopen, hmalloc⟩ := hstarts
  have hbounds := uploadLen_bounds file node env.fsOffset.toInt hsize
  obtain ⟨hpos, hle⟩ := effectivePartLen_bounds node
  have hoffsetLt := (toUInt32_fsOffset env.fsOffset).2.2
  set offset := toUInt32 env.fsOffset.toInt with hoffset
  have hloop : ∃ parts, Traced.partsLoop env file uploadEnd (effectivePartLen node) fuel fuel
        offset (fun _ => none) 0 [] =
          some ((follow env file 0 (fun _ => none) (plannedPackets node uploadEnd offset)).res,
            parts) ∧
      parts.flatten =
        (follow env file 0 (fun _ => none) (plannedPackets node uploadEnd offset)).packets := by
    unfold plannedPackets
    by_cases hbefore : offset < uploadEnd
    · rw [if_pos hbefore]
      exact partsLoop_follow env file node (by omega) (by omega) fuel offset _ 0 [] hbefore
        (by omega)
    -- behind the end, one part is sent
    obtain ⟨rest, rfl⟩ : ∃ rest, fuel = rest + 1 := ⟨fuel - 1, by omega⟩
    have hleft : 0 < toUInt32 ((uploadEnd : ℤ) - offset) := by
      unfold toUInt32
      omega
    have hlen : (if toUInt32 ((uploadEnd : ℤ) - offset) < effectivePartLen node then
        toUInt32 ((uploadEnd : ℤ) - offset) else effectivePartLen node) =
          min (toUInt32 ((uploadEnd : ℤ) - offset)) (effectivePartLen node) := by
      split_ifs <;> omega
    rw [if_neg hbefore]
    simp only [Traced.partsLoop, hlen]
    set len := min (toUInt32 ((uploadEnd : ℤ) - offset)) (effectivePartLen node)
    have hlenPos : 0 < len := by omega
    obtain ⟨st', hpart, hpackets, -⟩ := partLoop_follow env file offset
      (show len < 2 ^ 32 by omega) (rest + 1) env.unset ⟨0, fun _ => none, 0, []⟩
      (by dsimp only; omega)
    rw [if_pos hlenPos] at hpart
    rw [nil_append] at hpackets
    rw [hpart]
    dsimp only
    rcases follow_res env file (packetsFrom offset len 0) 0 (fun _ => none) with hzero | hneg
    · have hread := offset_lt_of_sent env file hlenPos hoffsetLt hzero
      have hnot : ¬ (follow env file 0 (fun _ => none) (packetsFrom offset len 0)).res < 0 := by
        rw [hzero]
        exact lt_irrefl 0
      have hlast : ¬ toUInt32 ((offset : ℤ) + (len : ℕ)) < toUInt32 (uploadEnd : ℤ) := by
        unfold toUInt32
        omega
      rw [if_neg hnot, if_neg hlast]
      exact ⟨[st'.packets], rfl, by rw [flatten_singleton, hpackets]⟩
    · rw [if_pos hneg]
      exact ⟨[st'.packets], rfl, by rw [flatten_singleton, hpackets]⟩
  obtain ⟨parts, hparts, hflat⟩ := hloop
  refine ⟨parts, ?_, hflat⟩
  have hnotOpen : ¬ http2FsOpenChannel env.toUploadEnv < successReturn := by
    rw [hopen]
    exact lt_irrefl _
  simp only [Traced.http2FsNodeHandle, if_neg (not_le.mpr hsize), if_neg hnotOpen, hmalloc,
    Bool.true_eq_false, if_false, hend, ← hoffset, hparts]
  rcases follow_res env file (plannedPackets node uploadEnd offset) 0 (fun _ => none) with
    hzero | hneg
  · rw [hzero]
    rfl
  · rw [if_pos hneg]

theorem http2FsNodeHandle_at_end (hstarts : Starts env file)
    (hend : env.fsOffset.toInt = uploadLen node env.fsOffset.toInt (http2StreamGetFileSize file))
    {fuel : ℕ} (hfuel : 2 ^ 32 ≤ fuel) :
    Traced.http2FsNodeHandle env file node fuel =
      some ⟨[if env.unset < 0 then env.unset else uploadSuccess], [[]]⟩ := by
  obtain ⟨hsize, hopen, hmalloc⟩ := hstarts
  have hbounds := uploadLen_bounds file node env.fsOffset.toInt hsize
  have hpos := (effectivePartLen_bounds node).1
  have hvalue := (toUInt32_fsOffset env.fsOffset).1 (by omega)
  obtain ⟨rest, rfl⟩ : ∃ rest, fuel = rest + 1 := ⟨fuel - 1, by omega⟩
  have hnotOpen : ¬ http2FsOpenChannel env.toUploadEnv < successReturn := by
    rw [hopen]
    exact lt_irrefl _
  have hleft : toUInt32 (env.fsOffset.toInt - (toUInt32 env.fsOffset.toInt : ℕ)) = 0 := by
    rw [hvalue, Int.sub_self]
    rfl
  have hlast : ¬ toUInt32 ((toUInt32 env.fsOffset.toInt : ℤ) + (0 : ℕ)) <
      toUInt32 env.fsOffset.toInt := by
    rw [hvalue, Nat.cast_zero, Int.add_zero]
    exact lt_irrefl _
  have hloop : Traced.partsLoop env file env.fsOffset.toInt (effectivePartLen node) (rest + 1)
      (rest + 1) (toUInt32 env.fsOffset.toInt) (fun _ => none) 0 [] = some (env.unset, [[]]) := by
    simp only [Traced.partsLoop, hleft, if_pos hpos, Traced.partLoop, lt_irrefl, if_false,
      if_neg hlast]
    split_ifs <;> rfl
  simp only [Traced.http2FsNodeHandle, if_neg (not_le.mpr hsize), if_neg hnotOpen, hmalloc,
    Bool.true_eq_false, if_false, ← hend, hloop]

/-- The result of an upload that starts at its end depends on what stands in the variable. -/
theorem not_truthful_at_end {node : FileStream} (hstarts : Starts env file)
    (hend : env.fsOffset.toInt = uploadLen node env.fsOffset.toInt (http2StreamGetFileSize file))
    {fuel : ℕ} (hfuel : 2 ^ 32 ≤ fuel) (r : TracedResult) : ¬ Truthful env file node fuel r := by
  intro h
  have hresult : ∀ unset, r.endCb = [if unset < 0 then unset else uploadSuccess] := by
    intro unset
    obtain ⟨r', hr', hsame⟩ := h.determined unset
    have hat := http2FsNodeHandle_at_end { env with unset := unset } file node hstarts hend hfuel
    obtain rfl := Option.some.inj (hr'.symm.trans hat)
    exact hsame.symm
  exact absurd ((hresult (-1)).symm.trans (hresult 0)) (by decide)

theorem truthful_of_not_starts (hstarts : ¬ Starts env file) (fuel : ℕ) :
    ∃ r, Traced.http2FsNodeHandle env file node fuel = some r ∧
      Truthful env file node fuel r := by
  have hreport : ∃ code : ℤ, code ≠ uploadSuccess ∧
      ∀ unset, Traced.http2FsNodeHandle { env with unset := unset } file node fuel =
        some ⟨[code], []⟩ := by
    by_cases hsize : http2StreamGetFileSize file ≤ 0
    · refine ⟨uploadFileNotExist, by decide, fun unset => ?_⟩
      rw [Traced.http2FsNodeHandle, if_pos hsize]
    by_cases hopen : http2FsOpenChannel env.toUploadEnv < successReturn
    · refine ⟨http2FsOpenChannel env.toUploadEnv, hopen.ne, fun unset => ?_⟩
      rw [Traced.http2FsNodeHandle, if_neg hsize]
      exact if_pos hopen
    have hopened : http2FsOpenChannel env.toUploadEnv = successReturn := by
      unfold http2FsOpenChannel at hopen ⊢
      split_ifs at hopen ⊢ with hfails
      · exact absurd (show uploadStreamOpenFailed < successReturn by decide) hopen
      · rfl
    have hmalloc : env.malloc = false := by
      by_contra hsome
      exact hstarts ⟨not_le.mp hsize, hopened, by simpa using hsome⟩
    refine ⟨uploadMallocFailed, by decide, fun unset => ?_⟩
    rw [Traced.http2FsNodeHandle, if_neg hsize]
    show (if http2FsOpenChannel env.toUploadEnv < successReturn then _ else _) = _
    rw [if_neg hopen]
    exact if_pos hmalloc
  obtain ⟨code, hcode, hresult⟩ := hreport
  refine ⟨⟨[code], []⟩, hresult env.unset, rfl, fun hmem => ?_, fun t ht => ?_, fun unset => ?_⟩
  · exact absurd (mem_singleton.mp hmem).symm hcode
  · exact absurd ht not_mem_nil
  · exact ⟨_, hresult unset, rfl⟩

/-- **Verdict.**  Whatever server and file do, the upload ends, `end_cb` is called once with a
result that is no accident and success only if the file was sent, and no byte is sent but that of
the file in its place, if and only if the upload does not start at its end and every packet that is
handed over was read in full. -/
theorem upload_truthful_iff (env : VerdictEnv) (file : Bytes) (node : FileStream) :
    (∀ fuel ≥ 2 ^ 32, ∃ r, Traced.http2FsNodeHandle env file node fuel = some r ∧
      Truthful env file node fuel r) ↔ ReadsInFull env file node := by
  unfold ReadsInFull
  by_cases hstarts : Starts env file
  · obtain ⟨hbounds, hlt⟩ := uploadLen_bounds file node env.fsOffset.toInt hstarts.1
    obtain ⟨uploadEnd, hend⟩ := Int.eq_ofNat_of_zero_le hbounds
    obtain ⟨hnonneg, hneg, hoffsetLt⟩ := toUInt32_fsOffset env.fsOffset
    simp only [hstarts, true_implies, hend, Int.toNat_natCast]
    by_cases hat : env.fsOffset.toInt = uploadEnd
    · simp only [hat, ne_eq, not_true_eq_false, false_and, iff_false]
      intro hall
      obtain ⟨r, -, hr⟩ := hall _ le_rfl
      exact not_truthful_at_end env file hstarts (hat.trans hend.symm) le_rfl r hr
    have hne : toUInt32 env.fsOffset.toInt ≠ uploadEnd := by omega
    have hchained := chained_plannedPackets node (show uploadEnd < 2 ^ 31 by omega) hoffsetLt
    have hiff := follow_inPlace_iff env file _ 0 _ (fun _ => none) hchained
      (fun i x hx => absurd hx (Option.some_ne_none x).symm)
    set f := follow env file 0 (fun _ => none)
      (plannedPackets node uploadEnd (toUInt32 env.fsOffset.toInt)) with hf
    -- what is handed over in the parts is what is handed over in a row
    have hhanded : ∀ {r : TracedResult}, r.parts.flatten = f.packets →
        ∀ {t : TracedPacket}, t ∈ r.handed ↔ t ∈ f.packets ∧ t.handed = true := by
      intro r hr t
      rw [TracedResult.handed, hr, mem_filter]
    rw [← hiff]
    constructor
    · intro hall
      obtain ⟨r, hr, htruthful⟩ := hall _ le_rfl
      obtain ⟨parts, hparts, hflat⟩ := http2FsNodeHandle_follow env file node hstarts hend hne
        (le_refl (2 ^ 32))
      obtain rfl := Option.some.inj (hr.symm.trans hparts)
      exact ⟨hat, fun t ht hhands => htruthful.inPlace t ((hhanded hflat).mpr ⟨ht, hhands⟩)⟩
    · rintro ⟨-, hplace⟩ fuel hfuel
      obtain ⟨parts, hparts, hflat⟩ := http2FsNodeHandle_follow env file node hstarts hend hne hfuel
      refine ⟨_, hparts, rfl, fun hmem x hx hxlt => ?_, fun t ht => ?_, fun unset => ?_⟩
      · have hres : f.res = 0 := (mem_singleton.mp hmem).symm
        have hbefore : toUInt32 env.fsOffset.toInt < uploadEnd := by
          by_contra hbehind
          have hplan : plannedPackets node uploadEnd (toUInt32 env.fsOffset.toInt) =
              packetsFrom (toUInt32 env.fsOffset.toInt) (min (toUInt32 ((uploadEnd : ℤ) -
                (toUInt32 env.fsOffset.toInt : ℕ))) (effectivePartLen node)) 0 := if_neg hbehind
          have hpos := (effectivePartLen_bounds node).1
          have hleft : 0 < toUInt32 ((uploadEnd : ℤ) - (toUInt32 env.fsOffset.toInt : ℕ)) := by
            generalize toUInt32 env.fsOffset.toInt = offset at *
            unfold toUInt32
            omega
          rw [hf, hplan] at hres
          have := offset_lt_of_sent env file (lt_min hleft hpos) hoffsetLt hres
          omega
        have hplan : plannedPackets node uploadEnd (toUInt32 env.fsOffset.toInt) =
            partsFrom node uploadEnd (toUInt32 env.fsOffset.toInt) := if_pos hbefore
        obtain ⟨q, hq, hle, hqlt⟩ := mem_partsFrom node (show uploadEnd < 2 ^ 31 by omega)
          (show x < uploadEnd by omega) (toUInt32 env.fsOffset.toInt) (by omega)
        obtain ⟨t, ht, hhands, hread⟩ := follow_covers env file _ 0 (fun _ => none) hres hplace
          (hplan ▸ hq) hle hqlt
        exact ⟨t, (hhanded hflat).mpr ⟨ht, hhands⟩, hread⟩
      · obtain ⟨hmem, hhands⟩ := (hhanded hflat).mp ht
        exact hplace t hmem hhands
      · obtain ⟨parts', hparts', -⟩ := http2FsNodeHandle_follow { env with unset := unset } file
          node hstarts hend hne hfuel
        refine ⟨_, hparts', ?_⟩
        exact congrArg (fun f : Followed => [f.res]) (follow_unset env file unset _ 0 _)
  · simp only [hstarts, false_implies, iff_true]
    exact fun fuel _ => truthful_of_not_starts env file node hstarts fuel

/-- A connection that does not fail, and a server that has the three bytes of the
file. -/
def atEndEnv : VerdictEnv := { steadyEnv 3 with read := fun _ => fsUploadPacketLen }

/-- All three bytes of a file were sent before: what stands in the variable is reported. -/
theorem upload_truthful_broken :
    ¬ ∀ (env : VerdictEnv) (file : Bytes) (node : FileStream), env.fsOffset.toInt ≠ -1 →
      ∀ fuel ≥ 2 ^ 32, ∃ r, Traced.http2FsNodeHandle env file node fuel = some r ∧
        Truthful env file node fuel r := by
  intro hclaim
  obtain ⟨r, -, hr⟩ := hclaim atEndEnv [7, 8, 9] ⟨0, 0⟩ (by decide) (2 ^ 32) le_rfl
  exact not_truthful_at_end atEndEnv [7, 8, 9] ⟨by decide, by decide, rfl⟩ (by decide) le_rfl r hr

end Iotkit.Http2
