/-
# The buffer of the packet reader

`iotx_mc_read_packet` with the cells of `buf_read`: the header byte, the length that
`MQTTPacket_encode` puts back behind it, the buffer that `_alloc_recv_buffer` grows, and the bytes
of the body.

A buffer that holds the fixed header is never left, and the reader does with it what
`iotxMcReadPacket` says.  `readPacket_consumes` follows one packet of the stream.
-/
import Iotkit.WriteBuffer
import Iotkit.MqttAlignment
import Iotkit.MqttRecvPublish

namespace Iotkit.Mqtt

open List

/-! ## The reader and its buffer -/

variable (m : BufMode) (b : WriteBuffer UInt8)

/-- `_alloc_recv_buffer`; a `buf_read` that is `NULL` has no cells. -/
def allocRecvBuffer (ok : Bool) (len : ℕ) (b : WriteBuffer UInt8) :
    Option (WriteBuffer UInt8) :=
  if m.allocFails ok then none
  else
    match m with
    | .dynBuf _ => some (b.resize (m.recvSize len) 0)
    | .fixedBuf _ => some b
    | .staticBuf => some b

/-- The branch of `iotx_mc_read_packet` for a packet that exceeds the read buffer. -/
def iotxMcReadOversizedInto (net : Net) (env : ReadEnv) (len remLen : ℕ) :
    ReadResult × WriteBuffer UInt8 :=
  let needReadLen : ℤ := (b.size : ℤ) - len
  let (rc, part, net) := ipstackRead net (needReadLen % 2 ^ 32).toNat env.head
  let b := b.store len part
  if rc < 0 then ({ rc := mqttNetworkError, net := net }, b)
  else if rc ≠ needReadLen then ({ rc := failReturn, net := net }, b)
  else
    let remainDataLen : ℤ := (remLen : ℤ) - needReadLen
    if m.remainBufFails env.allocRemain remainDataLen then ({ rc := failReturn, net := net }, b)
    else
      let (rc, _, net) := ipstackRead net (remainDataLen % 2 ^ 32).toNat env.tail
      if rc < 0 then ({ rc := mqttNetworkError, net := net }, b)
      else if rc ≠ remainDataLen then ({ rc := failReturn, net := net }, b)
      else ({ rc := successReturn, net := net, overflow := true }, b)

/-- `iotx_mc_read_packet` from the point where the remaining length is known. -/
def iotxMcReadRestInto (net : Net) (env : ReadEnv) (remLen : ℕ) : ReadResult × WriteBuffer UInt8 :=
  let b := b.store 1 (mqttPacketEncode remLen)
  let len := fixedHeaderLen remLen
  match allocRecvBuffer m env.alloc1 (remLen + len) b with
  | none => ({ rc := failReturn, net := net }, b)
  | some b =>
    if 0 < remLen ∧ b.size < remLen + len then iotxMcReadOversizedInto m b net env len remLen
    else
      let (rc, body, net) := ipstackRead net remLen env.body
      let b := b.store len body
      if 0 < remLen ∧ rc < 0 then ({ rc := mqttNetworkError, net := net }, b)
      else if 0 < remLen ∧ rc ≠ remLen then ({ rc := failReturn, net := net }, b)
      else
        let type := mqttHeaderGetType (b.cells.headD 0)
        let b := if len + remLen < b.size then b.store (len + remLen) [0] else b
        ({ rc := successReturn, packetType := type, buf := b.cells.take (len + remLen),
           net := net }, b)

/-- `iotx_mc_read_packet`. -/
def iotxMcReadPacketInto (net : Net) (env : ReadEnv) :
    ReadResult × WriteBuffer UInt8 :=
  match allocRecvBuffer m env.alloc0 0 b with
  | none => ({ rc := failReturn, net := net }, b)
  | some b =>
    let (rc, header, net) := ipstackRead net 1 env.header
    let b := b.store 0 header
    if rc = 0 then ({ rc := successReturn, net := net }, b)
    else if rc ≠ 1 then ({ rc := mqttNetworkError, net := net }, b)
    else
      let (rc, remLen, net) := iotxMcDecodePacket net env.length
      if rc < 0 then ({ rc := rc, net := net }, b)
      else iotxMcReadRestInto m b net env remLen

/-! ## The sizes -/

/-- A buffer that is not allocated on demand has the size of its mode. -/
def BufMode.Fits : BufMode → Prop
  | .dynBuf _ => True
  | .fixedBuf bufSize => b.size = bufSize
  | .staticBuf => b.size = iotxMcRxMaxLen

theorem BufMode.recvSize_mono {len len' : ℕ} (h : len ≤ len') :
    m.recvSize len ≤ m.recvSize len' := by
  cases m with
  | dynBuf bufSizeMax =>
    show min _ _ ≤ min _ _
    omega
  | fixedBuf bufSize => exact le_rfl
  | staticBuf => exact le_rfl

variable {m : BufMode}

theorem allocRecvBuffer_fail {ok : Bool} (hfail : m.allocFails ok = true) (len : ℕ)
    (b : WriteBuffer UInt8) : allocRecvBuffer m ok len b = none := if_pos hfail

variable {b : WriteBuffer UInt8}

/-- What `_alloc_recv_buffer` gives when it does not fail. -/
theorem allocRecvBuffer_spec (hb : m.Fits b) {ok : Bool}
    (hok : m.allocFails ok = false) (len : ℕ) :
    ∃ b', allocRecvBuffer m ok len b = some b' ∧ b'.size = m.recvSize len ∧ m.Fits b' ∧
      b'.stray = b.stray ∧ ∀ p, p <+: b.cells → p.length ≤ m.recvSize len → p <+: b'.cells := by
  have hnot : ¬ m.allocFails ok = true := by
    rw [hok]
    decide
  unfold allocRecvBuffer
  rw [if_neg hnot]
  cases m with
  | dynBuf bufSizeMax =>
    exact ⟨_, rfl, b.size_resize _ 0, trivial, rfl, fun p hp hlen =>
      WriteBuffer.prefix_resize hp hlen 0⟩
  | fixedBuf bufSize => exact ⟨b, rfl, hb, hb, rfl, fun p hp _ => hp⟩
  | staticBuf => exact ⟨b, rfl, hb, hb, rfl, fun p hp _ => hp⟩

theorem BufMode.Fits.store (hb : m.Fits b) (i : ℕ)
    (l : Bytes) : m.Fits (b.store i l) := by
  cases m with
  | dynBuf bufSizeMax => trivial
  | fixedBuf bufSize => exact (b.size_store i l).trans hb
  | staticBuf => exact (b.size_store i l).trans hb

/-! ## The stores stay in the buffer -/

theorem iotxMcReadOversizedInto_eq (m : BufMode) {b : WriteBuffer UInt8} (net : Net)
    (env : ReadEnv) {len remLen : ℕ} (hlen : len ≤ b.size) (hover : b.size < remLen + len)
    (hlt : remLen < 128 ^ 4) :
    (iotxMcReadOversizedInto m b net env len remLen).1 =
        iotxMcReadOversized m net env b.size len remLen ∧
      (iotxMcReadOversizedInto m b net env len remLen).2.stray = b.stray := by
  have hread := length_ipstackRead net (((b.size : ℤ) - len) % 2 ^ 32).toNat env.head
  have hstray : (b.store len (ipstackRead net (((b.size : ℤ) - len) % 2 ^ 32).toNat
      env.head).2.1).stray = b.stray :=
    WriteBuffer.stray_store (.inr (by omega))
  rw [iotxMcReadOversizedInto, iotxMcReadOversized]
  generalize ipstackRead net (((b.size : ℤ) - len) % 2 ^ 32).toNat env.head = r at hstray ⊢
  dsimp only
  split_ifs
  · exact ⟨rfl, hstray⟩
  · exact ⟨rfl, hstray⟩
  · exact ⟨rfl, hstray⟩
  · exact ⟨rfl, hstray⟩
  · exact ⟨rfl, hstray⟩
  · exact ⟨rfl, hstray⟩

theorem iotxMcReadRestInto_eq (hb : m.Fits b) {h : UInt8}
    (hheader : [h] <+: b.cells) (net : Net) (env : ReadEnv) {remLen : ℕ}
    (hroom : fixedHeaderLen remLen ≤ b.size) (hsize : b.size = m.recvSize 0)
    (hlt : remLen < 128 ^ 4) :
    (iotxMcReadRestInto m b net env remLen).1 = iotxMcReadRest m net env [h] remLen ∧
      (iotxMcReadRestInto m b net env remLen).2.stray = b.stray := by
  have henc : [h] ++ mqttPacketEncode remLen <+: (b.store 1 (mqttPacketEncode remLen)).cells :=
    WriteBuffer.prefix_store hheader hroom
  have hstray : (b.store 1 (mqttPacketEncode remLen)).stray = b.stray :=
    WriteBuffer.stray_store (.inr hroom)
  have hlen : ([h] ++ mqttPacketEncode remLen).length = fixedHeaderLen remLen := by
    rw [length_append]
    rfl
  rw [iotxMcReadRestInto, iotxMcReadRest]
  by_cases hfail : m.allocFails env.alloc1 = true
  · rw [if_pos hfail, allocRecvBuffer_fail hfail]
    exact ⟨rfl, hstray⟩
  rw [if_neg hfail]
  obtain ⟨b', hb', hsize', -, hstray', hfront⟩ := allocRecvBuffer_spec (hb.store 1 _)
    (Bool.eq_false_iff.mpr hfail) (remLen + fixedHeaderLen remLen)
  rw [hstray] at hstray'
  rw [hb']
  dsimp only
  have hroom' : fixedHeaderLen remLen ≤ b'.size := by
    rw [hsize']
    exact (hroom.trans_eq hsize).trans (m.recvSize_mono (Nat.zero_le _))
  replace hfront := hfront _ henc (hlen.trans_le (hroom'.trans_eq hsize'))
  rw [← hsize']
  by_cases hover : 0 < remLen ∧ b'.size < remLen + fixedHeaderLen remLen
  · rw [if_pos hover, if_pos hover]
    have heq := iotxMcReadOversizedInto_eq m net env hroom' hover.2 hlt
    rw [← hstray']
    exact heq
  rw [if_neg hover, if_neg hover]
  have hread := length_ipstackRead net remLen env.body
  have hall := @length_body_of_checks net remLen env.body
  generalize ipstackRead net remLen env.body = r at hread hall ⊢
  obtain ⟨rc, body, net'⟩ := r
  dsimp only at hread hall ⊢
  have hbody : fixedHeaderLen remLen + body.length ≤ b'.size := by
    obtain ⟨hle, -⟩ := hread
    by_cases hpos : 0 < remLen
    · have hfits := not_and.mp hover hpos
      omega
    · omega
  have hstore : (b'.store (fixedHeaderLen remLen) body).stray = b.stray := by
    rw [WriteBuffer.stray_store (.inr hbody), hstray']
  by_cases herr : 0 < remLen ∧ rc < 0
  · rw [if_pos herr, if_pos herr]
    exact ⟨rfl, hstore⟩
  rw [if_neg herr, if_neg herr]
  by_cases hshort : 0 < remLen ∧ rc ≠ remLen
  · rw [if_pos hshort, if_pos hshort]
    exact ⟨rfl, hstore⟩
  rw [if_neg hshort, if_neg hshort]
  have hpacket : [h] ++ mqttPacketEncode remLen ++ body <+:
      (b'.store (fixedHeaderLen remLen) body).cells := by
    rw [← hlen]
    exact WriteBuffer.prefix_store hfront (by rwa [hlen])
  have hplen : ([h] ++ mqttPacketEncode remLen ++ body).length = fixedHeaderLen remLen + remLen := by
    rw [length_append, hlen, hall herr hshort]
  have hhead : (b'.store (fixedHeaderLen remLen) body).cells.headD 0 = h := by
    obtain ⟨q, hq⟩ := hpacket
    rw [← hq]
    rfl
  rw [hhead]
  -- the zero goes behind the packet
  by_cases hzero : fixedHeaderLen remLen + remLen < (b'.store (fixedHeaderLen remLen) body).size
  · have htake := prefix_iff_eq_take.mp (WriteBuffer.prefix_store_of_le hpacket hplen.le [0])
    rw [hplen] at htake
    rw [if_pos hzero, ← htake, WriteBuffer.stray_store (.inr hzero), hstore]
    exact ⟨rfl, rfl⟩
  · have htake := prefix_iff_eq_take.mp hpacket
    rw [hplen] at htake
    rw [if_neg hzero, ← htake]
    exact ⟨rfl, hstore⟩

theorem buf_front (m : BufMode) (b : WriteBuffer UInt8) (net : Net) (env : ReadEnv) :
    (iotxMcReadPacketInto m b net env).1.buf <+: (iotxMcReadPacketInto m b net env).2.cells := by
  have hover : ∀ b net len remLen,
      (iotxMcReadOversizedInto m b net env len remLen).1.buf = [] := by
    intro b net len remLen
    unfold iotxMcReadOversizedInto
    dsimp only
    split_ifs <;> rfl
  have hrest : ∀ b net remLen, (iotxMcReadRestInto m b net env remLen).1.buf <+:
      (iotxMcReadRestInto m b net env remLen).2.cells := by
    intro b net remLen
    unfold iotxMcReadRestInto
    dsimp only
    split
    · exact nil_prefix
    · split_ifs
      · rw [hover]
        exact nil_prefix
      · exact nil_prefix
      · exact nil_prefix
      · exact take_prefix _ _
      · exact take_prefix _ _
  unfold iotxMcReadPacketInto
  dsimp only
  split
  · exact nil_prefix
  · split_ifs
    · exact nil_prefix
    · exact nil_prefix
    · exact nil_prefix
    · exact hrest _ _ _

/-- If the buffer holds the fixed header that the reader finds, no byte is stored behind it, and the
reader does what `iotxMcReadPacket` does. -/
theorem iotxMcReadPacketInto_eq_of_room (hb : m.Fits b)
    {net : Net} {env : ReadEnv}
    (hroom : fixedHeaderLen (iotxMcDecodePacket (ipstackRead net 1 env.header).2.2 env.length).2.1 ≤
      m.recvSize 0) :
    (iotxMcReadPacketInto m b net env).1 = iotxMcReadPacket m net env ∧
      (iotxMcReadPacketInto m b net env).2.stray = b.stray := by
  rw [iotxMcReadPacketInto, iotxMcReadPacket]
  by_cases hfail : m.allocFails env.alloc0 = true
  · rw [if_pos hfail, allocRecvBuffer_fail hfail]
    exact ⟨rfl, rfl⟩
  rw [if_neg hfail]
  obtain ⟨b₀, hb₀, hsize, hfits, hstray, -⟩ :=
    allocRecvBuffer_spec hb (Bool.eq_false_iff.mpr hfail) 0
  rw [hb₀]
  have hread := length_ipstackRead net 1 env.header
  generalize ipstackRead net 1 env.header = r at hroom hread ⊢
  obtain ⟨rc, header, net'⟩ := r
  dsimp only at hroom hread ⊢
  have hone : 1 ≤ b₀.size := by
    rw [hsize]
    exact (Nat.le_add_right 1 _).trans hroom
  have hstore : (b₀.store 0 header).stray = b.stray := by
    rw [WriteBuffer.stray_store (.inr (by omega)), hstray]
  -- no header byte, or an error while reading it
  by_cases hzero : rc = 0
  · rw [if_pos hzero, if_pos hzero]
    exact ⟨rfl, hstore⟩
  rw [if_neg hzero, if_neg hzero]
  by_cases hrc : rc ≠ 1
  · rw [if_pos hrc, if_pos hrc]
    exact ⟨rfl, hstore⟩
  rw [if_neg hrc, if_neg hrc]
  obtain ⟨h, rfl⟩ : ∃ h, header = [h] := by
    apply length_eq_one_iff.mp
    omega
  -- the length field has at most four bytes
  have hval := iotxMcDecodePacketLoop_value_le env.length 4 0 1 0 net'
  rw [iotxMcDecodePacket] at hroom ⊢
  generalize iotxMcDecodePacketLoop env.length 4 0 1 0 net' = d at hroom hval ⊢
  obtain ⟨rc', remLen, net''⟩ := d
  dsimp only at hroom hval ⊢
  by_cases hneg : rc' < 0
  · rw [if_pos hneg, if_pos hneg]
    exact ⟨rfl, hstore⟩
  rw [if_neg hneg, if_neg hneg]
  have hheader : [h] <+: (b₀.store 0 [h]).cells :=
    WriteBuffer.prefix_store nil_prefix hone
  have hsize' : (b₀.store 0 [h]).size = m.recvSize 0 := (b₀.size_store 0 [h]).trans hsize
  rw [← hstore]
  exact iotxMcReadRestInto_eq (hfits.store 0 [h]) hheader net'' env (hroom.trans_eq hsize'.symm)
    hsize' (by omega)

/-- **The reader keeps to its buffer.**  A buffer that holds every fixed header is never left. -/
theorem iotxMcReadPacketInto_eq (hm : m.HoldsFixedHeader) {b : WriteBuffer UInt8}
    (hb : m.Fits b) (net : Net) (env : ReadEnv) :
    (iotxMcReadPacketInto m b net env).1 = iotxMcReadPacket m net env ∧
      (iotxMcReadPacketInto m b net env).2.stray = b.stray := by
  apply iotxMcReadPacketInto_eq_of_room hb
  have hval := iotxMcDecodePacketLoop_value_le env.length 4 0 1 0
    (ipstackRead net 1 env.header).2.2
  refine (fixedHeaderLen_le ?_).trans hm
  rw [iotxMcDecodePacket]
  omega

/-! ## One packet of the stream -/

/-- The size that the read buffer of a mode can have. -/
def BufMode.recvMax : BufMode → ℕ
  | .dynBuf bufSizeMax => bufSizeMax
  | .fixedBuf bufSize => bufSize
  | .staticBuf => iotxMcRxMaxLen

/-- Every read is served, memory is had or not. -/
def ReadEnv.reads (alloc0 alloc1 allocRemain : Bool) : ReadEnv :=
  { ReadEnv.served with alloc0 := alloc0, alloc1 := alloc1, allocRemain := allocRemain }

theorem BufMode.le_recvSize_iff (m : BufMode) (len : ℕ) :
    len ≤ m.recvSize len ↔ len ≤ m.recvMax := by
  cases m with
  | dynBuf bufSizeMax =>
    show len ≤ min (mqttDynbufRecvMargin + len) bufSizeMax ↔ len ≤ bufSizeMax
    omega
  | fixedBuf bufSize => exact Iff.rfl
  | staticBuf => exact Iff.rfl

theorem BufMode.recvSize_of_lt {len : ℕ} (h : m.recvMax < len) :
    m.recvSize len = m.recvMax := by
  cases m with
  | dynBuf bufSizeMax =>
    have hmax : bufSizeMax < len := h
    show min (mqttDynbufRecvMargin + len) bufSizeMax = bufSizeMax
    omega
  | fixedBuf bufSize => rfl
  | staticBuf => rfl

theorem BufMode.fixedHeaderLen_le_recvSize (m : BufMode) {remLen : ℕ} (hlt : remLen < 128 ^ 4)
    (h : fixedHeaderLen remLen ≤ m.recvMax) : fixedHeaderLen remLen ≤ m.recvSize 0 := by
  cases m with
  | dynBuf bufSizeMax =>
    have hmax : fixedHeaderLen remLen ≤ bufSizeMax := h
    have hle := fixedHeaderLen_le hlt
    show fixedHeaderLen remLen ≤ min (8 + 0) bufSizeMax
    omega
  | fixedBuf bufSize => exact h
  | staticBuf => exact h

theorem ipstackRead_full {net : Net} (hest : net.established = true) {n : ℕ} (hn : n ≤ intMax) :
    ipstackRead net n .full = ((n : ℤ), memSlice net.bytes net.pos n, net.advance n) := by
  simp [ipstackRead, hest, ReadEvent.count, Nat.min_eq_left hn, Net.advance]

section Served

variable {m : BufMode} {net : Net} {alloc0 alloc1 allocRemain : Bool}

@[simp] theorem ReadEnv.reads_alloc0 :
    (ReadEnv.reads alloc0 alloc1 allocRemain).alloc0 = alloc0 := rfl
@[simp] theorem ReadEnv.reads_header :
    (ReadEnv.reads alloc0 alloc1 allocRemain).header = .full := rfl
@[simp] theorem ReadEnv.reads_alloc1 :
    (ReadEnv.reads alloc0 alloc1 allocRemain).alloc1 = alloc1 := rfl
@[simp] theorem ReadEnv.reads_body :
    (ReadEnv.reads alloc0 alloc1 allocRemain).body = .full := rfl
@[simp] theorem ReadEnv.reads_head :
    (ReadEnv.reads alloc0 alloc1 allocRemain).head = .full := rfl
@[simp] theorem ReadEnv.reads_allocRemain :
    (ReadEnv.reads alloc0 alloc1 allocRemain).allocRemain = allocRemain := rfl
@[simp] theorem ReadEnv.reads_tail :
    (ReadEnv.reads alloc0 alloc1 allocRemain).tail = .full := rfl

/-- A packet that exceeds the buffer is read and dropped, or there is no memory for what is
dropped. -/
theorem iotxMcReadOversized_served (hest : net.established = true) {size len remLen : ℕ}
    (hlen : len ≤ size) (hover : size < remLen + len) (hlt : remLen < 128 ^ 4) :
    iotxMcReadOversized m net (.reads alloc0 alloc1 allocRemain) size len remLen =
      if m.remainBufFails allocRemain (remLen - ((size : ℤ) - len)) then
        { rc := failReturn, net := net.advance (size - len) }
      else { rc := successReturn, net := net.advance remLen, overflow := true } := by
  obtain ⟨need, hneed⟩ : ∃ need, size = len + need := Nat.exists_eq_add_of_le hlen
  obtain ⟨remain, hremain⟩ : ∃ remain, remLen = need + remain :=
    Nat.exists_eq_add_of_le (by omega)
  subst hneed hremain
  have hsize : ((len + need : ℕ) : ℤ) - len = (need : ℤ) := by omega
  have hdrop : ((need + remain : ℕ) : ℤ) - need = (remain : ℤ) := by omega
  have hmod : ∀ k : ℕ, k < 128 ^ 4 → ((k : ℤ) % 2 ^ 32).toNat = k := by
    intro k hk
    omega
  have hmax : ∀ k : ℕ, k < 128 ^ 4 → k ≤ intMax := by
    intro k hk
    rw [intMax]
    omega
  have hest' : (net.advance need).established = true := hest
  rw [iotxMcReadOversized, hsize, hmod need (by omega), Nat.add_sub_cancel_left,
    ReadEnv.reads_head, ipstackRead_full hest (hmax need (by omega))]
  dsimp only
  rw [if_neg (by omega), if_neg (by simp), hdrop, ReadEnv.reads_allocRemain]
  by_cases hfail : m.remainBufFails allocRemain remain = true
  · rw [if_pos hfail, if_pos hfail]
  · rw [if_neg hfail, if_neg hfail, hmod remain (by omega), ReadEnv.reads_tail,
      ipstackRead_full hest' (hmax remain (by omega))]
    rw [if_neg (by omega), if_neg (by simp), Net.advance_advance]

theorem iotxMcReadRest_served (hest : net.established = true) (h : UInt8) {remLen : ℕ}
    (hroom : fixedHeaderLen remLen ≤ m.recvMax) (hlt : remLen < 128 ^ 4) :
    iotxMcReadRest m net (.reads alloc0 alloc1 allocRemain) [h] remLen =
      if m.allocFails alloc1 then { rc := failReturn, net := net }
      else if remLen + fixedHeaderLen remLen ≤ m.recvMax then
        { rc := successReturn, packetType := mqttHeaderGetType h,
          buf := h :: (mqttPacketEncode remLen ++ memSlice net.bytes net.pos remLen),
          net := net.advance remLen }
      else if m.remainBufFails allocRemain (remLen - ((m.recvMax : ℤ) - fixedHeaderLen remLen)) then
        { rc := failReturn, net := net.advance (m.recvMax - fixedHeaderLen remLen) }
      else { rc := successReturn, net := net.advance remLen, overflow := true } := by
  rw [iotxMcReadRest, ReadEnv.reads_alloc1]
  by_cases hfail : m.allocFails alloc1 = true
  · rw [if_pos hfail, if_pos hfail]
  rw [if_neg hfail, if_neg hfail]
  by_cases hfits : remLen + fixedHeaderLen remLen ≤ m.recvMax
  · have hsize := (m.le_recvSize_iff _).mpr hfits
    have hmax : remLen ≤ intMax := by
      rw [intMax]
      omega
    rw [if_pos hfits, if_neg (fun h => absurd h.2 (Nat.not_lt.mpr hsize)), ReadEnv.reads_body,
      ipstackRead_full hest hmax]
    dsimp only
    rw [if_neg (by omega), if_neg (by simp)]
    rfl
  · rw [if_neg hfits]
    have hover := Nat.lt_of_not_le hfits
    rw [m.recvSize_of_lt hover, if_pos ⟨by omega, hover⟩,
      iotxMcReadOversized_served hest hroom hover hlt]

theorem iotxMcDecodePacket_served (hest : net.established = true) {remLen : ℕ}
    (hlt : remLen < 128 ^ 4)
    (hfield : memSlice net.bytes net.pos (mqttPacketEncode remLen).length = mqttPacketEncode remLen) :
    iotxMcDecodePacket net (ReadEnv.reads alloc0 alloc1 allocRemain).length =
      (((mqttPacketEncode remLen).length : ℤ), remLen,
        net.advance (mqttPacketEncode remLen).length) := by
  have hfull : ∀ k, ((ReadEnv.reads alloc0 alloc1 allocRemain).length k).Full 1 :=
    fun k => ⟨ReadEvent.noConfusion, rfl⟩
  rcases iotxMcDecodePacketLoop_spec (ReadEnv.reads alloc0 alloc1 allocRemain).length
      (mqttPacketEncode remLen) 4 0 1 0 net (VarLen.wellFormed_encode remLen)
      (VarLen.length_encode_le 3 remLen hlt) hest hfield with
    ⟨-, hdec⟩ | ⟨i, hi, -, v, ⟨herr, -⟩ | ⟨hshort, -⟩⟩
  · rw [iotxMcDecodePacket, hdec, mqttPacketEncode, VarLen.value_encode]
    simp
  · exact absurd herr (hfull _).1
  · exact absurd hshort.2 (by rw [(hfull _).2]; decide)

end Served

section Packet

variable {m : BufMode} {b : WriteBuffer UInt8} {net : Net} {header : UInt8} {remLen : ℕ}
  {body : Bytes}

theorem iotxMcReadPacketInto_served (hb : m.Fits b) (hest : net.established = true)
    (hlt : remLen < 128 ^ 4) (hroom : fixedHeaderLen remLen ≤ m.recvMax)
    (hstream : memSlice net.bytes net.pos (remLen + fixedHeaderLen remLen) =
      header :: (mqttPacketEncode remLen ++ body)) (alloc0 alloc1 allocRemain : Bool) :
    let out := iotxMcReadPacketInto m b net (.reads alloc0 alloc1 allocRemain)
    out.2.stray = b.stray ∧
    out.1 =
      if m.allocFails alloc0 then { rc := failReturn, net := net }
      else if m.allocFails alloc1 then
        { rc := failReturn, net := net.advance (fixedHeaderLen remLen) }
      else if remLen + fixedHeaderLen remLen ≤ m.recvMax then
        { rc := successReturn, packetType := mqttHeaderGetType header,
          buf := header :: (mqttPacketEncode remLen ++ body),
          net := net.advance (remLen + fixedHeaderLen remLen) }
      else if m.remainBufFails allocRemain (remLen - ((m.recvMax : ℤ) - fixedHeaderLen remLen)) then
        { rc := failReturn, net := net.advance m.recvMax }
      else
        { rc := successReturn, net := net.advance (remLen + fixedHeaderLen remLen),
          overflow := true } := by
  intro out
  -- the three parts of the packet
  have hsplit : remLen + fixedHeaderLen remLen =
      1 + ((mqttPacketEncode remLen).length + remLen) := by
    rw [fixedHeaderLen]
    omega
  have hparts := hstream
  rw [hsplit, memSlice_add, memSlice_add, ← singleton_append] at hparts
  obtain ⟨hheader, hrest⟩ := append_inj hparts (length_memSlice _ _ _)
  obtain ⟨hfield, hbytes⟩ := append_inj hrest (length_memSlice _ _ _)
  have hest' : (net.advance 1).established = true := hest
  have hdec : iotxMcDecodePacket (net.advance 1) (ReadEnv.reads alloc0 alloc1 allocRemain).length =
      _ := iotxMcDecodePacket_served hest' hlt hfield
  have hread : ipstackRead net 1 (ReadEnv.reads alloc0 alloc1 allocRemain).header =
      (1, [header], net.advance 1) := by
    rw [ReadEnv.reads_header, ipstackRead_full hest (by decide), hheader]
    rfl
  obtain ⟨heq, hstray⟩ : out.1 = iotxMcReadPacket m net (.reads alloc0 alloc1 allocRemain) ∧
      out.2.stray = b.stray := by
    apply iotxMcReadPacketInto_eq_of_room hb
    rw [hread, hdec]
    exact m.fixedHeaderLen_le_recvSize hlt hroom
  refine ⟨hstray, heq.trans ?_⟩
  rw [iotxMcReadPacket, ReadEnv.reads_alloc0]
  by_cases hfail0 : m.allocFails alloc0 = true
  · rw [if_pos hfail0, if_pos hfail0]
  rw [if_neg hfail0, if_neg hfail0, hread]
  dsimp only
  rw [if_neg (by decide), if_neg (by decide), hdec]
  have hestRest : (net.advance (1 + (mqttPacketEncode remLen).length)).established = true := hest
  have hnet : (net.advance (1 + (mqttPacketEncode remLen).length)).advance remLen =
      net.advance (remLen + fixedHeaderLen remLen) := by
    rw [Net.advance_advance, fixedHeaderLen, Nat.add_comm remLen]
  have hdrop : (net.advance (1 + (mqttPacketEncode remLen).length)).advance
      (m.recvMax - fixedHeaderLen remLen) = net.advance m.recvMax := by
    rw [Net.advance_advance]
    exact congrArg net.advance (Nat.add_sub_cancel' hroom)
  rw [if_neg (by omega), Net.advance_advance, iotxMcReadRest_served hestRest header hroom hlt, hnet,
    hdrop, Net.advance_bytes, Net.advance_pos, ← Nat.add_assoc, hbytes]
  rfl

theorem iotxMcReadPacketInto_fits (hb : m.Fits b) (hest : net.established = true)
    (hlt : remLen < 128 ^ 4)
    (hstream : memSlice net.bytes net.pos (remLen + fixedHeaderLen remLen) =
      header :: (mqttPacketEncode remLen ++ body))
    (hfits : remLen + fixedHeaderLen remLen ≤ m.recvMax) :
    let packet := header :: (mqttPacketEncode remLen ++ body)
    let out := iotxMcReadPacketInto m b net (.reads true true true)
    out.1 = { rc := successReturn, packetType := mqttHeaderGetType header, buf := packet,
              net := net.advance (remLen + fixedHeaderLen remLen) } ∧
      packet <+: out.2.cells := by
  intro packet out
  have halloc : ¬ m.allocFails true = true := by
    cases m with
    | dynBuf bufSizeMax => exact Bool.false_ne_true
    | fixedBuf bufSize => exact Bool.false_ne_true
    | staticBuf => exact Bool.false_ne_true
  obtain ⟨-, heq⟩ := iotxMcReadPacketInto_served hb hest hlt (by omega) hstream true true true
  rw [if_neg halloc, if_neg halloc, if_pos hfits] at heq
  have hfront : out.1.buf <+: out.2.cells := buf_front m b net (.reads true true true)
  have hbuf : out.1.buf = packet := congrArg ReadResult.buf heq
  exact ⟨heq, hbuf ▸ hfront⟩

theorem iotxMcReadPacket_fits (hm : m.HoldsFixedHeader) (hest : net.established = true)
    (hlt : remLen < 128 ^ 4)
    (hstream : memSlice net.bytes net.pos (remLen + fixedHeaderLen remLen) =
      header :: (mqttPacketEncode remLen ++ body))
    (hfits : remLen + fixedHeaderLen remLen ≤ m.recvMax) :
    iotxMcReadPacket m net .served =
      { rc := successReturn, packetType := mqttHeaderGetType header,
        buf := header :: (mqttPacketEncode remLen ++ body),
        net := net.advance (remLen + fixedHeaderLen remLen) } := by
  obtain ⟨b, hb⟩ : ∃ b, m.Fits b := by
    cases m with
    | dynBuf bufSizeMax => exact ⟨⟨[], false⟩, trivial⟩
    | fixedBuf bufSize => exact ⟨⟨List.replicate bufSize 0, false⟩, length_replicate⟩
    | staticBuf => exact ⟨⟨List.replicate iotxMcRxMaxLen 0, false⟩, length_replicate⟩
  rw [← (iotxMcReadPacketInto_eq hm hb net .served).1]
  exact (iotxMcReadPacketInto_fits hb hest hlt hstream hfits).1

/-- **The packet reader.**  A packet whose fixed header fits the buffer is taken from the stream as
a whole, and stands in the buffer if it fits; if not, it is dropped with an overflow event.  Without
memory the reader fails.  It stores nothing behind the buffer. -/
theorem readPacket_consumes (hb : m.Fits b) (hest : net.established = true)
    (hremLen : remLen ≤ 268435455) (hbody : body.length = remLen)
    (hroom : fixedHeaderLen remLen ≤ m.recvMax)
    (hstream : memSlice net.bytes net.pos (remLen + fixedHeaderLen remLen) =
      header :: (mqttPacketEncode remLen ++ body)) (alloc0 alloc1 allocRemain : Bool) :
    let packet := header :: (mqttPacketEncode remLen ++ body)
    let out := iotxMcReadPacketInto m b net (.reads alloc0 alloc1 allocRemain)
    out.2.stray = b.stray ∧
    if m.allocFails alloc0 ∨ m.allocFails alloc1 then
      out.1.rc = failReturn ∧ out.1.overflow = false
    else if packet.length ≤ m.recvMax then
      out.1.rc = successReturn ∧ out.1.packetType = mqttHeaderGetType header ∧
        out.1.buf = packet ∧ packet <+: out.2.cells ∧ out.1.overflow = false ∧
        out.1.net = net.advance packet.length
    else if m.remainBufFails allocRemain (remLen - ((m.recvMax : ℤ) - fixedHeaderLen remLen)) then
      out.1.rc = failReturn ∧ out.1.overflow = false
    else
      out.1.rc = successReturn ∧ out.1.packetType = MsgType.reserved.code ∧
        out.1.overflow = true ∧ out.1.net = net.advance packet.length := by
  intro packet out
  have hlt : remLen < 128 ^ 4 := by omega
  have hlen : packet.length = remLen + fixedHeaderLen remLen := by
    simp only [packet, length_cons, length_append, hbody, fixedHeaderLen]
    omega
  have hfront : out.1.buf <+: out.2.cells :=
    buf_front m b net (.reads alloc0 alloc1 allocRemain)
  obtain ⟨hstray, heq⟩ :
      out.2.stray = b.stray ∧ out.1 = _ :=
    iotxMcReadPacketInto_served hb hest hlt hroom hstream alloc0 alloc1 allocRemain
  refine ⟨hstray, ?_⟩
  rw [hlen]
  -- an allocation for the fixed header, and the one for the packet
  by_cases hfail0 : m.allocFails alloc0 = true
  · rw [if_pos hfail0] at heq
    rw [if_pos (.inl hfail0), heq]
    exact ⟨rfl, rfl⟩
  rw [if_neg hfail0] at heq
  by_cases hfail1 : m.allocFails alloc1 = true
  · rw [if_pos hfail1] at heq
    rw [if_pos (.inr hfail1), heq]
    exact ⟨rfl, rfl⟩
  rw [if_neg hfail1] at heq
  rw [if_neg (not_or.mpr ⟨hfail0, hfail1⟩)]
  -- a packet that does not fit is dropped with what is left of it
  by_cases hfits : remLen + fixedHeaderLen remLen ≤ m.recvMax
  · rw [if_pos hfits] at heq ⊢
    rw [heq] at hfront ⊢
    exact ⟨rfl, rfl, rfl, hfront, rfl, rfl⟩
  rw [if_neg hfits] at heq ⊢
  by_cases hfail : m.remainBufFails allocRemain
      (remLen - ((m.recvMax : ℤ) - fixedHeaderLen remLen)) = true
  · rw [if_pos hfail] at heq ⊢
    rw [heq]
    exact ⟨rfl, rfl⟩
  · rw [if_neg hfail] at heq ⊢
    rw [heq]
    exact ⟨rfl, rfl, rfl, rfl⟩

end Packet

/-- A PINGRESP and a PUBLISH with a body of six bytes. -/
def pingrespNet : Net := ⟨true, memOf [0xD0, 0] fun _ => 0, 0⟩

def overflowNet : Net := ⟨true, memOf [0x30, 6, 0, 1, 0x61, 0x62, 0x63, 0x64] fun _ => 0, 0⟩

/-- The PINGRESP and the PUBLISH fit a buffer of sixteen bytes, and the PUBLISH is dropped with a
buffer of four. -/
theorem readPacket_consumes_pingresp :
    let read := fun size net =>
      iotxMcReadPacketInto (.dynBuf size) ⟨[], false⟩ net (.reads true true true)
    let publish := [0x30, 6, 0, 1, 0x61, 0x62, 0x63, 0x64]
    let fits := fun (out : ReadResult × WriteBuffer UInt8) (net : Net) (packet : Bytes) =>
      out.2.stray = false ∧ out.1.rc = successReturn ∧
        out.1.packetType = mqttHeaderGetType packet.head! ∧ out.1.buf = packet ∧
        packet <+: out.2.cells ∧ out.1.overflow = false ∧
        out.1.net = net.advance packet.length
    fits (read 16 pingrespNet) pingrespNet [0xD0, 0] ∧
    fits (read 16 overflowNet) overflowNet publish ∧
    (read 4 overflowNet).2.stray = false ∧ (read 4 overflowNet).1.rc = successReturn ∧
      (read 4 overflowNet).1.packetType = MsgType.reserved.code ∧
      (read 4 overflowNet).1.overflow = true ∧
      (read 4 overflowNet).1.net = overflowNet.advance 8 := by
  intro read publish fits
  have hb : ∀ size, (BufMode.dynBuf size).Fits ⟨[], false⟩ := fun _ => trivial
  have hpingresp : memSlice pingrespNet.bytes pingrespNet.pos (0 + fixedHeaderLen 0) =
      0xD0 :: (mqttPacketEncode 0 ++ []) := by decide
  have hpublish : memSlice overflowNet.bytes overflowNet.pos (6 + fixedHeaderLen 6) =
      0x30 :: (mqttPacketEncode 6 ++ [0, 1, 0x61, 0x62, 0x63, 0x64]) := by decide
  have hsix : 6 ≤ 268435455 := by decide
  obtain ⟨hstray, h⟩ := readPacket_consumes (hb 16) rfl (Nat.zero_le _) rfl (by decide)
    hpingresp true true true
  rw [if_neg (by decide), if_pos (by decide)] at h
  refine ⟨⟨hstray, h⟩, ?_⟩
  obtain ⟨hstray, h⟩ := readPacket_consumes (hb 16) rfl hsix rfl (by decide)
    hpublish true true true
  rw [if_neg (by decide), if_pos (by decide)] at h
  refine ⟨⟨hstray, h⟩, ?_⟩
  obtain ⟨hstray, h⟩ := readPacket_consumes (hb 4) rfl hsix rfl (by decide)
    hpublish true true true
  rw [if_neg (by decide), if_neg (by decide), if_neg (by decide)] at h
  exact ⟨hstray, h⟩

/-- The PUBLISH exceeds a buffer of four bytes: the reader reports the overflow and succeeds. -/
theorem readPacket_overflow_success :
    let out := iotxMcReadPacketInto (.dynBuf 4) ⟨[], false⟩ overflowNet (.reads true true true)
    ¬ (out.1.rc = successReturn ∧
        [0x30, 6, 0, 1, 0x61, 0x62, 0x63, 0x64] <+: out.2.cells ∨
      out.1.overflow = true ∧ out.1.rc ≠ successReturn) := by
  decide

end Iotkit.Mqtt
