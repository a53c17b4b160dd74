/-
# Alignment of the MQTT byte stream

The reader is aligned when it stands between two packets.  `iotx_mc_cycle` keeps the client
`CONNECTED` unless the reader reports `MQTT_NETWORK_ERROR`; a timeout inside a packet is reported
with `FAIL_RETURN`, and leaves a connected client in the middle of it.
-/
import Iotkit.GuardedRun
import Iotkit.FramedStream
import Iotkit.MqttClient

namespace Iotkit.Mqtt

open GuardedRun List

/-! ## Packets on the wire -/

/-- A packet as it is sent: a header byte, a remaining-length field of one to four
bytes, and as many bytes as that field says. -/
structure WirePacket where
  header : UInt8
  lenField : Bytes
  body : Bytes
  lenField_wellFormed : VarLen.WellFormed lenField
  lenField_length : lenField.length ≤ 4
  body_length : body.length = VarLen.value lenField

namespace WirePacket

/-- The bytes of a packet. -/
def bytes (p : WirePacket) : Bytes := p.header :: (p.lenField ++ p.body)

variable (p : WirePacket)

theorem bytes_eq : p.bytes = [p.header] ++ (p.lenField ++ p.body) := rfl

theorem length_bytes : p.bytes.length = 1 + p.lenField.length + p.body.length := by
  simp [bytes]; omega

theorem lenField_pos : 0 < p.lenField.length := by
  have hwf := p.lenField_wellFormed
  cases h : p.lenField with
  | nil => rw [h] at hwf; exact hwf.elim
  | cons b bs => simp

theorem body_length_lt : p.body.length < 128 ^ 4 := by
  rw [p.body_length]
  calc VarLen.value p.lenField < 128 ^ p.lenField.length := VarLen.value_lt _
    _ ≤ 128 ^ 4 := Nat.pow_le_pow_right (by decide) p.lenField_length

end WirePacket

/-! ## One read -/

/-- The read returns all of the `n` bytes asked for. -/
def ReadEvent.Full (n : ℕ) (ev : ReadEvent) : Prop := ev ≠ .error ∧ ev.count n = n

/-- The read times out with fewer than the `n` bytes asked for. -/
def ReadEvent.Short (n : ℕ) (ev : ReadEvent) : Prop := ev ≠ .error ∧ ev.count n < n

instance (n : ℕ) (ev : ReadEvent) : Decidable (ev.Full n) :=
  inferInstanceAs (Decidable (_ ∧ _))

instance (n : ℕ) (ev : ReadEvent) : Decidable (ev.Short n) :=
  inferInstanceAs (Decidable (_ ∧ _))

/-- The stream after `m` more bytes. -/
def Net.advance (net : Net) (m : ℕ) : Net := { net with pos := net.pos + m }

@[simp] theorem Net.advance_pos (net : Net) (m : ℕ) : (net.advance m).pos = net.pos + m := rfl
@[simp] theorem Net.advance_bytes (net : Net) (m : ℕ) : (net.advance m).bytes = net.bytes := rfl

theorem Net.advance_advance (net : Net) (m n : ℕ) :
    (net.advance m).advance n = net.advance (m + n) := by
  simp [Net.advance, add_assoc]

/-- The three things a read on a valid handle can do. -/
theorem ipstackRead_cases (net : Net) (hest : net.established = true) (n : ℕ)
    (ev : ReadEvent) :
    (ev = .error ∧ ipstackRead net n ev = (-1, [], net)) ∨
    (ev.Full n ∧ ipstackRead net n ev = ((n : ℤ), memSlice net.bytes net.pos n, net.advance n)) ∨
    (ev.Short n ∧ ∃ m < n,
      ipstackRead net n ev = ((m : ℤ), memSlice net.bytes net.pos m, net.advance m)) := by
  by_cases herr : ev = .error
  · left
    exact ⟨herr, by simp [ipstackRead, herr]⟩
  have hread : ipstackRead net n ev = ((ev.count n : ℤ),
      memSlice net.bytes net.pos (ev.count n), net.advance (ev.count n)) := by
    simp [ipstackRead, herr, hest, Net.advance]
  right
  rcases lt_or_ge (ev.count n) n with hlt | hge
  · right
    exact ⟨⟨herr, hlt⟩, ev.count n, hlt, hread⟩
  · left
    have heq : ev.count n = n := le_antisymm (ev.count_le n) hge
    rw [heq] at hread
    exact ⟨⟨herr, heq⟩, hread⟩

variable {n : ℕ}

theorem ReadEvent.not_full_of_short {ev : ReadEvent} (h : ev.Short n) : ¬ ev.Full n :=
  fun hf => absurd hf.2 (ne_of_lt h.2)

/-! ## The length field -/

/-- The reads of the first `n` length bytes are all served. -/
def ReadEnv.LengthServed (env : ReadEnv) (n : ℕ) : Prop := ∀ i < n, (env.length i).Full 1

/-- One of the first `n` length bytes times out, the ones before it having come. -/
def ReadEnv.LengthShort (env : ReadEnv) (n : ℕ) : Prop :=
  ∃ i < n, env.LengthServed i ∧ (env.length i).Short 1

/-- What the length loop does on a well-formed field `bs` that stands at the read
position: it takes the whole field, or stops inside it at an error or a timeout. -/
theorem iotxMcDecodePacketLoop_spec (reads : ℕ → ReadEvent) :
    ∀ (bs : Bytes) (left len multiplier value : ℕ) (net : Net),
      VarLen.WellFormed bs → bs.length ≤ left → net.established = true →
      memSlice net.bytes net.pos bs.length = bs →
      ((∀ i < bs.length, (reads (len + i)).Full 1) ∧
        iotxMcDecodePacketLoop reads left len multiplier value net
          = (((len + bs.length : ℕ) : ℤ), value + multiplier * VarLen.value bs,
            net.advance bs.length)) ∨
      (∃ i < bs.length, (∀ j < i, (reads (len + j)).Full 1) ∧ ∃ v,
        ((reads (len + i) = .error ∧
          iotxMcDecodePacketLoop reads left len multiplier value net
            = (mqttNetworkError, v, net.advance i)) ∨
        ((reads (len + i)).Short 1 ∧
          iotxMcDecodePacketLoop reads left len multiplier value net
            = (failReturn, v, net.advance i)))) := by
  intro bs
  induction bs with
  | nil => intro left len multiplier value net hwf; exact hwf.elim
  | cons b bs ih =>
    intro left len multiplier value net hwf hleft hest hmem
    obtain ⟨left, rfl⟩ : ∃ l, left = l + 1 := ⟨left - 1, by simp at hleft; omega⟩
    have hb : net.bytes net.pos = b := by
      simp only [memSlice, length_cons, range_succ_eq_map, map_cons,
        List.cons.injEq] at hmem
      simpa using hmem.1
    have hrest : memSlice net.bytes (net.pos + 1) bs.length = bs := by
      simp only [memSlice, length_cons, range_succ_eq_map, map_cons,
        List.cons.injEq, map_map] at hmem
      have h := hmem.2
      simpa [memSlice, Function.comp_def, add_assoc, add_comm 1] using h
    rw [iotxMcDecodePacketLoop]
    -- the next byte of the length field is read, or the read fails or is cut
    rcases ipstackRead_cases net hest 1 (reads len) with ⟨herr, hr⟩ | ⟨hfull, hr⟩ | ⟨hshort, m, hm, hr⟩
    · refine Or.inr ⟨0, by simp, by simp, value, Or.inl ⟨by simpa using herr, ?_⟩⟩
      simp [hr, Net.advance]
    · have hone : (memSlice net.bytes net.pos 1).headD 0 = b := by simp [memSlice, hb]
      simp only [hr, hone, toNat_and_127, Nat.cast_one, one_ne_zero, if_false, ne_eq,
        not_true_eq_false]
      cases bs with
      | nil =>
        left
        have hlt : ¬ (b &&& 128 ≠ 0) := by
          rw [and_128_ne_zero_iff]
          exact not_le.mpr hwf
        refine ⟨by simpa using hfull, ?_⟩
        rw [if_neg hlt]
        simp [VarLen.value, mul_comm]
      | cons c cs =>
        have hge : b &&& 128 ≠ 0 := (and_128_ne_zero_iff b).mpr hwf.1
        rw [if_pos hge]
        have hstep := ih left (len + 1) (multiplier * 128)
          (value + b.toNat % 128 * multiplier) (net.advance 1) hwf.2
          (by simp at hleft ⊢; omega) hest hrest
        -- a failure behind the next byte is one at the place after it
        rcases hstep with ⟨hall, heq⟩ | ⟨i, hi, hall, v, hcase⟩
        · left
          refine ⟨fun i hi => ?_, ?_⟩
          · cases i with
            | zero => simpa using hfull
            | succ i =>
              have := hall i (by simpa using hi)
              rwa [show len + (i + 1) = len + 1 + i by omega]
          · rw [heq, Net.advance_advance]
            refine Prod.ext ?_ (Prod.ext ?_ ?_)
            · simp; omega
            · simp [VarLen.value]; ring
            · simp [add_comm 1]
        · right
          refine ⟨i + 1, by simpa using hi, fun j hj => ?_, v, ?_⟩
          · cases j with
            | zero => simpa using hfull
            | succ j =>
              have := hall j (by omega)
              rwa [show len + (j + 1) = len + 1 + j by omega]
          · rw [show len + (i + 1) = len + 1 + i by omega]
            rcases hcase with ⟨he, heq⟩ | ⟨hs, heq⟩
            · left
              refine ⟨he, ?_⟩
              rw [heq, Net.advance_advance, Nat.add_comm 1]
            · right
              refine ⟨hs, ?_⟩
              rw [heq, Net.advance_advance, Nat.add_comm 1]
    · obtain rfl : m = 0 := by omega
      refine Or.inr ⟨0, by simp, by simp, value, Or.inr ⟨by simpa using hshort, ?_⟩⟩
      simp [hr]

/-! ## The body -/

/-- The read buffer holds at least the five bytes a fixed header can have.  In a
smaller one `iotx_mc_read_packet` writes past its end. -/
def BufMode.HoldsFixedHeader (m : BufMode) : Prop := 5 ≤ m.recvSize 0

variable {m : BufMode}

theorem BufMode.HoldsFixedHeader.le_recvSize (hm : m.HoldsFixedHeader) (len : ℕ) :
    5 ≤ m.recvSize len := by
  unfold BufMode.HoldsFixedHeader BufMode.recvSize at *
  cases m with
  | dynBuf bufSizeMax => simp only [BufMode.size] at *; omega
  | fixedBuf bufSize => exact hm
  | staticBuf => exact hm

theorem fixedHeaderLen_le (hn : n < 128 ^ 4) : fixedHeaderLen n ≤ 5 := by
  have := VarLen.length_encode_le 3 n hn
  unfold fixedHeaderLen mqttPacketEncode
  omega

/-- Reading the body of a packet with remaining length `n` stops inside it without an
error: memory runs out, or one of the reads comes up short. -/
def ReadEnv.BodyCut (env : ReadEnv) (m : BufMode) (n : ℕ) : Prop :=
  let size := m.recvSize (n + fixedHeaderLen n)
  let fitting := size - fixedHeaderLen n
  m.allocFails env.alloc1 = true ∨
    if n + fixedHeaderLen n ≤ size then env.body.Short n
    else env.head.Short fitting ∨
      (env.head.Full fitting ∧
        (m.remainBufFails env.allocRemain ((n - fitting : ℕ) : ℤ) = true ∨
          env.tail.Short (n - fitting)))

/-- How a read phase that starts at `net` with `n` bytes to go can end. -/
def ReadOutcome (net : Net) (n : ℕ) (cut : Prop) (r : ReadResult) : Prop :=
  (¬ cut ∧ (r.rc = mqttNetworkError ∨ r.net.pos = net.pos + n)) ∨
    (cut ∧ r.rc = failReturn ∧ net.pos ≤ r.net.pos ∧ r.net.pos < net.pos + n)

variable {net : Net}

theorem ReadOutcome.congr {cut cut' : Prop} {r : ReadResult} (h : ReadOutcome net n cut r)
    (hiff : cut ↔ cut') : ReadOutcome net n cut' r := by
  unfold ReadOutcome at *
  rwa [← hiff]

theorem iotxMcReadOversized_spec (hest : net.established = true) (env : ReadEnv) {size len : ℕ}
    (hlen : len ≤ size) (hover : size < n + len) (hn : n < 128 ^ 4) :
    ReadOutcome net n (env.head.Short (size - len) ∨ (env.head.Full (size - len) ∧
        (m.remainBufFails env.allocRemain ((n - (size - len) : ℕ) : ℤ) = true ∨
          env.tail.Short (n - (size - len)))))
      (iotxMcReadOversized m net env size len n) := by
  have hneed : (size : ℤ) - len = ((size - len : ℕ) : ℤ) := by omega
  have hremain : (n : ℤ) - ((size - len : ℕ) : ℤ) = ((n - (size - len) : ℕ) : ℤ) := by omega
  have hmod : ∀ k : ℕ, k ≤ n → (((k : ℤ)) % 2 ^ 32).toNat = k := by
    intro k hk
    omega
  unfold iotxMcReadOversized
  simp only [hneed, hremain, hmod (size - len) (by omega), hmod (n - (size - len)) (by omega)]
  rcases ipstackRead_cases net hest (size - len) env.head with
    ⟨herr, hr⟩ | ⟨hfull, hr⟩ | ⟨hshort, k, hk, hr⟩
  · -- an error while reading the part that fits
    rw [hr]
    refine Or.inl ⟨?_, Or.inl (by simp)⟩
    rintro (h | ⟨h, -⟩) <;> exact h.1 herr
  · rw [hr]
    have hns := fun h : env.head.Short (size - len) => ReadEvent.not_full_of_short h hfull
    simp only [Int.natCast_nonneg, not_lt.mpr, if_false, ne_eq, not_true_eq_false]
    -- the part that does not fit needs a buffer of its own
    by_cases hbuf : m.remainBufFails env.allocRemain ((n - (size - len) : ℕ) : ℤ) = true
    · rw [if_pos hbuf]
      refine .inr ⟨.inr ⟨hfull, .inl hbuf⟩, rfl, ?_, ?_⟩
      · simp
      · simp only [Net.advance_pos]; omega
    rw [if_neg hbuf]
    rcases ipstackRead_cases (net.advance (size - len)) hest (n - (size - len)) env.tail with
      ⟨herr, hr'⟩ | ⟨hfull', hr'⟩ | ⟨hshort', k, hk, hr'⟩
    · rw [hr']
      refine Or.inl ⟨?_, Or.inl (by simp)⟩
      rintro (h | ⟨-, h | h⟩)
      · exact hns h
      · exact hbuf h
      · exact h.1 herr
    · rw [hr']
      simp only [Int.natCast_nonneg, not_lt.mpr, if_false, not_true_eq_false]
      refine .inl ⟨?_, .inr ?_⟩
      · rintro (h | ⟨-, h | h⟩)
        · exact hns h
        · exact hbuf h
        · exact ReadEvent.not_full_of_short h hfull'
      · simp only [Net.advance_pos]; omega
    · rw [hr']
      have hne : ((k : ℤ)) ≠ ((n - (size - len) : ℕ) : ℤ) := by omega
      simp only [Int.natCast_nonneg, not_lt.mpr, if_false, if_pos hne]
      refine .inr ⟨.inr ⟨hfull, .inr hshort'⟩, rfl, ?_, ?_⟩
      · simp only [Net.advance_pos]; omega
      · simp only [Net.advance_pos]; omega
  · rw [hr]
    have hne : ((k : ℤ)) ≠ ((size - len : ℕ) : ℤ) := by omega
    simp only [Int.natCast_nonneg, not_lt.mpr, if_false, if_pos hne]
    refine .inr ⟨.inl hshort, rfl, ?_, ?_⟩
    · simp
    · simp only [Net.advance_pos]; omega

theorem iotxMcReadRest_spec (hm : m.HoldsFixedHeader) (hest : net.established = true)
    (env : ReadEnv) (header : Bytes) (hn : n < 128 ^ 4) :
    ReadOutcome net n (0 < n ∧ env.BodyCut m n) (iotxMcReadRest m net env header n) := by
  unfold iotxMcReadRest
  by_cases halloc : m.allocFails env.alloc1 = true
  · rw [if_pos halloc]
    -- a packet without a body is complete already
    rcases eq_zero_or_pos n with rfl | hpos
    · exact Or.inl ⟨fun h => absurd h.1 (by omega), Or.inr rfl⟩
    · exact Or.inr ⟨⟨hpos, Or.inl halloc⟩, rfl, le_rfl, by simp; omega⟩
  rw [if_neg halloc]
  by_cases hover : 0 < n ∧ m.recvSize (n + fixedHeaderLen n) < n + fixedHeaderLen n
  · rw [if_pos hover]
    have hsize := hm.le_recvSize (n + fixedHeaderLen n)
    have hspec := iotxMcReadOversized_spec (m := m) hest env
      (le_trans (fixedHeaderLen_le hn) hsize) hover.2 hn
    apply hspec.congr
    unfold ReadEnv.BodyCut
    simp only [hover.1, true_and, if_neg (not_le.mpr hover.2)]
    simp [halloc]
  · rw [if_neg hover]
    have hcut : (0 < n ∧ env.BodyCut m n) ↔ (0 < n ∧ env.body.Short n) := by
      unfold ReadEnv.BodyCut
      refine and_congr_right fun hpos => ?_
      have hfits : n + fixedHeaderLen n ≤ m.recvSize (n + fixedHeaderLen n) := by
        by_contra h
        exact hover ⟨hpos, not_le.mp h⟩
      simp only [halloc, if_pos hfits]
      simp
    rcases ipstackRead_cases net hest n env.body with
      ⟨herr, hr⟩ | ⟨hfull, hr⟩ | ⟨hshort, k, hk, hr⟩ <;> simp only [hr]
    · have hnc : ¬ (0 < n ∧ env.BodyCut m n) := fun h => (hcut.mp h).2.1 herr
      by_cases hpos : 0 < n
      · rw [if_pos ⟨hpos, by decide⟩]
        exact .inl ⟨hnc, .inl rfl⟩
      · -- the result of the empty read is ignored
        rw [if_neg fun h => hpos h.1, if_neg fun h => hpos h.1]
        exact Or.inl ⟨hnc, Or.inr (by simp; omega)⟩
    · rw [if_neg fun h => absurd h.2 (by omega), if_neg fun h => h.2 rfl]
      refine .inl ⟨fun h => ?_, .inr rfl⟩
      exact ReadEvent.not_full_of_short (hcut.mp h).2 hfull
    · have hpos : 0 < n := by omega
      rw [if_neg fun h => absurd h.2 (by omega), if_pos ⟨hpos, by omega⟩]
      refine .inr ⟨hcut.mpr ⟨hpos, hshort⟩, rfl, ?_, ?_⟩
      · simp
      · simp only [Net.advance_pos]; omega

/-! ## The packet reader -/

/-- The reader takes the header byte of the packet `p` and then stops inside the
packet without a network error. -/
def ReadEnv.Cuts (env : ReadEnv) (m : BufMode) (p : WirePacket) : Prop :=
  m.allocFails env.alloc0 = false ∧ env.header.Full 1 ∧
    (env.LengthShort p.lenField.length ∨
      (env.LengthServed p.lenField.length ∧ 0 < p.body.length ∧ env.BodyCut m p.body.length))

/-- The bytes `p` starts with stand at the read position of `net`. -/
def Net.AtPacket (net : Net) (p : WirePacket) : Prop :=
  memSlice net.bytes net.pos p.bytes.length = p.bytes

theorem memSlice_add (buf : Memory) (p m n : ℕ) :
    memSlice buf p (m + n) = memSlice buf p m ++ memSlice buf (p + m) n := by
  simp [memSlice, range_add, Function.comp_def, add_assoc]

theorem Net.AtPacket.header {p : WirePacket} (h : net.AtPacket p) :
    memSlice net.bytes net.pos 1 = [p.header] := by
  unfold Net.AtPacket at h
  rw [p.length_bytes, add_assoc, memSlice_add, p.bytes_eq] at h
  exact (append_inj h (by simp)).1

theorem Net.AtPacket.lenField {p : WirePacket} (h : net.AtPacket p) :
    memSlice net.bytes (net.pos + 1) p.lenField.length = p.lenField := by
  unfold Net.AtPacket at h
  rw [p.length_bytes, add_assoc, memSlice_add, p.bytes_eq] at h
  have h2 := (append_inj h (by simp)).2
  rw [memSlice_add] at h2
  exact (append_inj h2 (by simp)).1

/-- **What `iotx_mc_read_packet` does at a packet boundary.**  Unless the packet is
cut, it reports a network error, or takes nothing, or takes exactly the packet; if the
packet is cut it returns `FAIL_RETURN` from a position strictly inside it. -/
theorem iotxMcReadPacket_spec (hm : m.HoldsFixedHeader) (hest : net.established = true)
    {p : WirePacket} (hp : net.AtPacket p) (env : ReadEnv) : let r := iotxMcReadPacket m net env
    (¬ env.Cuts m p ∧ (r.rc = mqttNetworkError ∨ r.net.pos = net.pos ∨
        r.net.pos = net.pos + p.bytes.length)) ∨
      (env.Cuts m p ∧ r.rc = failReturn ∧ net.pos < r.net.pos ∧
        r.net.pos < net.pos + p.bytes.length) := by
  intro r
  have htotal := p.length_bytes
  have hlen := p.lenField_pos
  by_cases halloc : m.allocFails env.alloc0 = true
  · have hr : r = { rc := failReturn, net := net } := by
      simp only [r, iotxMcReadPacket, if_pos halloc]
    rw [hr]
    refine .inl ⟨fun h => ?_, .inr (.inl rfl)⟩
    rw [h.1] at halloc
    exact absurd halloc (by decide)
  rcases ipstackRead_cases net hest 1 env.header with
    ⟨herr, hread⟩ | ⟨hfull, hread⟩ | ⟨hshort, k, hk, hread⟩
  · have hr : r = { rc := mqttNetworkError, net := net } := by
      simp [r, iotxMcReadPacket, halloc, hread]
    rw [hr]
    exact .inl ⟨fun h => h.2.1.1 herr, .inl rfl⟩
  · -- the header byte has come: the length field decides
    rw [hp.header] at hread
    have hdec := iotxMcDecodePacketLoop_spec env.length p.lenField 4 0 1 0 (net.advance 1)
      p.lenField_wellFormed p.lenField_length hest hp.lenField
    simp only [zero_add, one_mul, Net.advance_advance, ← p.body_length] at hdec
    -- the length field is read, or reading it fails, or it is cut
    rcases hdec with ⟨hserved, heq⟩ | ⟨i, hi, hserved, v, ⟨herr, heq⟩ | ⟨hshort, heq⟩⟩
    · have hr : r = iotxMcReadRest m (net.advance (1 + p.lenField.length)) env [p.header]
          p.body.length := by
        have hnn : ¬ ((p.lenField.length : ℤ) < 0) := by omega
        simp [r, iotxMcReadPacket, halloc, hread, iotxMcDecodePacket, heq, hnn]
      have hest' : (net.advance (1 + p.lenField.length)).established = true := hest
      have hspec := iotxMcReadRest_spec hm hest' env [p.header] p.body_length_lt
      rw [← hr] at hspec
      have hnotshort : ¬ env.LengthShort p.lenField.length := by
        rintro ⟨j, hj, -, hs⟩
        exact ReadEvent.not_full_of_short hs (hserved j hj)
      have hcuts : env.Cuts m p ↔ (0 < p.body.length ∧ env.BodyCut m p.body.length) := by
        unfold ReadEnv.Cuts
        simp only [halloc, hfull, hnotshort, true_and, false_or, show env.LengthServed
          p.lenField.length from hserved]
      rw [hcuts]
      rcases hspec with ⟨hnc, h | h⟩ | ⟨hc, hrc, hlo, hhi⟩
      · exact .inl ⟨hnc, .inl h⟩
      · refine .inl ⟨hnc, .inr (.inr ?_)⟩
        simp only [Net.advance_pos] at h
        omega
      · refine .inr ⟨hc, hrc, ?_, ?_⟩
        · simp only [Net.advance_pos] at hlo; omega
        · simp only [Net.advance_pos] at hhi; omega
    · have hr : r = { rc := mqttNetworkError, net := net.advance (1 + i) } := by
        simp [r, iotxMcReadPacket, halloc, hread, iotxMcDecodePacket, heq]
      rw [hr]
      refine .inl ⟨?_, .inl rfl⟩
      rintro ⟨-, -, ⟨j, hj, hsj, hs⟩ | ⟨hs, -⟩⟩
      · -- the error comes before the first short read could
        rcases lt_trichotomy i j with h | h | h
        · exact (hsj i h).1 herr
        · subst h; exact hs.1 herr
        · exact ReadEvent.not_full_of_short hs (hserved j h)
      · exact (hs i hi).1 herr
    · have hr : r = { rc := failReturn, net := net.advance (1 + i) } := by
        simp [r, iotxMcReadPacket, halloc, hread, iotxMcDecodePacket, heq]
      rw [hr]
      refine Or.inr ⟨⟨by simpa using halloc, hfull, Or.inl ⟨i, hi, hserved, hshort⟩⟩,
        rfl, ?_, ?_⟩
      · simp only [Net.advance_pos]; omega
      · simp only [Net.advance_pos]; omega
  · obtain rfl : k = 0 := by omega
    have hr : r = { rc := successReturn, net := net.advance 0 } := by
      simp [r, iotxMcReadPacket, halloc, hread]
    rw [hr]
    exact .inl ⟨fun h => ReadEvent.not_full_of_short hshort h.2.1,
      .inr (.inl rfl)⟩

/-! ## What a cycle leaves alone -/

/-- Two states of one connection: only the read position may differ. -/
def Net.SameStream (net net' : Net) : Prop :=
  net'.bytes = net.bytes ∧ net'.established = net.established

theorem Net.SameStream.refl (net : Net) : net.SameStream net := ⟨rfl, rfl⟩

theorem Net.SameStream.trans {a b c : Net} (hab : a.SameStream b) (hbc : b.SameStream c) :
    a.SameStream c :=
  ⟨hbc.1.trans hab.1, hbc.2.trans hab.2⟩

theorem ipstackRead_sameStream (net : Net) (n : ℕ) (ev : ReadEvent) :
    net.SameStream (ipstackRead net n ev).2.2 := by
  unfold ipstackRead
  split_ifs <;> exact ⟨rfl, rfl⟩

theorem iotxMcDecodePacketLoop_sameStream (reads : ℕ → ReadEvent) (left : ℕ) :
    ∀ (len multiplier value : ℕ) (net : Net),
      net.SameStream (iotxMcDecodePacketLoop reads left len multiplier value net).2.2 := by
  induction left with
  | zero => intro len multiplier value net; exact Net.SameStream.refl net
  | succ left ih =>
    intro len multiplier value net
    have hread := ipstackRead_sameStream net 1 (reads len)
    simp only [iotxMcDecodePacketLoop]
    split_ifs
    · exact hread
    · exact hread
    · exact hread.trans (ih _ _ _ _)
    · exact hread

theorem iotxMcReadOversized_sameStream (m : BufMode) (net : Net) (env : ReadEnv)
    (size len remLen : ℕ) :
    net.SameStream (iotxMcReadOversized m net env size len remLen).net := by
  have hhead := ipstackRead_sameStream net (((size : ℤ) - len) % 2 ^ 32).toNat env.head
  unfold iotxMcReadOversized
  simp only
  split_ifs
  · exact hhead
  · exact hhead
  · exact hhead
  all_goals exact hhead.trans (ipstackRead_sameStream _ _ _)

theorem iotxMcReadRest_sameStream (m : BufMode) (net : Net) (env : ReadEnv)
    (header : Bytes) (remLen : ℕ) :
    net.SameStream (iotxMcReadRest m net env header remLen).net := by
  have hbody := ipstackRead_sameStream net remLen env.body
  unfold iotxMcReadRest
  simp only
  split_ifs
  · exact Net.SameStream.refl net
  · exact iotxMcReadOversized_sameStream m net env _ _ remLen
  all_goals exact hbody

theorem iotxMcReadPacket_sameStream (m : BufMode) (net : Net) (env : ReadEnv) :
    net.SameStream (iotxMcReadPacket m net env).net := by
  have hhead := ipstackRead_sameStream net 1 env.header
  have hdec := hhead.trans (iotxMcDecodePacketLoop_sameStream env.length 4 0 1 0 _)
  unfold iotxMcReadPacket iotxMcDecodePacket
  simp only
  split_ifs
  · exact Net.SameStream.refl net
  · exact hhead
  · exact hhead
  · exact hdec
  · exact hdec.trans (iotxMcReadRest_sameStream m _ env _ _)

theorem iotxMcCycleSwitch_frame (c : Client) (packetType : ℕ) (buf : Memory)
    (env : CycleEnv) :
    let c' := (iotxMcCycleSwitch c packetType buf env).2.1
    c'.net = c.net ∧ c'.clientState = c.clientState ∧ c'.recvBuf = c.recvBuf := by
  have hpub := iotxMcHandleRecvPublish_client c buf env.ack
  unfold iotxMcCycleSwitch iotxMcHandleRecvPuback iotxMcHandleRecvSuback iotxMcHandleRecvUnsuback
  simp only
  split_ifs <;> simp [hpub]

/-- The client after one `iotx_mc_cycle`. -/
def cycleStep (c : Client) (env : CycleEnv) : Client := (iotxMcCycle c env).2.1

variable {c : Client}

theorem cycleStep_of_not_connected (h : c.clientState ≠ .connected) (env : CycleEnv) :
    cycleStep c env = c := by
  simp [cycleStep, iotxMcCycle, h]

/-- A cycle of a connected client moves the stream as `iotx_mc_read_packet` does. -/
theorem cycleStep_net (h : c.clientState = .connected) (env : CycleEnv) :
    (cycleStep c env).net = (iotxMcReadPacket c.recvBuf c.net env.read).net ∧
      (cycleStep c env).recvBuf = c.recvBuf := by
  have hafter : ∀ c' calls, (afterCallbacks env c' calls).net = c'.net ∧
      (afterCallbacks env c' calls).recvBuf = c'.recvBuf := by
    intro c' calls
    unfold afterCallbacks
    split_ifs <;> exact ⟨rfl, rfl⟩
  unfold cycleStep iotxMcCycle
  simp only [h, ne_eq, not_true_eq_false, if_false]
  split_ifs <;> simp [hafter, iotxMcCycleSwitch_frame]

theorem afterCallbacks_connected {env : CycleEnv} {calls : List Invocation}
    (h : (afterCallbacks env c calls).clientState = .connected) : c.clientState = .connected := by
  by_contra hne
  unfold afterCallbacks at h
  split_ifs at h
  exact hne h

/-- A cycle leaves the client connected only if neither the keepalive probes nor a
network error disconnected it. -/
theorem cycleStep_connected (h : c.clientState = .connected) (env : CycleEnv)
    (hstay : (cycleStep c env).clientState = .connected) :
    c.keepaliveProbes ≤ iotxMcKeepaliveProbeMax ∧
      (iotxMcReadPacket c.recvBuf c.net env.read).rc ≠ mqttNetworkError := by
  unfold cycleStep iotxMcCycle at hstay
  simp only [h, ne_eq, not_true_eq_false, if_false] at hstay
  by_cases hprobes : iotxMcKeepaliveProbeMax < c.keepaliveProbes
  · -- nothing in the rest of the cycle connects again
    simp only [if_pos hprobes] at hstay
    split_ifs at hstay
    · cases afterCallbacks_connected hstay
    · cases afterCallbacks_connected hstay
    · have hconn := afterCallbacks_connected hstay
      rw [(iotxMcCycleSwitch_frame _ _ _ _).2.1] at hconn
      cases hconn
  · refine ⟨by omega, fun hrc => ?_⟩
    simp only [if_neg hprobes, hrc] at hstay
    exact absurd hstay (by simp)

/-- `FAIL_RETURN` from the reader does not disconnect. -/
theorem cycleStep_connected_of_failReturn (h : c.clientState = .connected) {env : CycleEnv}
    (hprobes : c.keepaliveProbes ≤ iotxMcKeepaliveProbeMax)
    (hrc : (iotxMcReadPacket c.recvBuf c.net env.read).rc = failReturn) :
    (cycleStep c env).clientState = .connected := by
  simp [cycleStep, iotxMcCycle, h, hrc, not_lt.mpr hprobes]

/-! ## Alignment along runs -/

/-- A stream of packets, one after the other, for ever. -/
abbrev PacketStream := FramedStream WirePacket.bytes

/-- The client reads the stream `st` on an established connection. -/
structure Reads (st : PacketStream) (c : Client) : Prop where
  established : c.net.established = true
  bytes : c.net.bytes = st.letters
  buffer : c.recvBuf.HoldsFixedHeader

/-- While the client is connected, it stands between two packets. -/
def Aligned (st : PacketStream) (c : Client) : Prop :=
  c.clientState = .connected → st.IsBoundary c.net.pos

/-- The cycle does not take the header byte of the packet at the read position and
then come up short inside that packet. -/
def NotCut (st : PacketStream) (c : Client) (env : CycleEnv) : Prop :=
  c.clientState = .connected → c.keepaliveProbes ≤ iotxMcKeepaliveProbeMax →
    ∀ k, c.net.pos = st.offset k → ¬ env.read.Cuts c.recvBuf (st.frames k)

variable {st : PacketStream}

theorem Reads.cycleStep (h : Reads st c) (env : CycleEnv) : Reads st (cycleStep c env) := by
  by_cases hconn : c.clientState = .connected
  · obtain ⟨hnet, hbuf⟩ := cycleStep_net hconn env
    have hsame := iotxMcReadPacket_sameStream c.recvBuf c.net env.read
    refine ⟨?_, ?_, ?_⟩
    · rw [hnet, hsame.2, h.established]
    · rw [hnet, hsame.1, h.bytes]
    · rw [hbuf]; exact h.buffer
  · rw [cycleStep_of_not_connected hconn]
    exact h

theorem Reads.atPacket (h : Reads st c) {k : ℕ} (hpos : c.net.pos = st.offset k) :
    c.net.AtPacket (st.frames k) := by
  unfold Net.AtPacket memSlice
  rw [h.bytes, hpos]
  simpa using st.map_letters_eq k 0 (st.frames k).bytes.length (by simp)

/-- **One cycle.**  From an aligned client, a cycle ends aligned exactly when it does
not cut the packet. -/
theorem cycleStep_aligned_iff (h : Reads st c) (hal : Aligned st c) (env : CycleEnv) :
    Aligned st (cycleStep c env) ↔ NotCut st c env := by
  constructor
  · intro hal' hconn hprobes k hpos hcuts
    rcases iotxMcReadPacket_spec h.buffer h.established (h.atPacket hpos) env.read with
      ⟨hnc, -⟩ | ⟨-, hrc, hlo, hhi⟩
    · exact hnc hcuts
    · have hbound := hal' (cycleStep_connected_of_failReturn hconn hprobes hrc)
      rw [(cycleStep_net hconn env).1] at hbound
      refine st.not_isBoundary_of_inside (k := k) ?_ ?_ hbound
      · rw [← hpos]; exact hlo
      · rw [st.offset_succ, ← hpos]; exact hhi
  · intro hok hconn'
    by_cases hconn : c.clientState = .connected
    · obtain ⟨hprobes, hrc⟩ := cycleStep_connected hconn env hconn'
      obtain ⟨k, hpos⟩ := hal hconn
      rw [(cycleStep_net hconn env).1]
      rcases iotxMcReadPacket_spec h.buffer h.established (h.atPacket hpos) env.read with
        ⟨-, herr | hsame | hnext⟩ | ⟨hcuts, -⟩
      · exact absurd herr hrc
      · exact ⟨k, hsame.trans hpos⟩
      · refine ⟨k + 1, ?_⟩
        rw [hnext, st.offset_succ, hpos]
      · exact absurd hcuts (hok hconn hprobes k hpos)
    · rw [cycleStep_of_not_connected hconn] at hconn'
      exact absurd hconn' hconn

/-- **Alignment.**  A client that reads a stream of packets and starts between two of
them is between two packets whenever it is connected, throughout a sequence of cycles,
exactly when no cycle of the sequence cuts a packet. -/
theorem stream_aligned_iff (st : PacketStream) (c : Client) (h : Reads st c)
    (hal : Aligned st c) (envs : List CycleEnv) :
    (∀ pre, pre <+: envs → Aligned st (pre.foldl cycleStep c)) ↔
      AllSteps cycleStep (NotCut st) c envs := by
  have hstep : ∀ c env, (Reads st c ∧ Aligned st c) →
      ((Reads st (cycleStep c env) ∧ Aligned st (cycleStep c env)) ↔ NotCut st c env) := by
    rintro c env ⟨hr, ha⟩
    rw [← cycleStep_aligned_iff hr ha env]
    exact and_iff_right (hr.cycleStep env)
  rw [← forall_prefix_iff_allSteps hstep envs ⟨h, hal⟩]
  refine forall₂_congr fun pre _ => (and_iff_right ?_).symm
  exact inv_foldl (Reads st) (fun c env hr => hr.cycleStep env) h pre

/-! ## A server that only answers pings -/

/-- PINGRESP. -/
def pingrespPacket : WirePacket where
  header := 0xD0
  lenField := [0]
  body := []
  lenField_wellFormed := by decide
  lenField_length := by decide
  body_length := by decide

/-- PINGRESP for ever. -/
def pingrespStream : PacketStream where
  letters i := if i % 2 = 0 then 0xD0 else 0
  frames _ := pingrespPacket
  spells k i h := by
    have hoff : frameOffset WirePacket.bytes (fun _ => pingrespPacket) k = 2 * k := by
      simp [frameOffset, WirePacket.bytes, pingrespPacket, mul_comm]
    have hi : i = 0 ∨ i = 1 := by
      have : i < 2 := h
      omega
    rw [hoff]
    rcases hi with rfl | rfl
    · simp [WirePacket.bytes, pingrespPacket]
    · simp [WirePacket.bytes, pingrespPacket, Nat.add_mod]

/-- A connected client at the start of `pingrespStream`. -/
def pingrespClient : Client := { idleClient with net := ⟨true, pingrespStream.letters, 0⟩ }

/-- A cycle in which memory can be had and every read is served, except that the
length byte comes as `length` says. -/
def pingrespEnv (length : ReadEvent) : CycleEnv where
  read := { ReadEnv.served with length := fun _ => length }
  rest := fun _ => 0
  mypacketid := 0
  ack := ⟨true, []⟩
  callbackLoses := false

theorem pingrespClient_reads : Reads pingrespStream pingrespClient := by
  refine ⟨rfl, rfl, ?_⟩
  show 5 ≤ BufMode.recvSize (.dynBuf 1024) 0
  decide

theorem pingrespClient_aligned : Aligned pingrespStream pingrespClient := fun _ => ⟨0, rfl⟩

theorem notCut_pingrespEnv_full (c : Client) : NotCut pingrespStream c (pingrespEnv .full) := by
  rintro - - k - ⟨-, -, ⟨i, -, -, hshort⟩ | ⟨-, hpos, -⟩⟩
  · exact absurd hshort (show ¬ ReadEvent.Short 1 .full by decide)
  · exact absurd hpos (show ¬ 0 < pingrespPacket.body.length by decide)

theorem stream_aligned_iff_pingresp :
    Reads pingrespStream pingrespClient ∧ Aligned pingrespStream pingrespClient ∧
      ∀ pre, pre <+: [pingrespEnv .full, pingrespEnv .full] →
        Aligned pingrespStream (pre.foldl cycleStep pingrespClient) := by
  refine ⟨pingrespClient_reads, pingrespClient_aligned, ?_⟩
  apply (stream_aligned_iff pingrespStream pingrespClient pingrespClient_reads
    pingrespClient_aligned _).mpr
  exact ⟨notCut_pingrespEnv_full _, notCut_pingrespEnv_full _, trivial⟩

/-- The length byte of the first PINGRESP is late: the client stays connected with the
header byte gone, and will read the length byte as a header. -/
theorem stream_not_aligned_late_length :
    Reads pingrespStream pingrespClient ∧ Aligned pingrespStream pingrespClient ∧
      ¬ Aligned pingrespStream (cycleStep pingrespClient (pingrespEnv (.short 0))) := by
  refine ⟨pingrespClient_reads, pingrespClient_aligned, fun hal => ?_⟩
  have hpos : (cycleStep pingrespClient (pingrespEnv (.short 0))).net.pos = 1 := by decide
  have hbound := hal (by decide)
  rw [hpos] at hbound
  exact pingrespStream.not_isBoundary_of_inside (k := 0) (by simp) (by decide) hbound

end Iotkit.Mqtt
