/-
# The CoAP round trip

A message that `CoAPSerialize_Message` writes, read back by `CoAPDeserialize_Message`
from a memory that holds exactly the bytes written and goes on behind them.
-/
import Iotkit.CoapDecode

namespace Iotkit.Coap

open List

/-- The number of bytes a message takes. -/
def messageLength (msg : CoapMessage Memory) : ℕ :=
  4 + msg.header.tokenlen.val + (msg.options.map fun o => (coapSerializeOption o).length).sum
    + if msg.payloadlen = 0 then 0 else msg.payloadlen.toNat + 1

/-- The messages of the round trip: the token fits its array, the options fit theirs and
have numbers of sixteen bits, the whole fits a packet, and there is a payload or a last
option that is not empty, if any. -/
structure Encodable (msg : CoapMessage Memory) : Prop where
  token : msg.header.tokenlen.val ≤ coapMsgMaxTokenLen
  options : msg.options.length ≤ coapMsgMaxOptionNum
  deltas : (msg.options.map fun o => o.num.toNat).sum < 2 ^ 16
  length : messageLength msg ≤ coapMsgMaxPduLen
  payload : msg.payload = none → msg.payloadlen = 0
  last : msg.payloadlen ≠ 0 ∨ ∀ o, msg.options.getLast? = some o → o.len ≠ 0

/-- The result `r` of reading `buf` is the message `msg`; the number of the `k`-th option
is the sum of the first deltas. -/
structure RoundTrips (msg : CoapMessage Memory) (buf : Memory)
    (r : ℤ × CoapMessage ℕ) : Prop where
  rc : r.1 = coapSuccess
  header : r.2.header = msg.header
  token : memSlice r.2.token 0 msg.header.tokenlen.val
    = memSlice msg.token 0 msg.header.tokenlen.val
  numbers : r.2.options.map (fun o => o.num.toNat) = (List.range msg.options.length).map fun k =>
    ((msg.options.take (k + 1)).map fun o => o.num.toNat).sum
  values : r.2.options.map (fun o => memSlice buf o.val o.len.toNat)
    = msg.options.map fun o => memSlice o.val 0 o.len.toNat
  payloadlen : r.2.payloadlen = msg.payloadlen
  payload : r.2.payloadBytes buf
    = msg.payload.elim [] fun payload => memSlice payload 0 msg.payloadlen.toNat

theorem numbersFrom_eq (options : List FormatOption) :
    ∀ base, numbersFrom base options = (List.range options.length).map fun k =>
      base + ((options.take (k + 1)).map FormatOption.delta).sum := by
  induction options with
  | nil => intro base; rfl
  | cons o options ih =>
    intro base
    rw [numbersFrom, ih, length_cons, range_succ_eq_map, map_cons, map_map]
    refine congrArg₂ _ (by simp) (map_congr_left fun k _ => ?_)
    simp [Nat.add_assoc]

theorem numbersFrom_le (options : List FormatOption) :
    ∀ base, ∀ n ∈ numbersFrom base options, n ≤ base + (options.map FormatOption.delta).sum := by
  induction options with
  | nil => intro base n hn; cases hn
  | cons o options ih =>
    intro base n hn
    rw [map_cons, sum_cons]
    rcases mem_cons.mp hn with rfl | hn
    · omega
    · have := ih (base + o.delta) n hn
      omega

section Message

variable {msg : CoapMessage Memory}

theorem Datagram.length_payload_ofMessage (htoken : msg.header.tokenlen.val ≤ coapMsgMaxTokenLen)
    (hpayload : msg.payload = none → msg.payloadlen = 0) :
    (Datagram.ofMessage msg htoken).payload.length = msg.payloadlen.toNat := by
  simp only [Datagram.ofMessage]
  cases hptr : msg.payload with
  | none => rw [hpayload hptr]; rfl
  | some ptr => simp

theorem Datagram.length_encode_ofMessage (htoken : msg.header.tokenlen.val ≤ coapMsgMaxTokenLen)
    (hpayload : msg.payload = none → msg.payloadlen = 0) :
    (Datagram.ofMessage msg htoken).encode.length = messageLength msg := by
  have hlen := Datagram.length_payload_ofMessage htoken hpayload
  rw [Datagram.length_encode, messageLength]
  have hoptions : (encodeOptions (Datagram.ofMessage msg htoken).options).length
      = (msg.options.map fun o => (coapSerializeOption o).length).sum := by
    simp only [Datagram.ofMessage, encodeOptions, length_flatMap, map_map]
    refine congrArg _ (map_congr_left fun o _ => ?_)
    rw [coapSerializeOption_eq]
    rfl
  have htokenlen : (Datagram.ofMessage msg htoken).token.length = msg.header.tokenlen.val := by
    simp [Datagram.ofMessage]
  rw [hoptions, htokenlen, encodePayload]
  by_cases hzero : msg.payloadlen = 0
  · rw [hzero] at hlen
    rw [if_pos (length_eq_zero_iff.mp hlen), if_pos hzero]
    rfl
  · have hne : (Datagram.ofMessage msg htoken).payload ≠ [] := by
      intro hnil
      rw [hnil] at hlen
      exact hzero (UInt16.toNat_inj.mp hlen.symm)
    rw [if_neg hne, if_neg hzero, length_cons, hlen]

variable (h : Encodable msg)

theorem Encodable.payload_length :
    (Datagram.ofMessage msg h.token).payload.length = msg.payloadlen.toNat :=
  Datagram.length_payload_ofMessage h.token h.payload

theorem Encodable.length_encode :
    (Datagram.ofMessage msg h.token).encode.length = messageLength msg :=
  Datagram.length_encode_ofMessage h.token h.payload

theorem Encodable.payload_ne_nil_iff :
    (Datagram.ofMessage msg h.token).payload ≠ [] ↔ msg.payloadlen ≠ 0 := by
  rw [ne_eq, ← length_eq_zero_iff, h.payload_length]
  exact not_congr ⟨fun hz => UInt16.toNat_inj.mp hz, fun hz => by rw [hz]; rfl⟩

theorem Encodable.not_lastEmpty (hzero : msg.payloadlen = 0) :
    ¬ LastEmpty (Datagram.ofMessage msg h.token).options := by
  rintro ⟨o, hlast, hempty⟩
  simp only [Datagram.ofMessage, List.getLast?_map, Option.map_eq_some_iff] at hlast
  obtain ⟨option, hoption, rfl⟩ := hlast
  rcases h.last with hne | hne
  · exact hne hzero
  · refine hne option hoption (UInt16.toNat_inj.mp ?_)
    have hlen := congrArg List.length hempty
    simpa [FormatOption.ofOption] using hlen

theorem Encodable.decodesTo_iff (buf : Memory) (r : ℤ × CoapMessage ℕ) :
    DecodesTo (Datagram.ofMessage msg h.token) buf r ↔ RoundTrips msg buf r := by
  have hheader : (Datagram.ofMessage msg h.token).header = msg.header := by
    simp [Datagram.header, Datagram.ofMessage]
  have htoken : (Datagram.ofMessage msg h.token).token
      = memSlice msg.token 0 msg.header.tokenlen.val := rfl
  have hnumbers : (Datagram.ofMessage msg h.token).numbers = (List.range msg.options.length).map
      fun k => ((msg.options.take (k + 1)).map fun o => o.num.toNat).sum := by
    rw [Datagram.numbers, numbersFrom_eq]
    simp only [Datagram.ofMessage, length_map, Nat.zero_add, ← map_take, map_map]
    rfl
  have hvalues : (Datagram.ofMessage msg h.token).options.map FormatOption.value
      = msg.options.map fun o => memSlice o.val 0 o.len.toNat := by
    simp only [Datagram.ofMessage, map_map]
    rfl
  have hlen := h.payload_length
  constructor
  · intro hd
    refine ⟨hd.rc, hd.header.trans hheader, ?_, hd.numbers.trans hnumbers,
      hd.values.trans hvalues, UInt16.toNat_inj.mp (hd.payloadlen.trans hlen), hd.payload⟩
    have := hd.token
    rwa [htoken, length_memSlice] at this
  · intro hr
    refine ⟨hr.rc, hr.header.trans hheader.symm, ?_, hr.numbers.trans hnumbers.symm,
      hr.values.trans hvalues.symm, ?_, hr.payload⟩
    · rw [htoken, length_memSlice]
      exact hr.token
    · rw [hr.payloadlen, hlen]

end Message

/-- **The round trip.**  A message that is written into a large enough buffer is read back
from any memory that holds exactly the bytes written, if and only if it has a payload, or
the byte behind them is not the payload marker and the payload length of the message read
into was zero before. -/
theorem coap_round_trip_iff (msg : CoapMessage Memory) (h : Encodable msg)
    (out : Memory) (buflen : UInt16) (hfits : messageLength msg ≤ buflen.toNat)
    (msg' : CoapMessage ℕ) (buf : Memory)
    (hbuf : ∀ i : ℕ, i < (coapSerializeMessage msg out buflen).1 →
      buf i = (coapSerializeMessage msg out buflen).2 i) :
    RoundTrips msg buf (coapDeserializeMessage msg' buf (coapSerializeMessage msg out buflen).1) ↔
      msg.payloadlen ≠ 0 ∨
        buf (coapSerializeMessage msg out buflen).1.toNat ≠ 0xFF ∧ msg'.payloadlen = 0 := by
  have hlen := h.length_encode
  obtain ⟨hrc, hheld⟩ := coapSerializeMessage_writes msg h.token out (hlen.symm ▸ hfits)
  set d := Datagram.ofMessage msg h.token with hd
  have hbuf' : HoldsBytes buf d.encode := by
    intro i hi
    rw [hbuf i (by omega)]
    exact hheld i hi
  rw [hrc, ← h.decodesTo_iff, ← hd, Int.toNat_natCast,
    decodesTo_iff_decodable msg' d hbuf' (hlen ▸ h.length)
      (by simpa [hd, Datagram.ofMessage] using h.options)]
  have hsmall : ∀ n ∈ d.numbers, n < 2 ^ 16 := by
    intro n hn
    have hle := numbersFrom_le d.options 0 n hn
    have hsum : d.options.map FormatOption.delta = msg.options.map fun o => o.num.toNat := by
      simp only [hd, Datagram.ofMessage, map_map]
      rfl
    have := h.deltas
    rw [hsum] at hle
    omega
  constructor
  · rintro ⟨-, hpayload | ⟨-, hrest⟩⟩
    · exact .inl (h.payload_ne_nil_iff.mp hpayload)
    · exact .inr hrest
  · intro hcond
    refine ⟨hsmall, ?_⟩
    by_cases hzero : msg.payloadlen = 0
    · exact .inr ⟨h.not_lastEmpty hzero, hcond.resolve_left (not_not.mpr hzero)⟩
    · exact .inl (h.payload_ne_nil_iff.mpr hzero)

/-! ## With and without a payload -/

/-- A request with the option `a` of number 11 and the payload `x`. -/
def requestWithPayload : CoapMessage Memory :=
  ⟨⟨1, 0, 0, 1, 1⟩, fun _ => 0, [⟨11, 1, fun _ => 0x61⟩], 1, some fun _ => 0x78⟩

/-- A request with nothing but its header. -/
def bareRequest : CoapMessage Memory := ⟨⟨1, 0, 0, 1, 1⟩, fun _ => 0, [], 0, none⟩

theorem coap_round_trip_with_payload :
    let w := coapSerializeMessage requestWithPayload (fun _ => 0) 64
    w.1 = 8 ∧ RoundTrips requestWithPayload w.2 (coapDeserializeMessage zeroMessage w.2 w.1) := by
  intro w
  have h : Encodable requestWithPayload :=
    ⟨by decide, by decide, by decide, by decide, nofun, .inl (by decide)⟩
  refine ⟨by decide, ?_⟩
  exact (coap_round_trip_iff requestWithPayload h (fun _ => 0) 64 (by decide) zeroMessage w.2
    (fun _ _ => rfl)).mpr (.inl (by decide))

/-- Read from a memory with `0xFF` behind it, a request without payload gets one of 65535
bytes. -/
theorem coap_round_trip_bare_marker :
    Encodable bareRequest ∧
      (coapSerializeMessage bareRequest (fun _ => 0) 4).1 = 4 ∧
      memSlice (coapSerializeMessage bareRequest (fun _ => 0) 4).2 0 4 = [0x40, 1, 0, 1] ∧
      (coapDeserializeMessage zeroMessage (memOf [0x40, 1, 0, 1] fun _ => 0xFF) 4).1 = coapSuccess ∧
      (coapDeserializeMessage zeroMessage (memOf [0x40, 1, 0, 1] fun _ => 0xFF) 4).2.payloadlen
        = 65535 ∧
      ¬ RoundTrips bareRequest (memOf [0x40, 1, 0, 1] fun _ => 0xFF)
        (coapDeserializeMessage zeroMessage (memOf [0x40, 1, 0, 1] fun _ => 0xFF) 4) := by
  have hlen : (coapDeserializeMessage zeroMessage (memOf [0x40, 1, 0, 1] fun _ => 0xFF) 4).2.payloadlen
      = 65535 := by decide
  refine ⟨⟨by decide, by decide, by decide, by decide, fun _ => rfl, .inr nofun⟩, by decide,
    by decide, by decide, hlen, fun h => ?_⟩
  have hsame := h.payloadlen
  rw [hlen] at hsame
  exact absurd hsame (by decide)

end Iotkit.Coap
