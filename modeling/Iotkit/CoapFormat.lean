/-
# The CoAP message format

A datagram is a four-byte header, a token, a list of options, each with its number
given as the difference to the number before it, and a payload behind the marker
`0xFF`, if there is one.  `Datagram.encode` writes a datagram out;
`coapSerializeMessage_writes` shows that `CoAPSerialize_Message` writes the datagram
of its message.
-/
import Iotkit.CoapPacket
import Iotkit.NibbleExt

namespace Iotkit.Coap

/-! ## Datagrams -/

/-- An option by its delta and its value. -/
structure FormatOption where
  delta : ℕ
  value : Bytes
  delta_lt : delta < NibbleExt.bound
  value_lt : value.length < NibbleExt.bound

/-- A well-formed datagram. -/
structure Datagram where
  version : Fin 4
  type : Fin 4
  code : UInt8
  msgid : UInt16
  token : Bytes
  token_le : token.length ≤ coapMsgMaxTokenLen
  options : List FormatOption
  payload : Bytes

namespace FormatOption

/-- What stands before the value of an option. -/
def head (o : FormatOption) : Bytes :=
  UInt8.ofNat (NibbleExt.nibble o.delta * 16 + NibbleExt.nibble o.value.length)
    :: (NibbleExt.ext o.delta ++ NibbleExt.ext o.value.length)

def encode (o : FormatOption) : Bytes := o.head ++ o.value

theorem length_head (o : FormatOption) :
    o.head.length = 1 + (NibbleExt.ext o.delta).length + (NibbleExt.ext o.value.length).length := by
  simp [head]
  omega

end FormatOption

def encodeOptions (options : List FormatOption) : Bytes := options.flatMap FormatOption.encode

@[simp] theorem encodeOptions_nil : encodeOptions [] = [] := rfl

@[simp] theorem encodeOptions_cons (o : FormatOption) (options : List FormatOption) :
    encodeOptions (o :: options) = o.encode ++ encodeOptions options := by
  simp [encodeOptions]

/-- The payload behind its marker; an empty payload is left out with the marker. -/
def encodePayload (payload : Bytes) : Bytes :=
  if payload = [] then [] else 0xFF :: payload

/-- The numbers of the options behind one with the number `base`. -/
def numbersFrom (base : ℕ) : List FormatOption → List ℕ
  | [] => []
  | o :: options => (base + o.delta) :: numbersFrom (base + o.delta) options

namespace Datagram

def header (d : Datagram) : CoapMsgHeader where
  version := d.version
  type := d.type
  tokenlen := ⟨d.token.length, Nat.lt_of_le_of_lt d.token_le (by decide)⟩
  code := d.code
  msgid := d.msgid

def encodeHeader (d : Datagram) : Bytes :=
  [UInt8.ofNat (d.version * 64 + d.type * 16 + d.token.length), d.code,
    UInt8.ofNat (d.msgid.toNat / 256), UInt8.ofNat (d.msgid.toNat % 256)]

def encode (d : Datagram) : Bytes :=
  d.encodeHeader ++ d.token ++ encodeOptions d.options ++ encodePayload d.payload

def numbers (d : Datagram) : List ℕ := numbersFrom 0 d.options

theorem length_encode (d : Datagram) :
    d.encode.length = 4 + d.token.length + (encodeOptions d.options).length
      + (encodePayload d.payload).length := by
  simp [encode, encodeHeader]
  omega

end Datagram

/-! ## Options as they are read -/

/-- An option as a reader takes it that refuses no nibble and keeps lengths in sixteen bits.
Only the payload marker is not taken for the first byte of an option. -/
structure LooseOption where
  delta : Fin 16
  length : Fin 16
  deltaExt : Bytes
  lengthExt : Bytes
  value : Bytes
  deltaExt_length : deltaExt.length = NibbleExt.extLength delta
  lengthExt_length : lengthExt.length = NibbleExt.extLength length
  value_length : value.length = NibbleExt.number length lengthExt % 2 ^ 16
  not_marker : ¬ (delta.val = 15 ∧ length.val = 15)

namespace LooseOption

/-- What stands before the value of an option. -/
def head (o : LooseOption) : Bytes :=
  UInt8.ofNat (o.delta * 16 + o.length) :: (o.deltaExt ++ o.lengthExt)

def encode (o : LooseOption) : Bytes := o.head ++ o.value

theorem length_head (o : LooseOption) :
    o.head.length = 1 + o.deltaExt.length + o.lengthExt.length := by
  simp [head]
  omega

/-- The option is one of the format: no nibble is 15, and the length is that of the value. -/
structure WellFormed (o : LooseOption) : Prop where
  delta_le : o.delta.val ≤ 14
  length_le : o.length.val ≤ 14
  length_lt : NibbleExt.number o.length o.lengthExt < 2 ^ 16

/-- A well-formed option, as the format has it. -/
def toFormat (o : LooseOption) : FormatOption where
  delta := NibbleExt.number o.delta o.deltaExt
  value := o.value
  delta_lt := NibbleExt.number_lt o.deltaExt_length (Nat.le_of_lt_succ o.delta.isLt)
  value_lt := by
    rw [o.value_length]
    have := Nat.mod_lt (NibbleExt.number o.length o.lengthExt) (show 2 ^ 16 > 0 by decide)
    unfold NibbleExt.bound
    omega

theorem WellFormed.encode_toFormat {o : LooseOption} (h : o.WellFormed) :
    o.toFormat.encode = o.encode := by
  have hvalue : o.value.length = NibbleExt.number o.length o.lengthExt :=
    o.value_length.trans (Nat.mod_eq_of_lt h.length_lt)
  obtain ⟨hdelta, hdeltaExt⟩ := NibbleExt.ext_number o.deltaExt_length h.delta_le
  obtain ⟨hlength, hlengthExt⟩ := NibbleExt.ext_number o.lengthExt_length h.length_le
  simp only [FormatOption.encode, FormatOption.head, encode, head, toFormat, hvalue, hdelta,
    hdeltaExt, hlength, hlengthExt]

end LooseOption

/-! ## What the serializer writes -/

theorem optionNibble_eq (n : ℕ) : optionNibble n = NibbleExt.nibble n := by
  unfold optionNibble NibbleExt.nibble
  split_ifs <;> omega

theorem optionExt_eq (n : ℕ) : optionExt n = NibbleExt.ext n := by
  unfold optionExt NibbleExt.ext
  split_ifs <;> first | rfl | omega

theorem nibbles_or {a b : ℕ} (ha : a ≤ 14) (hb : b ≤ 14) : a <<< 4 ||| b = a * 16 + b := by
  interval_cases a <;> interval_cases b <;> rfl

/-- The option of a message, as the format has it; its `num` is its delta. -/
def FormatOption.ofOption (option : CoapMsgOption Memory) : FormatOption where
  delta := option.num.toNat
  value := memSlice option.val 0 option.len.toNat
  delta_lt := by
    have := option.num.toNat_lt
    unfold NibbleExt.bound
    omega
  value_lt := by
    have := option.len.toNat_lt
    rw [length_memSlice]
    unfold NibbleExt.bound
    omega

theorem coapSerializeOption_eq (option : CoapMsgOption Memory) :
    coapSerializeOption option = (FormatOption.ofOption option).encode := by
  unfold coapSerializeOption FormatOption.encode FormatOption.head
  simp only [optionNibble_eq, optionExt_eq, FormatOption.ofOption, length_memSlice,
    nibbles_or (NibbleExt.nibble_le _) (NibbleExt.nibble_le _), List.cons_append, List.append_assoc]

/-- A message as the format has it. -/
def Datagram.ofMessage (msg : CoapMessage Memory)
    (htoken : msg.header.tokenlen.val ≤ coapMsgMaxTokenLen) : Datagram where
  version := msg.header.version
  type := msg.header.type
  code := msg.header.code
  msgid := msg.header.msgid
  token := memSlice msg.token 0 msg.header.tokenlen.val
  token_le := by rw [length_memSlice]; exact htoken
  options := msg.options.map FormatOption.ofOption
  payload := msg.payload.elim [] fun payload => memSlice payload 0 msg.payloadlen.toNat

variable (msg : CoapMessage Memory)

theorem headerBytes_eq (htoken : msg.header.tokenlen.val ≤ coapMsgMaxTokenLen) :
    headerBytes msg.header = (Datagram.ofMessage msg htoken).encodeHeader := by
  have hfirst : ∀ (v t : Fin 4) (l : Fin 16),
      ((v.val &&& 0x3) <<< 6 ||| (t.val &&& 0x3) <<< 4) ||| (l.val &&& 0x0F)
        = v.val * 64 + t.val * 16 + l.val := by decide
  simp only [headerBytes, Datagram.encodeHeader, Datagram.ofMessage, hfirst, length_memSlice]

/-- The serialized options stand one after the other, as long as their lengths do not
wrap. -/
theorem coapSerializeOptions_writes (p : ℕ) (options : List (CoapMsgOption Memory)) :
    ∀ (count : UInt16) (buf : Memory) (bs : Bytes),
      HoldsBytes buf bs → bs.length = p + count.toNat →
      count.toNat + (encodeOptions (options.map FormatOption.ofOption)).length < 2 ^ 16 →
      (coapSerializeOptions p options count buf).1.toNat
          = count.toNat + (encodeOptions (options.map FormatOption.ofOption)).length ∧
        HoldsBytes (coapSerializeOptions p options count buf).2
          (bs ++ encodeOptions (options.map FormatOption.ofOption)) := by
  induction options with
  | nil =>
    intro count buf bs hbs _ _
    simpa [coapSerializeOptions] using hbs
  | cons option options ih =>
    intro count buf bs hbs hlen hfit
    rw [List.map_cons, encodeOptions_cons, List.length_append] at hfit ⊢
    have hpos : 0 < (FormatOption.ofOption option).encode.length := by
      simp [FormatOption.encode, FormatOption.head]
    have hshort : (UInt16.ofNat (FormatOption.ofOption option).encode.length).toNat
        = (FormatOption.ofOption option).encode.length := by
      rw [UInt16.toNat_ofNat']
      exact Nat.mod_eq_of_lt (by omega)
    simp only [coapSerializeOptions, coapSerializeOption_eq]
    rw [if_pos (by rw [UInt16.lt_iff_toNat_lt, hshort]; exact hpos)]
    have hcount : (count + UInt16.ofNat (FormatOption.ofOption option).encode.length).toNat
        = count.toNat + (FormatOption.ofOption option).encode.length := by
      rw [UInt16.toNat_add, hshort]
      exact Nat.mod_eq_of_lt (by omega)
    obtain ⟨hcount', hholds⟩ := ih _ _ (bs ++ (FormatOption.ofOption option).encode)
      (hlen ▸ hbs.memStore _) (by rw [List.length_append, hcount]; omega) (by rw [hcount]; omega)
    refine ⟨by rw [hcount', hcount]; omega, ?_⟩
    rw [List.append_assoc] at hholds
    exact hholds

theorem toNat_sub_of_add_le {a b : UInt16} {n : ℕ} (h : b.toNat + n ≤ a.toNat) :
    (a - b).toNat = a.toNat - b.toNat ∧ n ≤ (a - b).toNat := by
  have hsub : (a - b).toNat = a.toNat - b.toNat :=
    UInt16.toNat_sub_of_le a b (UInt16.le_iff_toNat_le.mpr (by omega))
  omega

/-- The payload is written behind its marker if there is one. -/
theorem coapSerializePayload_writes (payload : Bytes) {buf : Memory} {bs : Bytes}
    (hbs : HoldsBytes buf bs) {buflen : UInt16}
    (heq : payload = msg.payload.elim [] fun payload => memSlice payload 0 msg.payloadlen.toNat)
    (hfits : (encodePayload payload).length ≤ buflen.toNat) :
    (coapSerializePayload msg buf bs.length buflen).1.toNat = (encodePayload payload).length ∧
      HoldsBytes (coapSerializePayload msg buf bs.length buflen).2
        (bs ++ encodePayload payload) := by
  unfold coapSerializePayload
  cases hptr : msg.payload with
  | none =>
    rw [hptr] at heq
    subst heq
    simpa [encodePayload] using hbs
  | some ptr =>
    rw [hptr] at heq
    subst heq
    by_cases hzero : msg.payloadlen.toNat = 0
    · have hnot : ¬ 0 < msg.payloadlen := by
        rw [UInt16.lt_iff_toNat_lt, hzero]
        exact Nat.lt_irrefl 0
      simp only [if_neg hnot, ite_self]
      simpa [encodePayload, hzero, memSlice] using hbs
    have hne : memSlice ptr 0 msg.payloadlen.toNat ≠ [] := by
      rw [← List.length_pos_iff, length_memSlice]
      omega
    have hmarked : encodePayload (memSlice ptr 0 msg.payloadlen.toNat)
        = 0xFF :: memSlice ptr 0 msg.payloadlen.toNat := if_neg hne
    have hpos : 0 < msg.payloadlen := by
      rw [UInt16.lt_iff_toNat_lt]
      exact Nat.pos_of_ne_zero hzero
    simp only [Option.elim_some] at hfits ⊢
    rw [hmarked, List.length_cons, length_memSlice] at hfits
    have hlt := buflen.toNat_lt
    rw [if_neg (by omega), if_pos hpos, hmarked]
    refine ⟨?_, hbs.memStore _⟩
    show (msg.payloadlen + 1).toNat = _
    rw [UInt16.toNat_add, List.length_cons, length_memSlice]
    exact Nat.mod_eq_of_lt (by simp; omega)

/-- `CoAPSerialize_Message` writes the datagram of its message and returns its length. -/
theorem coapSerializeMessage_writes (htoken : msg.header.tokenlen.val ≤ coapMsgMaxTokenLen)
    (buf : Memory) {buflen : UInt16}
    (hfits : (Datagram.ofMessage msg htoken).encode.length ≤ buflen.toNat) :
    (coapSerializeMessage msg buf buflen).1 = (Datagram.ofMessage msg htoken).encode.length ∧
      HoldsBytes (coapSerializeMessage msg buf buflen).2
        (Datagram.ofMessage msg htoken).encode := by
  set d := Datagram.ofMessage msg htoken with hd
  have hlen := d.length_encode
  have htokenlen : d.token.length = msg.header.tokenlen.val := by simp [hd, Datagram.ofMessage]
  have hlt := buflen.toNat_lt
  -- each part is written behind the one before it, and `remlen` is what is left
  have hheader : coapSerializeHeader msg buf 0 buflen = (4, memStore buf 0 d.encodeHeader) := by
    unfold coapSerializeHeader
    rw [if_neg (by omega), headerBytes_eq msg htoken]
  have hnil : HoldsBytes buf [] := fun i hi => by simp at hi
  have hheld : HoldsBytes (memStore buf 0 d.encodeHeader) d.encodeHeader := hnil.memStore _
  obtain ⟨hrem, hle⟩ := toNat_sub_of_add_le (a := buflen) (b := 4)
    (n := d.encode.length - 4) (by show 4 + _ ≤ _; omega)
  have hfour : (4 : UInt16).toNat = 4 := rfl
  have htok : coapSerializeToken msg (memStore buf 0 d.encodeHeader) 4 (buflen - 4)
      = (UInt16.ofNat d.token.length, memStore (memStore buf 0 d.encodeHeader) 4 d.token) := by
    simp only [coapSerializeToken, ← htokenlen]
    rw [if_neg (by omega), htokenlen]
    rfl
  have htoklen : (UInt16.ofNat d.token.length).toNat = d.token.length := by
    rw [UInt16.toNat_ofNat']
    exact Nat.mod_eq_of_lt (by omega)
  obtain ⟨hrem', hle'⟩ := toNat_sub_of_add_le (a := buflen - 4)
    (b := UInt16.ofNat d.token.length) (n := d.encode.length - 4 - d.token.length) (by omega)
  obtain ⟨hcount, hheld'⟩ := coapSerializeOptions_writes (4 + d.token.length) msg.options 0
    _ _ (hheld.memStore d.token) (by simp [Datagram.encodeHeader]; omega)
    (show 0 + (encodeOptions d.options).length < _ by omega)
  simp only [coapSerializeMessage, hheader, hfour, htok, htoklen]
  change (coapSerializeOptions (4 + d.token.length) msg.options 0
    (memStore (memStore buf 0 d.encodeHeader) 4 d.token)).1.toNat
      = 0 + (encodeOptions d.options).length at hcount
  change HoldsBytes (coapSerializeOptions (4 + d.token.length) msg.options 0
    (memStore (memStore buf 0 d.encodeHeader) 4 d.token)).2
      (d.encodeHeader ++ d.token ++ encodeOptions d.options) at hheld'
  generalize coapSerializeOptions (4 + d.token.length) msg.options 0
    (memStore (memStore buf 0 d.encodeHeader) 4 d.token) = r at hcount hheld' ⊢
  obtain ⟨count, buf'⟩ := r
  simp only at hcount hheld' ⊢
  obtain ⟨hrem'', hle''⟩ := toNat_sub_of_add_le (a := buflen - 4 - UInt16.ofNat d.token.length)
    (b := count) (n := (encodePayload d.payload).length) (by omega)
  obtain ⟨hpay, hheld''⟩ := coapSerializePayload_writes msg d.payload hheld' rfl hle''
  have hbehind : (d.encodeHeader ++ d.token ++ encodeOptions d.options).length
      = 4 + d.token.length + count.toNat := by
    simp [Datagram.encodeHeader]
    omega
  rw [hbehind] at hpay hheld''
  refine ⟨?_, hheld''⟩
  obtain ⟨hrem3, -⟩ := toNat_sub_of_add_le (n := 0)
    (a := buflen - 4 - UInt16.ofNat d.token.length - count)
    (b := (coapSerializePayload msg buf' (4 + d.token.length + count.toNat)
      (buflen - 4 - UInt16.ofNat d.token.length - count)).1) (by omega)
  rw [hrem3]
  omega

end Iotkit.Coap
