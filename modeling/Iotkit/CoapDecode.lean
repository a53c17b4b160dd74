/-
# Reading CoAP datagrams back

`CoAPDeserialize_Message` on every well-formed datagram, standing in a memory that goes
on behind it.  Each cursor step of the decoder asks for one byte more than it takes, so
that an empty last option without payload is refused; and the payload marker is looked
for even behind the end of the datagram.
-/
import Iotkit.CoapFormat

namespace Iotkit.Coap

open List Option UInt16

/-! ## One option -/

theorem coapOptCheck_eq (left step : ℤ) :
    coapOptCheck left step = if 1 ≤ left - step then some (left - step) else none := by
  unfold coapOptCheck
  split_ifs <;> first | rfl | omega

variable {buf : Memory}

/-- The number of an option is read from its nibble and extension bytes if a byte is left
behind them. -/
theorem coapOptionDelta_eq {ptr nib : ℕ} {bytes : Bytes}
    (hbytes : bytes.length = NibbleExt.extLength nib) (hbuf : HoldsAt buf ptr bytes) {left : ℤ}
    (hleft : 1 ≤ left) (predelta : UInt16) :
    coapOptionDelta buf ptr left nib predelta
      = if 1 ≤ left - bytes.length then
          some (predelta + UInt16.ofNat (NibbleExt.number nib bytes), ptr + bytes.length,
            left - bytes.length)
        else none := by
  unfold coapOptionDelta
  rcases NibbleExt.cases_of_length hbytes with
    ⟨h13, h14, rfl, hn⟩ | ⟨b, rfl, rfl, hn⟩ | ⟨b, c, rfl, rfl, hn⟩
  · rw [if_neg h13, if_neg h14, hn]
    simp [hleft]
  · simp only [holdsAt_cons] at hbuf
    rw [if_pos rfl, coapOptCheck_eq, hbuf.1, hn]
    simp only [length_singleton, Nat.cast_one]
    split_ifs <;> rfl
  simp only [holdsAt_cons] at hbuf
  rw [if_neg (by decide), if_pos rfl, coapOptCheck_eq, hbuf.1, hbuf.2.1, hn]
  have hsum : predelta + (269 : UInt16) + UInt16.ofNat (b.toNat <<< 8) + UInt16.ofNat c.toNat
      = predelta + UInt16.ofNat (269 + 256 * b.toNat + c.toNat) := by
    rw [Nat.shiftLeft_eq, Nat.mul_comm b.toNat, ofNat_add, ofNat_add,
      ← add_assoc, ← add_assoc]
    rfl
  rw [hsum]
  simp only [length_cons, length_nil, Nat.zero_add, Nat.reduceAdd, Nat.cast_ofNat]
  split_ifs <;> rfl

/-- A length is read as the number of a first option is. -/
theorem coapOptionLen_eq_delta (buf : Memory) (ptr : ℕ) (left : ℤ) (nib : ℕ) :
    coapOptionLen buf ptr left nib = coapOptionDelta buf ptr left nib 0 := by
  unfold coapOptionLen coapOptionDelta
  simp only [zero_add]
  split_ifs
  · rfl
  -- the test of the length never succeeds
  · omega
  · rw [ofNat_add, add_comm, ← add_assoc]
  · rfl

theorem coapOptionLen_eq {ptr nib : ℕ} {bytes : Bytes}
    (hbytes : bytes.length = NibbleExt.extLength nib) (hbuf : HoldsAt buf ptr bytes) {left : ℤ}
    (hleft : 1 ≤ left) :
    coapOptionLen buf ptr left nib
      = if 1 ≤ left - bytes.length then
          some (UInt16.ofNat (NibbleExt.number nib bytes), ptr + bytes.length,
            left - bytes.length)
        else none := by
  rw [coapOptionLen_eq_delta, coapOptionDelta_eq hbytes hbuf hleft, zero_add]

theorem nibbles_split {a b : ℕ} (ha : a ≤ 15) (hb : b ≤ 15) :
    (UInt8.ofNat (a * 16 + b)).toNat >>> 4 = a ∧
      (UInt8.ofNat (a * 16 + b)).toNat &&& 0x0F = b ∧
      (UInt8.ofNat (a * 16 + b) = 0xFF ↔ a = 15 ∧ b = 15) := by
  interval_cases a <;> interval_cases b <;> decide

/-- **One option.**  An option is read if there is a byte behind its head, and refused
otherwise. -/
theorem coapDeserializeOption_loose {p : ℕ} (o : LooseOption) (hbuf : HoldsAt buf p o.head)
    (left : ℤ) (predelta : UInt16) :
    coapDeserializeOption buf p left predelta
      = if 1 ≤ left - o.head.length then
          some (⟨predelta + UInt16.ofNat (NibbleExt.number o.delta o.deltaExt),
            UInt16.ofNat o.value.length, p + o.head.length⟩, o.head.length + o.value.length)
        else none := by
  have hlen := o.length_head
  simp only [LooseOption.head, holdsAt_cons, holdsAt_append] at hbuf
  obtain ⟨hfirst, hdelta, hvalue⟩ := hbuf
  obtain ⟨hhigh, hlow, -⟩ :=
    nibbles_split (Nat.le_of_lt_succ o.delta.isLt) (Nat.le_of_lt_succ o.length.isLt)
  have hmod : UInt16.ofNat (NibbleExt.number o.length o.lengthExt)
      = UInt16.ofNat o.value.length := by
    apply UInt16.toNat_inj.mp
    rw [UInt16.toNat_ofNat', UInt16.toNat_ofNat', o.value_length, Nat.mod_mod]
  have htoNat : (UInt16.ofNat o.value.length).toNat = o.value.length := by
    rw [toNat_ofNat', o.value_length, Nat.mod_mod]
  unfold coapDeserializeOption
  simp only [hfirst, hhigh, hlow, coapOptCheck_eq]
  -- a check that fails early would fail at the end as well
  by_cases h1 : 1 ≤ left - 1
  · rw [if_pos h1, bind_some, coapOptionDelta_eq o.deltaExt_length hdelta h1]
    by_cases h2 : 1 ≤ left - 1 - o.deltaExt.length
    · rw [if_pos h2, bind_some]
      simp only
      rw [coapOptionLen_eq o.lengthExt_length hvalue h2]
      by_cases h3 : 1 ≤ left - 1 - o.deltaExt.length - o.lengthExt.length
      · rw [if_pos h3, if_pos (by omega), map_some]
        simp only [hmod, htoNat, some.injEq, Prod.mk.injEq, CoapMsgOption.mk.injEq,
          true_and]
        omega
      · rw [if_neg h3, if_neg (by omega), map_none]
    · rw [if_neg h2, if_neg (by omega), bind_none]
  · rw [if_neg h1, if_neg (by omega), bind_none]

/-- An option of the format whose length fits sixteen bits, as a reader takes it. -/
def FormatOption.toLoose (o : FormatOption) (h : o.value.length < 2 ^ 16) : LooseOption where
  delta := ⟨NibbleExt.nibble o.delta, Nat.lt_succ_of_le (Nat.le_succ_of_le (NibbleExt.nibble_le _))⟩
  length := ⟨NibbleExt.nibble o.value.length,
    Nat.lt_succ_of_le (Nat.le_succ_of_le (NibbleExt.nibble_le _))⟩
  deltaExt := NibbleExt.ext o.delta
  lengthExt := NibbleExt.ext o.value.length
  value := o.value
  deltaExt_length := NibbleExt.length_ext o.delta_lt
  lengthExt_length := NibbleExt.length_ext o.value_lt
  value_length := by rw [NibbleExt.number_ext o.value_lt, Nat.mod_eq_of_lt h]
  not_marker := by
    have := NibbleExt.nibble_le o.delta
    rintro ⟨h, -⟩
    simp only at h
    omega

/-- An option of the format is read back if there is a byte behind its head. -/
theorem coapDeserializeOption_eq {p : ℕ} (o : FormatOption) (hbuf : HoldsAt buf p o.head)
    (hsmall : o.value.length < 2 ^ 16) (left : ℤ) (predelta : UInt16) :
    coapDeserializeOption buf p left predelta
      = if 1 ≤ left - o.head.length then
          some (⟨predelta + UInt16.ofNat o.delta, UInt16.ofNat o.value.length, p + o.head.length⟩,
            o.head.length + o.value.length)
        else none := by
  have h := coapDeserializeOption_loose (o.toLoose hsmall) hbuf left predelta
  simp only [FormatOption.toLoose, NibbleExt.number_ext o.delta_lt] at h
  exact h

/-! ## All options -/

/-- The options as `CoAPDeserialize_Options` stores them, from offset `ptr` on and behind
one with the number `predelta`. -/
def storedOptions (ptr : ℕ) (predelta : UInt16) : List FormatOption → List (CoapMsgOption ℕ)
  | [] => []
  | o :: options =>
    ⟨predelta + UInt16.ofNat o.delta, UInt16.ofNat o.value.length, ptr + o.head.length⟩ ::
      storedOptions (ptr + o.encode.length) (predelta + UInt16.ofNat o.delta) options

/-- The last option is there and has no value. -/
def LastEmpty (options : List FormatOption) : Prop :=
  ∃ o, options.getLast? = some o ∧ o.value = []

theorem lastEmpty_cons {o : FormatOption} {options : List FormatOption} :
    LastEmpty (o :: options) ↔ options = [] ∧ o.value = [] ∨ LastEmpty options := by
  cases options with
  | nil => simp [LastEmpty]
  | cons o' options => simp [LastEmpty, List.getLast?_cons_cons]

theorem FormatOption.length_head_pos (o : FormatOption) : 0 < o.head.length := by
  rw [o.length_head]
  omega

variable {payload : Bytes}

theorem length_encodePayload_eq_zero : (encodePayload payload).length = 0 ↔ payload = [] := by
  unfold encodePayload
  split_ifs with h <;> simp [h]

variable (options : List FormatOption)

/-- **The options loop.**  All options are read back and the loop ends behind them, unless
the datagram ends with the head of an option. -/
theorem coapDeserializeOptions_eq :
    ∀ (room ptr : ℕ) (left : ℤ) (predelta : UInt16), options.length ≤ room →
      HoldsAt buf ptr (encodeOptions options ++ encodePayload payload) →
      left = (encodeOptions options).length + (encodePayload payload).length →
      left < 2 ^ 16 →
      (¬ (LastEmpty options ∧ payload = []) →
        coapDeserializeOptions buf room ptr left predelta
          = (some (ptr + (encodeOptions options).length), storedOptions ptr predelta options)) ∧
      (LastEmpty options ∧ payload = [] →
        (coapDeserializeOptions buf room ptr left predelta).1 = none) := by
  induction options with
  | nil =>
    intro room ptr left predelta _ hbuf hleft _
    refine ⟨fun _ => ?_, fun h => absurd h.1 (by simp [LastEmpty])⟩
    cases room with
    | zero => rfl
    | succ room =>
      have hstop : ¬ (0 < left ∧ buf ptr ≠ 0xFF) := by
        rintro ⟨hpos, hne⟩
        by_cases hempty : payload = []
        · have := length_encodePayload_eq_zero.mpr hempty
          simp only [encodeOptions_nil, length_nil] at hleft
          omega
        · simp only [encodeOptions_nil, nil_append, encodePayload, if_neg hempty,
            holdsAt_cons] at hbuf
          exact hne hbuf.1
      rw [coapDeserializeOptions, if_neg hstop]
      rfl
  | cons o options ih =>
    intro room ptr left predelta hroom hbuf hleft hsmall
    obtain ⟨room, rfl⟩ : ∃ r, room = r + 1 := ⟨room - 1, by simp at hroom; omega⟩
    rw [encodeOptions_cons, FormatOption.encode] at hbuf hleft
    rw [append_assoc, append_assoc, holdsAt_append, holdsAt_append] at hbuf
    obtain ⟨hhead, -, hrest⟩ := hbuf
    simp only [length_append, Nat.cast_add] at hleft
    have hpos := o.length_head_pos
    -- the loop goes on, because the first byte of an option is not the marker
    have hgo : 0 < left ∧ buf ptr ≠ 0xFF := by
      refine ⟨by omega, ?_⟩
      have hfirst := hhead
      simp only [FormatOption.head, holdsAt_cons] at hfirst
      rw [hfirst.1]
      have hle := NibbleExt.nibble_le o.delta
      have hle' := NibbleExt.nibble_le o.value.length
      rw [Ne, (nibbles_split (by omega) (by omega)).2.2]
      omega
    rw [coapDeserializeOptions, if_pos hgo, coapDeserializeOption_eq o hhead (by omega)]
    by_cases hmore : 1 ≤ left - o.head.length
    · rw [if_pos hmore]
      have hnot : LastEmpty (o :: options) ∧ payload = [] ↔ LastEmpty options ∧ payload = [] := by
        rw [lastEmpty_cons]
        refine and_congr_left fun hempty => or_iff_right ?_
        rintro ⟨rfl, hbare⟩
        have := length_encodePayload_eq_zero.mpr hempty
        simp only [encodeOptions_nil, length_nil, hbare] at hleft
        omega
      obtain ⟨hread, hrefuse⟩ := ih room (ptr + (o.head.length + o.value.length))
        (left - (o.head.length + o.value.length : ℕ)) (predelta + UInt16.ofNat o.delta)
        (by simpa using hroom) (by rw [← Nat.add_assoc]; exact hrest) (by omega) (by omega)
      rw [hnot]
      refine ⟨fun h => ?_, fun h => hrefuse h⟩
      simp only [hread h, storedOptions, encodeOptions_cons, FormatOption.encode,
        length_append, Nat.add_assoc]
    · rw [if_neg hmore]
      -- nothing stands behind the head
      have hbare : LastEmpty (o :: options) ∧ payload = [] := by
        rw [lastEmpty_cons]
        have hoptions : options = [] := by
          cases options with
          | nil => rfl
          | cons o' options =>
            have := o'.length_head_pos
            simp only [encodeOptions_cons, FormatOption.encode, length_append] at hleft
            omega
        refine ⟨Or.inl ⟨hoptions, length_eq_zero_iff.mp (by omega)⟩, ?_⟩
        exact length_encodePayload_eq_zero.mp (by omega)
      exact ⟨fun h => absurd hbare h, fun _ => rfl⟩

/-- The values of the stored options are those of the datagram. -/
theorem storedOptions_values :
    ∀ (ptr : ℕ) (predelta : UInt16), HoldsAt buf ptr (encodeOptions options) →
      (encodeOptions options).length < 2 ^ 16 →
      (storedOptions ptr predelta options).map (fun o => memSlice buf o.val o.len.toNat)
        = options.map FormatOption.value := by
  induction options with
  | nil => intro ptr predelta _ _; rfl
  | cons o options ih =>
    intro ptr predelta hbuf hlen
    rw [encodeOptions_cons, holdsAt_append] at hbuf
    rw [encodeOptions_cons, length_append] at hlen
    have hvalue := hbuf.1
    rw [FormatOption.encode, holdsAt_append] at hvalue
    have hsmall : (UInt16.ofNat o.value.length).toNat = o.value.length := by
      rw [toNat_ofNat']
      rw [FormatOption.encode, length_append] at hlen
      exact Nat.mod_eq_of_lt (by omega)
    simp only [storedOptions, map_cons, hsmall, hvalue.2.memSlice_eq]
    rw [ih _ _ hbuf.2 (by omega)]

/-- The numbers of the stored options are those of the datagram, modulo the sixteen bits
they are kept in. -/
theorem storedOptions_numbers :
    ∀ (ptr base : ℕ) (predelta : UInt16), predelta.toNat = base % 2 ^ 16 →
      (storedOptions ptr predelta options).map (fun o => o.num.toNat)
        = (numbersFrom base options).map (· % 2 ^ 16) := by
  induction options with
  | nil => intro ptr base predelta _; rfl
  | cons o options ih =>
    intro ptr base predelta hbase
    have hnext : (predelta + UInt16.ofNat o.delta).toNat = (base + o.delta) % 2 ^ 16 := by
      rw [UInt16.toNat_add, UInt16.toNat_ofNat', hbase]
      omega
    simp only [storedOptions, numbersFrom, map_cons, hnext]
    rw [ih _ _ _ hnext]

/-! ## The message -/

theorem coapDeserializeHeader_eq (d : Datagram) (hbuf : HoldsAt buf 0 d.encodeHeader) :
    coapDeserializeHeader buf = d.header := by
  simp only [Datagram.encodeHeader, holdsAt_cons] at hbuf
  obtain ⟨h0, h1, h2, h3, -⟩ := hbuf
  have hfirst : ∀ (v t : Fin 4) (l : Fin 9),
      Fin.ofNat 4 ((UInt8.ofNat (v.val * 64 + t.val * 16 + l.val)).toNat >>> 6) = v ∧
        Fin.ofNat 4 ((UInt8.ofNat (v.val * 64 + t.val * 16 + l.val)).toNat >>> 4) = t ∧
        (Fin.ofNat 16 (UInt8.ofNat (v.val * 64 + t.val * 16 + l.val)).toNat).val = l.val := by
    decide
  obtain ⟨hversion, htype, htoken⟩ :=
    hfirst d.version d.type ⟨d.token.length, Nat.lt_succ_of_le d.token_le⟩
  have hid : UInt16.ofNat ((UInt8.ofNat (d.msgid.toNat / 256)).toNat <<< 8)
      + UInt16.ofNat (UInt8.ofNat (d.msgid.toNat % 256)).toNat = d.msgid := by
    have hlt := d.msgid.toNat_lt
    apply UInt16.toNat_inj.mp
    simp only [UInt16.toNat_add, UInt16.toNat_ofNat', UInt8.toNat_ofNat', Nat.shiftLeft_eq]
    omega
  simp only [coapDeserializeHeader, Datagram.header, h0, h1, h2, h3, hversion, htype, hid]
  congr 1
  exact Fin.ext htoken

/-- The message before its payload is looked for. -/
def messageBeforePayload (msg : CoapMessage ℕ) (buf : Memory) (d : Datagram) : CoapMessage ℕ :=
  { msg with
    header := d.header
    token := coapDeserializeToken msg.token d.token.length buf 4
    options := storedOptions (4 + d.token.length) 0 d.options }

variable (msg : CoapMessage ℕ)

/-- **A whole datagram.**  It is refused if it ends with the head of an option; otherwise
everything but the payload is read back, and the payload is looked for behind the options. -/
theorem coapDeserializeMessage_eq (d : Datagram) (hbuf : HoldsBytes buf d.encode)
    (hlen : d.encode.length < 2 ^ 16) (hcount : d.options.length ≤ coapMsgMaxOptionNum) :
    (LastEmpty d.options ∧ d.payload = [] →
      (coapDeserializeMessage msg buf d.encode.length).1 = coapErrorInvalidLength) ∧
    (¬ (LastEmpty d.options ∧ d.payload = []) →
      coapDeserializeMessage msg buf d.encode.length
        = (coapSuccess, coapDeserializePayload (messageBeforePayload msg buf d) buf
          (4 + d.token.length + (encodeOptions d.options).length)
          (encodePayload d.payload).length)) := by
  have hsum := d.length_encode
  have hheld := hbuf.holdsAt
  rw [Datagram.encode, append_assoc, append_assoc, holdsAt_append, holdsAt_append] at hheld
  obtain ⟨hheader, -, hrest⟩ := hheld
  have hlength : d.encodeHeader.length = 4 := rfl
  rw [hlength, Nat.zero_add] at hrest
  obtain ⟨hread, hrefuse⟩ := coapDeserializeOptions_eq d.options coapMsgMaxOptionNum
    (4 + d.token.length) ((d.encode.length : ℤ) - 4 - d.token.length) 0 hcount hrest
    (by omega) (by omega)
  have htokenlen : d.header.tokenlen.val = d.token.length := rfl
  have hlong : ¬ ((d.encode.length : ℤ) < 4) := by omega
  have htoken : ¬ ((d.token.length : ℤ) > (d.encode.length : ℤ) - 4) := by omega
  simp only [coapDeserializeMessage, if_neg hlong, coapDeserializeHeader_eq d hheader, htokenlen,
    if_neg htoken]
  constructor
  · intro hbare
    generalize coapDeserializeOptions buf coapMsgMaxOptionNum (4 + d.token.length)
      ((d.encode.length : ℤ) - 4 - d.token.length) 0 = r at hrefuse ⊢
    obtain ⟨stop, options⟩ := r
    have hstop : stop = none := hrefuse hbare
    rw [hstop]
  · intro hok
    rw [hread hok]
    simp only
    rw [if_neg (by omega)]
    congr 2
    omega

/-- The payload of a message that was read from `buf`. -/
def CoapMessage.payloadBytes (msg : CoapMessage ℕ) (buf : Memory) : Bytes :=
  msg.payload.elim [] fun ptr => memSlice buf ptr msg.payloadlen.toNat

/-- The result `r` of reading `buf` is the datagram `d`. -/
structure DecodesTo (d : Datagram) (buf : Memory) (r : ℤ × CoapMessage ℕ) : Prop where
  rc : r.1 = coapSuccess
  header : r.2.header = d.header
  token : memSlice r.2.token 0 d.token.length = d.token
  numbers : r.2.options.map (fun o => o.num.toNat) = d.numbers
  values : r.2.options.map (fun o => memSlice buf o.val o.len.toNat)
    = d.options.map FormatOption.value
  payloadlen : r.2.payloadlen.toNat = d.payload.length
  payload : r.2.payloadBytes buf = d.payload

theorem map_mod_eq_self_iff (l : List ℕ) : l.map (· % 2 ^ 16) = l ↔ ∀ n ∈ l, n < 2 ^ 16 := by
  constructor
  · intro h n hn
    rw [← h] at hn
    obtain ⟨m, -, rfl⟩ := mem_map.mp hn
    exact Nat.mod_lt _ (by decide)
  · intro h
    conv_rhs => rw [← map_id' l]
    exact map_congr_left fun n hn => Nat.mod_eq_of_lt (h n hn)

theorem memSlice_coapDeserializeToken (d : Datagram) (hbuf : HoldsAt buf 4 d.token)
    (token : Memory) :
    memSlice (coapDeserializeToken token d.token.length buf 4) 0 d.token.length = d.token := by
  have hnil : HoldsBytes token [] := fun i hi => by simp at hi
  rw [coapDeserializeToken, Nat.min_eq_left d.token_le, hbuf.memSlice_eq]
  exact (hnil.memStore d.token).holdsAt.memSlice_eq

/-- What `CoAPDeserialize_Payload` makes of the payload, or of what lies behind a datagram
without one. -/
theorem coapDeserializePayload_iff (msg : CoapMessage ℕ) {ptr : ℕ}
    (hbuf : HoldsAt buf ptr (encodePayload payload)) (hlen : payload.length < 2 ^ 16) :
    let r := coapDeserializePayload msg buf ptr (encodePayload payload).length
    (r.payloadlen.toNat = payload.length ∧ r.payloadBytes buf = payload) ↔
      (payload ≠ [] ∨ buf ptr ≠ 0xFF ∧ msg.payloadlen = 0) := by
  intro r
  by_cases hempty : payload = []
  · subst hempty
    by_cases hmarker : buf ptr = 0xFF
    · -- the length `-1` is stored as 65535
      have hr : r.payloadlen = 65535 := by
        simp only [r, coapDeserializePayload, if_pos hmarker, encodePayload]
        rfl
      rw [hr]
      exact iff_of_false (fun h => absurd h.1 (by decide)) (by simp [hmarker])
    have hr : r = msg := if_neg hmarker
    rw [hr]
    constructor
    · intro h
      exact .inr ⟨hmarker, UInt16.toNat_inj.mp h.1⟩
    · rintro (h | ⟨-, hzero⟩)
      · exact absurd rfl h
      · refine ⟨by rw [hzero]; rfl, ?_⟩
        unfold CoapMessage.payloadBytes
        rw [hzero]
        cases msg.payload <;> rfl
  · rw [encodePayload, if_neg hempty, holdsAt_cons] at hbuf
    have hlen' : (encodePayload payload).length = payload.length + 1 := by
      rw [encodePayload, if_neg hempty, length_cons]
    have hr : r.payloadlen.toNat = payload.length ∧ r.payload = some (ptr + 1) := by
      simp only [r, coapDeserializePayload, if_pos hbuf.1, hlen', and_true]
      rw [toNat_ofNat']
      omega
    refine iff_of_true ⟨hr.1, ?_⟩ (.inl hempty)
    rw [CoapMessage.payloadBytes, hr.2, hr.1]
    exact hbuf.2.memSlice_eq

theorem coapDeserializePayload_frame (buf : Memory) (ptr : ℕ) (n : ℤ) :
    (coapDeserializePayload msg buf ptr n).header = msg.header ∧
      (coapDeserializePayload msg buf ptr n).token = msg.token ∧
      (coapDeserializePayload msg buf ptr n).options = msg.options := by
  unfold coapDeserializePayload
  split_ifs <;> exact ⟨rfl, rfl, rfl⟩

/-- What the decoder needs of a datagram, of the memory behind it and of the message it
decodes into. -/
def Decodable (msg : CoapMessage ℕ) (buf : Memory) (d : Datagram) : Prop :=
  (∀ n ∈ d.numbers, n < 2 ^ 16) ∧
    (d.payload ≠ [] ∨
      ¬ LastEmpty d.options ∧ buf d.encode.length ≠ 0xFF ∧ msg.payloadlen = 0)

theorem decodesTo_iff_decodable (d : Datagram) (hbuf : HoldsBytes buf d.encode)
    (hlen : d.encode.length ≤ coapMsgMaxPduLen) (hcount : d.options.length ≤ coapMsgMaxOptionNum) :
    DecodesTo d buf (coapDeserializeMessage msg buf d.encode.length) ↔ Decodable msg buf d := by
  obtain ⟨hrefuse, hread⟩ := coapDeserializeMessage_eq msg d hbuf
    (Nat.lt_of_le_of_lt hlen (by decide)) hcount
  by_cases hbare : LastEmpty d.options ∧ d.payload = []
  · refine iff_of_false (fun h => ?_) ?_
    · have := h.rc
      rw [hrefuse hbare] at this
      cases this
    · rintro ⟨-, h | h⟩
      · exact h hbare.2
      · exact h.1 hbare.1
  rw [hread hbare]
  -- where the parts of the datagram stand
  have hsum := d.length_encode
  have hpdu : coapMsgMaxPduLen = 1280 := rfl
  have hheld := hbuf.holdsAt
  rw [Datagram.encode, holdsAt_append, holdsAt_append, holdsAt_append] at hheld
  obtain ⟨⟨⟨hheader, htoken⟩, hoptions⟩, hpayload⟩ := hheld
  have hlength : d.encodeHeader.length = 4 := rfl
  simp only [length_append, hlength, Nat.zero_add] at htoken hoptions hpayload
  have hpaylen : d.payload.length ≤ (encodePayload d.payload).length := by
    unfold encodePayload
    split_ifs with h <;> simp [h]
  have hframe := coapDeserializePayload_frame (messageBeforePayload msg buf d) buf
    (4 + d.token.length + (encodeOptions d.options).length) (encodePayload d.payload).length
  have hpay := coapDeserializePayload_iff (messageBeforePayload msg buf d) hpayload (by omega)
  -- the numbers are kept in 16 bits
  have hnumbers : (messageBeforePayload msg buf d).options.map (fun o => o.num.toNat) = d.numbers ↔
      ∀ n ∈ d.numbers, n < 2 ^ 16 := by
    rw [← map_mod_eq_self_iff]
    simp only [messageBeforePayload]
    rw [storedOptions_numbers d.options _ 0 0 rfl]
    rfl
  have hend : d.payload = [] →
      4 + d.token.length + (encodeOptions d.options).length = d.encode.length := by
    intro hempty
    have := length_encodePayload_eq_zero.mpr hempty
    omega
  generalize coapDeserializePayload (messageBeforePayload msg buf d) buf
    (4 + d.token.length + (encodeOptions d.options).length) (encodePayload d.payload).length = r
      at hframe hpay ⊢
  obtain ⟨hrheader, hrtoken, hroptions⟩ := hframe
  constructor
  · intro h
    refine ⟨hnumbers.mp (hroptions ▸ h.numbers), ?_⟩
    -- a datagram without payload ends with its options
    by_cases hempty : d.payload = []
    · refine .inr ⟨fun hlast => hbare ⟨hlast, hempty⟩, ?_⟩
      rw [← hend hempty]
      exact (hpay.mp ⟨h.payloadlen, h.payload⟩).resolve_left (not_not.mpr hempty)
    · exact .inl hempty
  · rintro ⟨hsmall, hrest⟩
    have hpay' : r.payloadlen.toNat = d.payload.length ∧ r.payloadBytes buf = d.payload := by
      apply hpay.mpr
      by_cases hempty : d.payload = []
      · rw [hend hempty]
        exact .inr (hrest.resolve_left (not_not.mpr hempty)).2
      · exact .inl hempty
    exact {
      rc := rfl
      header := hrheader
      token := by
        rw [hrtoken]
        exact memSlice_coapDeserializeToken d htoken msg.token
      numbers := by
        rw [hroptions]
        exact hnumbers.mpr hsmall
      values := by
        rw [hroptions]
        exact storedOptions_values d.options _ 0 hoptions (by omega)
      payloadlen := hpay'.1
      payload := hpay'.2 }

/-- **Decoder completeness.**  A well-formed datagram within the limits of bytes and options is
decoded to what it encodes exactly if its option numbers fit sixteen bits, and it has a payload, or
its last option is not empty, the byte behind it is not the payload marker and the payload length of
the message was zero. -/
theorem coap_decoder_complete_iff (msg : CoapMessage ℕ) (buf : Memory) (d : Datagram)
    (hbuf : HoldsBytes buf d.encode) (hlen : d.encode.length ≤ coapMsgMaxPduLen)
    (hcount : d.options.length ≤ coapMsgMaxOptionNum) :
    DecodesTo d buf (coapDeserializeMessage msg buf d.encode.length) ↔
      (∀ n ∈ d.numbers, n < 2 ^ 16) ∧
        (d.payload ≠ [] ∨
          ¬ LastEmpty d.options ∧ buf d.encode.length ≠ 0xFF ∧ msg.payloadlen = 0) :=
  decodesTo_iff_decodable msg d hbuf hlen hcount

/-- A request with one option, of number 11. -/
def requestWith (value payload : Bytes) (h : value.length < NibbleExt.bound) : Datagram :=
  ⟨1, 0, 1, 1, [], by decide, [⟨11, value, by decide, h⟩], payload⟩

theorem coap_decoder_complete_a :
    let d := requestWith [0x61] [0x78] (by decide)
    let buf := memOf d.encode fun _ => 0
    d.encode = [0x40, 1, 0, 1, 0xB1, 0x61, 0xFF, 0x78] ∧
      DecodesTo d buf (coapDeserializeMessage zeroMessage buf d.encode.length) := by
  intro d buf
  refine ⟨by decide, ?_⟩
  exact (coap_decoder_complete_iff zeroMessage buf d (holdsBytes_memOf _ _) (by decide)
    (by decide)).mpr ⟨by decide, .inl (by decide)⟩

/-- A request that ends with an empty option is refused. -/
theorem coap_decoder_refuses_empty_last :
    (requestWith [] [] (by decide)).encode = [0x40, 1, 0, 1, 0xB0] ∧
      (coapDeserializeMessage zeroMessage (memOf [0x40, 1, 0, 1, 0xB0] fun _ => 0) 5).1
        = coapErrorInvalidLength ∧
      ¬ DecodesTo (requestWith [] [] (by decide)) (memOf [0x40, 1, 0, 1, 0xB0] fun _ => 0)
        (coapDeserializeMessage zeroMessage (memOf [0x40, 1, 0, 1, 0xB0] fun _ => 0) 5) := by
  have hrc : (coapDeserializeMessage zeroMessage (memOf [0x40, 1, 0, 1, 0xB0] fun _ => 0) 5).1
      = coapErrorInvalidLength := by decide
  refine ⟨by decide, hrc, fun h => ?_⟩
  have hok := h.rc
  rw [hrc] at hok
  cases hok

end Iotkit.Coap
