/-
# What the CoAP decoder accepts

`CoAPDeserialize_Message` on arbitrary bytes.  `LooseDatagram` is the language it accepts:
token lengths up to 15, the nibble 15, lengths that wrap, and anything behind the twelfth
option.  The decoder is sound on exactly those bytes that cannot be read as a loose
datagram unless it is a well-formed one with a payload.
-/
import Iotkit.CoapDecode

namespace Iotkit.Coap

open List

/-! ## The accepted language -/

def encodeLoose (options : List LooseOption) : Bytes := options.flatMap LooseOption.encode

@[simp] theorem encodeLoose_nil : encodeLoose [] = [] := rfl

@[simp] theorem encodeLoose_cons (o : LooseOption) (options : List LooseOption) :
    encodeLoose (o :: options) = o.encode ++ encodeLoose options := by
  simp [encodeLoose]

/-- Behind the head of every option stands at least one byte. -/
def Followed (rest : Bytes) : List LooseOption → Prop
  | [] => True
  | o :: options => o.value ++ encodeLoose options ++ rest ≠ [] ∧ Followed rest options

/-- A header, a token, at most twelve options and a rest that is empty, starts with the
payload marker or stands behind the twelfth option. -/
structure LooseDatagram where
  first : UInt8
  code : UInt8
  idHigh : UInt8
  idLow : UInt8
  token : Bytes
  options : List LooseOption
  rest : Bytes
  token_length : token.length = first.toNat % 16
  options_le : options.length ≤ coapMsgMaxOptionNum
  followed : Followed rest options
  stops : options.length = coapMsgMaxOptionNum ∨ rest = [] ∨ rest.head? = some 0xFF

namespace LooseDatagram

def encode (L : LooseDatagram) : Bytes :=
  [L.first, L.code, L.idHigh, L.idLow] ++ L.token ++ encodeLoose L.options ++ L.rest

theorem length_encode (L : LooseDatagram) :
    L.encode.length
      = 4 + L.token.length + (encodeLoose L.options).length + L.rest.length := by
  simp [encode]
  omega

/-- The datagram is one of the format, and it has a payload. -/
structure WellFormed (L : LooseDatagram) : Prop where
  token_le : L.token.length ≤ coapMsgMaxTokenLen
  options : ∀ o ∈ L.options, o.WellFormed
  payload : ∃ payload, payload ≠ [] ∧ L.rest = 0xFF :: payload

end LooseDatagram

/-! ## Reading options -/

theorem holdsAt_memSlice (buf : Memory) (p n : ℕ) : HoldsAt buf p (memSlice buf p n) := by
  intro i hi
  simp [memSlice]

/-- The option that stands in memory at `ptr`. -/
def LooseOption.ofMem (buf : Memory) (ptr : ℕ) (h : buf ptr ≠ 0xFF) : LooseOption where
  delta := ⟨(buf ptr).toNat / 16, by have := (buf ptr).toNat_lt; omega⟩
  length := ⟨(buf ptr).toNat % 16, Nat.mod_lt _ (by decide)⟩
  deltaExt := memSlice buf (ptr + 1) (NibbleExt.extLength ((buf ptr).toNat / 16))
  lengthExt := memSlice buf (ptr + 1 + NibbleExt.extLength ((buf ptr).toNat / 16))
    (NibbleExt.extLength ((buf ptr).toNat % 16))
  value := memSlice buf
    (ptr + 1 + NibbleExt.extLength ((buf ptr).toNat / 16)
      + NibbleExt.extLength ((buf ptr).toNat % 16))
    (NibbleExt.number ((buf ptr).toNat % 16)
      (memSlice buf (ptr + 1 + NibbleExt.extLength ((buf ptr).toNat / 16))
        (NibbleExt.extLength ((buf ptr).toNat % 16))) % 2 ^ 16)
  deltaExt_length := length_memSlice _ _ _
  lengthExt_length := length_memSlice _ _ _
  value_length := length_memSlice _ _ _
  not_marker := by
    rintro ⟨hhigh, hlow⟩
    simp only at hhigh hlow
    apply h
    apply UInt8.toNat_inj.mp
    show (buf ptr).toNat = 255
    omega

theorem LooseOption.holdsAt_ofMem (buf : Memory) (ptr : ℕ) (h : buf ptr ≠ 0xFF) :
    HoldsAt buf ptr (LooseOption.ofMem buf ptr h).encode := by
  have hfirst : UInt8.ofNat ((buf ptr).toNat / 16 * 16 + (buf ptr).toNat % 16) = buf ptr := by
    rw [Nat.div_add_mod']
    exact UInt8.ofNat_toNat
  simp only [LooseOption.encode, LooseOption.head, LooseOption.ofMem, cons_append,
    append_assoc, holdsAt_cons, holdsAt_append, length_memSlice, hfirst]
  exact ⟨trivial, holdsAt_memSlice _ _ _, holdsAt_memSlice _ _ _, holdsAt_memSlice _ _ _⟩

variable {buf : Memory}

theorem LooseOption.ne_marker {ptr : ℕ} (o : LooseOption) (hbuf : HoldsAt buf ptr o.head) :
    buf ptr ≠ 0xFF := by
  simp only [LooseOption.head, holdsAt_cons] at hbuf
  rw [hbuf.1, Ne, (nibbles_split (Nat.le_of_lt_succ o.delta.isLt)
    (Nat.le_of_lt_succ o.length.isLt)).2.2]
  exact o.not_marker

/-- The options as `CoAPDeserialize_Options` stores them. -/
def storedLoose (ptr : ℕ) (predelta : UInt16) : List LooseOption → List (CoapMsgOption ℕ)
  | [] => []
  | o :: options =>
    let num := predelta + UInt16.ofNat (NibbleExt.number o.delta o.deltaExt)
    ⟨num, UInt16.ofNat o.value.length, ptr + o.head.length⟩ ::
      storedLoose (ptr + o.encode.length) num options

theorem length_storedLoose (options : List LooseOption) :
    ∀ (ptr : ℕ) (predelta : UInt16), (storedLoose ptr predelta options).length = options.length := by
  induction options with
  | nil => intro _ _; rfl
  | cons o options ih =>
    intro ptr predelta
    simp [storedLoose, ih]

variable (options : List LooseOption)

/-- The options loop reads the options of the accepted language. -/
theorem coapDeserializeOptions_loose {rest : Bytes} :
    ∀ (room ptr : ℕ) (left : ℤ) (predelta : UInt16), options.length ≤ room →
      HoldsAt buf ptr (encodeLoose options ++ rest) →
      left = (encodeLoose options).length + rest.length → Followed rest options →
      (options.length = room ∨ rest = [] ∨ rest.head? = some 0xFF) →
      coapDeserializeOptions buf room ptr left predelta
        = (some (ptr + (encodeLoose options).length), storedLoose ptr predelta options) := by
  induction options with
  | nil =>
    intro room ptr left predelta _ hbuf hleft _ hstop
    cases room with
    | zero => rfl
    | succ room =>
      have hend : ¬ (0 < left ∧ buf ptr ≠ 0xFF) := by
        rintro ⟨hpos, hne⟩
        cases rest with
        | nil => simp at hleft; omega
        | cons b rest =>
          simp only [encodeLoose_nil, nil_append, holdsAt_cons] at hbuf
          rcases hstop with h | h | h
          · simp at h
          · simp at h
          · exact hne (hbuf.1.trans (by simpa using h))
      rw [coapDeserializeOptions, if_neg hend]
      rfl
  | cons o options ih =>
    intro room ptr left predelta hroom hbuf hleft hfollowed hstop
    obtain ⟨room, rfl⟩ : ∃ r, room = r + 1 := ⟨room - 1, by simp at hroom; omega⟩
    rw [encodeLoose_cons, LooseOption.encode] at hbuf hleft
    rw [append_assoc, append_assoc, holdsAt_append, holdsAt_append] at hbuf
    obtain ⟨hhead, -, hrest⟩ := hbuf
    simp only [length_append, Nat.cast_add] at hleft
    obtain ⟨hbyte, hfollowed⟩ := hfollowed
    have hmore : 0 < o.value.length + (encodeLoose options).length + rest.length := by
      simpa [add_assoc] using length_pos_iff.mpr hbyte
    rw [coapDeserializeOptions, if_pos ⟨by omega, o.ne_marker hhead⟩,
      coapDeserializeOption_loose o hhead, if_pos (by omega)]
    simp only
    rw [ih room (ptr + (o.head.length + o.value.length))
      (left - (o.head.length + o.value.length : ℕ)) _ (by simpa using hroom)
      (by rw [← add_assoc]; exact hrest) (by omega) hfollowed (by simpa using hstop)]
    simp only [storedLoose, encodeLoose_cons, LooseOption.encode, length_append,
      add_assoc]

theorem le_of_coapDeserializeOptions :
    ∀ (room ptr : ℕ) (left : ℤ) (predelta : UInt16) (stop : ℕ),
      (coapDeserializeOptions buf room ptr left predelta).1 = some stop → ptr ≤ stop := by
  intro room
  induction room with
  | zero =>
    intro ptr left predelta stop h
    exact le_of_eq (Option.some.inj h)
  | succ room ih =>
    intro ptr left predelta stop h
    rw [coapDeserializeOptions] at h
    split at h
    · split at h
      · simp at h
      · next option len _ =>
          have := ih (ptr + len) (left - len) option.num stop h
          omega
    · exact le_of_eq (Option.some.inj h)

/-- What the options loop has read, if it does not run past the end, are options of the
accepted language. -/
theorem exists_loose_of_coapDeserializeOptions :
    ∀ (room ptr n : ℕ) (predelta : UInt16) (stop : ℕ) (stored : List (CoapMsgOption ℕ)),
      coapDeserializeOptions buf room ptr n predelta = (some stop, stored) →
      stop ≤ ptr + n →
      ∃ options rest, HoldsAt buf ptr (encodeLoose options ++ rest) ∧
        (encodeLoose options).length + rest.length = n ∧ options.length ≤ room ∧
        Followed rest options ∧
        (options.length = room ∨ rest = [] ∨ rest.head? = some 0xFF) := by
  intro room
  induction room with
  | zero =>
    intro ptr n predelta stop stored _ _
    exact ⟨[], memSlice buf ptr n, holdsAt_memSlice _ _ _, by simp, le_refl 0, trivial,
      .inl rfl⟩
  | succ room ih =>
    intro ptr n predelta stop stored hread hstop
    rw [coapDeserializeOptions] at hread
    -- the bytes that an option is read from, whatever they are
    by_cases hgo : 0 < (n : ℤ) ∧ buf ptr ≠ 0xFF
    · rw [if_pos hgo] at hread
      have hheld := LooseOption.holdsAt_ofMem buf ptr hgo.2
      generalize LooseOption.ofMem buf ptr hgo.2 = o at hheld
      have hsplit := hheld
      rw [LooseOption.encode, holdsAt_append] at hsplit
      rw [coapDeserializeOption_loose o hsplit.1] at hread
      by_cases hmore : 1 ≤ (n : ℤ) - o.head.length
      · rw [if_pos hmore] at hread
        simp only at hread
        generalize hrec : coapDeserializeOptions buf room (ptr + (o.head.length + o.value.length))
          ((n : ℤ) - (o.head.length + o.value.length : ℕ))
          (predelta + UInt16.ofNat (NibbleExt.number o.delta o.deltaExt)) = r at hread
        obtain ⟨stop', stored'⟩ := r
        simp only [Prod.mk.injEq] at hread
        obtain ⟨rfl, -⟩ := hread
        -- the reader does not go back
        have hforward := le_of_coapDeserializeOptions room _ _ _ stop (by rw [hrec])
        obtain ⟨m, rfl⟩ : ∃ m, n = o.head.length + o.value.length + m :=
          ⟨n - (o.head.length + o.value.length), by omega⟩
        have hleft : ((o.head.length + o.value.length + m : ℕ) : ℤ)
            - (o.head.length + o.value.length : ℕ) = m := by omega
        rw [hleft] at hrec
        obtain ⟨options, rest, hrest, hlen, hroom, hfollowed, hend⟩ :=
          ih _ m _ stop stored' hrec (by omega)
        refine ⟨o :: options, rest, ?_, ?_, by simpa using hroom, ⟨?_, hfollowed⟩, by simpa using hend⟩
        · rw [encodeLoose_cons, append_assoc, holdsAt_append]
          refine ⟨hheld, ?_⟩
          rw [LooseOption.encode, length_append]
          exact hrest
        · simp only [encodeLoose_cons, LooseOption.encode, length_append]
          omega
        · apply length_pos_iff.mp
          simp only [length_append]
          omega
      · rw [if_neg hmore] at hread
        simp at hread
    · refine ⟨[], memSlice buf ptr n, holdsAt_memSlice _ _ _, by simp, Nat.zero_le _, trivial, ?_⟩
      cases n with
      | zero => exact .inr (.inl rfl)
      | succ n =>
        refine .inr (.inr ?_)
        -- the options end before a payload marker
        have : buf ptr = 0xFF := by
          by_contra h
          exact hgo ⟨by omega, h⟩
        simp [memSlice, range_succ_eq_map, this]

/-! ## Reading datagrams -/

theorem tokenlen_coapDeserializeHeader (buf : Memory) :
    (coapDeserializeHeader buf).tokenlen.val = (buf 0).toNat % 16 := rfl

variable (L : LooseDatagram) (msg : CoapMessage ℕ)

/-- The message that is read from a loose datagram, before its payload is looked for. -/
def LooseDatagram.messageBeforePayload (buf : Memory) : CoapMessage ℕ :=
  { msg with
    header := coapDeserializeHeader buf
    token := coapDeserializeToken msg.token L.token.length buf 4
    options := storedLoose (4 + L.token.length) 0 L.options }

theorem LooseDatagram.tokenlen_eq (hbuf : HoldsBytes buf L.encode) :
    (coapDeserializeHeader buf).tokenlen.val = L.token.length := by
  have hfirst : buf 0 = L.first := hbuf 0 (by rw [L.length_encode]; omega)
  rw [tokenlen_coapDeserializeHeader, hfirst, L.token_length]

theorem LooseDatagram.coapDeserializeMessage_eq (hbuf : HoldsBytes buf L.encode) :
    coapDeserializeMessage msg buf L.encode.length
      = (coapSuccess, coapDeserializePayload (L.messageBeforePayload msg buf) buf
          (4 + L.token.length + (encodeLoose L.options).length) L.rest.length) := by
  have hsum := L.length_encode
  have hheld := hbuf.holdsAt
  rw [LooseDatagram.encode, append_assoc, append_assoc, holdsAt_append, holdsAt_append]
    at hheld
  obtain ⟨-, -, hrest⟩ := hheld
  have htokenlen := L.tokenlen_eq hbuf
  have hread := coapDeserializeOptions_loose L.options coapMsgMaxOptionNum (4 + L.token.length)
    ((L.encode.length : ℤ) - 4 - L.token.length) 0 L.options_le hrest (by omega) L.followed L.stops
  have hlong : ¬ ((L.encode.length : ℤ) < 4) := by omega
  have htoken : ¬ ((L.token.length : ℤ) > (L.encode.length : ℤ) - 4) := by omega
  simp only [coapDeserializeMessage, if_neg hlong, htokenlen, if_neg htoken, hread]
  rw [if_neg (by omega)]
  congr 2
  omega

theorem exists_looseDatagram {bs : Bytes} {msg m : CoapMessage ℕ} (hbuf : HoldsBytes buf bs)
    (hok : coapDeserializeMessage msg buf bs.length = (coapSuccess, m)) :
    ∃ L : LooseDatagram, L.encode = bs := by
  have herror : ∀ msg' : CoapMessage ℕ, (coapErrorInvalidLength, msg') ≠ (coapSuccess, m) := by
    intro msg' h
    exact absurd (Prod.mk.inj h).1 (by decide)
  unfold coapDeserializeMessage at hok
  by_cases hlong : (bs.length : ℤ) < 4
  · rw [if_pos hlong] at hok
    exact absurd hok (herror _)
  rw [if_neg hlong] at hok
  simp only at hok
  have htokenlen := tokenlen_coapDeserializeHeader buf
  generalize (coapDeserializeHeader buf).tokenlen.val = t at hok htokenlen
  by_cases htoken : (t : ℤ) > (bs.length : ℤ) - 4
  · rw [if_pos htoken] at hok
    exact absurd hok (herror _)
  rw [if_neg htoken] at hok
  obtain ⟨n, hn⟩ : ∃ n : ℕ, bs.length = 4 + t + n := ⟨bs.length - 4 - t, by omega⟩
  have hleft : (bs.length : ℤ) - 4 - t = n := by omega
  rw [hleft] at hok
  generalize hrec : coapDeserializeOptions buf coapMsgMaxOptionNum (4 + t) n 0 = r at hok
  obtain ⟨stop, stored⟩ := r
  cases stop with
  | none => exact absurd hok (herror _)
  | some stop =>
    simp only at hok
    split_ifs at hok with hpast
    · exact absurd hok (herror _)
    obtain ⟨options, rest, hrest, hlen, hroom, hfollowed, hstop⟩ :=
      exists_loose_of_coapDeserializeOptions _ _ _ _ stop stored hrec (by omega)
    refine ⟨⟨buf 0, buf 1, buf 2, buf 3, memSlice buf 4 t, options, rest,
      (length_memSlice _ _ _).trans htokenlen, hroom, hfollowed, hstop⟩, ?_⟩
    -- both are what stands in the first `bs.length` bytes
    have hheld : HoldsAt buf 0 ([buf 0, buf 1, buf 2, buf 3] ++ memSlice buf 4 t
        ++ encodeLoose options ++ rest) := by
      rw [append_assoc, holdsAt_append, holdsAt_append]
      simp only [holdsAt_cons, holdsAt_nil, and_true, true_and, length_append,
        length_cons, length_nil, length_memSlice, zero_add, Nat.reduceAdd]
      exact ⟨holdsAt_memSlice _ _ _, hrest⟩
    have hlength : ([buf 0, buf 1, buf 2, buf 3] ++ memSlice buf 4 t
        ++ encodeLoose options ++ rest).length = bs.length := by
      simp only [length_append, length_cons, length_nil, length_memSlice]
      omega
    have h := hheld.memSlice_eq
    rw [hlength, hbuf.holdsAt.memSlice_eq] at h
    exact h.symm

/-! ## Soundness -/

/-- A well-formed datagram, as the format has it. -/
def LooseDatagram.toDatagram (h : L.token.length ≤ coapMsgMaxTokenLen) :
    Datagram where
  version := ⟨L.first.toNat / 64, by have := L.first.toNat_lt; omega⟩
  type := ⟨L.first.toNat / 16 % 4, Nat.mod_lt _ (by decide)⟩
  code := L.code
  msgid := UInt16.ofNat (L.idHigh.toNat * 256 + L.idLow.toNat)
  token := L.token
  token_le := h
  options := L.options.map LooseOption.toFormat
  payload := L.rest.tail

theorem encodeOptions_toFormat {options : List LooseOption} (h : ∀ o ∈ options, o.WellFormed) :
    encodeOptions (options.map LooseOption.toFormat) = encodeLoose options := by
  induction options with
  | nil => rfl
  | cons o options ih =>
    rw [map_cons, encodeOptions_cons, encodeLoose_cons,
      (h o (mem_cons_self)).encode_toFormat,
      ih fun o' ho' => h o' (mem_cons_of_mem _ ho')]

variable {L : LooseDatagram}

theorem LooseDatagram.WellFormed.encode_toDatagram (h : L.WellFormed) :
    (L.toDatagram h.token_le).encode = L.encode := by
  have hfirst : UInt8.ofNat (L.first.toNat / 64 * 64 + L.first.toNat / 16 % 4 * 16
      + L.token.length) = L.first := by
    apply UInt8.toNat_inj.mp
    have := L.first.toNat_lt
    rw [UInt8.toNat_ofNat', L.token_length]
    omega
  have hhigh := L.idHigh.toNat_lt
  have hlow := L.idLow.toNat_lt
  have hid : (UInt16.ofNat (L.idHigh.toNat * 256 + L.idLow.toNat)).toNat
      = L.idHigh.toNat * 256 + L.idLow.toNat := by
    rw [UInt16.toNat_ofNat']
    omega
  have hidHigh : (L.idHigh.toNat * 256 + L.idLow.toNat) / 256 = L.idHigh.toNat := by omega
  have hidLow : (L.idHigh.toNat * 256 + L.idLow.toNat) % 256 = L.idLow.toNat := by omega
  obtain ⟨payload, hne, hrest⟩ := h.payload
  simp only [Datagram.encode, Datagram.encodeHeader, LooseDatagram.toDatagram,
    encodeOptions_toFormat h.options, hfirst, hid, hidHigh, hidLow, UInt8.ofNat_toNat,
    LooseDatagram.encode, hrest, tail_cons, encodePayload, if_neg hne]

/-- A message `m` that was read into `msg` from memory that starts with the bytes `bs` stays
inside them, accounts for all of them and does not depend on what follows them. -/
structure SoundResult (bs : Bytes) (buf : Memory) (msg m : CoapMessage ℕ) : Prop where
  tokenlen_le : m.header.tokenlen.val ≤ coapMsgMaxTokenLen
  token_inside : 4 + m.header.tokenlen.val ≤ bs.length
  options_le : m.options.length ≤ coapMsgMaxOptionNum
  options_inside : ∀ o ∈ m.options, o.val + o.len.toNat ≤ bs.length
  payload_inside : ∀ ptr, m.payload = some ptr → ptr + m.payloadlen.toNat ≤ bs.length
  accounts : ∃ d : Datagram, d.encode = bs ∧ m.header = d.header ∧
    memSlice m.token 0 d.token.length = d.token ∧
    m.options.map (fun o => memSlice buf o.val o.len.toNat) = d.options.map FormatOption.value ∧
    m.payloadBytes buf = d.payload
  same : ∀ buf', HoldsBytes buf' bs → coapDeserializeMessage msg buf' bs.length = (coapSuccess, m)

/-- The decoder is sound on the bytes `bs`: what it accepts it has read properly. -/
def SoundOn (bs : Bytes) : Prop :=
  ∀ msg buf m, HoldsBytes buf bs →
    coapDeserializeMessage msg buf bs.length = (coapSuccess, m) → SoundResult bs buf msg m

theorem storedOptions_inside (options : List FormatOption) :
    ∀ (ptr : ℕ) (predelta : UInt16), ∀ o ∈ storedOptions ptr predelta options,
      o.val + o.len.toNat ≤ ptr + (encodeOptions options).length := by
  induction options with
  | nil => intro ptr predelta o ho; cases ho
  | cons o options ih =>
    intro ptr predelta o' ho'
    rw [encodeOptions_cons, length_append, FormatOption.encode, length_append]
    rcases mem_cons.mp ho' with rfl | hmem
    · have : (UInt16.ofNat o.value.length).toNat ≤ o.value.length := by
        rw [UInt16.toNat_ofNat']
        exact Nat.mod_le _ _
      simp only
      omega
    · have := ih _ _ o' hmem
      rw [FormatOption.encode, length_append] at this
      omega

/-- The message that is read from a datagram with a payload. -/
def Datagram.readInto (d : Datagram) : CoapMessage ℕ where
  header := d.header
  token := memStore msg.token 0 d.token
  options := storedOptions (4 + d.token.length) 0 d.options
  payloadlen := UInt16.ofNat d.payload.length
  payload := some (4 + d.token.length + (encodeOptions d.options).length + 1)

/-- A datagram with a payload is read without regard to what follows it. -/
theorem coapDeserializeMessage_payload (d : Datagram) (hbuf : HoldsBytes buf d.encode)
    (hlen : d.encode.length < 2 ^ 16) (hcount : d.options.length ≤ coapMsgMaxOptionNum)
    (hpayload : d.payload ≠ []) :
    coapDeserializeMessage msg buf d.encode.length = (coapSuccess, d.readInto msg) := by
  have hread := (coapDeserializeMessage_eq msg d hbuf hlen hcount).2 fun h => hpayload h.2
  have hsum := d.length_encode
  have hmarked : encodePayload d.payload = 0xFF :: d.payload := if_neg hpayload
  have hheld := hbuf.holdsAt
  rw [Datagram.encode, holdsAt_append, holdsAt_append, holdsAt_append, hmarked, holdsAt_cons] at hheld
  obtain ⟨⟨⟨-, htoken⟩, -⟩, hmarker, -⟩ := hheld
  have hlength : d.encodeHeader.length = 4 := rfl
  simp only [length_append, hlength, zero_add] at htoken hmarker
  have htokens : coapDeserializeToken msg.token d.token.length buf 4 = memStore msg.token 0 d.token := by
    rw [coapDeserializeToken, min_eq_left d.token_le, htoken.memSlice_eq]
  rw [hmarked, length_cons] at hsum hread
  have hpaylen : UInt16.ofNat ((((d.payload.length + 1 : ℕ) : ℤ) - 1) % 2 ^ 16).toNat
      = UInt16.ofNat d.payload.length := by
    congr 1
    omega
  rw [hread, coapDeserializePayload, if_pos hmarker, hpaylen]
  simp only [messageBeforePayload, htokens]
  rfl

theorem Datagram.soundResult (d : Datagram) (hbuf : HoldsBytes buf d.encode)
    (hlen : d.encode.length < 2 ^ 16) (hcount : d.options.length ≤ coapMsgMaxOptionNum)
    (hpayload : d.payload ≠ []) : SoundResult d.encode buf msg (d.readInto msg) := by
  have hsum := d.length_encode
  have hmarked : encodePayload d.payload = 0xFF :: d.payload := if_neg hpayload
  have hpaylen : (UInt16.ofNat d.payload.length).toNat = d.payload.length := by
    rw [UInt16.toNat_ofNat']
    rw [hmarked, length_cons] at hsum
    exact Nat.mod_eq_of_lt (by omega)
  have hheld := hbuf.holdsAt
  rw [Datagram.encode, holdsAt_append, holdsAt_append, holdsAt_append, hmarked, holdsAt_cons] at hheld
  obtain ⟨⟨⟨-, -⟩, hoptions⟩, -, hbytes⟩ := hheld
  have hlength : d.encodeHeader.length = 4 := rfl
  simp only [length_append, hlength, zero_add] at hoptions hbytes
  rw [hmarked, length_cons] at hsum
  exact {
    tokenlen_le := d.token_le
    token_inside := by
      show 4 + d.token.length ≤ _
      omega
    options_le := by
      have : (storedOptions (4 + d.token.length) 0 d.options).length = d.options.length := by
        have hvalues := congrArg List.length
          (storedOptions_values d.options (4 + d.token.length) 0 hoptions (by omega))
        simpa using hvalues
      exact this.trans_le hcount
    options_inside := by
      intro o ho
      have := storedOptions_inside d.options (4 + d.token.length) 0 o ho
      omega
    payload_inside := by
      intro ptr hptr
      obtain rfl := Option.some.inj hptr
      show _ + (UInt16.ofNat d.payload.length).toNat ≤ _
      omega
    accounts := by
      refine ⟨d, rfl, rfl, ?_, ?_, ?_⟩
      · have hnil : HoldsBytes msg.token [] := fun i hi => by simp at hi
        exact (hnil.memStore d.token).holdsAt.memSlice_eq
      · exact storedOptions_values d.options _ 0 hoptions (by omega)
      · show memSlice buf _ (UInt16.ofNat d.payload.length).toNat = d.payload
        rw [hpaylen]
        exact hbytes.memSlice_eq
    same := fun buf' hbuf' => coapDeserializeMessage_payload msg d hbuf' hlen hcount hpayload }

/-- An option of the accepted language that starts the same bytes as an option of the format
is well formed and is this option. -/
theorem LooseOption.wellFormed_of_append_eq {o : LooseOption} {f : FormatOption}
    {bs cs : Bytes} (hsmall : f.value.length < 2 ^ 16)
    (heq : f.encode ++ bs = o.encode ++ cs) : o.WellFormed ∧ bs = cs := by
  have hdelta := NibbleExt.nibble_le f.delta
  have hlength := NibbleExt.nibble_le f.value.length
  simp only [FormatOption.encode, FormatOption.head, LooseOption.encode, LooseOption.head,
    cons_append, append_assoc, List.cons.injEq] at heq
  obtain ⟨hfirst, hbytes⟩ := heq
  obtain ⟨hhigh, hlow, -⟩ := nibbles_split (a := NibbleExt.nibble f.delta)
    (b := NibbleExt.nibble f.value.length) (by omega) (by omega)
  obtain ⟨hhigh', hlow', -⟩ :=
    nibbles_split (Nat.le_of_lt_succ o.delta.isLt) (Nat.le_of_lt_succ o.length.isLt)
  rw [hfirst] at hhigh hlow
  have hnibd : o.delta.val = NibbleExt.nibble f.delta := hhigh'.symm.trans hhigh
  have hnibl : o.length.val = NibbleExt.nibble f.value.length := hlow'.symm.trans hlow
  -- the nibbles agree, so the extension bytes are equally long, and then the values are
  obtain ⟨-, hbytes⟩ := append_inj hbytes
    (by rw [NibbleExt.length_ext f.delta_lt, o.deltaExt_length, hnibd])
  obtain ⟨hext, hbytes⟩ := append_inj hbytes
    (by rw [NibbleExt.length_ext f.value_lt, o.lengthExt_length, hnibl])
  have hnumber : NibbleExt.number o.length o.lengthExt = f.value.length := by
    rw [hnibl, ← hext, NibbleExt.number_ext f.value_lt]
  obtain ⟨-, hrest⟩ := append_inj hbytes
    (by rw [o.value_length, hnumber, Nat.mod_eq_of_lt hsmall])
  exact ⟨⟨by omega, by omega, by omega⟩, hrest⟩

theorem wellFormed_of_encode_eq :
    ∀ (formats : List FormatOption) (rest payload : Bytes),
      formats.length = options.length → rest ≠ [] →
      encodeOptions formats ++ encodePayload payload = encodeLoose options ++ rest →
      (encodeOptions formats).length < 2 ^ 16 →
      (∀ o ∈ options, o.WellFormed) ∧ ∃ p, p ≠ [] ∧ rest = 0xFF :: p := by
  induction options with
  | nil =>
    intro formats rest payload hcount hne heq _
    obtain rfl : formats = [] := length_eq_zero_iff.mp hcount
    refine ⟨by simp, ?_⟩
    simp only [encodeOptions_nil, encodeLoose_nil, nil_append] at heq
    unfold encodePayload at heq
    split_ifs at heq with hempty
    · exact absurd heq.symm hne
    · exact ⟨payload, hempty, heq.symm⟩
  | cons o options ih =>
    intro formats rest payload hcount hne heq hlen
    obtain ⟨f, formats, rfl⟩ : ∃ f fs, formats = f :: fs :=
      exists_cons_of_length_eq_add_one hcount
    rw [encodeOptions_cons, length_append, FormatOption.encode, length_append] at hlen
    rw [encodeOptions_cons, encodeLoose_cons, append_assoc, append_assoc] at heq
    obtain ⟨hwf, heq'⟩ := LooseOption.wellFormed_of_append_eq (by omega) heq
    obtain ⟨hwfs, hpayload⟩ := ih formats rest payload (by simpa using hcount) hne heq' (by omega)
    refine ⟨?_, hpayload⟩
    exact forall_mem_cons.mpr ⟨hwf, hwfs⟩

theorem LooseDatagram.wellFormed_of_encode_eq {d : Datagram} (heq : d.encode = L.encode)
    (htoken : d.token.length = L.token.length) (hcount : d.options.length = L.options.length)
    (hrest : L.rest ≠ []) (hlen : L.encode.length < 2 ^ 16) : L.WellFormed := by
  have hsum := d.length_encode
  rw [heq] at hsum
  simp only [Datagram.encode, LooseDatagram.encode, append_assoc] at heq
  obtain ⟨-, heq⟩ := append_inj heq rfl
  obtain ⟨-, heq⟩ := append_inj heq htoken
  obtain ⟨hoptions, hpayload⟩ :=
    Coap.wellFormed_of_encode_eq L.options d.options L.rest d.payload hcount hrest heq (by omega)
  exact ⟨htoken ▸ d.token_le, hoptions, hpayload⟩

/-- Without a payload, what is read depends on the byte behind the datagram. -/
theorem LooseDatagram.rest_ne_nil (h : SoundOn L.encode) : L.rest ≠ [] := by
  intro hrest
  have hmarked := holdsBytes_memOf L.encode fun _ => 0xFF
  have hzero := holdsBytes_memOf L.encode fun _ => 0
  have hread := L.coapDeserializeMessage_eq zeroMessage hmarked
  have hread' := L.coapDeserializeMessage_eq zeroMessage hzero
  have hsame := (h zeroMessage _ _ hmarked hread).same _ hzero
  rw [hread'] at hsame
  have hend : L.encode.length = 4 + L.token.length + (encodeLoose L.options).length := by
    rw [L.length_encode, hrest, length_nil, add_zero]
  have hbehind : ∀ b : UInt8, memOf L.encode (fun _ => b)
      (4 + L.token.length + (encodeLoose L.options).length) = b := by
    intro b
    rw [← hend]
    simp [memOf]
  have hpayload := congrArg CoapMessage.payload (Prod.mk.inj hsame).2
  rw [coapDeserializePayload, if_neg (by rw [hbehind]; decide), coapDeserializePayload,
    if_pos (hbehind 0xFF)] at hpayload
  exact absurd hpayload (by simp [LooseDatagram.messageBeforePayload, zeroMessage])

/-- **Decoder soundness.**  The decoder is sound on a byte string exactly if the only way to
read it as a datagram of the accepted language is as a well-formed one with a payload. -/
theorem coap_decoder_sound_iff (bs : Bytes) (hlen : bs.length < 2 ^ 16) :
    SoundOn bs ↔ ∀ L : LooseDatagram, L.encode = bs → L.WellFormed := by
  constructor
  · rintro hsound L rfl
    have hbuf := holdsBytes_memOf L.encode fun _ => 0
    have hread := L.coapDeserializeMessage_eq zeroMessage hbuf
    obtain ⟨d, heq, hheader, -, hvalues, -⟩ := (hsound zeroMessage _ _ hbuf hread).accounts
    obtain ⟨hrheader, -, hroptions⟩ := coapDeserializePayload_frame
      (L.messageBeforePayload zeroMessage (memOf L.encode fun _ => 0)) (memOf L.encode fun _ => 0)
      (4 + L.token.length + (encodeLoose L.options).length) L.rest.length
    have htoken : d.token.length = L.token.length := by
      have hfirst := L.tokenlen_eq hbuf
      rw [hrheader] at hheader
      exact (congrArg (fun h => h.tokenlen.val) hheader).symm.trans hfirst
    have hcount : d.options.length = L.options.length := by
      have hlength := congrArg List.length hvalues
      rw [hroptions, length_map, length_map] at hlength
      exact hlength.symm.trans (length_storedLoose _ _ _)
    exact LooseDatagram.wellFormed_of_encode_eq heq htoken hcount
      (LooseDatagram.rest_ne_nil hsound) hlen
  · intro hall msg buf m hbuf hok
    obtain ⟨L, rfl⟩ := exists_looseDatagram hbuf hok
    have hwf := hall L rfl
    obtain ⟨payload, hne, hrest⟩ := hwf.payload
    have hencode := hwf.encode_toDatagram
    have hcount : (L.toDatagram hwf.token_le).options.length ≤ coapMsgMaxOptionNum := by
      simpa [LooseDatagram.toDatagram] using L.options_le
    have hpayload : (L.toDatagram hwf.token_le).payload ≠ [] := by
      simpa [LooseDatagram.toDatagram, hrest] using hne
    rw [← hencode] at hbuf hok hlen ⊢
    have hread := coapDeserializeMessage_payload msg _ hbuf hlen hcount hpayload
    rw [hok] at hread
    obtain rfl := (Prod.mk.inj hread).2
    exact Datagram.soundResult msg _ hbuf hlen hcount hpayload

theorem coap_decoder_sound_payload : SoundOn [0x40, 1, 0, 1, 0xFF, 0x78] := by
  apply (coap_decoder_sound_iff _ (by decide)).mpr
  intro L hL
  simp only [LooseDatagram.encode, cons_append, nil_append, append_assoc,
    List.cons.injEq] at hL
  obtain ⟨hfirst, -, -, -, hL⟩ := hL
  have htoken : L.token = [] := by
    apply length_eq_zero_iff.mp
    rw [L.token_length, hfirst]
    rfl
  rw [htoken, nil_append] at hL
  cases hoptions : L.options with
  | nil =>
    rw [hoptions, encodeLoose_nil, nil_append] at hL
    exact ⟨by rw [htoken]; decide, by simp [hoptions], [0x78], by decide, hL⟩
  | cons o options =>
    -- an option does not start with the payload marker
    rw [hoptions, encodeLoose_cons, LooseOption.encode, LooseOption.head] at hL
    exact absurd ((nibbles_split (Nat.le_of_lt_succ o.delta.isLt)
      (Nat.le_of_lt_succ o.length.isLt)).2.2.mp (List.cons.inj hL).1) o.not_marker

/-- A token of nine bytes is accepted. -/
theorem coap_decoder_accepts_long_token :
    let bs : Bytes := [0x49, 1, 0, 1, 1, 2, 3, 4, 5, 6, 7, 8, 9, 0xFF, 0x78]
    (coapDeserializeMessage zeroMessage (memOf bs fun _ => 0) bs.length).1 = coapSuccess ∧
      ¬ SoundOn bs := by
  intro bs
  have hok : (coapDeserializeMessage zeroMessage (memOf bs fun _ => 0) bs.length).1
      = coapSuccess := by decide
  refine ⟨hok, fun hsound => ?_⟩
  have hle := (hsound zeroMessage _ _ (holdsBytes_memOf bs _) (Prod.ext hok rfl)).tokenlen_le
  exact absurd hle (by decide)

end Iotkit.Coap
