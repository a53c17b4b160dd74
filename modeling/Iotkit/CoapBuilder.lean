/-
# The builder functions of CoAP messages

`CoAPMessage_common.c`.  A message is initialised, its fields are set, and options are added to
it.  `CoAPStrOption_add` and `CoAPUintOption_add` are given absolute option numbers and store the
difference to the number before, which they keep in the eight bits of `optdelta`.

The numbers come out of a transmission as they were given exactly when those before the last
one fit `optdelta`.
-/
import Iotkit.CoapContext
import Iotkit.CoapRoundTrip
import Iotkit.GuardedRun

namespace Iotkit.Coap

open List UInt16

/-! ## The message that is built -/

abbrev coapErrorInvalidParam : ℤ := 2 ^ 8 + 1

def coapCurVersion : Fin 4 := 1

/-- A message with its `optdelta`. -/
structure CoapBuilder extends CoapMessage Memory where
  optdelta : UInt8

def CoapMsgOption.bytes (o : CoapMsgOption Memory) : Bytes := memSlice o.val 0 o.len.toNat

namespace CoapBuilder

/-- `CoAPMessage_init`. -/
def init : CoapBuilder where
  header := ⟨coapCurVersion, coapMessageTypeAck, 0, coapMsgCodeEmptyMessage, 0⟩
  token := fun _ => 0
  options := []
  payloadlen := 0
  payload := none
  optdelta := 0

/-- An option with the absolute number `optnum` in the next entry. -/
def addOption (message : CoapBuilder) (optnum len : UInt16) (val : Memory) : CoapBuilder :=
  { message with
    options := message.options ++ [⟨optnum - message.optdelta.toUInt16, len, val⟩]
    optdelta := optnum.toUInt8 }

end CoapBuilder

/-! ## The functions -/

variable (message : CoapBuilder)

/-- `CoAPStrOption_add`; `malloc` tells whether there is memory for the value. -/
def coapStrOptionAdd (malloc : Bool) (message : CoapBuilder) (optnum : UInt16)
    (data : Memory) (datalen : UInt16) : ℤ × CoapBuilder :=
  if coapMsgMaxOptionNum ≤ message.options.length then (coapErrorInvalidParam, message)
  else if ¬ malloc then (coapErrorMalloc, message)
  else (coapSuccess, message.addOption optnum datalen
    (memOf (memSlice data 0 datalen.toNat) fun _ => 0))

/-- The bytes `CoAPUintOption_add` takes for a number. -/
def uintOptionBytes (data : UInt32) : Bytes :=
  let byte (shift : ℕ) : UInt8 := UInt8.ofNat (data.toNat / 2 ^ shift)
  if data = 0 then []
  else if data ≤ 255 then [byte 0]
  else if data ≤ 65535 then [byte 8, byte 0]
  else [byte 24, byte 16, byte 8, byte 0]

/-- `CoAPUintOption_add`.  Without memory the value is `NULL`, where `null` is read, and the
option is added all the same. -/
def coapUintOptionAdd (malloc : Bool) (null : Memory) (message : CoapBuilder)
    (optnum : UInt16) (data : UInt32) : ℤ × CoapBuilder :=
  if coapMsgMaxOptionNum ≤ message.options.length then (coapErrorInvalidParam, message)
  else
    let bytes := uintOptionBytes data
    (coapSuccess, message.addOption optnum (UInt16.ofNat bytes.length)
      (if bytes ≠ [] ∧ malloc then memOf bytes fun _ => 0 else null))

def coapMessageIdSet (msgid : UInt16) : ℤ × CoapBuilder :=
  (coapSuccess, { message with header := { message.header with msgid := msgid } })

def coapMessageTypeSet (type : UInt8) : ℤ × CoapBuilder :=
  if 3 < type then (coapErrorInvalidParam, message)
  else (coapSuccess,
    { message with header := { message.header with type := Fin.ofNat 4 type.toNat } })

def coapMessageCodeSet (code : UInt8) : ℤ × CoapBuilder :=
  (coapSuccess, { message with header := { message.header with code := code } })

def coapMessageTokenSet (token : Option Memory) (tokenlen : UInt8) :
    ℤ × CoapBuilder :=
  match token with
  | none => (coapErrorNull, message)
  | some token =>
    if coapMsgMaxTokenLen < tokenlen.toNat then (coapErrorInvalidLength, message)
    else (coapSuccess, { message with
      header := { message.header with tokenlen := Fin.ofNat 16 tokenlen.toNat }
      token := memStore message.token 0 (memSlice token 0 tokenlen.toNat) })

def coapMessagePayloadSet (payload : Option Memory) (payloadlen : UInt16) : ℤ × CoapBuilder :=
  if 0 < payloadlen ∧ payload = none then (coapErrorNull, message)
  else (coapSuccess, { message with payload := payload, payloadlen := payloadlen })

/-! ## Building a message -/

inductive BuildOp
  | msgid (msgid : UInt16)
  | type (type : UInt8)
  | code (code : UInt8)
  | token (token : Option Memory) (tokenlen : UInt8)
  | strOption (malloc : Bool) (optnum : UInt16) (data : Memory) (datalen : UInt16)
  | uintOption (malloc : Bool) (optnum : UInt16) (data : UInt32)
  | payload (payload : Option Memory) (payloadlen : UInt16)

def BuildOp.optnum : BuildOp → Option UInt16
  | .strOption _ optnum _ _ => some optnum
  | .uintOption _ optnum _ => some optnum
  | _ => none

variable (null : Memory)

/-- One call: the return value, and the message afterwards. -/
def buildCall (message : CoapBuilder) : BuildOp → ℤ × CoapBuilder
  | .msgid msgid => coapMessageIdSet message msgid
  | .type type => coapMessageTypeSet message type
  | .code code => coapMessageCodeSet message code
  | .token token tokenlen => coapMessageTokenSet message token tokenlen
  | .strOption malloc optnum data datalen => coapStrOptionAdd malloc message optnum data datalen
  | .uintOption malloc optnum data => coapUintOptionAdd malloc null message optnum data
  | .payload payload payloadlen => coapMessagePayloadSet message payload payloadlen

/-- A message with the absolute option numbers that were given to successful calls. -/
structure Building where
  message : CoapBuilder
  given : List UInt16

def buildStep (b : Building) (op : BuildOp) : Building :=
  let r := buildCall null b.message op
  ⟨r.2, if r.1 = coapSuccess then b.given ++ op.optnum.toList else b.given⟩

/-- What a sequence of calls makes of an initialised message. -/
def build (ops : List BuildOp) : Building := ops.foldl (buildStep null) ⟨CoapBuilder.init, []⟩

/-- What every built message keeps to: the token and the options fit their arrays, and there
is a payload if its length says so. -/
structure CoapMessage.Sendable (msg : CoapMessage Memory) : Prop where
  token_le : msg.header.tokenlen.val ≤ coapMsgMaxTokenLen
  options_le : msg.options.length ≤ coapMsgMaxOptionNum
  payloadlen_eq : msg.payload = none → msg.payloadlen = 0

/-- The differences that are stored for the absolute numbers `given`, from `optdelta` on. -/
def deltasFrom : UInt8 → List UInt16 → List UInt16
  | _, [] => []
  | optdelta, n :: given => (n - optdelta.toUInt16) :: deltasFrom n.toUInt8 given

theorem length_deltasFrom (given : List UInt16) :
    ∀ optdelta, (deltasFrom optdelta given).length = given.length := by
  induction given with
  | nil => intro optdelta; rfl
  | cons n given ih =>
    intro optdelta
    show (deltasFrom n.toUInt8 given).length + 1 = _
    rw [ih, length_cons]

/-- `optdelta` behind the absolute numbers `given`. -/
def optdeltaFrom (optdelta : UInt8) (given : List UInt16) : UInt8 :=
  (given.getLast?.map UInt16.toUInt8).getD optdelta

theorem optdeltaFrom_cons (optdelta : UInt8) (n : UInt16) (given : List UInt16) :
    optdeltaFrom optdelta (n :: given) = optdeltaFrom n.toUInt8 given := by
  unfold optdeltaFrom
  cases given with
  | nil => rfl
  | cons m given =>
    rw [List.getLast?_cons_cons]
    cases hlast : (m :: given).getLast? with
    | none => exact absurd (List.getLast?_eq_none_iff.mp hlast) (cons_ne_nil _ _)
    | some _ => rfl

theorem deltasFrom_append_singleton (given : List UInt16) (n : UInt16) :
    ∀ optdelta, deltasFrom optdelta (given ++ [n])
      = deltasFrom optdelta given ++ [n - (optdeltaFrom optdelta given).toUInt16] := by
  induction given with
  | nil => intro optdelta; rfl
  | cons m given ih =>
    intro optdelta
    rw [optdeltaFrom_cons]
    show _ :: deltasFrom m.toUInt8 (given ++ [n]) = _ :: (deltasFrom m.toUInt8 given ++ _)
    rw [ih]

/-- The invariant of building. -/
structure Building.Ok (b : Building) : Prop where
  sendable : b.message.toCoapMessage.Sendable
  deltas : b.message.options.map CoapMsgOption.num = deltasFrom 0 b.given
  optdelta : b.message.optdelta = optdeltaFrom 0 b.given

variable {b : Building}

theorem Building.Ok.addOption (h : b.Ok) (hroom : b.message.options.length < coapMsgMaxOptionNum)
    (optnum len : UInt16) (val : Memory) :
    (⟨b.message.addOption optnum len val, b.given ++ [optnum]⟩ : Building).Ok where
  sendable := ⟨h.sendable.token_le, by
    show (b.message.options ++ [_]).length ≤ _
    rw [length_append, length_singleton]
    exact hroom, h.sendable.payloadlen_eq⟩
  deltas := by
    show (b.message.options ++ [_]).map CoapMsgOption.num = _
    rw [map_append, h.deltas, deltasFrom_append_singleton, ← h.optdelta]
    rfl
  optdelta := by
    show optnum.toUInt8 = _
    simp [optdeltaFrom]

/-- What a call can do: nothing, a change of the other fields, or one more option. -/
theorem buildCall_cases (message : CoapBuilder) (op : BuildOp) :
    ((buildCall null message op).1 ≠ coapSuccess ∧ (buildCall null message op).2 = message) ∨
    ((buildCall null message op).1 = coapSuccess ∧ op.optnum = none ∧
      (buildCall null message op).2.options = message.options ∧
      (buildCall null message op).2.optdelta = message.optdelta ∧
      (message.toCoapMessage.Sendable →
        (buildCall null message op).2.toCoapMessage.Sendable)) ∨
    ∃ optnum len val, op.optnum = some optnum ∧
      message.options.length < coapMsgMaxOptionNum ∧
      buildCall null message op = (coapSuccess, message.addOption optnum len val) := by
  cases op with
  | msgid msgid => exact .inr (.inl ⟨rfl, rfl, rfl, rfl, fun h => ⟨h.1, h.2, h.3⟩⟩)
  | code code => exact .inr (.inl ⟨rfl, rfl, rfl, rfl, fun h => ⟨h.1, h.2, h.3⟩⟩)
  | type type =>
    simp only [buildCall, coapMessageTypeSet]
    split
    · exact .inl ⟨by norm_num, rfl⟩
    · exact .inr (.inl ⟨rfl, rfl, rfl, rfl, fun h => ⟨h.1, h.2, h.3⟩⟩)
  | token token tokenlen =>
    cases token with
    | none => exact .inl ⟨by norm_num [buildCall, coapMessageTokenSet], rfl⟩
    | some token =>
      simp only [buildCall, coapMessageTokenSet]
      split
      · exact .inl ⟨by norm_num, rfl⟩
      · rename_i hshort
        refine .inr (.inl ⟨rfl, rfl, rfl, rfl, fun h => ⟨?_, h.2, h.3⟩⟩)
        have hmod : tokenlen.toNat % 16 ≤ tokenlen.toNat := Nat.mod_le _ _
        exact le_trans hmod (Nat.le_of_not_lt hshort)
  | strOption malloc optnum data datalen =>
    simp only [buildCall, coapStrOptionAdd]
    split
    · exact .inl ⟨by norm_num, rfl⟩
    · rename_i hroom
      split
      · exact .inl ⟨by norm_num, rfl⟩
      · exact .inr (.inr ⟨optnum, _, _, rfl, Nat.lt_of_not_le hroom, rfl⟩)
  | uintOption malloc optnum data =>
    simp only [buildCall, coapUintOptionAdd]
    split
    · exact .inl ⟨by norm_num, rfl⟩
    · rename_i hroom
      exact .inr (.inr ⟨optnum, _, _, rfl, Nat.lt_of_not_le hroom, rfl⟩)
  | payload payload payloadlen =>
    simp only [buildCall, coapMessagePayloadSet]
    split
    · exact .inl ⟨by norm_num, rfl⟩
    · rename_i hok
      refine .inr (.inl ⟨rfl, rfl, rfl, rfl, fun h => ⟨h.1, h.2, fun hnone => ?_⟩⟩)
      -- a `NULL` payload is taken only with the length 0
      by_contra hne
      have hpos : 0 < payloadlen.toNat := Nat.pos_of_ne_zero fun hzero =>
        hne (UInt16.toNat_inj.mp hzero)
      exact hok ⟨lt_iff_toNat_lt.mpr hpos, hnone⟩

theorem buildCall_failed (message : CoapBuilder) (op : BuildOp)
    (hrc : (buildCall null message op).1 ≠ coapSuccess) :
    (buildCall null message op).2 = message := by
  rcases buildCall_cases null message op with ⟨-, hsame⟩ | ⟨hok, -⟩ | ⟨optnum, len, val, -, -, hcall⟩
  · exact hsame
  · exact absurd hok hrc
  · rw [hcall] at hrc
    exact absurd rfl hrc

theorem buildStep_of_call {op : BuildOp} {message : CoapBuilder}
    (h : buildCall null b.message op = (coapSuccess, message)) :
    buildStep null b op = ⟨message, b.given ++ op.optnum.toList⟩ := by
  simp only [buildStep, h, if_true]

theorem buildStep_of_failed {op : BuildOp} (h : (buildCall null b.message op).1 ≠ coapSuccess) :
    buildStep null b op = b := by
  simp only [buildStep, buildCall_failed null b.message op h, if_neg h]

theorem Building.Ok.buildStep (h : b.Ok) (op : BuildOp) : (buildStep null b op).Ok := by
  rcases buildCall_cases null b.message op with ⟨hrc, hsame⟩ |
    ⟨-, hnone, hoptions, hoptdelta, hkeep⟩ | ⟨optnum, len, val, hsome, hroom, hcall⟩
  · simp only [Coap.buildStep, if_neg hrc, hsame]
    exact h
  · have hgiven : (Coap.buildStep null b op).given = b.given := by
      simp [Coap.buildStep, hnone]
    refine ⟨hkeep h.sendable, ?_, ?_⟩
    · rw [hgiven, ← h.deltas]
      exact congrArg _ hoptions
    · rw [hgiven, ← h.optdelta]
      exact hoptdelta
  · simp only [Coap.buildStep, hcall, hsome, if_true]
    exact h.addOption hroom optnum len val

theorem build_ok (ops : List BuildOp) : (build null ops).Ok := by
  have hinit : (⟨CoapBuilder.init, []⟩ : Building).Ok :=
    ⟨⟨by decide, by decide, fun _ => rfl⟩, rfl, rfl⟩
  exact GuardedRun.inv_foldl Building.Ok (fun b op h => Building.Ok.buildStep null h op) hinit ops

/-! ## Sending what was built -/

section Sent

variable {msg : CoapMessage Memory}

/-- The sums of the first stored differences. -/
def CoapMessage.numberSums (msg : CoapMessage Memory) : List ℕ :=
  (List.range msg.options.length).map fun k =>
    ((msg.options.take (k + 1)).map fun o => o.num.toNat).sum

theorem CoapMessage.numberSums_eq (msg : CoapMessage Memory) :
    numbersFrom 0 (msg.options.map FormatOption.ofOption) = msg.numberSums := by
  rw [numbersFrom_eq]
  simp only [length_map, Nat.zero_add, ← map_take, map_map]
  rfl

/-- The message ends with an option that is empty. -/
def CoapMessage.EndsEmpty (msg : CoapMessage Memory) : Prop :=
  msg.payloadlen = 0 ∧ ∃ o, msg.options.getLast? = some o ∧ o.len = 0

theorem CoapMessage.Sendable.endsEmpty_iff (h : msg.Sendable) :
    LastEmpty (Datagram.ofMessage msg h.token_le).options ∧
        (Datagram.ofMessage msg h.token_le).payload = [] ↔ msg.EndsEmpty := by
  have hpayload : (Datagram.ofMessage msg h.token_le).payload = [] ↔ msg.payloadlen = 0 := by
    rw [← length_eq_zero_iff, Datagram.length_payload_ofMessage h.token_le h.payloadlen_eq]
    exact ⟨fun hz => UInt16.toNat_inj.mp hz, fun hz => by rw [hz]; rfl⟩
  have hlast : LastEmpty (Datagram.ofMessage msg h.token_le).options
      ↔ ∃ o, msg.options.getLast? = some o ∧ o.len = 0 := by
    simp only [LastEmpty, Datagram.ofMessage, List.getLast?_map, Option.map_eq_some_iff]
    constructor
    · rintro ⟨_, ⟨o, ho, rfl⟩, hempty⟩
      have hlen := congrArg List.length hempty
      simp only [FormatOption.ofOption, length_memSlice, length_nil] at hlen
      exact ⟨o, ho, UInt16.toNat_inj.mp hlen⟩
    · rintro ⟨o, ho, hlen⟩
      refine ⟨_, ⟨o, ho, rfl⟩, length_eq_zero_iff.mp ?_⟩
      rw [FormatOption.ofOption, length_memSlice, hlen]
      rfl
  rw [hpayload, hlast, CoapMessage.EndsEmpty, and_comm]

/-- What a reader of `buf` finds of the message: its options, with their absolute numbers. -/
structure OptionsRead (msg : CoapMessage Memory) (buf : Memory) (r : ℤ × CoapMessage ℕ) :
    Prop where
  rc : r.1 = coapSuccess
  numbers : r.2.options.map (fun o => o.num.toNat) = msg.numberSums.map (· % 2 ^ 16)
  values : r.2.options.map (fun o => memSlice buf o.val o.len.toNat)
    = msg.options.map fun o => memSlice o.val 0 o.len.toNat

theorem OptionsRead.map_bytes {buf : Memory} {r : ℤ × CoapMessage ℕ} (h : OptionsRead msg buf r) :
    (r.2.atMemory buf).options.map CoapMsgOption.bytes = msg.options.map CoapMsgOption.bytes := by
  refine Eq.trans ?_ h.values
  simp only [CoapMessage.atMemory, map_map]
  refine map_congr_left fun o _ => ?_
  simp [CoapMsgOption.bytes, memSlice]

/-- **Transmission.**  What was written of a message that fits is refused if it ends with an
empty option; otherwise all its options are read. -/
theorem CoapMessage.Sendable.sent (h : msg.Sendable) (out : Memory) {buflen : UInt16}
    (hfits : messageLength msg ≤ buflen.toNat) (msg' : CoapMessage ℕ) {buf : Memory}
    (hbuf : ∀ i : ℕ, i < (coapSerializeMessage msg out buflen).1 →
      buf i = (coapSerializeMessage msg out buflen).2 i) :
    let r := coapDeserializeMessage msg' buf (coapSerializeMessage msg out buflen).1
    (msg.EndsEmpty → r.1 = coapErrorInvalidLength) ∧ (¬ msg.EndsEmpty → OptionsRead msg buf r) := by
  have hlen := Datagram.length_encode_ofMessage h.token_le h.payloadlen_eq
  obtain ⟨hrc, hheld⟩ := coapSerializeMessage_writes msg h.token_le out (hlen.symm ▸ hfits)
  rw [hrc] at hbuf ⊢
  set d := Datagram.ofMessage msg h.token_le with hd
  have hbuf' : HoldsBytes buf d.encode := by
    intro i hi
    rw [hbuf i (by omega)]
    exact hheld i hi
  have hlt := buflen.toNat_lt
  obtain ⟨hrefuse, hread⟩ := coapDeserializeMessage_eq msg' d hbuf' (by omega)
    (by simpa [hd, Datagram.ofMessage] using h.options_le)
  rw [h.endsEmpty_iff] at hrefuse hread
  refine ⟨hrefuse, fun hends => ?_⟩
  rw [hread hends]
  have hframe := (coapDeserializePayload_frame (messageBeforePayload msg' buf d) buf
    (4 + d.token.length + (encodeOptions d.options).length) (encodePayload d.payload).length).2.2
  -- the options stand behind the header and the token
  have hheldAt := hbuf'.holdsAt
  rw [Datagram.encode, holdsAt_append, holdsAt_append, holdsAt_append] at hheldAt
  have hoptions : HoldsAt buf (4 + d.token.length) (encodeOptions d.options) := by
    have hat := hheldAt.1.2
    rwa [length_append, Nat.zero_add, show d.encodeHeader.length = 4 from rfl] at hat
  have hsum := d.length_encode
  refine ⟨rfl, ?_, ?_⟩
  · show (coapDeserializePayload _ buf _ _).options.map _ = _
    rw [hframe, ← CoapMessage.numberSums_eq]
    exact storedOptions_numbers d.options _ 0 0 rfl
  · show (coapDeserializePayload _ buf _ _).options.map _ = _
    rw [hframe]
    have hvalues := storedOptions_values d.options (4 + d.token.length) 0 hoptions (by omega)
    refine hvalues.trans ?_
    simp only [hd, Datagram.ofMessage, map_map]
    rfl

end Sent

/-! ## The option numbers -/

/-- One difference, for a number that is at least what `optdelta` holds. -/
theorem toNat_add_delta {n : UInt16} {optdelta : UInt8} (h : optdelta.toUInt16 ≤ n) (base : ℕ) :
    base + (n - optdelta.toUInt16).toNat = base + n.toNat - optdelta.toNat := by
  have hle : optdelta.toNat ≤ n.toNat := by
    have := UInt16.le_iff_toNat_le.mp h
    rwa [UInt8.toNat_toUInt16] at this
  rw [UInt16.toNat_sub_of_le _ _ h, UInt8.toNat_toUInt16]
  omega

theorem toUInt16_toUInt8_le (n : UInt16) : n.toUInt8.toUInt16 ≤ n := by
  rw [le_iff_toNat_le, UInt8.toNat_toUInt16, toNat_toUInt8]
  exact Nat.mod_le _ _

/-- The sums of the differences are the numbers exactly as long as `optdelta` held each number
before the next one. -/
theorem numbersFrom_deltasFrom (given : List UInt16) :
    ∀ (options : List (CoapMsgOption Memory)) (optdelta : UInt8),
      options.map CoapMsgOption.num = deltasFrom optdelta given →
      (∀ n ∈ given, optdelta.toUInt16 ≤ n) → given.Pairwise (· ≤ ·) →
      (numbersFrom optdelta.toNat (options.map FormatOption.ofOption) = given.map UInt16.toNat ↔
        ∀ n ∈ given.dropLast, n < 256) := by
  induction given with
  | nil =>
    intro options optdelta hnum _ _
    rw [map_eq_nil_iff.mp hnum]
    exact iff_of_true rfl fun n hn => absurd hn not_mem_nil
  | cons n given ih =>
    intro options optdelta hnum hle hmono
    obtain ⟨o, options, rfl, ho, hrest⟩ := map_eq_cons_iff.mp hnum
    have hdelta : optdelta.toNat + (FormatOption.ofOption o).delta = n.toNat := by
      show optdelta.toNat + o.num.toNat = _
      rw [ho, toNat_add_delta (hle n mem_cons_self)]
      omega
    rw [pairwise_cons] at hmono
    rw [map_cons, map_cons, numbersFrom, hdelta, cons_inj_right]
    cases given with
    | nil =>
      rw [map_eq_nil_iff.mp hrest]
      exact iff_of_true rfl fun n hn => absurd hn not_mem_nil
    | cons m given =>
      rw [dropLast_cons_cons, forall_mem_cons]
      by_cases hsmall : n < 256
      · have hkept : n.toUInt8.toNat = n.toNat := by
          rw [toNat_toUInt8]
          exact Nat.mod_eq_of_lt (lt_iff_toNat_lt.mp hsmall)
        rw [← hkept, ih options n.toUInt8 hrest
          (fun k hk => UInt16.le_trans (toUInt16_toUInt8_le n) (hmono.1 k hk)) hmono.2]
        exact (and_iff_right hsmall).symm
      -- the next difference is taken from a smaller number
      refine iff_of_false (fun hsame => ?_) fun h => hsmall h.1
      obtain ⟨o', options, rfl, ho', -⟩ := map_eq_cons_iff.mp hrest
      rw [map_cons, numbersFrom, map_cons] at hsame
      have hfirst : n.toNat + o'.num.toNat = m.toNat := (cons_eq_cons.mp hsame).1
      have hle' : n.toUInt8.toUInt16 ≤ m :=
        UInt16.le_trans (toUInt16_toUInt8_le n) (hmono.1 m mem_cons_self)
      rw [ho', toNat_add_delta hle', toNat_toUInt8] at hfirst
      have hbig : 256 ≤ n.toNat := Nat.le_of_not_lt fun h => hsmall (lt_iff_toNat_lt.mpr h)
      have hmod : n.toNat % 256 < 256 := Nat.mod_lt _ (by decide)
      omega

/-- What the numbers of a message that was built are to be. -/
structure NumbersKept (b : Building) : Prop where
  sums : b.message.numberSums = b.given.map UInt16.toNat
  sent : ∀ (out : Memory) (buflen : UInt16) (msg' : CoapMessage ℕ) (buf : Memory),
    messageLength b.message.toCoapMessage ≤ buflen.toNat →
    (∀ i : ℕ, i < (coapSerializeMessage b.message.toCoapMessage out buflen).1 →
      buf i = (coapSerializeMessage b.message.toCoapMessage out buflen).2 i) →
    let r := coapDeserializeMessage msg' buf
      (coapSerializeMessage b.message.toCoapMessage out buflen).1
    r.1 = coapSuccess ∧ r.2.options.map (fun o => o.num) = b.given
  failed : ∀ op, (buildCall null b.message op).1 ≠ coapSuccess →
    (buildCall null b.message op).2 = b.message

/-- **Absolute option numbers.**  Built with numbers in order, a message keeps them exactly if
all but the last are below 256 and it does not end with an empty option when it is sent. -/
theorem coap_builder_numbers_iff (ops : List BuildOp)
    (hmono : (build null ops).given.Pairwise (· ≤ ·)) :
    NumbersKept null (build null ops) ↔
      (∀ n ∈ (build null ops).given.dropLast, n < 256) ∧
        (messageLength (build null ops).message.toCoapMessage < 2 ^ 16 →
          ¬ (build null ops).message.toCoapMessage.EndsEmpty) := by
  have hok := build_ok null ops
  have hsums : (build null ops).message.numberSums = (build null ops).given.map UInt16.toNat ↔
      ∀ n ∈ (build null ops).given.dropLast, n < 256 := by
    rw [← CoapMessage.numberSums_eq]
    exact numbersFrom_deltasFrom _ _ 0 hok.deltas (fun n _ => Nat.zero_le n.toNat) hmono
  generalize build null ops = b at *
  constructor
  · intro h
    refine ⟨hsums.mp h.sums, fun hlen hends => ?_⟩
    -- a buffer of just the length of the message
    have hlen' : (UInt16.ofNat (messageLength b.message.toCoapMessage)).toNat
        = messageLength b.message.toCoapMessage := by
      rw [toNat_ofNat']
      exact Nat.mod_eq_of_lt hlen
    have hrc := (h.sent (fun _ => 0) _ zeroMessage _ hlen'.ge fun _ _ => rfl).1
    rw [(hok.sendable.sent (fun _ => 0) hlen'.ge zeroMessage fun _ _ => rfl).1 hends] at hrc
    exact absurd hrc (by decide)
  · rintro ⟨hsmall, hlast⟩
    refine ⟨hsums.mpr hsmall, ?_, fun op => buildCall_failed null b.message op⟩
    intro out buflen msg' buf hfits hbuf r
    have hread := (hok.sendable.sent out hfits msg' hbuf).2
      (hlast (Nat.lt_of_le_of_lt hfits buflen.toNat_lt))
    refine ⟨hread.rc, map_injective_iff.mpr (fun _ _ h => UInt16.toNat_inj.mp h) ?_⟩
    have hnumbers := hread.numbers
    rw [hsums.mpr hsmall] at hnumbers
    rw [map_map]
    refine hnumbers.trans ((map_mod_eq_self_iff _).mpr fun n hn => ?_)
    obtain ⟨m, -, rfl⟩ := mem_map.mp hn
    exact m.toNat_lt

/-! ### Numbers above 255 -/

/-- Two options behind `COAP_OPTION_SEQ`. -/
def seqOps : List BuildOp :=
  [.strOption true 2089 (fun _ => 0x61) 1, .strOption true 2090 (fun _ => 0x62) 1]

/-- A path and a `COAP_OPTION_SEQ`. -/
def pathOps : List BuildOp :=
  [.strOption true 11 (fun _ => 0x61) 1, .strOption true 2089 (fun _ => 0x62) 1]

theorem coap_builder_numbers_path : NumbersKept (fun _ => 0) (build (fun _ => 0) pathOps) := by
  apply (coap_builder_numbers_iff (fun _ => 0) pathOps (by decide)).mpr
  have hgiven : (build (fun _ => 0) pathOps).given.dropLast = [11] := rfl
  refine ⟨by simp [hgiven], fun _ h => ?_⟩
  obtain ⟨o, ho, hlen⟩ := h.2
  cases ho
  exact absurd hlen (by decide)

/-- The option behind `COAP_OPTION_SEQ` is read with the number 4138. -/
theorem coap_builder_numbers_lost :
    (build (fun _ => 0) seqOps).given = [2089, 2090] ∧
      (build (fun _ => 0) seqOps).message.options.map CoapMsgOption.num = [2089, 2049] ∧
      (build (fun _ => 0) seqOps).message.numberSums = [2089, 4138] ∧
      ¬ NumbersKept (fun _ => 0) (build (fun _ => 0) seqOps) := by
  have hsums : (build (fun _ => 0) seqOps).message.numberSums = [2089, 4138] := by decide +kernel
  refine ⟨rfl, by decide +kernel, hsums, fun h => ?_⟩
  have hgiven := h.sums
  rw [hsums] at hgiven
  exact absurd hgiven (by decide)

end Iotkit.Coap
