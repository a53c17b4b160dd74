/-
# The length of CoAP messages

`CoAPSerialize_MessageLength` counts what `CoAPSerialize_Message` writes, in sixteen bits.  The
header, the token and the payload are written only if there is room left for them; the options
are written without a look at the size of the buffer.

`messageStores` collects the stores of a call, so that what a call writes can be compared with
the size of its buffer for all memories at once.
-/
import Iotkit.CoapBuilder
import Iotkit.FlatMemory

namespace Iotkit.Coap

open FlatMemory UInt16

/-! ## The stores of a call -/

theorem memStore_eq_store (buf : Memory) (p : ℕ) (bs : Bytes) :
    memStore buf p bs = store buf p bs := by
  funext i
  unfold memStore store
  by_cases hp : p ≤ i
  · by_cases hlt : i - p < bs.length
    · rw [dif_pos ⟨hp, hlt⟩, if_pos hp, List.getElem?_eq_getElem hlt]
      rfl
    · rw [dif_neg fun h => hlt h.2, if_pos hp, List.getElem?_eq_none (by omega)]
      rfl
  · rw [dif_neg fun h => hp h.1, if_neg hp]

variable (msg : CoapMessage Memory)

/-- The count and the stores of `CoAPSerialize_Header`. -/
def headerStores (buflen : UInt16) : UInt16 × List (ℕ × Bytes) :=
  if 4 > buflen.toNat then (0, []) else (4, [(0, headerBytes msg.header)])

/-- The count and the stores of `CoAPSerialize_Token`. -/
def tokenStores (p : ℕ) (buflen : UInt16) : UInt16 × List (ℕ × Bytes) :=
  if buflen.toNat < msg.header.tokenlen.val then (0, [])
  else (UInt16.ofNat msg.header.tokenlen.val,
    [(p, memSlice msg.token 0 msg.header.tokenlen.val)])

/-- The count and the stores of `CoAPSerialize_Options`. -/
def optionStores (p : ℕ) :
    List (CoapMsgOption Memory) → UInt16 → UInt16 × List (ℕ × Bytes)
  | [], count => (count, [])
  | option :: options, count =>
    let bytes := coapSerializeOption option
    let len := UInt16.ofNat bytes.length
    let rest := if 0 < len then optionStores p options (count + len) else (0, [])
    (rest.1, (p + count.toNat, bytes) :: rest.2)

/-- The count and the stores of `CoAPSerialize_Payload`. -/
def payloadStores (p : ℕ) (buflen : UInt16) : UInt16 × List (ℕ × Bytes) :=
  if msg.payloadlen.toNat + 1 > buflen.toNat then (0, [])
  else
    match msg.payload with
    | some payload =>
      if 0 < msg.payloadlen then
        (msg.payloadlen + 1, [(p, 0xFF :: memSlice payload 0 msg.payloadlen.toNat)])
      else (0, [])
    | none => (0, [])

/-- The stores of `CoAPSerialize_Message`. -/
def messageStores (buflen : UInt16) : List (ℕ × Bytes) :=
  let header := headerStores msg buflen
  let p := header.1.toNat
  let remlen := buflen - header.1
  let token := tokenStores msg p remlen
  let p := p + token.1.toNat
  let remlen := remlen - token.1
  let options := optionStores p msg.options 0
  let p := p + options.1.toNat
  let remlen := remlen - options.1
  let payload := payloadStores msg p remlen
  header.2 ++ token.2 ++ options.2 ++ payload.2

section Stores

variable (buf : Memory) (p : ℕ) (buflen : UInt16)

theorem coapSerializeHeader_eq_stores :
    coapSerializeHeader msg buf 0 buflen
      = ((headerStores msg buflen).1, storeAll buf (headerStores msg buflen).2) := by
  unfold coapSerializeHeader headerStores
  split_ifs
  · rfl
  · rw [memStore_eq_store]
    rfl

theorem coapSerializeToken_eq_stores :
    coapSerializeToken msg buf p buflen
      = ((tokenStores msg p buflen).1, storeAll buf (tokenStores msg p buflen).2) := by
  simp only [coapSerializeToken, tokenStores]
  split_ifs
  · rfl
  · rw [memStore_eq_store]
    rfl

theorem coapSerializeOptions_eq_stores (options : List (CoapMsgOption Memory)) :
    ∀ (count : UInt16) (buf : Memory), coapSerializeOptions p options count buf
      = ((optionStores p options count).1, storeAll buf (optionStores p options count).2) := by
  induction options with
  | nil => intro count buf; rfl
  | cons option options ih =>
    intro count buf
    simp only [coapSerializeOptions, optionStores, storeAll_cons, memStore_eq_store]
    split_ifs
    · exact ih _ _
    · rfl

theorem coapSerializePayload_eq_stores :
    coapSerializePayload msg buf p buflen
      = ((payloadStores msg p buflen).1, storeAll buf (payloadStores msg p buflen).2) := by
  unfold coapSerializePayload payloadStores
  cases msg.payload with
  | none => split_ifs <;> rfl
  | some payload =>
    simp only
    split_ifs
    · rfl
    · rw [memStore_eq_store]
      rfl
    · rfl

theorem coapSerializeMessage_eq_stores :
    (coapSerializeMessage msg buf buflen).2 = storeAll buf (messageStores msg buflen) := by
  simp only [coapSerializeMessage, coapSerializeHeader_eq_stores, coapSerializeToken_eq_stores,
    coapSerializeOptions_eq_stores, coapSerializePayload_eq_stores, messageStores, storeAll_append]

end Stores

/-! ## Where the stores end -/

/-- The offset at which the options of a message are written. -/
def optionsStart (buflen : ℕ) : ℕ :=
  let header := if 4 ≤ buflen then 4 else 0
  header + if header + msg.header.tokenlen.val ≤ buflen then msg.header.tokenlen.val else 0

variable (options : List (CoapMsgOption Memory))

/-- The number of bytes the options take. -/
def optionsLength : ℕ :=
  (options.map fun o => (coapSerializeOption o).length).sum

variable (o : CoapMsgOption Memory)

theorem optionsLength_cons :
    optionsLength (o :: options) = (coapSerializeOption o).length + optionsLength options := by
  simp [optionsLength]

theorem coapSerializeOption_ne_nil : coapSerializeOption o ≠ [] := by
  simp [coapSerializeOption]

theorem optionsStart_le (buflen : ℕ) : optionsStart msg buflen ≤ buflen := by
  simp only [optionsStart]
  split_ifs <;> omega

variable {msg}

/-- The stores of the options end where all of them fit behind each other. -/
theorem optionStores_within_iff {p n : ℕ} (hn : n < 2 ^ 16)
    (options : List (CoapMsgOption Memory)) :
    ∀ count : UInt16, p + count.toNat ≤ n →
      ((∀ s ∈ (optionStores p options count).2, s.2 ≠ [] → s.1 + s.2.length ≤ n) ↔
        p + count.toNat + optionsLength options ≤ n) ∧
      (p + count.toNat + optionsLength options ≤ n →
        (optionStores p options count).1.toNat = count.toNat + optionsLength options) := by
  induction options with
  | nil =>
    intro count hcount
    exact ⟨iff_of_true nofun hcount, fun _ => rfl⟩
  | cons o options ih =>
    intro count hcount
    have hpos : 0 < (coapSerializeOption o).length :=
      List.length_pos_iff.mpr (coapSerializeOption_ne_nil o)
    simp only [optionStores, optionsLength_cons, List.forall_mem_cons]
    by_cases hfits : p + count.toNat + (coapSerializeOption o).length ≤ n
    · have hlen : (UInt16.ofNat (coapSerializeOption o).length).toNat
          = (coapSerializeOption o).length := by
        rw [toNat_ofNat']
        exact Nat.mod_eq_of_lt (by omega)
      have hsum : (count + UInt16.ofNat (coapSerializeOption o).length).toNat
          = count.toNat + (coapSerializeOption o).length := by
        rw [UInt16.toNat_add, hlen]
        exact Nat.mod_eq_of_lt (by omega)
      obtain ⟨hiff, hcount'⟩ := ih (count + UInt16.ofNat (coapSerializeOption o).length) (by omega)
      rw [if_pos (lt_iff_toNat_lt.mpr (hlen.symm ▸ hpos)), hiff, hsum]
      refine ⟨?_, fun h => ?_⟩
      · rw [and_iff_right fun _ => hfits]
        omega
      · rw [hcount' (by omega), hsum]
        omega
    · refine ⟨iff_of_false (fun h => hfits ?_) (by omega), fun h => by omega⟩
      exact h.1 (coapSerializeOption_ne_nil o)

theorem toNat_sub_eq {a b : UInt16} (h : b.toNat ≤ a.toNat) : (a - b).toNat = a.toNat - b.toNat :=
  UInt16.toNat_sub_of_le a b (UInt16.le_iff_toNat_le.mpr h)

theorem headerStores_within (msg : CoapMessage Memory) (buflen : UInt16) :
    (headerStores msg buflen).1.toNat = (if 4 ≤ buflen.toNat then 4 else 0) ∧
      ∀ s ∈ (headerStores msg buflen).2, s.1 + s.2.length ≤ buflen.toNat := by
  unfold headerStores
  by_cases hroom : 4 ≤ buflen.toNat
  · rw [if_neg (Nat.not_lt.mpr hroom), if_pos hroom]
    refine ⟨rfl, fun s hs => ?_⟩
    rw [List.mem_singleton.mp hs]
    simpa [headerBytes] using hroom
  · rw [if_pos (Nat.lt_of_not_le hroom), if_neg hroom]
    exact ⟨rfl, List.forall_mem_nil _⟩

theorem tokenStores_within (msg : CoapMessage Memory) (p : ℕ) (buflen : UInt16) :
    (tokenStores msg p buflen).1.toNat
        = (if msg.header.tokenlen.val ≤ buflen.toNat then msg.header.tokenlen.val else 0) ∧
      ∀ s ∈ (tokenStores msg p buflen).2, s.1 + s.2.length ≤ p + buflen.toNat := by
  unfold tokenStores
  by_cases hroom : msg.header.tokenlen.val ≤ buflen.toNat
  · rw [if_neg (Nat.not_lt.mpr hroom), if_pos hroom]
    refine ⟨?_, fun s hs => ?_⟩
    · rw [toNat_ofNat']
      exact Nat.mod_eq_of_lt (by omega)
    · rw [List.mem_singleton.mp hs, length_memSlice]
      omega
  · rw [if_pos (Nat.lt_of_not_le hroom), if_neg hroom]
    exact ⟨rfl, nofun⟩

theorem payloadStores_within (p : ℕ) (buflen : UInt16) :
    ∀ s ∈ (payloadStores msg p buflen).2, s.1 + s.2.length ≤ p + buflen.toNat := by
  unfold payloadStores
  cases msg.payload with
  | none => split_ifs <;> exact nofun
  | some payload =>
    simp only
    split_ifs with hlong
    · exact nofun
    · intro s hs
      rw [List.mem_singleton.mp hs, List.length_cons, length_memSlice]
      omega
    · exact nofun

/-- **Bounds of a message.**  All stores end within the buffer exactly if the options do. -/
theorem messageStores_within_iff (msg : CoapMessage Memory) (buflen : UInt16) :
    (∀ s ∈ messageStores msg buflen, s.2 ≠ [] → s.1 + s.2.length ≤ buflen.toNat) ↔
      optionsStart msg buflen.toNat + optionsLength msg.options ≤ buflen.toNat := by
  obtain ⟨hheader, hheaderIn⟩ := headerStores_within msg buflen
  have hle : (headerStores msg buflen).1.toNat ≤ buflen.toNat := by
    rw [hheader]
    split_ifs <;> omega
  have hrem := toNat_sub_eq hle
  obtain ⟨htoken, htokenIn⟩ := tokenStores_within msg (headerStores msg buflen).1.toNat
    (buflen - (headerStores msg buflen).1)
  simp only [messageStores, List.mem_append, or_imp, forall_and]
  generalize headerStores msg buflen = header at *
  generalize tokenStores msg header.1.toNat (buflen - header.1) = token at *
  have hle' : token.1.toNat ≤ (buflen - header.1).toNat := by
    rw [htoken]
    split_ifs <;> omega
  have hrem' := toNat_sub_eq hle'
  have hstart : header.1.toNat + token.1.toNat = optionsStart msg buflen.toNat := by
    rw [htoken, hrem, hheader]
    simp only [optionsStart]
    split_ifs <;> omega
  obtain ⟨hiff, hcount⟩ := optionStores_within_iff (p := header.1.toNat + token.1.toNat)
    buflen.toNat_lt msg.options 0 (by rw [hstart]; exact optionsStart_le msg buflen.toNat)
  have hzero : (0 : UInt16).toNat = 0 := rfl
  rw [hzero, Nat.add_zero, hstart] at hiff hcount
  rw [hstart, hiff]
  constructor
  · exact fun h => h.1.2
  · intro hfits
    refine ⟨⟨⟨fun s hs _ => hheaderIn s hs, fun s hs _ => ?_⟩, hfits⟩, fun s hs _ => ?_⟩
    · have := htokenIn s hs
      omega
    · -- nothing wrapped in what is left for the payload
      have hend := hcount hfits
      have hrem'' := toNat_sub_eq (a := buflen - header.1 - token.1)
        (b := (optionStores (optionsStart msg buflen.toNat) msg.options 0).1) (by omega)
      have hwithin := payloadStores_within _ _ s hs
      omega

/-! ## The length that is counted -/

/-- The bytes for a delta or a length are counted as they are written. -/
theorem length_optionExt (n : UInt16) :
    (optionExt n.toNat).length
      = (if 269 ≤ n then 2 else if 13 ≤ n then 1 else 0 : UInt16).toNat := by
  have h269 : (269 : UInt16) ≤ n ↔ 269 ≤ n.toNat := le_iff_toNat_le
  have h13 : (13 : UInt16) ≤ n ↔ 13 ≤ n.toNat := le_iff_toNat_le
  unfold optionExt
  simp only [h269, h13]
  split_ifs <;> rfl

theorem coapSerializeOptionLen_eq :
    coapSerializeOptionLen o = UInt16.ofNat (coapSerializeOption o).length := by
  have hlen : (coapSerializeOption o).length
      = 1 + (optionExt o.num.toNat).length + (optionExt o.len.toNat).length + o.len.toNat := by
    simp [coapSerializeOption]
    omega
  rw [hlen, length_optionExt, length_optionExt]
  simp only [UInt16.ofNat_add, UInt16.ofNat_toNat]
  rfl

/-- The options are counted as long as they take fewer than 65536 bytes. -/
theorem toNat_coapSerializeOptionsLen :
    ∀ count : UInt16, count.toNat + optionsLength options < 2 ^ 16 →
      (coapSerializeOptionsLen count options).toNat = count.toNat + optionsLength options := by
  induction options with
  | nil => intro count _; rfl
  | cons o options ih =>
    intro count hfits
    have hpos : 0 < (coapSerializeOption o).length :=
      List.length_pos_iff.mpr (coapSerializeOption_ne_nil o)
    rw [optionsLength_cons] at hfits ⊢
    have hlen : (coapSerializeOptionLen o).toNat = (coapSerializeOption o).length := by
      rw [coapSerializeOptionLen_eq, toNat_ofNat']
      exact Nat.mod_eq_of_lt (by omega)
    have hsum : (count + coapSerializeOptionLen o).toNat
        = count.toNat + (coapSerializeOption o).length := by
      rw [UInt16.toNat_add, hlen]
      exact Nat.mod_eq_of_lt (by omega)
    simp only [coapSerializeOptionsLen]
    rw [if_pos (lt_iff_toNat_lt.mpr (hlen.symm ▸ hpos)), ih _ (by omega), hsum]
    omega

theorem toNat_coapSerializeMessageLength_eq_iff (msg : CoapMessage Memory) :
    (coapSerializeMessageLength msg).toNat = messageLength msg ↔ messageLength msg < 2 ^ 16 := by
  constructor
  · intro h
    rw [← h]
    exact toNat_lt _
  · intro hlt
    have hoptions : optionsLength msg.options
        = (msg.options.map fun o => (coapSerializeOption o).length).sum := rfl
    rw [messageLength, ← hoptions] at hlt ⊢
    have hcounted : coapSerializeOptionsLen 0 msg.options
        = UInt16.ofNat (optionsLength msg.options) := by
      apply UInt16.toNat_inj.mp
      rw [toNat_coapSerializeOptionsLen msg.options 0 (show 0 + _ < _ by omega), UInt16.toNat_ofNat',
        Nat.mod_eq_of_lt (by omega)]
      exact Nat.zero_add _
    have hpayload : (if 0 < msg.payloadlen then msg.payloadlen + 1 else 0)
        = UInt16.ofNat (if msg.payloadlen = 0 then 0 else msg.payloadlen.toNat + 1) := by
      by_cases hzero : msg.payloadlen = 0
      · rw [if_neg (by simp [hzero]), if_pos hzero]
        rfl
      · have hpos : 0 < msg.payloadlen.toNat := Nat.pos_of_ne_zero fun h =>
          hzero (UInt16.toNat_inj.mp h)
        have hlt : 0 < msg.payloadlen := lt_iff_toNat_lt.mpr hpos
        rw [if_pos hlt, if_neg hzero, UInt16.ofNat_add, UInt16.ofNat_toNat]
        rfl
    rw [coapSerializeMessageLength, hcounted, hpayload, show (4 : UInt16) = UInt16.ofNat 4 from rfl,
      ← ofNat_add, ← ofNat_add, ← ofNat_add, toNat_ofNat']
    exact Nat.mod_eq_of_lt hlt

/-! ## The length of a message -/

/-- The counted length is that of the message and what a large enough buffer takes; a call with
a buffer of `buflen` bytes stays inside, and so does one with a buffer of the counted length. -/
structure LengthExact (msg : CoapMessage Memory) (buflen : UInt16) : Prop where
  counted : (coapSerializeMessageLength msg).toNat = messageLength msg
  written : ∀ (buf : Memory) (buflen' : UInt16), messageLength msg ≤ buflen'.toNat →
    (coapSerializeMessage msg buf buflen').1 = (coapSerializeMessageLength msg).toNat
  bounded : ∀ (buf : Memory) (i : ℕ), buflen.toNat ≤ i →
    (coapSerializeMessage msg buf buflen).2 i = buf i
  allocated : ∀ (buf : Memory) (i : ℕ), (coapSerializeMessageLength msg).toNat ≤ i →
    (coapSerializeMessage msg buf (coapSerializeMessageLength msg)).2 i = buf i

/-- **The length of a message.**  It is exact for a message that was built exactly if the message
takes fewer than 65536 bytes and the options end within the buffer. -/
theorem coap_length_exact_iff (null : Memory) (ops : List BuildOp) (buflen : UInt16) :
    let msg := (build null ops).message.toCoapMessage
    LengthExact msg buflen ↔ messageLength msg < 2 ^ 16 ∧
      optionsStart msg buflen.toNat + optionsLength msg.options ≤ buflen.toNat := by
  intro msg
  have hsendable : msg.Sendable := (build_ok null ops).sendable
  have hbounds : ∀ buflen : UInt16, (∀ (buf : Memory) (i : ℕ), buflen.toNat ≤ i →
      (coapSerializeMessage msg buf buflen).2 i = buf i) ↔
        optionsStart msg buflen.toNat + optionsLength msg.options ≤ buflen.toNat := by
    intro buflen
    have hnontrivial : Nontrivial UInt8 := ⟨0, 1, by decide⟩
    rw [← messageStores_within_iff, ← storeAll_keeps_iff]
    simp only [coapSerializeMessage_eq_stores]
  constructor
  · intro h
    exact ⟨(toNat_coapSerializeMessageLength_eq_iff msg).mp h.counted, (hbounds buflen).mp h.bounded⟩
  · rintro ⟨hlen, hfits⟩
    have hcounted := (toNat_coapSerializeMessageLength_eq_iff msg).mpr hlen
    refine ⟨hcounted, fun buf buflen' hroom => ?_, (hbounds buflen).mpr hfits,
      (hbounds _).mpr ?_⟩
    · have hlength := Datagram.length_encode_ofMessage hsendable.token_le hsendable.payloadlen_eq
      rw [(coapSerializeMessage_writes msg hsendable.token_le buf (hlength.symm ▸ hroom)).1, hlength,
        hcounted]
    · rw [hcounted]
      simp only [optionsStart, messageLength, optionsLength]
      split_ifs <;> omega

/-- A message with one option that is empty. -/
def emptyOptionOps : List BuildOp := [.strOption true 11 (fun _ => 0) 0]

/-- Into a buffer of four bytes, the option is written behind its end. -/
theorem coap_length_overrun :
    let msg := (build (fun _ => 0) emptyOptionOps).message.toCoapMessage
    (coapSerializeMessage msg (fun _ => 0) 4).2 4 = 0xB0 ∧ ¬ LengthExact msg 4 := by
  intro msg
  have hwritten : (coapSerializeMessage msg (fun _ => 0) 4).2 4 = 0xB0 := by decide
  refine ⟨hwritten, fun h => ?_⟩
  have hkept := h.bounded (fun _ => 0) 4 (by decide)
  exact absurd (hwritten.symm.trans hkept) (by decide)

/-- An option of 65533 bytes is not counted at all: the buffer for the message is of four bytes. -/
example : coapSerializeMessageLength
    (build (fun _ => 0) [.strOption true 11 (fun _ => 0) 65533]).message.toCoapMessage = 4 := by
  decide

end Iotkit.Coap
