/-
# Options with numbers in them

`CoAPUintOption_add` and `CoAPUintOption_get` of `CoAPMessage_common.c`, with a transmission
between them.  The bytes of a number come back as they were added; they are joined to what the
output variable held before, and so the number comes back exactly when every bit that was set
there is one of its own.
-/
import Iotkit.CoapBuilder

namespace Iotkit.Coap

open List UInt16

/-! ## Joining bytes -/

/-- A byte as an `unsigned int`. -/
def uintByte (b : UInt8) : UInt32 := UInt32.ofNat b.toNat

variable (data : UInt32)

/-- What `CoAPUintOption_get` makes of the bytes of an option. -/
def uintJoined : Bytes → UInt32
  | [a] => data ||| uintByte a
  | [a, b] => data ||| uintByte a <<< 8 ||| uintByte b
  | [a, b, c] => data ||| uintByte a <<< 16 ||| uintByte b <<< 8 ||| uintByte c
  | [a, b, c, d] =>
    data ||| uintByte a <<< 24 ||| uintByte b <<< 16 ||| uintByte c <<< 8 ||| uintByte d
  | _ => 0

theorem uintJoined_bytes (o : CoapMsgOption Memory) :
    uintJoined data o.bytes = match o.len.toNat with
        | 1 => data ||| uintByte (o.val 0)
        | 2 => data ||| uintByte (o.val 0) <<< 8 ||| uintByte (o.val 1)
        | 3 => data ||| uintByte (o.val 0) <<< 16 ||| uintByte (o.val 1) <<< 8 ||| uintByte (o.val 2)
        | 4 => data ||| uintByte (o.val 0) <<< 24 ||| uintByte (o.val 1) <<< 16
            ||| uintByte (o.val 2) <<< 8 ||| uintByte (o.val 3)
        | _ => 0 := by
  unfold CoapMsgOption.bytes
  rcases o.len.toNat with _ | _ | _ | _ | _ | n
  · rfl
  · rfl
  · rfl
  · rfl
  · rfl
  · simp [memSlice, range_succ_eq_map, uintJoined]

/-- The option at the place `j` is the first one with the number `n`. -/
def FirstNumbered (numbers : List UInt16) (j : ℕ) (n : UInt16) : Prop :=
  numbers[j]? = some n ∧ n ∉ numbers.take j

/-- The first option of a number is the one that is read. -/
theorem coapUintOptionGet_eq {options : List (CoapMsgOption Memory)} {j : ℕ} {n : UInt16}
    (h : FirstNumbered (options.map CoapMsgOption.num) j n) (data : UInt32) :
    coapUintOptionGet options n data = options[j]?.map fun o => uintJoined data o.bytes := by
  obtain ⟨hat, hbefore⟩ := h
  rw [List.getElem?_map, Option.map_eq_some_iff] at hat
  obtain ⟨o, ho, hnum⟩ := hat
  have hfind : (options.find? fun o => o.num = n) = some o := by
    rw [List.find?_eq_some_iff_getElem]
    obtain ⟨hj, hget⟩ := List.getElem?_eq_some_iff.mp ho
    refine ⟨by simpa using hnum, j, hj, hget, fun i hi => ?_⟩
    have hmem : options[i].num ∈ (options.map CoapMsgOption.num).take j := by
      rw [← map_take]
      exact mem_map_of_mem (mem_take_iff_getElem.mpr ⟨i, by omega, rfl⟩)
    simpa using fun heq : options[i].num = n => hbefore (heq ▸ hmem)
  rw [coapUintOptionGet, hfind, ho, Option.map_some, Option.map_some, uintJoined_bytes]
  rfl

/-! ### The bytes of a number -/

theorem shiftLeft_or_eq_add {a b i : ℕ} (h : b < 2 ^ i) : a <<< i ||| b = a * 2 ^ i + b := by
  rw [← Nat.shiftLeft_add_eq_or_of_lt h, Nat.shiftLeft_eq]

theorem byte_add_lt {b x i : ℕ} (hb : b < 2 ^ 8) (hx : x < 2 ^ i) : b * 2 ^ i + x < 2 ^ (8 + i) := by
  calc b * 2 ^ i + x < b * 2 ^ i + 2 ^ i := Nat.add_lt_add_left hx _
    _ = (b + 1) * 2 ^ i := (Nat.succ_mul _ _).symm
    _ ≤ 2 ^ 8 * 2 ^ i := Nat.mul_le_mul_right _ hb
    _ = 2 ^ (8 + i) := (Nat.pow_add 2 8 i).symm

/-- Four bytes as a number. -/
def uintWord (a b c d : UInt8) : UInt32 :=
  uintByte a <<< 24 ||| (uintByte b <<< 16 ||| (uintByte c <<< 8 ||| uintByte d))

theorem toNat_uintByte (b : UInt8) : (uintByte b).toNat = b.toNat := by
  have hb := b.toNat_lt
  rw [uintByte, UInt32.toNat_ofNat']
  exact Nat.mod_eq_of_lt (by omega)

theorem toNat_uintWord (a b c d : UInt8) :
    (uintWord a b c d).toNat = a.toNat * 2 ^ 24 + (b.toNat * 2 ^ 16 + (c.toNat * 2 ^ 8 + d.toNat)) := by
  have hshift : ∀ (x : UInt8) (i : UInt32), i.toNat ≤ 24 →
      (uintByte x <<< i).toNat = x.toNat <<< i.toNat := by
    intro x i hi
    have hx := x.toNat_lt
    have hpow : 2 ^ i.toNat ≤ 2 ^ 24 := Nat.pow_le_pow_right (by decide) hi
    have hmod : i.toNat % 32 = i.toNat := Nat.mod_eq_of_lt (by omega)
    rw [UInt32.toNat_shiftLeft, hmod, toNat_uintByte, Nat.shiftLeft_eq]
    apply Nat.mod_eq_of_lt
    calc x.toNat * 2 ^ i.toNat < 2 ^ 8 * 2 ^ i.toNat :=
          Nat.mul_lt_mul_of_pos_right hx (Nat.two_pow_pos _)
      _ ≤ 2 ^ 8 * 2 ^ 24 := Nat.mul_le_mul_left _ hpow
  simp only [uintWord, UInt32.toNat_or]
  rw [hshift a 24 (by decide), hshift b 16 (by decide), hshift c 8 (by decide), toNat_uintByte]
  show a.toNat <<< 24 ||| (b.toNat <<< 16 ||| (c.toNat <<< 8 ||| d.toNat)) = _
  have htwo : c.toNat * 2 ^ 8 + d.toNat < 2 ^ 16 := byte_add_lt c.toNat_lt d.toNat_lt
  rw [shiftLeft_or_eq_add d.toNat_lt, shiftLeft_or_eq_add htwo]
  exact shiftLeft_or_eq_add (byte_add_lt b.toNat_lt htwo)

@[simp] theorem uintByte_zero : uintByte 0 = 0 := rfl

theorem uintJoined_eq_or (a b c d : UInt8) :
    uintJoined data [d] = data ||| uintWord 0 0 0 d ∧
      uintJoined data [c, d] = data ||| uintWord 0 0 c d ∧
      uintJoined data [b, c, d] = data ||| uintWord 0 b c d ∧
      uintJoined data [a, b, c, d] = data ||| uintWord a b c d := by
  simp [uintJoined, uintWord, UInt32.or_assoc]

/-- A byte of a number. -/
def uintDigit (shift : ℕ) : UInt8 := UInt8.ofNat (data.toNat / 2 ^ shift)

theorem toNat_uintDigit (shift : ℕ) :
    (uintDigit data shift).toNat = data.toNat / 2 ^ shift % 256 := UInt8.toNat_ofNat'

/-- The three bytes a peer may take for a number. -/
def threeBytes : Bytes := [uintDigit data 16, uintDigit data 8, uintDigit data 0]

theorem uintJoined_threeBytes (v : UInt32) (h : v.toNat < 2 ^ 24) :
    uintJoined data (threeBytes v) = data ||| v := by
  rw [threeBytes, (uintJoined_eq_or data 0 _ _ _).2.2.1]
  congr 1
  apply UInt32.toNat_inj.mp
  simp only [toNat_uintWord, toNat_uintDigit]
  show 0 * _ + _ = _
  omega

theorem uintJoined_uintOptionBytes (v : UInt32) :
    uintJoined data (uintOptionBytes v) = if v = 0 then 0 else data ||| v := by
  have hlt := v.toNat_lt
  rw [uintOptionBytes]
  split_ifs with hzero hone htwo
  · rfl
  · have hsmall : v.toNat ≤ 255 := UInt32.le_iff_toNat_le.mp hone
    refine (uintJoined_eq_or data 0 0 0 (uintDigit v 0)).1.trans (congrArg _ ?_)
    apply UInt32.toNat_inj.mp
    simp only [toNat_uintWord, toNat_uintDigit]
    show 0 * _ + (0 * _ + (0 * _ + _)) = _
    omega
  · have hsmall : v.toNat ≤ 65535 := UInt32.le_iff_toNat_le.mp htwo
    refine (uintJoined_eq_or data 0 0 (uintDigit v 8) (uintDigit v 0)).2.1.trans (congrArg _ ?_)
    apply UInt32.toNat_inj.mp
    simp only [toNat_uintWord, toNat_uintDigit]
    show 0 * _ + (0 * _ + _) = _
    omega
  · refine (uintJoined_eq_or data (uintDigit v 24) (uintDigit v 16) (uintDigit v 8)
      (uintDigit v 0)).2.2.2.trans (congrArg _ ?_)
    apply UInt32.toNat_inj.mp
    simp only [toNat_uintWord, toNat_uintDigit]
    omega

/-! ## After a transmission -/

/-- The option at the place `j` is the first one numbered `n` for a reader of the message. -/
def CoapMessage.FirstOnWire (msg : CoapMessage Memory) (j : ℕ) (n : UInt16) : Prop :=
  FirstNumbered (msg.numberSums.map UInt16.ofNat) j n

/-- However the message is written into a buffer that is large enough and read from there, its
option `n` is read as `v`, by a call with `data` in the output variable. -/
def CoapMessage.UintReadAs (msg : CoapMessage Memory) (n : UInt16) (data v : UInt32) : Prop :=
  ∀ (out : Memory) (buflen : UInt16) (msg' : CoapMessage ℕ) (buf : Memory),
    messageLength msg ≤ buflen.toNat →
    (∀ i : ℕ, i < (coapSerializeMessage msg out buflen).1 →
      buf i = (coapSerializeMessage msg out buflen).2 i) →
    let r := coapDeserializeMessage msg' buf (coapSerializeMessage msg out buflen).1
    r.1 = coapSuccess ∧ coapUintOptionGet (r.2.atMemory buf).options n data = some v

section Transmission

variable {msg : CoapMessage Memory} {n : UInt16} {j : ℕ} {o : CoapMsgOption Memory}

theorem OptionsRead.uintOptionGet {buf : Memory} {r : ℤ × CoapMessage ℕ}
    (h : OptionsRead msg buf r) (hfirst : msg.FirstOnWire j n) (ho : msg.options[j]? = some o)
    (data : UInt32) :
    coapUintOptionGet (r.2.atMemory buf).options n data = some (uintJoined data o.bytes) := by
  have hnum : (r.2.atMemory buf).options.map CoapMsgOption.num
      = msg.numberSums.map UInt16.ofNat := by
    have hnumbers := congrArg (List.map UInt16.ofNat) h.numbers
    simp only [map_map] at hnumbers
    simp only [CoapMessage.atMemory, map_map]
    have hleft : (UInt16.ofNat ∘ fun o : CoapMsgOption ℕ => o.num.toNat) = CoapMsgOption.num := by
      funext o
      exact UInt16.ofNat_toNat
    have hright : (UInt16.ofNat ∘ fun k => k % 2 ^ 16) = UInt16.ofNat := by
      funext k
      exact ofNat_mod_size
    rw [hleft, hright] at hnumbers
    exact hnumbers
  have hbytes := congrArg (fun l => l[j]?) h.map_bytes
  simp only [List.getElem?_map, ho, Option.map_some] at hbytes
  obtain ⟨o', ho', heq⟩ := Option.map_eq_some_iff.mp hbytes
  have hfirst' : FirstNumbered ((r.2.atMemory buf).options.map CoapMsgOption.num) j n := by
    rw [hnum]
    exact hfirst
  rw [coapUintOptionGet_eq hfirst', ho', Option.map_some, heq]

/-- An option of a message with a payload is read as `v` exactly if its bytes are joined to
that. -/
theorem CoapMessage.Sendable.uintReadAs_iff (h : msg.Sendable) (hpayload : msg.payloadlen ≠ 0)
    (hlen : messageLength msg < 2 ^ 16) (hfirst : msg.FirstOnWire j n)
    (ho : msg.options[j]? = some o) (data v : UInt32) :
    msg.UintReadAs n data v ↔ uintJoined data o.bytes = v := by
  have hends : ¬ msg.EndsEmpty := fun he => hpayload he.1
  constructor
  · intro hread
    have hlen' : (UInt16.ofNat (messageLength msg)).toNat = messageLength msg := by
      rw [toNat_ofNat']
      exact Nat.mod_eq_of_lt hlen
    have hget := (hread (fun _ => 0) _ zeroMessage _ hlen'.ge fun _ _ => rfl).2
    have hsent := (h.sent (fun _ => 0) hlen'.ge zeroMessage fun _ _ => rfl).2 hends
    rw [hsent.uintOptionGet hfirst ho] at hget
    exact Option.some.inj hget
  · intro hv out buflen msg' buf hfits hbuf r
    have hsent := (h.sent out hfits msg' hbuf).2 hends
    refine ⟨hsent.rc, ?_⟩
    rw [hsent.uintOptionGet hfirst ho, hv]

end Transmission

/-! ## Among other options -/

theorem buildStep_grows (null : Memory) (b : Building) (op : BuildOp) :
    b.message.options <+: (buildStep null b op).message.options ∧
      b.given <+: (buildStep null b op).given := by
  rcases buildCall_cases null b.message op with ⟨hrc, hsame⟩ | ⟨hrc, -, hoptions, -⟩ |
    ⟨optnum, len, val, hsome, -, hcall⟩
  · simp only [buildStep, hsame, if_neg hrc]
    exact ⟨prefix_rfl, prefix_rfl⟩
  · simp only [buildStep, hoptions, if_pos hrc]
    exact ⟨prefix_rfl, prefix_append _ _⟩
  · simp only [buildStep, hcall, if_true]
    exact ⟨prefix_append _ _, prefix_append _ _⟩

theorem foldl_buildStep_grows (null : Memory) (ops : List BuildOp) :
    ∀ b : Building, b.message.options <+: (ops.foldl (buildStep null) b).message.options ∧
      b.given <+: (ops.foldl (buildStep null) b).given := by
  induction ops with
  | nil => exact fun b => ⟨prefix_rfl, prefix_rfl⟩
  | cons op ops ih =>
    intro b
    have hstep := buildStep_grows null b op
    have hrest := ih (buildStep null b op)
    exact ⟨hstep.1.trans hrest.1, hstep.2.trans hrest.2⟩

/-- A number is the sum of what `optdelta` holds and the difference, in sixteen bits. -/
theorem ofNat_add_delta {optdelta : UInt8} {base : ℕ} (hbase : base % 2 ^ 16 = optdelta.toNat)
    (n : UInt16) : UInt16.ofNat (base + (n - optdelta.toUInt16).toNat) = n := by
  have hof : UInt16.ofNat base = optdelta.toUInt16 := by
    apply UInt16.toNat_inj.mp
    rw [UInt16.toNat_ofNat', UInt8.toNat_toUInt16]
    exact hbase
  rw [UInt16.ofNat_add, hof, UInt16.ofNat_toNat, add_comm, sub_add_cancel]

/-- As long as all numbers before fit `optdelta`, a reader finds the number that was given. -/
theorem numbersFrom_mod (pre : List UInt16) (n : UInt16) (post : List UInt16) :
    ∀ (options : List (CoapMsgOption Memory)) (optdelta : UInt8) (base : ℕ),
      options.map CoapMsgOption.num = deltasFrom optdelta (pre ++ n :: post) →
      base % 2 ^ 16 = optdelta.toNat → (∀ m ∈ pre, m < 256) →
      ((numbersFrom base (options.map FormatOption.ofOption)).map UInt16.ofNat).take
        (pre.length + 1) = pre ++ [n] := by
  induction pre with
  | nil =>
    intro options optdelta base hnum hbase _
    obtain ⟨o, options, rfl, ho, -⟩ := map_eq_cons_iff.mp hnum
    show [UInt16.ofNat (base + o.num.toNat)] = [n]
    rw [ho, ofNat_add_delta hbase]
  | cons m pre ih =>
    intro options optdelta base hnum hbase hsmall
    obtain ⟨o, options, rfl, ho, hrest⟩ := map_eq_cons_iff.mp hnum
    have hm : UInt16.ofNat (base + o.num.toNat) = m := by
      rw [ho, ofNat_add_delta hbase]
    have hbase' : (base + o.num.toNat) % 2 ^ 16 = m.toUInt8.toNat := by
      have hlt := lt_iff_toNat_lt.mp (hsmall m mem_cons_self)
      have hmod := congrArg UInt16.toNat hm
      rw [toNat_ofNat'] at hmod
      rw [hmod, toNat_toUInt8]
      exact (Nat.mod_eq_of_lt hlt).symm
    show UInt16.ofNat (base + o.num.toNat) :: List.take (pre.length + 1) _ = m :: (pre ++ [n])
    rw [hm]
    exact congrArg _ (ih options _ _ hrest hbase' fun k hk => hsmall k (mem_cons_of_mem _ hk))

variable (null : Memory)

/-- The message with the number `v` in an option `n` between other calls. -/
def messageWithUint (pre post : List BuildOp) (n : UInt16) (v : UInt32) : CoapMessage Memory :=
  (build null (pre ++ .uintOption true n v :: post)).message.toCoapMessage

section Among

variable {null} {pre : List BuildOp} (post : List BuildOp) (n : UInt16) (v : UInt32)
  (hroom : (build null pre).message.options.length < coapMsgMaxOptionNum)
include hroom

theorem buildStep_uintOption :
    buildStep null (build null pre) (.uintOption true n v)
      = ⟨(build null pre).message.addOption n (UInt16.ofNat (uintOptionBytes v).length)
          (if uintOptionBytes v ≠ [] ∧ true then memOf (uintOptionBytes v) fun _ => 0 else null),
        (build null pre).given ++ [n]⟩ := by
  apply buildStep_of_call
  rw [buildCall, coapUintOptionAdd, if_neg (Nat.not_le_of_lt hroom)]

theorem buildStep_uintOption_grows :
    (buildStep null (build null pre) (.uintOption true n v)).message.options
        <+: (messageWithUint null pre post n v).options ∧
      (build null pre).given ++ [n]
        <+: (build null (pre ++ .uintOption true n v :: post)).given := by
  have hpre := foldl_buildStep_grows null post (buildStep null (build null pre) (.uintOption true n v))
  have hbuild : build null (pre ++ .uintOption true n v :: post)
      = post.foldl (buildStep null) (buildStep null (build null pre) (.uintOption true n v)) := by
    rw [build, foldl_append]
    rfl
  rw [messageWithUint, hbuild]
  refine ⟨hpre.1, ?_⟩
  have hgiven := hpre.2
  rwa [buildStep_uintOption n v hroom] at hgiven ⊢

theorem messageWithUint_option :
    ∃ o, (messageWithUint null pre post n v).options[(build null pre).given.length]? = some o ∧
      o.bytes = uintOptionBytes v := by
  obtain ⟨options, hoptions⟩ := (buildStep_uintOption_grows post n v hroom).1
  rw [buildStep_uintOption n v hroom] at hoptions
  have hlen : (build null pre).given.length = (build null pre).message.options.length := by
    have hdeltas := congrArg List.length (build_ok null pre).deltas
    rw [length_map, length_deltasFrom] at hdeltas
    exact hdeltas.symm
  have hat : ∀ (xs : List (CoapMsgOption Memory)) x ys,
      ((xs ++ [x]) ++ ys)[xs.length]? = some x := by
    intro xs x ys
    simp
  rw [hlen, ← hoptions]
  refine ⟨_, hat _ _ _, ?_⟩
  have hlt : (UInt16.ofNat (uintOptionBytes v).length).toNat = (uintOptionBytes v).length := by
    have hle : (uintOptionBytes v).length ≤ 4 := by
      simp only [uintOptionBytes]
      split_ifs <;> simp
    rw [toNat_ofNat']
    exact Nat.mod_eq_of_lt (by omega)
  simp only [CoapMsgOption.bytes, hlt]
  by_cases hnil : uintOptionBytes v = []
  · rw [hnil]
    rfl
  · rw [if_pos ⟨hnil, trivial⟩]
    exact (holdsBytes_memOf _ _).holdsAt.memSlice_eq

theorem messageWithUint_firstOnWire (hbefore : ∀ m ∈ (build null pre).given, m < 256 ∧ m ≠ n) :
    (messageWithUint null pre post n v).FirstOnWire (build null pre).given.length n := by
  obtain ⟨given, hgiven⟩ := (buildStep_uintOption_grows post n v hroom).2
  have hdeltas := (build_ok null (pre ++ .uintOption true n v :: post)).deltas
  rw [← hgiven, append_assoc] at hdeltas
  have htake := numbersFrom_mod _ n given _ 0 0 hdeltas rfl fun m hm => (hbefore m hm).1
  rw [CoapMessage.numberSums_eq] at htake
  change ((messageWithUint null pre post n v).numberSums.map UInt16.ofNat).take _ = _ at htake
  constructor
  · rw [← List.getElem?_take_of_lt (Nat.lt_succ_self _), htake]
    simp
  · intro hmem
    have hle : (build null pre).given.length ≤ (build null pre).given.length + 1 := Nat.le_succ _
    rw [← Nat.min_eq_left hle, ← take_take, htake, take_left] at hmem
    exact (hbefore n hmem).2 rfl

end Among

/-! ## The codec -/

/-- **Numbers in options.**  An added number is the first option of its number for a reader if
all options before it have other numbers below 256.  Where it is, it is read back exactly if the
output variable held none but its own bits, or the number is 0.  The same is true of a number of
three bytes in the message of a peer. -/
theorem coap_uint_option_iff (null : Memory) (pre post : List BuildOp) (n : UInt16)
    (v data : UInt32) (hroom : (build null pre).message.options.length < coapMsgMaxOptionNum)
    (hpayload : (messageWithUint null pre post n v).payloadlen ≠ 0)
    (hlen : messageLength (messageWithUint null pre post n v) < 2 ^ 16) :
    ((∀ m ∈ (build null pre).given, m < 256 ∧ m ≠ n) →
      (messageWithUint null pre post n v).FirstOnWire (build null pre).given.length n) ∧
    ((messageWithUint null pre post n v).FirstOnWire (build null pre).given.length n →
      ((messageWithUint null pre post n v).UintReadAs n data v ↔ v = 0 ∨ data ||| v = v)) ∧
    ∀ (msg : CoapMessage Memory) (j : ℕ) (o : CoapMsgOption Memory), msg.Sendable →
      msg.payloadlen ≠ 0 → messageLength msg < 2 ^ 16 → msg.options[j]? = some o →
      o.bytes = threeBytes v → v < 0x1000000 → msg.FirstOnWire j n →
      (msg.UintReadAs n data v ↔ data ||| v = v) := by
  refine ⟨messageWithUint_firstOnWire post n v hroom, fun hfirst => ?_, ?_⟩
  · obtain ⟨o, ho, hbytes⟩ := messageWithUint_option post n v hroom
    have hsendable : (messageWithUint null pre post n v).Sendable :=
      (build_ok null (pre ++ .uintOption true n v :: post)).sendable
    rw [hsendable.uintReadAs_iff hpayload hlen hfirst ho, hbytes, uintJoined_uintOptionBytes]
    by_cases hv : v = 0
    · simp [hv]
    · rw [if_neg hv]
      exact (or_iff_right hv).symm
  · intro msg j o hsendable hpayload hlen ho hbytes hv hfirst
    rw [hsendable.uintReadAs_iff hpayload hlen hfirst ho, hbytes,
      uintJoined_threeBytes data v (UInt32.lt_iff_toNat_lt.mp hv)]

/-- An accept option with the number 2, between a path and a payload of one byte. -/
theorem coap_uint_option_two :
    let pre := [BuildOp.strOption true 11 (fun _ => 0x61) 1]
    let post := [BuildOp.payload (some fun _ => 0x78) 1]
    (messageWithUint (fun _ => 0) pre post 17 2).UintReadAs 17 0 2 := by
  intro pre post
  have h := coap_uint_option_iff (fun _ => 0) pre post 17 2 0 (by decide) (by decide) (by decide)
  have hbefore : ∀ m ∈ (build (fun _ => 0) pre).given, m < 256 ∧ m ≠ 17 := by
    have hgiven : (build (fun _ => 0) pre).given = [11] := rfl
    simp [hgiven]
  exact (h.2.1 (h.1 hbefore)).mpr (.inr rfl)

/-- With a 1 in the output variable, a 2 is read as 3. -/
theorem coap_uint_option_stale :
    let post := [BuildOp.payload (some fun _ => 0x78) 1]
    let msg := messageWithUint (fun _ => 0) [] post 17 2
    let w := coapSerializeMessage msg (fun _ => 0) 64
    let r := coapDeserializeMessage zeroMessage w.2 w.1
    r.1 = coapSuccess ∧ coapUintOptionGet (r.2.atMemory w.2).options 17 1 = some 3 ∧
      ¬ msg.UintReadAs 17 1 2 := by
  intro post msg w r
  have hget : coapUintOptionGet (r.2.atMemory w.2).options 17 1 = some 3 := by decide
  refine ⟨by decide, hget, fun h => ?_⟩
  have hread := (h (fun _ => 0) 64 zeroMessage w.2 (by decide) fun _ _ => rfl).2
  exact absurd (hget.symm.trans hread) (by decide)

end Iotkit.Coap
