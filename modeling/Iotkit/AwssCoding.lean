/-
# Codings of names and passwords (`zconfig_protocol.c`, `awss_wps.c`)

`encode_chinese` sends the bytes of a name in symbols of fewer bits, and `decode_chinese` puts them
together again.  `passwd_check_utf8` takes the zeros of a password out of modified UTF-8, in place.
What their loops leave in memory is what the functions on lists say, which the receivers of frames
are modelled with.
-/
import Iotkit.FlatMemory
import Iotkit.WpsPasswd

namespace Iotkit.AwssWps

open Awss FlatMemory List

/-! ## `encode_chinese` and `decode_chinese` -/

/-- The first loop, with `stride` bits of each byte. -/
def bytesToBits (input : Bytes) (stride : ℕ) : ℕ → ℕ :=
  (List.range input.length).foldl (fun bit i => (List.range stride).foldl (fun bit j =>
    store bit (i * stride + j) [(input.getD i 0).toNat >>> j &&& 1]) bit) fun _ => 0

/-- The second loop, with `stride` bits for each byte. -/
def bitsToBytes (bit : ℕ → ℕ) (stride outputLen : ℕ) (out : Memory) : ℕ → UInt8 :=
  (List.range outputLen).foldl (fun out i => store out (0 + i) [UInt8.ofNat
    ((List.range stride).foldl (fun c j => c ||| bit (i * stride + j) <<< j) 0)])
    (store out outputLen [0])

/-- `encode_chinese`: the length and the memory that it leaves, if it does anything. -/
def encodeChineseTo (input : Bytes) (bits : ℕ) (out : Memory) : Option (ℕ × Memory) :=
  if bits = 0 ∨ bits > 7 then none
  else
    let outputLen := toUInt8 ((input.length * 8 + bits - 1) / bits : ℕ)
    some (outputLen, bitsToBytes (bytesToBits input 8) bits outputLen out)

/-- `decode_chinese`. -/
def decodeChineseTo (memory : Bool) (input : Bytes) (bits : ℕ) (out : Memory) :
    Option (ℕ × Memory) :=
  if bits = 0 ∨ bits > 7 ∨ input = [] then none
  else
    let outputLen := toUInt8 (input.length * bits / 8 : ℕ)
    if memory = false then none
    else some (outputLen, bitsToBytes (bytesToBits input bits) 8 outputLen out)

variable {input x : Bytes} {bits stride : ℕ} {out : Memory}

/-- The bit array: the bits of one byte stand behind those of the byte before. -/
theorem bytesToBits_apply (hs : 0 < stride) (input : Bytes) (k : ℕ) :
    bytesToBits input stride k = (input.getD (k / stride) 0).toNat >>> (k % stride) &&& 1 := by
  have hloop : ∀ n, ((List.range n).foldl (fun bit i => (List.range stride).foldl (fun bit j =>
      store bit (i * stride + j) [(input.getD i 0).toNat >>> j &&& 1]) bit) fun _ => 0) k =
        if k < n * stride then (input.getD (k / stride) 0).toNat >>> (k % stride) &&& 1 else 0 := by
    intro n
    induction n with
    | zero => simp
    | succ n ih =>
      rw [range_succ, foldl_append, foldl_cons, foldl_nil, foldl_store,
        store_map_range, ih, Nat.succ_mul]
      by_cases hlt : k < n * stride
      · rw [if_neg (by omega), if_pos hlt, if_pos (by omega)]
      by_cases hrow : k < n * stride + stride
      · obtain ⟨j, rfl⟩ := Nat.exists_eq_add_of_le (Nat.not_lt.mp hlt)
        have hj : j < stride := by omega
        rw [if_pos ⟨by omega, hrow⟩, if_pos hrow, Nat.add_sub_cancel_left, Nat.add_comm,
          Nat.add_mul_div_right j n hs, Nat.div_eq_of_lt hj, Nat.zero_add,
          Nat.add_mul_mod_self_right, Nat.mod_eq_of_lt hj]
      · rw [if_neg (by omega), if_neg hlt, if_neg hrow]
  rw [bytesToBits, hloop]
  split_ifs with hk
  · rfl
  · have hout : input.length ≤ k / stride := (Nat.le_div_iff_mul_le hs).mpr (Nat.not_lt.mp hk)
    rw [getD_eq_default _ _ hout]
    simp

theorem bitsToBytes_eq (bit : ℕ → ℕ) (stride n : ℕ) (out : Memory) :
    bitsToBytes bit stride n out = store (store out n [0]) 0 ((List.range n).map fun i =>
      UInt8.ofNat ((List.range stride).foldl (fun c j => c ||| bit (i * stride + j) <<< j) 0)) :=
  foldl_store ..

theorem toUInt8_of_le {n : ℕ} (h : n ≤ 255) : toUInt8 n = n := by
  rw [toUInt8]
  omega

/-- The bytes at the start of a memory, and a zero behind them. -/
def stored (bytes : Bytes) (out : Memory) : ℕ → UInt8 :=
  store (store out bytes.length [0]) 0 bytes

/-- The loops of `encode_chinese` leave the bytes of `encodeChinese`, and a zero behind them. -/
theorem encodeChineseTo_eq (h1 : 1 ≤ bits) (h7 : bits ≤ 7)
    (hlen : (x.length * 8 + bits - 1) / bits ≤ 255) (out : Memory) :
    encodeChineseTo x bits out = let symbols := (encodeChinese x bits).map UInt8.ofNat
      some (symbols.length, stored symbols out) := by
  have hbits : bytesToBits x 8 = fun k => (x.getD (k / 8) 0).toNat >>> (k % 8) &&& 1 :=
    funext (bytesToBits_apply (by decide) x)
  rw [encodeChineseTo, if_neg (by omega), toUInt8_of_le hlen]
  simp [stored, bitsToBytes_eq, hbits, encodeChinese, Function.comp_def]

theorem decodeChineseTo_eq (hlen : input.length * bits / 8 ≤ 255) (memory : Bool)
    (out : Memory) :
    decodeChineseTo memory input bits out =
      (decodeChinese memory input bits).map fun bytes => (bytes.length, stored bytes out) := by
  rw [decodeChineseTo, decodeChinese]
  by_cases hargs : bits = 0 ∨ bits > 7 ∨ input = []
  · rw [if_pos hargs, if_pos (by tauto), Option.map_none]
  have hbits : bytesToBits input bits =
      fun k => (input.getD (k / bits) 0).toNat >>> (k % bits) &&& 1 :=
    funext (bytesToBits_apply (by omega) input)
  cases memory with
  | false => simp
  | true =>
    have hmemory : ¬ (bits = 0 ∨ bits > 7 ∨ input = [] ∨ true = false) := by simpa using hargs
    rw [if_neg hargs, if_neg hmemory, toUInt8_of_le hlen]
    simp [stored, bitsToBytes_eq, hbits]

/-- The bits of a byte that is put together. -/
theorem testBit_byte (b : ℕ → Bool) (s j : ℕ) :
    ((List.range s).foldl (fun c j => c ||| (b j).toNat <<< j) 0).testBit j =
      (decide (j < s) && b j) := by
  induction s with
  | zero => simp
  | succ s ih =>
    rw [range_succ, foldl_append, foldl_cons, foldl_nil, Nat.testBit_or, ih,
      Nat.testBit_shiftLeft, Nat.testBit_bool_toNat]
    rcases Nat.lt_trichotomy j s with hlt | rfl | hgt
    · simp [hlt, Nat.lt_succ_of_lt hlt, Nat.not_le.mpr hlt]
    · simp
    · have hlt : ¬ j < s := by omega
      have hlt' : ¬ j < s + 1 := by omega
      have hne : j - s ≠ 0 := by omega
      simp [hlt, hlt', hne]

theorem shiftRight_and_one (c k : ℕ) : c >>> k &&& 1 = (c.testBit k).toNat := by
  rw [Nat.and_one_is_mod, Nat.toNat_testBit, Nat.shiftRight_eq_div_pow]

theorem encodeChinese_lt (x : Bytes) (bits : ℕ) :
    ∀ c ∈ encodeChinese x bits, c < 2 ^ bits := by
  intro c hc
  obtain ⟨i, -, rfl⟩ := mem_map.mp hc
  simp only [shiftRight_and_one]
  apply Nat.lt_pow_two_of_testBit
  intro j hj
  rw [testBit_byte fun j => ((x.getD ((i * bits + j) / 8) 0).toNat).testBit ((i * bits + j) % 8)]
  simp [Nat.not_lt.mpr hj]

/-- The bits of the symbols are those of the name. -/
theorem testBit_symbol (h1 : 1 ≤ bits) (h7 : bits ≤ 7) {k : ℕ}
    (hk : k < (encodeChinese x bits).length * bits) :
    (((encodeChinese x bits).map UInt8.ofNat).getD (k / bits) 0).toNat.testBit (k % bits) =
      (x.getD (k / 8) 0).toNat.testBit (k % 8) := by
  have hi : k / bits < (encodeChinese x bits).length :=
    Nat.div_lt_of_lt_mul (by rwa [Nat.mul_comm])
  have hlt := encodeChinese_lt x bits _ (getElem_mem hi)
  have hsmall : (encodeChinese x bits)[k / bits] < UInt8.size :=
    hlt.trans_le ((Nat.pow_le_pow_right (by decide) h7).trans (by decide))
  rw [getD_eq_getElem _ _ (by simpa using hi), getElem_map,
    UInt8.toNat_ofNat_of_lt' hsmall]
  simp only [encodeChinese, getElem_map, getElem_range, shiftRight_and_one]
  rw [testBit_byte fun j => (x.getD ((k / bits * bits + j) / 8) 0).toNat.testBit
    ((k / bits * bits + j) % 8), Nat.div_add_mod']
  simp [Nat.mod_lt k (show 0 < bits by omega)]

theorem length_encodeChinese_mul (h1 : 1 ≤ bits) (h7 : bits ≤ 7) (x : Bytes) :
    (encodeChinese x bits).length * bits / 8 = x.length ∧
      x.length * 8 ≤ (encodeChinese x bits).length * bits := by
  simp only [encodeChinese, length_map, length_range]
  interval_cases bits <;> omega

/-- What is decoded from the encoding of a name is the name. -/
theorem decodeChinese_encodeChinese (h1 : 1 ≤ bits) (h7 : bits ≤ 7) (hne : x ≠ []) :
    decodeChinese true ((encodeChinese x bits).map UInt8.ofNat) bits = some x := by
  obtain ⟨hbytes, hle⟩ := length_encodeChinese_mul h1 h7 x
  have hpos : 0 < x.length := length_pos_iff.mpr hne
  have hsym : (encodeChinese x bits).map UInt8.ofNat ≠ [] := by
    intro hnil
    rw [map_eq_nil_iff.mp hnil, length_nil] at hbytes
    omega
  have hargs : ¬ (bits = 0 ∨ bits > 7 ∨ (encodeChinese x bits).map UInt8.ofNat = [] ∨
      true = false) := by simpa [hsym] using ⟨by omega, h7⟩
  rw [decodeChinese, if_neg hargs, length_map, hbytes]
  refine congrArg some (ext_getElem (by simp) fun i hi hix => ?_)
  simp only [getElem_map, getElem_range, shiftRight_and_one]
  convert UInt8.ofNat_toNat using 2
  apply Nat.eq_of_testBit_eq
  intro j
  rw [testBit_byte fun j => (((encodeChinese x bits).map UInt8.ofNat).getD
    ((i * 8 + j) / bits) 0).toNat.testBit ((i * 8 + j) % bits)]
  by_cases hj : j < 8
  · have hdiv : (i * 8 + j) / 8 = i := by omega
    have hmod : (i * 8 + j) % 8 = j := by omega
    rw [testBit_symbol h1 h7 (by omega), hdiv, hmod, getD_eq_getElem _ _ hix]
    simp [hj]
  · have hzero := Nat.testBit_lt_two_pow
      (x[i].toNat_lt.trans_le (Nat.pow_le_pow_right (by decide) (Nat.not_lt.mp hj)))
    simp [hj, hzero]

theorem load_stored (bytes : Bytes) (out : Memory) :
    load (stored bytes out) 0 bytes.length = bytes := load_store_self ..

theorem stored_of_lt (bytes : Bytes) (out : Memory) {i : ℕ} (hi : bytes.length < i) :
    stored bytes out i = out i := by
  rw [stored, store_of_ne _ _ _ fun j hj => by omega, store_of_ne _ _ _ fun j hj => ?_]
  rw [length_singleton] at hj
  omega

/-- **The round trip.**  Both functions write no more than one byte behind what they make. -/
theorem chinese_round_trip (h1 : 1 ≤ bits) (h7 : bits ≤ 7) (hne : x ≠ [])
    (hn : x.length ≤ zcMaxSsidLen - 1) (hlen : (x.length * 8 + bits - 1) / bits ≤ 255)
    (out out' : Memory) :
    ∃ n buf, encodeChineseTo x bits out = some (n, buf) ∧ (∀ i, n < i → buf i = out i) ∧
      (∀ c ∈ load buf 0 n, c.toNat < 2 ^ bits) ∧
      decodeChineseTo false (load buf 0 n) bits out' = none ∧
      ∃ back, decodeChineseTo true (load buf 0 n) bits out' = some (x.length, back) ∧
        load back 0 x.length = x ∧ ∀ i, x.length < i → back i = out' i := by
  have hbytes := (length_encodeChinese_mul h1 h7 x).1
  have hin : ((encodeChinese x bits).map UInt8.ofNat).length * bits / 8 ≤ 255 := by
    rw [length_map, hbytes]
    exact hn.trans (by decide)
  refine ⟨_, _, encodeChineseTo_eq h1 h7 hlen out, fun i hi => stored_of_lt _ out hi, ?_⟩
  rw [load_stored, decodeChineseTo_eq hin, decodeChineseTo_eq hin,
    decodeChinese_encodeChinese h1 h7 hne]
  refine ⟨fun c hc => ?_, by simp [decodeChinese], _, rfl, load_stored x out',
    fun i hi => stored_of_lt x out' hi⟩
  obtain ⟨symbol, hsymbol, rfl⟩ := mem_map.mp hc
  exact (Nat.mod_le _ _).trans_lt (encodeChinese_lt x bits symbol hsymbol)

/-- Three bytes in symbols of 7 bits: the last of the four symbols is padded. -/
theorem chinese_round_trip_three :
    ∃ n buf back, encodeChineseTo [0xE4, 0xBD, 0xA0] 7 0 = some (n, buf) ∧
      decodeChineseTo true (load buf 0 n) 7 0 = some (3, back) ∧ back 2 = 0xA0 := by
  have h7 : 1 ≤ 7 := by decide
  obtain ⟨n, buf, henc, -, -, -, back, hdec, hback, -⟩ := chinese_round_trip h7 le_rfl
    (x := [0xE4, 0xBD, 0xA0]) (by decide) (by decide) (by decide) 0 0
  exact ⟨n, buf, back, henc, hdec, congrArg (fun l => l.getD 2 0) hback⟩

/-! ## `passwd_check_utf8` -/

/-- What the loop does to a byte from 0x80 on: it becomes a zero, and the rest moves to it. -/
def restoreByte (passwd : ℕ) (mem : Memory) (i len : ℕ) : ℕ → UInt8 :=
  let mem := store mem (passwd + i) [0]
  if i + 2 < len then
    store mem (passwd + (i + 1)) (load mem (passwd + (i + 2)) (len - i - 2))
  else mem

/-- The loop from `i` on, for a password at the address `passwd`: the memory and the length that it
leaves. -/
def passwdCheckUtf8Loop (passwd : ℕ) (mem : Memory) (i len : ℕ) : Memory × ℕ :=
  if i < len then
    if mem (passwd + i) < 0x80 then passwdCheckUtf8Loop passwd mem (i + 1) len
    else passwdCheckUtf8Loop passwd (restoreByte passwd mem i len) (i + 1) (len - 1)
  else (mem, len)
termination_by len - i

theorem passwdCheckUtf8_of_lt {c : UInt8} (hc : c < 0x80) (l : Bytes) :
    passwdCheckUtf8 (c :: l) = c :: passwdCheckUtf8 l := by
  rw [passwdCheckUtf8.eq_def]
  exact if_pos hc

theorem passwdCheckUtf8_of_not_lt {c : UInt8} (hc : ¬ c < 0x80) (d : UInt8) (l : Bytes) :
    passwdCheckUtf8 (c :: d :: l) = 0 :: passwdCheckUtf8 l := by
  rw [passwdCheckUtf8.eq_def]
  exact if_neg hc

variable {passwd i len : ℕ} {mem : Memory}

theorem restoreByte_of_outside {a : ℕ} (hi : i < len) (ha : a < passwd + i ∨ passwd + len ≤ a) :
    restoreByte passwd mem i len a = mem a := by
  have hzero : store mem (passwd + i) [0] a = mem a := store_of_ne _ _ _ fun j hj => by
    rw [length_singleton] at hj
    omega
  rw [restoreByte]
  split_ifs with hrest
  · rw [store_of_ne _ _ _ fun j hj => ?_, hzero]
    rw [length_load] at hj
    omega
  · exact hzero

theorem restoreByte_self : restoreByte passwd mem i len (passwd + i) = 0 := by
  have hzero : store mem (passwd + i) [0] (passwd + i) = 0 := by simp [store]
  rw [restoreByte]
  split_ifs with hrest
  · rw [store_of_lt _ _ _ (by omega), hzero]
  · exact hzero

theorem load_restoreByte :
    load (restoreByte passwd mem i len) (passwd + (i + 1)) (len - i - 2) =
      load mem (passwd + (i + 2)) (len - i - 2) := by
  rw [restoreByte]
  split_ifs with hrest
  · have hself := load_store_self (store mem (passwd + i) [0]) (passwd + (i + 1))
      (load (store mem (passwd + i) [0]) (passwd + (i + 2)) (len - i - 2))
    rw [length_load] at hself
    rw [hself]
    refine load_congr fun j _ => store_of_ne _ _ _ fun k hk => ?_
    rw [length_singleton] at hk
    omega
  · rw [show len - i - 2 = 0 by omega]
    rfl

/-- The loop leaves what `passwdCheckUtf8` makes of the bytes from `i` on, in their place. -/
theorem passwdCheckUtf8Loop_spec (passwd : ℕ) (mem : Memory) (hi : i ≤ len) :
    let r := passwdCheckUtf8Loop passwd mem i len
    i ≤ r.2 ∧
      load r.1 (passwd + i) (r.2 - i) = passwdCheckUtf8 (load mem (passwd + i) (len - i)) ∧
      ∀ a, a < passwd + i ∨ passwd + len ≤ a → r.1 a = mem a := by
  induction mem, i, len using passwdCheckUtf8Loop.induct passwd with
  | case1 mem i len hlt hc ih =>
    obtain ⟨hle, hload, hframe⟩ := ih hlt
    rw [passwdCheckUtf8Loop, if_pos hlt, if_pos hc]
    set r := passwdCheckUtf8Loop passwd mem (i + 1) len
    have hkept : r.1 (passwd + i) = mem (passwd + i) := hframe _ (.inl (by omega))
    refine ⟨by omega, ?_, fun a ha => hframe a (by omega)⟩
    rw [show r.2 - i = r.2 - (i + 1) + 1 by omega, show len - i = len - (i + 1) + 1 by omega,
      load_cons, load_cons, Nat.add_assoc, hload, passwdCheckUtf8_of_lt hc, hkept]
  | case2 mem i len hlt hc ih =>
    rw [passwdCheckUtf8Loop, if_pos hlt, if_neg hc]
    by_cases hlast : i + 1 = len
    · -- the last byte is dropped
      rw [passwdCheckUtf8Loop, if_neg (by omega), ← hlast, Nat.add_sub_cancel,
        Nat.add_sub_cancel_left, load_cons, passwdCheckUtf8.eq_def, Nat.add_zero]
      dsimp only
      rw [Nat.sub_self, if_neg hc]
      exact ⟨le_rfl, rfl,
        fun a ha => restoreByte_of_outside (Nat.lt_succ_self i) ha⟩
    obtain ⟨hle, hload, hframe⟩ := ih (by omega)
    set r := passwdCheckUtf8Loop passwd (restoreByte passwd mem i len) (i + 1) (len - 1)
    have hkept : r.1 (passwd + i) = 0 :=
      (hframe _ (.inl (by omega))).trans restoreByte_self
    refine ⟨by omega, ?_, fun a ha => ?_⟩
    · rw [show len - 1 - (i + 1) = len - i - 2 by omega, load_restoreByte] at hload
      rw [show r.2 - i = r.2 - (i + 1) + 1 by omega, show len - i = len - i - 2 + 1 + 1 by omega,
        load_cons, load_cons, load_cons, Nat.add_assoc, Nat.add_assoc, hload,
        passwdCheckUtf8_of_not_lt hc, hkept]
    · exact (hframe a (by omega)).trans (restoreByte_of_outside hlt ha)
  | case3 mem i len hlt =>
    have heq : i = len := by omega
    rw [passwdCheckUtf8Loop, if_neg hlt, heq]
    dsimp only
    rw [Nat.sub_self, show ∀ a, load mem a 0 = [] from fun _ => rfl, passwdCheckUtf8]
    exact ⟨le_rfl, rfl, fun a _ => rfl⟩

/-- Modified UTF-8: a zero is written as two bytes. -/
def modifiedUtf8 (x : Bytes) : Bytes :=
  x.flatMap fun c => if c = 0 then [0xC0, 0x80] else [c]

theorem passwdCheckUtf8_modifiedUtf8 {x : Bytes} (hx : ∀ c ∈ x, c < 0x80) :
    passwdCheckUtf8 (modifiedUtf8 x) = x := by
  induction x with
  | nil => rfl
  | cons c x ih =>
    obtain ⟨hc, hx⟩ := forall_mem_cons.mp hx
    rw [modifiedUtf8, flatMap_cons]
    by_cases hzero : c = 0
    · rw [if_pos hzero, hzero]
      exact (passwdCheckUtf8_of_not_lt (by decide) _ _).trans (congrArg (0 :: ·) (ih hx))
    · rw [if_neg hzero]
      exact (passwdCheckUtf8_of_lt hc _).trans (congrArg (c :: ·) (ih hx))

/-- **Restoration.**  Nothing but the bytes of the password is written. -/
theorem passwd_check_utf8_restores {x : Bytes} (hx : ∀ c ∈ x, c < 0x80) (passwd : ℕ)
    (mem : Memory) :
    let y := modifiedUtf8 x
    let r := passwdCheckUtf8Loop passwd (store mem passwd y) 0 y.length
    r.2 = x.length ∧ load r.1 passwd r.2 = x ∧
      ∀ a, a < passwd ∨ passwd + y.length ≤ a → r.1 a = mem a := by
  intro y r
  obtain ⟨-, hload, hframe⟩ :=
    passwdCheckUtf8Loop_spec passwd (store mem passwd y) (Nat.zero_le y.length)
  rw [Nat.add_zero, Nat.sub_zero, Nat.sub_zero, load_store_self,
    passwdCheckUtf8_modifiedUtf8 hx] at hload
  refine ⟨?_, hload, fun a ha => ?_⟩
  · have := congrArg List.length hload
    rwa [length_load] at this
  · rw [hframe a ha]
    exact store_of_ne _ _ _ fun j hj => by omega

/-- Zeros next to each other, in front and at the end. -/
theorem passwd_check_utf8_restores_zeros :
    let y : Bytes := [0xC0, 0x80, 0xC0, 0x80, 0x61, 0xC0, 0x80]
    modifiedUtf8 [0, 0, 0x61, 0] = y ∧
      load (passwdCheckUtf8Loop 0 (store 0 0 y) 0 7).1 0 4 = [0, 0, 0x61, 0] := by
  have hy : modifiedUtf8 [0, 0, 0x61, 0] = [0xC0, 0x80, 0xC0, 0x80, 0x61, 0xC0, 0x80] := by
    simp [modifiedUtf8]
  have hrestores := passwd_check_utf8_restores (x := [0, 0, 0x61, 0]) (by simp) 0 0
  rw [hy] at hrestores
  obtain ⟨hlen, hload, -⟩ := hrestores
  rw [hlen] at hload
  exact ⟨hy, hload⟩

end Iotkit.AwssWps
