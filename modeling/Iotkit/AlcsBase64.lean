/-
# Base64 of the local connection (`alcs_base64.c`)

The encoder turns three bytes into four characters and overwrites the last of them where bytes
were missing; the decoder turns four characters into three bytes and drops those behind the
length that it computes from the last two characters.  Positions and lengths have 32 bits.
-/
import Iotkit.InfraDefs

namespace Iotkit.AlcsBase64

open List

/-! ## The tables -/

def encodingTable : Bytes :=
  [0x41, 0x42, 0x43, 0x44, 0x45, 0x46, 0x47, 0x48, 0x49, 0x4A, 0x4B, 0x4C, 0x4D, 0x4E, 0x4F, 0x50,
    0x51, 0x52, 0x53, 0x54, 0x55, 0x56, 0x57, 0x58, 0x59, 0x5A, 0x61, 0x62, 0x63, 0x64, 0x65, 0x66,
    0x67, 0x68, 0x69, 0x6A, 0x6B, 0x6C, 0x6D, 0x6E, 0x6F, 0x70, 0x71, 0x72, 0x73, 0x74, 0x75, 0x76,
    0x77, 0x78, 0x79, 0x7A, 0x30, 0x31, 0x32, 0x33, 0x34, 0x35, 0x36, 0x37, 0x38, 0x39, 0x2B, 0x2F]

/-- `g_decodingTable`: the places of the characters of the other table, and zero elsewhere. -/
def decodingTable (c : UInt8) : ℕ :=
  if encodingTable.idxOf c < 64 then encodingTable.idxOf c else 0

def modTable : List ℕ := [0, 2, 1]

/-- The character `=`. -/
def padChar : UInt8 := 0x3D

/-! ## The encoder -/

/-- What a call leaves behind: its value, `*outputLength` if it was stored, and the bytes written
to the output. -/
structure Result where
  ret : ℤ
  outputLength : Option ℕ
  written : Bytes
  deriving DecidableEq

/-- The four characters of a group. -/
def quad (triple : ℕ) : Bytes :=
  [encodingTable.getD ((triple >>> (3 * 6)) &&& 0x3F) 0,
    encodingTable.getD ((triple >>> (2 * 6)) &&& 0x3F) 0,
    encodingTable.getD ((triple >>> (1 * 6)) &&& 0x3F) 0,
    encodingTable.getD ((triple >>> (0 * 6)) &&& 0x3F) 0]

/-- The loop of `utils_base64encode`; bytes behind the end of the input count as zero. -/
def encodeLoop : Bytes → Bytes
  | [] => []
  | a :: rest =>
    let octetA := a.toNat
    let octetB := (rest.headD 0).toNat
    let octetC := (rest.tail.headD 0).toNat
    quad ((octetA <<< 0x10) + (octetB <<< 0x08) + octetC) ++ encodeLoop rest.tail.tail
termination_by data => data.length
decreasing_by simp only [length_tail, length_cons]; omega

/-- The loop that writes `=` from the end on. -/
def padLoop (outputLength : ℕ) : ℕ → Bytes → Bytes
  | 0, encoded => encoded
  | count + 1, encoded =>
    (padLoop outputLength count encoded).set (outputLength - 1 - count) padChar

/-- `utils_base64encode`, with an output that is not null. -/
def utilsBase64encode (data : Bytes) (outputLenMax : ℕ) : Result :=
  let outputLength := 4 * ((data.length + 2) % 2 ^ 32 / 3) % 2 ^ 32
  if outputLenMax < outputLength then ⟨failReturn, some outputLength, []⟩
  else ⟨successReturn, some outputLength,
    padLoop outputLength (modTable.getD (data.length % 3) 0) (encodeLoop data)⟩

/-! ## The decoder -/

/-- The value of a character. -/
def sextet (c : UInt8) : ℕ :=
  if c = padChar then 0 else decodingTable c

/-- A byte is stored while the output is shorter than its length. -/
def store (outputLength : ℕ) (decoded : Bytes) (b : ℕ) : Bytes :=
  if decoded.length < outputLength then decoded ++ [UInt8.ofNat (b &&& 0xFF)] else decoded

/-- The loop of `utils_base64decode`. -/
def decodeLoop (outputLength : ℕ) : Bytes → Bytes → Bytes
  | a :: b :: c :: d :: rest, decoded =>
    let triple := (sextet a <<< (3 * 6)) + (sextet b <<< (2 * 6)) + (sextet c <<< (1 * 6)) +
      (sextet d <<< (0 * 6))
    decodeLoop outputLength rest (store outputLength
        (store outputLength (store outputLength decoded (triple >>> (2 * 8))) (triple >>> (1 * 8)))
        (triple >>> (0 * 8)))
  | _, decoded => decoded

/-- `utils_base64decode` on the memory from a pointer on, of which the text is the front; the
places in it have 32 bits. -/
def utilsBase64decode (data : Memory) (inputLength outputLenMax : ℕ) : Result :=
  if inputLength % 4 ≠ 0 then ⟨failReturn, none, []⟩
  else
    let outputLength := inputLength / 4 * 3
    let outputLength :=
      if data ((inputLength + 2 ^ 32 - 1) % 2 ^ 32) = padChar then
        (outputLength + 2 ^ 32 - 1) % 2 ^ 32 else outputLength
    let outputLength :=
      if data ((inputLength + 2 ^ 32 - 2) % 2 ^ 32) = padChar then
        (outputLength + 2 ^ 32 - 1) % 2 ^ 32 else outputLength
    if outputLenMax < outputLength then ⟨failReturn, some outputLength, []⟩
    else ⟨successReturn, some outputLength,
      decodeLoop outputLength (memSlice data 0 inputLength) []⟩

/-! ## Groups -/

variable {N : ℕ} {x text decoded : Bytes} {data : Memory} {n max : ℕ}

theorem table_spec : ∀ i < 64, sextet (encodingTable.getD i 0) = i ∧
    encodingTable.getD i 0 ≠ padChar := by
  decide

theorem sextet_quad (triple k : ℕ) :
    sextet (encodingTable.getD ((triple >>> k) &&& 0x3F) 0) = triple / 2 ^ k % 64 := by
  have hmod : (triple >>> k) &&& 0x3F = triple / 2 ^ k % 64 := by
    rw [Nat.shiftRight_eq_div_pow]
    exact Nat.and_two_pow_sub_one_eq_mod _ 6
  rw [hmod]
  exact (table_spec _ (Nat.mod_lt _ (by decide))).1

/-- The four characters of a group give the group back. -/
theorem decodeLoop_quad {triple : ℕ} (h : triple < 2 ^ 24) (text decoded : Bytes) :
    decodeLoop N (quad triple ++ text) decoded =
      decodeLoop N text (store N (store N (store N decoded (triple >>> (2 * 8)))
        (triple >>> (1 * 8))) (triple >>> (0 * 8))) := by
  have htriple : (triple / 2 ^ 18 % 64) <<< 18 + (triple / 2 ^ 12 % 64) <<< 12 +
      (triple / 2 ^ 6 % 64) <<< 6 + (triple / 2 ^ 0 % 64) <<< 0 = triple := by
    simp only [Nat.shiftLeft_eq]
    omega
  simp only [quad, cons_append, nil_append, decodeLoop, sextet_quad]
  rw [htriple]

theorem store_of_lt {b : ℕ} (h : decoded.length < N) :
    store N decoded b = decoded ++ [UInt8.ofNat b] := by
  have hmod : UInt8.ofNat (b &&& 0xFF) = UInt8.ofNat b := by
    rw [show b &&& 0xFF = b % 256 from Nat.and_two_pow_sub_one_eq_mod b 8]
    apply UInt8.toNat_inj.mp
    rw [UInt8.toNat_ofNat', UInt8.toNat_ofNat', Nat.mod_mod]
  rw [store, if_pos h, hmod]

theorem store_of_ge {b : ℕ} (h : N ≤ decoded.length) : store N decoded b = decoded :=
  if_neg (by omega)

theorem length_store (b : ℕ) (h : decoded.length ≤ N) : (store N decoded b).length ≤ N := by
  rw [store]
  split
  · rw [length_append, length_singleton]
    omega
  · exact h

theorem ofNat_group (a b c : UInt8) :
    UInt8.ofNat ((a.toNat <<< 0x10 + b.toNat <<< 0x08 + c.toNat) >>> (2 * 8)) = a ∧
    UInt8.ofNat ((a.toNat <<< 0x10 + b.toNat <<< 0x08 + c.toNat) >>> (1 * 8)) = b ∧
    UInt8.ofNat ((a.toNat <<< 0x10 + b.toNat <<< 0x08 + c.toNat) >>> (0 * 8)) = c := by
  have ha := a.toNat_lt
  have hb := b.toNat_lt
  have hc := c.toNat_lt
  simp only [Nat.shiftLeft_eq, Nat.shiftRight_eq_div_pow]
  refine ⟨?_, ?_, ?_⟩ <;> apply UInt8.toNat_inj.mp <;> rw [UInt8.toNat_ofNat'] <;> omega

theorem group_lt (a b c : UInt8) : a.toNat <<< 0x10 + b.toNat <<< 0x08 + c.toNat < 2 ^ 24 := by
  have ha := a.toNat_lt
  have hb := b.toNat_lt
  have hc := c.toNat_lt
  simp only [Nat.shiftLeft_eq]
  omega

theorem store_group (a b c : UInt8) (decoded : Bytes) {triple : ℕ}
    (h : triple = a.toNat <<< 0x10 + b.toNat <<< 0x08 + c.toNat) :
    store N (store N (store N decoded (triple >>> (2 * 8))) (triple >>> (1 * 8)))
      (triple >>> (0 * 8)) = decoded ++ [a, b, c].take (N - decoded.length) := by
  obtain ⟨ha, hb, hc⟩ := ofNat_group a b c
  rw [← h] at ha hb hc
  by_cases h0 : decoded.length < N
  · rw [store_of_lt h0, ha]
    by_cases h1 : (decoded ++ [a]).length < N
    · rw [store_of_lt h1, hb]
      by_cases h2 : (decoded ++ [a] ++ [b]).length < N
      · rw [store_of_lt h2, hc]
        simp only [length_append, length_singleton] at h2
        rw [take_of_length_le (by simp only [length_cons, length_nil]; omega)]
        simp
      · rw [store_of_ge (by omega)]
        simp only [length_append, length_singleton] at h1 h2
        rw [show N - decoded.length = 2 by omega]
        simp
    · have h1' : N ≤ (decoded ++ [a]).length := by omega
      rw [store_of_ge h1', store_of_ge h1']
      rw [length_append, length_singleton] at h1
      rw [show N - decoded.length = 1 by omega]
      simp
  · have h0' : N ≤ decoded.length := by omega
    rw [store_of_ge h0', store_of_ge h0', store_of_ge h0', show N - decoded.length = 0 by omega]
    simp

/-- What the decoder makes of the characters of the encoder: the bytes, as many of them as there
are. -/
theorem decodeLoop_encodeLoop (x decoded : Bytes) (h : decoded.length + x.length = N) :
    decodeLoop N (encodeLoop x) decoded = decoded ++ x := by
  induction x using encodeLoop.induct generalizing decoded with
  | case1 => simp [encodeLoop, decodeLoop]
  | case2 a rest ih =>
    rw [encodeLoop, decodeLoop_quad (group_lt a _ _), store_group a _ _ decoded rfl]
    rw [length_cons] at h
    rcases rest with _ | ⟨b, _ | ⟨c, rest⟩⟩
    · rw [show N - decoded.length = 1 by simp only [length_nil] at h; omega]
      simp [encodeLoop, decodeLoop]
    · rw [show N - decoded.length = 2 by simp only [length_cons, length_nil] at h; omega]
      simp [encodeLoop, decodeLoop]
    simp only [length_cons] at h
    rw [take_of_length_le (by simp only [length_cons, length_nil]; omega)]
    show decodeLoop N (encodeLoop rest) (decoded ++ [a, b, c]) = _
    have hroom : (decoded ++ [a, b, c]).length + rest.length = N := by
      rw [length_append]
      simp only [length_cons, length_nil]
      omega
    have hrest : decodeLoop N (encodeLoop rest) (decoded ++ [a, b, c]) =
        decoded ++ [a, b, c] ++ rest := ih _ hroom
    rw [hrest]
    simp

/-! ## The last characters -/

theorem length_encodeLoop (x : Bytes) : (encodeLoop x).length = 4 * ((x.length + 2) / 3) := by
  induction x using encodeLoop.induct with
  | case1 => simp [encodeLoop]
  | case2 a rest ih =>
    have hquad : ∀ t, (quad t).length = 4 := fun t => rfl
    rw [encodeLoop, length_append, hquad, ih, length_cons, length_tail,
      length_tail]
    omega

/-- The text ends with two characters of the table, which stand for zero where a byte was
missing. -/
theorem encodeLoop_last (x : Bytes) (h : x ≠ []) :
    ∃ front c d, encodeLoop x = front ++ [c, d] ∧ c ≠ padChar ∧ d ≠ padChar ∧
      (x.length % 3 = 1 → sextet c = 0 ∧ sextet d = 0) ∧ (x.length % 3 = 2 → sextet d = 0) := by
  induction x using encodeLoop.induct with
  | case1 => exact absurd rfl h
  | case2 a rest ih =>
    rw [encodeLoop]
    generalize ht : a.toNat <<< 0x10 + (rest.headD 0).toNat <<< 0x08 + (rest.tail.headD 0).toNat = t
    simp only [Nat.shiftLeft_eq] at ht
    by_cases htail : rest.tail.tail = []
    · have hlt : ∀ k, (t >>> k) &&& 0x3F < 64 := fun k =>
        Nat.lt_of_le_of_lt Nat.and_le_right (by decide)
      refine ⟨(quad t).take 2, _, _, ?_, (table_spec _ (hlt (1 * 6))).2,
        (table_spec _ (hlt (0 * 6))).2, ?_, ?_⟩
      · rw [htail, encodeLoop]
        rfl
      · rw [sextet_quad, sextet_quad]
        rcases rest with _ | ⟨b, _ | ⟨c, rest⟩⟩
        · simp only [headD_nil, tail_nil, UInt8.toNat_zero] at ht
          omega
        · simp
        · simp only [tail_cons] at htail
          simp [htail]
      · rw [sextet_quad]
        rcases rest with _ | ⟨b, _ | ⟨c, rest⟩⟩
        · simp
        · simp only [headD_cons, tail_cons, headD_nil, UInt8.toNat_zero] at ht
          omega
        · simp only [tail_cons] at htail
          simp [htail]
    · obtain ⟨front, c, d, heq, hc, hd, h1, h2⟩ := ih htail
      have hlen : (a :: rest).length % 3 = rest.tail.tail.length % 3 := by
        have hpos := length_pos_iff.mpr htail
        simp only [length_tail, length_cons] at hpos ⊢
        omega
      refine ⟨quad t ++ front, c, d, ?_, hc, hd, ?_, ?_⟩
      · rw [heq, append_assoc]
      · rw [hlen]
        exact h1
      · rw [hlen]
        exact h2

theorem decodeLoop_congr {text' : Bytes} (h : text.map sextet = text'.map sextet) :
    decodeLoop N text decoded = decodeLoop N text' decoded := by
  fun_induction decodeLoop N text decoded generalizing text' with
  | case1 a b c d rest decoded triple =>
    rename_i ih
    rcases text' with _ | ⟨a', _ | ⟨b', _ | ⟨c', _ | ⟨d', rest'⟩⟩⟩⟩
    all_goals simp at h
    obtain ⟨ha, hb, hc, hd, hrest⟩ := h
    rw [decodeLoop, ← ha, ← hb, ← hc, ← hd, ih hrest]
  | case2 text decoded hshort =>
    rcases text' with _ | ⟨a', _ | ⟨b', _ | ⟨c', _ | ⟨d', rest'⟩⟩⟩⟩
    · simp [decodeLoop]
    · simp [decodeLoop]
    · simp [decodeLoop]
    · simp [decodeLoop]
    · rcases text with _ | ⟨a, _ | ⟨b, _ | ⟨c, _ | ⟨d, rest⟩⟩⟩⟩
      all_goals simp at h
      exact absurd rfl (hshort a b c d rest)

/-- Some of the last two characters are overwritten. -/
theorem padLoop_append (front : Bytes) (c d : UInt8) :
    padLoop (front.length + 2) 1 (front ++ [c, d]) = front ++ [c, padChar] ∧
    padLoop (front.length + 2) 2 (front ++ [c, d]) = front ++ [padChar, padChar] := by
  have hone : padLoop (front.length + 2) 1 (front ++ [c, d]) = front ++ [c, padChar] := by
    show (front ++ [c, d]).set (front.length + 2 - 1 - 0) padChar = _
    rw [set_append_right _ _ (by omega),
      show front.length + 2 - 1 - 0 - front.length = 1 by omega]
    rfl
  refine ⟨hone, ?_⟩
  show (padLoop (front.length + 2) 1 (front ++ [c, d])).set (front.length + 2 - 1 - 1) padChar = _
  rw [hone, set_append_right _ _ (by omega),
    show front.length + 2 - 1 - 1 - front.length = 0 by omega]
  rfl

/-- The number of `=` at the end of a text. -/
def padCount (c d : UInt8) : ℕ :=
  (if d = padChar then 1 else 0) + if c = padChar then 1 else 0

/-- The text of the encoder: characters with the values of the loop, and as many `=` at the end as
bytes were missing. -/
theorem padLoop_encodeLoop (x : Bytes) (h : x ≠ []) :
    ∃ front c d, padLoop (encodeLoop x).length (modTable.getD (x.length % 3) 0) (encodeLoop x) =
      front ++ [c, d] ∧ (front ++ [c, d]).map sextet = (encodeLoop x).map sextet ∧
      padCount c d + x.length = (x.length + 2) / 3 * 3 := by
  obtain ⟨front, c, d, heq, hc, hd, h1, h2⟩ := encodeLoop_last x h
  have hpad : sextet padChar = 0 := rfl
  have hlen : (encodeLoop x).length = front.length + 2 := by
    rw [heq, length_append]
    rfl
  obtain ⟨hone, htwo⟩ := padLoop_append front c d
  rw [hlen, heq]
  have hmod : x.length % 3 = 0 ∨ x.length % 3 = 1 ∨ x.length % 3 = 2 := by omega
  rcases hmod with h0 | hm | hm
  · rw [h0]
    refine ⟨front, c, d, rfl, rfl, ?_⟩
    rw [padCount, if_neg hd, if_neg hc]
    omega
  · obtain ⟨hsc, hsd⟩ := h1 hm
    rw [hm]
    refine ⟨front, padChar, padChar, htwo, ?_, ?_⟩
    · simp [hsc, hsd, hpad]
    · rw [padCount, if_pos rfl]
      omega
  have hsd := h2 hm
  rw [hm]
  refine ⟨front, c, padChar, hone, ?_, ?_⟩
  · simp [hsd, hpad]
  · rw [padCount, if_pos rfl, if_neg hc]
    omega

/-! ## The length that is reported -/

/-- The length of the output: three quarters of the text less the `=` at its end, in 32 bits. -/
def reportedLength (data : Memory) (inputLength : ℕ) : ℕ :=
  let outputLength :=
    if data ((inputLength + 2 ^ 32 - 1) % 2 ^ 32) = padChar then
      (inputLength / 4 * 3 + 2 ^ 32 - 1) % 2 ^ 32 else inputLength / 4 * 3
  if data ((inputLength + 2 ^ 32 - 2) % 2 ^ 32) = padChar then
    (outputLength + 2 ^ 32 - 1) % 2 ^ 32 else outputLength

theorem utilsBase64decode_eq (h4 : n % 4 = 0) :
    utilsBase64decode data n max =
      if max < reportedLength data n then ⟨failReturn, some (reportedLength data n), []⟩
      else ⟨successReturn, some (reportedLength data n),
        decodeLoop (reportedLength data n) (memSlice data 0 n) []⟩ := by
  rw [utilsBase64decode, if_neg (by omega)]
  rfl

/-- Of a text that is not empty the length is no more than three quarters. -/
theorem reportedLength_le (hpos : n ≠ 0) (h4 : n % 4 = 0) (hn : n < 2 ^ 32) :
    reportedLength data n ≤ n / 4 * 3 := by
  unfold reportedLength
  dsimp only
  split <;> split <;> omega

/-- For the empty text the two bytes are those at the last places of the memory, and the length
wraps if one of them is `=`. -/
theorem reportedLength_zero_iff :
    reportedLength data 0 = 0 ↔ data (2 ^ 32 - 1) ≠ padChar ∧ data (2 ^ 32 - 2) ≠ padChar := by
  unfold reportedLength
  rw [show (0 + 2 ^ 32 - 1) % 2 ^ 32 = 2 ^ 32 - 1 by decide,
    show (0 + 2 ^ 32 - 2) % 2 ^ 32 = 2 ^ 32 - 2 by decide]
  dsimp only
  by_cases hlast : data (2 ^ 32 - 1) = padChar
  · rw [if_pos hlast]
    split
    · exact ⟨fun h => by omega, fun h => absurd hlast h.1⟩
    · exact ⟨fun h => by omega, fun h => absurd hlast h.1⟩
  · rw [if_neg hlast]
    split
    · next h => exact ⟨fun h => by omega, fun hc => absurd h hc.2⟩
    · next h => exact ⟨fun _ => ⟨hlast, h⟩, fun _ => rfl⟩

/-! ## The round trip -/

/-- The decoder on a text whose last two characters are given. -/
theorem utilsBase64decode_text {front : Bytes} {c d : UInt8}
    (htext : memSlice data 0 n = front ++ [c, d]) (h4 : n % 4 = 0) (hn : n < 2 ^ 32)
    (hmax : n / 4 * 3 - padCount c d ≤ max) :
    utilsBase64decode data n max = ⟨successReturn, some (n / 4 * 3 - padCount c d),
        decodeLoop (n / 4 * 3 - padCount c d) (front ++ [c, d]) []⟩ := by
  have hlen : n = front.length + 2 := by
    have h := congrArg List.length htext
    rw [length_memSlice, length_append] at h
    exact h
  have hat : ∀ i, i < n → data i = (front ++ [c, d]).getD i 0 := by
    intro i hi
    rw [← htext, getD_eq_getElem _ _ (by simpa using hi)]
    simp [memSlice]
  have hd : data ((n + 2 ^ 32 - 1) % 2 ^ 32) = d := by
    rw [show (n + 2 ^ 32 - 1) % 2 ^ 32 = n - 1 by omega, hat _ (by omega),
      getD_append_right _ _ _ _ (by omega), show n - 1 - front.length = 1 by omega]
    rfl
  have hc : data ((n + 2 ^ 32 - 2) % 2 ^ 32) = c := by
    rw [show (n + 2 ^ 32 - 2) % 2 ^ 32 = n - 2 by omega, hat _ (by omega),
      getD_append_right _ _ _ _ (by omega), show n - 2 - front.length = 0 by omega]
    rfl
  have hout : reportedLength data n = n / 4 * 3 - padCount c d := by
    unfold reportedLength padCount
    rw [hd, hc]
    dsimp only
    split <;> split <;> omega
  rw [utilsBase64decode_eq h4, hout, if_neg (by omega), htext]

/-- The text of a string is decoded to that string. -/
theorem decode_encode (hx : x ≠ []) {encMax decMax : ℕ} (henc : 4 * ((x.length + 2) / 3) ≤ encMax)
    (hmax : encMax < 2 ^ 32) (hdec : x.length ≤ decMax) :
    ∃ text, utilsBase64encode x encMax = ⟨successReturn, some text.length, text⟩ ∧
      ∀ data, HoldsBytes data text →
        utilsBase64decode data text.length decMax = ⟨successReturn, some x.length, x⟩ := by
  obtain ⟨front, c, d, hpad, hmap, hcount⟩ := padLoop_encodeLoop x hx
  have hlen : (front ++ [c, d]).length = 4 * ((x.length + 2) / 3) := by
    have h := congrArg List.length hmap
    rw [length_map, length_map, length_encodeLoop] at h
    exact h
  have hsmall : x.length + 2 < 2 ^ 32 := by omega
  have hout : 4 * ((x.length + 2) % 2 ^ 32 / 3) % 2 ^ 32 = 4 * ((x.length + 2) / 3) := by
    rw [Nat.mod_eq_of_lt hsmall, Nat.mod_eq_of_lt (by omega)]
  refine ⟨front ++ [c, d], ?_, fun data hdata => ?_⟩
  · rw [utilsBase64encode]
    simp only [hout]
    rw [if_neg (by omega), hlen, ← length_encodeLoop, hpad]
  · have hN : (front ++ [c, d]).length / 4 * 3 - padCount c d = x.length := by omega
    have htext : memSlice data 0 (front ++ [c, d]).length = front ++ [c, d] := by
      rw [hdata.memSlice_eq (by omega), drop_zero, take_length]
    rw [utilsBase64decode_text htext (by omega) (by omega) (by rw [hN]; exact hdec), hN,
      decodeLoop_congr hmap, decodeLoop_encodeLoop x [] (by simp), nil_append]

/-! ## What is written -/

theorem length_decodeLoop (text decoded : Bytes) (h : decoded.length ≤ N) :
    (decodeLoop N text decoded).length ≤ N := by
  fun_induction decodeLoop N text decoded with
  | case1 a b c d rest decoded triple =>
    rename_i ih
    exact ih (length_store _ (length_store _ (length_store _ h)))
  | case2 text decoded hshort => exact h

/-- No more bytes are written than the length that is reported, and that is no more than three
quarters of the text. -/
def Bounded (inputLength : ℕ) (result : Result) : Prop :=
  result.written.length ≤ result.outputLength.getD 0 ∧
    4 * result.outputLength.getD 0 ≤ 3 * inputLength

/-- A text that is not empty is decoded within the bounds, also where it is no text of the
encoder; the empty text if the bytes that are looked at are not `=`. -/
theorem bounded_iff (hn : n < 2 ^ 32) :
    Bounded n (utilsBase64decode data n max) ↔
      (n = 0 → data (2 ^ 32 - 1) ≠ padChar ∧ data (2 ^ 32 - 2) ≠ padChar) := by
  by_cases h4 : n % 4 = 0
  · rw [utilsBase64decode_eq h4]
    have hwritten : ∀ result : Result, result.outputLength = some (reportedLength data n) →
        result.written.length ≤ reportedLength data n →
          (Bounded n result ↔ 4 * reportedLength data n ≤ 3 * n) := by
      intro result hlen hle
      rw [Bounded, hlen]
      exact and_iff_right hle
    have hbounded : Bounded n (if max < reportedLength data n then
        ⟨failReturn, some (reportedLength data n), []⟩
      else ⟨successReturn, some (reportedLength data n),
        decodeLoop (reportedLength data n) (memSlice data 0 n) []⟩) ↔
          4 * reportedLength data n ≤ 3 * n := by
      split
      · exact hwritten _ rfl (Nat.zero_le _)
      · exact hwritten _ rfl (length_decodeLoop _ _ (Nat.zero_le _))
    rw [hbounded]
    by_cases hzero : n = 0
    · subst hzero
      rw [← reportedLength_zero_iff]
      exact ⟨fun h _ => by omega, fun h => by rw [h rfl]⟩
    · have hle : reportedLength data n ≤ n / 4 * 3 := reportedLength_le hzero h4 hn
      exact ⟨fun _ h => absurd h hzero, fun _ => by omega⟩
  · rw [utilsBase64decode, if_pos h4]
    exact ⟨fun _ h => absurd (by rw [h]) h4, fun _ => ⟨le_rfl, by simp⟩⟩

/-- **Base64 of the local connection**: what is encoded is decoded again, and the decoder stays
within the bounds for every text but an empty one with an `=` at the last places of the memory. -/
theorem base64_round_trip_iff (x : Bytes) (hx : x ≠ []) (encMax decMax : ℕ)
    (henc : 4 * ((x.length + 2) / 3) ≤ encMax) (hmax : encMax < 2 ^ 32) (hdec : x.length ≤ decMax)
    (data : Memory) (inputLength outputLenMax : ℕ) (hlen : inputLength < 2 ^ 32) :
    (∃ text, utilsBase64encode x encMax = ⟨successReturn, some text.length, text⟩ ∧
      ∀ data, HoldsBytes data text →
        utilsBase64decode data text.length decMax = ⟨successReturn, some x.length, x⟩) ∧
    (Bounded inputLength (utilsBase64decode data inputLength outputLenMax) ↔
      (inputLength = 0 → data (2 ^ 32 - 1) ≠ padChar ∧ data (2 ^ 32 - 2) ≠ padChar)) :=
  ⟨decode_encode hx henc hmax hdec, bounded_iff hlen⟩

/-- One letter and a text of four `=`. -/
theorem base64_round_trip_letter :
    (∃ text, utilsBase64encode [0x61] 4 = ⟨successReturn, some text.length, text⟩ ∧
      ∀ data, HoldsBytes data text →
        utilsBase64decode data text.length 1 = ⟨successReturn, some 1, [0x61]⟩) ∧
    Bounded 4 (utilsBase64decode (fun _ => padChar) 4 8) := by
  have h := base64_round_trip_iff [0x61] (by decide) 4 1 (by decide) (by decide) (by decide)
    (fun _ => padChar) 4 8 (by decide)
  exact ⟨h.1, h.2.mpr fun h4 => absurd h4 (by decide)⟩

/-- The empty text in a memory of `=`: a length of almost four gigabytes is reported. -/
theorem utils_base64decode_empty :
    utilsBase64decode (fun _ => padChar) 0 16 = ⟨failReturn, some (2 ^ 32 - 2), []⟩ ∧
    ¬ Bounded 0 (utilsBase64decode (fun _ => padChar) 0 16) := by
  refine ⟨by decide, fun h => ?_⟩
  have hne := bounded_iff (by decide) |>.mp h rfl
  exact hne.1 rfl

end Iotkit.AlcsBase64
