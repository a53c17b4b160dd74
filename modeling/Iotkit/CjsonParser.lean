/-
# lite-cjson

`lite_cjson_parse` and the functions that take the items of arrays and objects (`infra_cjson.c`).
Nothing is stored but where a value is, so that every access reads the text again.

A buffer is the list of its bytes, and an offset is a number.  An item is one of
`lite_cjson_t` without `value_double` and `value_int`; its `value` is an offset in the text that has
been parsed.  `LITE_CJSON_NESTING_LIMIT` is a parameter, as a build sets it.
-/
import Iotkit.LibC
import Iotkit.JsonText

open LibC JsonText

namespace Iotkit.Cjson

open List

/-- Why there is no result: `-1` is returned, a byte outside of the buffer is read or one outside
of a local array is written, or the rounds that the model allows are not enough. -/
inductive Stop
  | error
  | outside
  | unfinished
  deriving DecidableEq

/-- The types of items, but for `cJSON_Invalid` and `cJSON_Raw`. -/
inductive ItemType
  | cjsonFalse
  | cjsonTrue
  | cjsonNull
  | cjsonNumber
  | cjsonString
  | cjsonArray
  | cjsonObject
  deriving DecidableEq

/-- `lite_cjson_t` -/
structure Item where
  type : ItemType
  value : ℕ
  valueLength : ℕ
  size : ℕ
  deriving DecidableEq

variable (s : Bytes)

def Item.bytes (item : Item) : Bytes :=
  (s.drop item.value).take item.valueLength

/-- The first byte at an offset, which is read without a check. -/
def byteAt (offset : ℕ) : Except Stop UInt8 :=
  match s[offset]? with
  | none => .error .outside
  | some c => .ok c

/-! ## Blanks -/

def bufferSkipWhitespace (offset : ℕ) : ℕ :=
  let next := offset + ((s.drop offset).takeWhile (· ≤ 32)).length
  if next = s.length then next - 1 else next

def utf8Bom : Bytes := [0xef, 0xbb, 0xbf]

def skipUtf8Bom : ℕ := if 4 < s.length ∧ utf8Bom <+: s then 3 else 0

/-! ## Numbers and strings -/

def digitsLen : ℕ := (s.takeWhile (decide <| IsDigit ·)).length

def signLen : ℕ := if s.head? = some 0x2b ∨ s.head? = some 0x2d then 1 else 0

/-- The length of the fraction at the head of a text, with its point. -/
def fracLen : ℕ := if s.head? = some 0x2e then 1 + digitsLen s.tail else 0

/-- The length of the exponent at the head of a text, if there is one. -/
def expLen : ℕ :=
  if s.head? = some 0x65 ∨ s.head? = some 0x45 then
    let sign := signLen s.tail
    let digits := digitsLen (s.tail.drop sign)
    if digits = 0 then 0 else 1 + sign + digits
  else 0

/-- How many characters `strtod` takes from a text of digits, signs, points and exponents. -/
def strtod : ℕ :=
  let sign := signLen s
  let int := digitsLen (s.drop sign)
  let frac := fracLen (s.drop (sign + int))
  if int + (frac - 1) = 0 then 0
  else sign + int + frac + expLen (s.drop (sign + int + frac))

/-- `parse_number`: `number_c_string` has room for 63 characters and a zero. -/
def parseNumber (offset : ℕ) : Except Stop (Item × ℕ) :=
  let len := strtod (((s.drop offset).take 63).takeWhile (decide <| IsNumberChar ·))
  if len = 0 then .error .error
  else .ok (⟨.cjsonNumber, offset, len, 0⟩, offset + len)

/-- The loop of `parse_string`: how far `input_end` gets to a quote. -/
def inputEnd : Bytes → Option ℕ
  | [] => none
  | c :: s =>
    if c = 0x22 then some 0
    else if c = 0x5c then
      match s with
      | [] => none
      | _ :: s => (inputEnd s).map (· + 2)
    else (inputEnd s).map (· + 1)

def parseString (offset : ℕ) : Except Stop (Item × ℕ) := do
  let c ← byteAt s offset
  if c ≠ 0x22 then .error .error
  else
    match inputEnd (s.drop (offset + 1)) with
    | none => .error .error
    | some n => .ok (⟨.cjsonString, offset + 1, n, 0⟩, offset + 1 + n + 1)

/-! ## Arrays and objects -/

/-- The rounds of the loop of `parse_array` and `parse_object`, of which `item->size` is the number:
what each of them takes, and where the last one ends. -/
def entryLoop {α : Type} (entry : ℕ → Except Stop (α × ℕ)) (s : Bytes) :
    ℕ → ℕ → Except Stop (List α × ℕ)
  | 0, _ => .error .unfinished
  | rounds + 1, offset => do
      let (a, offset) ← entry offset
      if s[offset]? = some 0x2c then
        let (l, offset) ← entryLoop entry s rounds (offset + 1)
        .ok (a :: l, offset)
      else .ok ([a], offset)

/-- The rounds of the same loop up to the entry that is wanted. -/
def itemLoop {α : Type} (entry : ℕ → Except Stop (α × ℕ)) (wanted : ℕ → α → Bool)
    (s : Bytes) : ℕ → ℕ → ℕ → Except Stop α
  | 0, _, _ => .error .unfinished
  | rounds + 1, index, offset => do
      let (a, offset) ← entry offset
      if wanted index a then .ok a
      else if s[offset]? = some 0x2c then itemLoop entry wanted s rounds (index + 1) (offset + 1)
      else .error .error

def parseElement (value : ℕ → Except Stop (Item × ℕ)) (s : Bytes) (offset : ℕ) :
    Except Stop (Item × ℕ) := do
  let (item, offset) ← value (bufferSkipWhitespace s offset)
  .ok (item, bufferSkipWhitespace s offset)

def parseMember (value : ℕ → Except Stop (Item × ℕ)) (s : Bytes) (offset : ℕ) :
    Except Stop ((Item × Item) × ℕ) := do
  let (key, offset) ← parseString s (bufferSkipWhitespace s offset)
  let offset := bufferSkipWhitespace s offset
  if s[offset]? ≠ some 0x3a then .error .error
  else
    let (item, offset) ← parseElement value s (offset + 1)
    .ok ((key, item), offset)

/-- `parse_array` and `parse_object` behind the bracket. -/
def parseEntries {α : Type} (closing : UInt8) (type : ItemType)
    (entry : ℕ → Except Stop (α × ℕ)) (s : Bytes) (startPos : ℕ) :
    Except Stop (Item × ℕ) := do
  let first := bufferSkipWhitespace s (startPos + 1)
  if s[first]? = some closing then .ok (⟨type, startPos, first - startPos + 1, 0⟩, first + 1)
  else if s.length ≤ first then .error .error
  else
    let (l, last) ← entryLoop entry s (s.length + 1) first
    if s[last]? ≠ some closing then .error .error
    else .ok (⟨type, startPos, last - startPos + 1, l.length⟩, last + 1)

/-- `parse_array`, where the depth has not been counted up yet. -/
def parseArray (limit : ℕ) (value : ℕ → ℕ → Except Stop (Item × ℕ)) (s : Bytes)
    (depth offset : ℕ) : Except Stop (Item × ℕ) := do
  if limit ≤ depth then .error .error
  else
    let c ← byteAt s offset
    if c ≠ 0x5b then .error .error
    else parseEntries 0x5d .cjsonArray (parseElement (value (depth + 1)) s) s offset

def parseObject (limit : ℕ) (value : ℕ → ℕ → Except Stop (Item × ℕ)) (s : Bytes)
    (depth offset : ℕ) : Except Stop (Item × ℕ) :=
  if limit ≤ depth then .error .error
  else if s[offset]? ≠ some 0x7b then .error .error
  else parseEntries 0x7d .cjsonObject (parseMember (value (depth + 1)) s) s offset

/-- `parse_value`, where the first number bounds how often it calls itself. -/
def parseValue (limit : ℕ) (s : Bytes) : ℕ → ℕ → ℕ → Except Stop (Item × ℕ)
  | 0, _, _ => .error .unfinished
  | rounds + 1, depth, offset =>
    if nullText <+: s.drop offset then .ok (⟨.cjsonNull, offset, 4, 0⟩, offset + 4)
    else if falseText <+: s.drop offset then .ok (⟨.cjsonFalse, offset, 5, 0⟩, offset + 5)
    else if trueText <+: s.drop offset then .ok (⟨.cjsonTrue, offset, 4, 0⟩, offset + 4)
    else if s[offset]? = some 0x22 then parseString s offset
    else if s[offset]? = some 0x2d ∨ s[offset]?.any (decide <| IsDigit ·) then parseNumber s offset
    else if s[offset]? = some 0x5b then parseArray limit (parseValue limit s rounds) s depth offset
    else if s[offset]? = some 0x7b then parseObject limit (parseValue limit s rounds) s depth offset
    else .error .error

/-- `parse_value` with a depth of zero. -/
def parseTop (limit : ℕ) (s : Bytes) (offset : ℕ) : Except Stop (Item × ℕ) :=
  parseValue limit s (limit + 1) 0 offset

/-- `lite_cjson_parse`, for a text that is not empty. -/
def liteCjsonParse (limit : ℕ) (src : Bytes) : Except Stop Item :=
  if src = [] then .error .error
  else (parseTop limit src (bufferSkipWhitespace src (skipUtf8Bom src))).map (·.1)

/-! ## Items -/

/-- An item of a part of a text, in the text. -/
def Item.shift (item : Item) (offset : ℕ) : Item := { item with value := offset + item.value }

/-- The entries of the part of a text that begins with a bracket, up to the one that is wanted. -/
def findEntry {α : Type} (closing : UInt8) (entry : ℕ → Except Stop (α × ℕ))
    (wanted : ℕ → α → Bool) (s : Bytes) : Except Stop α :=
  let first := bufferSkipWhitespace s 1
  if s[first]? = some closing then .error .error
  else if s.length ≤ first then .error .error
  else itemLoop entry wanted s (s.length + 1) 0 first

def liteCjsonArrayItem (limit : ℕ) (text : Bytes) (lite : Item) (index : ℤ) :
    Except Stop Item := do
  if lite.type ≠ .cjsonArray ∨ index < 0 ∨ lite.size ≤ index then .error .error
  else
    let s := lite.bytes text
    let c ← byteAt s 0
    if c ≠ 0x5b then .error .error
    else
      let item ← findEntry 0x5d (parseElement (parseTop limit s) s) (fun i _ => i = index) s
      .ok (item.shift lite.value)

/-- The members of an object, up to the one that is wanted. -/
def findMember (limit : ℕ) (text : Bytes) (lite : Item) (wanted : ℕ → Item × Item → Bool) :
    Except Stop (Item × Item) := do
  let s := lite.bytes text
  if s[0]? ≠ some 0x7b then .error .error
  else
    let (key, value) ← findEntry 0x7d (parseMember (parseTop limit s) s) wanted s
    .ok (key.shift lite.value, value.shift lite.value)

/-- `_lite_cjson_object_item`, where `key` has `key_len` bytes. -/
def liteCjsonObjectItemOf (limit : ℕ) (text : Bytes) (lite : Item) (key : Bytes) :
    Except Stop Item := do
  if lite.type ≠ .cjsonObject ∨ lite.size = 0 ∨ key = [] then .error .error
  else
    let (_, value) ← findMember limit text lite fun _ kv => kv.1.bytes (lite.bytes text) = key
    .ok value

def liteCjsonObjectItemByIndex (limit : ℕ) (text : Bytes) (lite : Item) (index : ℤ) :
    Except Stop (Item × Item) :=
  if lite.type ≠ .cjsonObject ∨ lite.size = 0 ∨ index < 0 ∨ lite.size ≤ index then .error .error
  else findMember limit text lite fun i _ => i = index

/-! ## Positions -/

section Positions

variable {s u w : Bytes} {p : ℕ} {c : UInt8}

theorem drop_add (h : s.drop p = u ++ w) : s.drop (p + u.length) = w := by
  rw [← drop_drop, h, drop_left]

theorem getElem?_of_drop (h : s.drop p = c :: w) : s[p]? = some c := by
  have hget : (s.drop p)[0]? = s[p + 0]? := List.getElem?_drop
  rw [h] at hget
  exact hget.symm

theorem lt_of_drop (h : s.drop p = c :: w) : p < s.length :=
  (List.getElem?_eq_some_iff.mp (getElem?_of_drop h)).1

theorem byteAt_of_drop (h : s.drop p = c :: w) : byteAt s p = .ok c := by
  unfold byteAt
  rw [getElem?_of_drop h]

theorem length_of_drop (h : s.drop p = u) (hp : p ≤ s.length) : s.length = p + u.length := by
  have hlen := congrArg List.length h
  rw [length_drop] at hlen
  omega

theorem bufferSkipWhitespace_eq (hblank : ∀ d ∈ u, d ≤ 32) (hc : 32 < c)
    (h : s.drop p = u ++ c :: w) : bufferSkipWhitespace s p = p + u.length := by
  have htake : (s.drop p).takeWhile (· ≤ 32) = u := by
    rw [h, takeWhile_append_of_pos fun d hd => decide_eq_true (hblank d hd),
      takeWhile_cons_of_neg (by simpa using hc), append_nil]
  have hlt := lt_of_drop (drop_add h)
  rw [bufferSkipWhitespace, htake]
  exact if_neg hlt.ne

theorem bufferSkipWhitespace_end (hp : p ≤ s.length) (hblank : ∀ d ∈ s.drop p, d ≤ 32) :
    bufferSkipWhitespace s p = s.length - 1 := by
  have htake : (s.drop p).takeWhile (· ≤ 32) = s.drop p :=
    takeWhile_eq_self_iff.mpr fun d hd => decide_eq_true (hblank d hd)
  have hlen := length_of_drop rfl hp
  rw [bufferSkipWhitespace, htake, if_pos hlen.symm, ← hlen]

theorem exists_blanks (s : Bytes) (p : ℕ) :
    (∀ d ∈ s.drop p, d ≤ 32) ∨
      ∃ u c w, (∀ d ∈ u, d ≤ 32) ∧ 32 < c ∧ s.drop p = u ++ c :: w := by
  cases hrest : (s.drop p).dropWhile (· ≤ 32) with
  | nil => exact .inl fun d hd => of_decide_eq_true (dropWhile_eq_nil_iff.mp hrest d hd)
  | cons c w =>
    refine .inr ⟨(s.drop p).takeWhile (· ≤ 32), c, w, fun d hd => ?_, ?_,
      hrest ▸ takeWhile_append_dropWhile.symm⟩
    · have hle := mem_takeWhile_imp hd
      exact of_decide_eq_true hle
    have hne : (s.drop p).dropWhile (· ≤ 32) ≠ [] := hrest ▸ cons_ne_nil c w
    have hhead := head_dropWhile_not (fun d => decide (d ≤ 32)) hne
    simp only [hrest, head_cons] at hhead
    simpa using hhead

theorem bufferSkipWhitespace_idem (s : Bytes) (p : ℕ) :
    bufferSkipWhitespace s (bufferSkipWhitespace s p) = bufferSkipWhitespace s p := by
  by_cases hp : p ≤ s.length
  · rcases exists_blanks s p with hblank | ⟨u, c, w, hblank, hc, h⟩
    · rw [bufferSkipWhitespace_end hp hblank]
      rcases exists_blanks s (s.length - 1) with hlast | ⟨u, c, w, hu, hc, hlast⟩
      · exact bufferSkipWhitespace_end (Nat.sub_le _ _) hlast
      · rw [bufferSkipWhitespace_eq hu hc hlast]
        have hlt := lt_of_drop (drop_add hlast)
        omega
    · rw [bufferSkipWhitespace_eq hblank hc h]
      have hself : s.drop (p + u.length) = [] ++ c :: w := drop_add h
      exact bufferSkipWhitespace_eq (fun d hd => absurd hd not_mem_nil) hc hself
  · have hskip : bufferSkipWhitespace s p = p := by
      rw [bufferSkipWhitespace, drop_eq_nil_of_le (by omega)]
      exact if_neg (by simp only [takeWhile_nil, length_nil]; omega)
    rw [hskip, hskip]

end Positions

end Iotkit.Cjson
