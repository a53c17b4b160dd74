/-
# The JSON reader

`json_get_next_object` and what is built on it (`infra_json_parser.c`): the iteration over the
members of an object and the elements of an array, and `json_get_value_by_name`.

Memory is the list of the bytes from the text on, with zeros behind it, and a pointer is an
offset.  The reader looks for quotes and colons past the end of the text; what it delivers does not
depend on what it finds there.
-/
import Iotkit.LibC

open LibC

namespace Iotkit.Json

open List Option

/-- `enum JSONTYPE`, but for `JNONE`. -/
inductive JsonType
  | jstring
  | jobject
  | jarray
  | jnumber
  | jboolean
  deriving DecidableEq

/-- A pointer and a length. -/
structure Span where
  start : ℕ
  len : ℕ
  deriving DecidableEq

variable (mem : Bytes)

def Span.bytes (span : Span) : Bytes :=
  (mem.drop span.start).take span.len

/-- How far `strchr` finds a character. -/
def strchr (ch : UInt8) : Bytes → Option ℕ
  | [] => none
  | c :: s => if c = ch then some 0 else if c = 0 then none else (strchr ch s).map (· + 1)

/-- The bytes from `p` up to `str_end`. -/
def window (p strEnd : ℕ) : Bytes := (mem.drop p).take (strEnd - p)

/-- `json_get_object`: how far the opening character is, behind spaces. -/
def jsonGetObject (ch : UInt8) : Bytes → Option ℕ
  | [] => none
  | c :: s =>
    if c = 0 then none
    else if c = 0x20 then (jsonGetObject ch s).map (· + 1)
    else if c = ch then some 0
    else none

/-! ## One value -/

/-- The type of the value that begins with a character. -/
def valueType (c : UInt8) : Option JsonType :=
  if c = 0x22 then some .jstring
  else if c = 0x7b then some .jobject
  else if c = 0x5b then some .jarray
  else if c = 0x2d ∨ isDigit c then some .jnumber
  else if c = 0x74 ∨ c = 0x54 ∨ c = 0x66 ∨ c = 0x46 then some .jboolean
  else none

/-- The first loop of `json_get_next_object`: the type of the next value, and how far its first
character is. -/
def findValue : Bytes → Option (JsonType × ℕ)
  | [] => none
  | c :: s =>
    if c = 0 then none
    else
      match valueType c with
      | some type => some (type, 0)
      | none => (findValue s).map fun found => (found.1, found.2 + 1)

/-- The second loop, in a number: how far the first character is that is none of it. -/
def scanNumber : Bytes → Option ℕ
  | [] => none
  | c :: s =>
    if c = 0 then none
    else if ¬ isDigit c ∧ c ≠ 0x2e ∧ c ≠ 0x2b ∧ c ≠ 0x2d ∧ c ≠ 0x65 ∧ c ≠ 0x45 then some 0
    else (scanNumber s).map (· + 1)

/-- The second loop, in an object or array: how far the mark is that closes it. -/
def scanMarks (opening closing : UInt8) : Bytes → ℕ → Bool → Option ℕ
  | [], _, _ => none
  | c :: s, iMarkDepth, iStringDepth =>
    if c = 0 then none
    else if c = closing then
      if iStringDepth then (scanMarks opening closing s iMarkDepth iStringDepth).map (· + 1)
      else if iMarkDepth = 0 then some 0
      else (scanMarks opening closing s (iMarkDepth - 1) iStringDepth).map (· + 1)
    else if c = opening then
      (scanMarks opening closing s (if iStringDepth then iMarkDepth else iMarkDepth + 1)
        iStringDepth).map (· + 1)
    else if c = 0x22 then (scanMarks opening closing s iMarkDepth !iStringDepth).map (· + 1)
    else (scanMarks opening closing s iMarkDepth iStringDepth).map (· + 1)

/-- The length of `true` or `false`, in small or in capital letters. -/
def booleanLen (s : Bytes) : ℕ :=
  if [0x74, 0x72, 0x75, 0x65] <+: s ∨ [0x54, 0x52, 0x55, 0x45] <+: s then 4
  else if [0x66, 0x61, 0x6c, 0x73, 0x65] <+: s ∨ [0x46, 0x41, 0x4c, 0x53, 0x45] <+: s then 5
  else 0

/-- `iValueLen` for the value at `value`, zero if it does not end. -/
def valueLen (strEnd : ℕ) (type : JsonType) (value : ℕ) : ℕ :=
  match type with
  | .jstring => (strchr 0x22 (window mem value strEnd)).getD 0
  | .jobject => ((scanMarks 0x7b 0x7d (window mem (value + 1) strEnd) 0 false).map (· + 2)).getD 0
  | .jarray => ((scanMarks 0x5b 0x5d (window mem (value + 1) strEnd) 0 false).map (· + 2)).getD 0
  | .jnumber => ((scanNumber (window mem (value + 1) strEnd)).map (· + 1)).getD 0
  | .jboolean => booleanLen (mem.drop value)

/-- A value, and the pointer that is returned with it. -/
structure JsonValue where
  type : JsonType
  val : Span
  pos : ℕ
  deriving DecidableEq

/-- `json_get_next_object` from where the value is looked for, as for a `JARRAY`. -/
def jsonNextValue (pos strEnd : ℕ) : Option JsonValue :=
  match findValue (window mem pos strEnd) with
  | none => none
  | some (type, n) =>
    let value := if type = .jstring then pos + n + 1 else pos + n
    let len := valueLen mem strEnd type value
    if value + len > strEnd then none
    else some ⟨type, ⟨value, len⟩, if type = .jstring then value + len + 1 else value + len⟩

structure JsonKv extends JsonValue where
  key : Span
  deriving DecidableEq

/-- `json_get_next_object` for a `JOBJECT`, if it does not return `NULL`. -/
def jsonGetNextObject (str strEnd : ℕ) : Option JsonKv :=
  match strchr 0x22 (mem.drop str) with
  | none => none
  | some n =>
    let name := str + n + 1
    match strchr 0x22 (mem.drop name) with
    | none => none
    | some nameLen =>
      if name + nameLen > strEnd then none
      else
        match strchr 0x3a (mem.drop (name + nameLen)) with
        | none => none
        | some n =>
          (jsonNextValue mem (name + nameLen + n) strEnd).map fun value =>
            ⟨value, ⟨name, nameLen⟩⟩

/-! ## Iteration -/

/-- The rounds of `json_object_for_each_kv`; each one gets further in the text. -/
def kvLoop (mem : Bytes) (strEnd : ℕ) : ℕ → ℕ → List JsonKv
  | 0, _ => []
  | rounds + 1, pos =>
    if mem.getD pos 0 = 0 then []
    else
      match jsonGetNextObject mem pos strEnd with
      | none => []
      | some kv => kv :: kvLoop mem strEnd rounds kv.pos

def jsonObjectForEachKv (slen : ℕ) : List JsonKv :=
  match jsonGetObject 0x7b (window mem 0 slen) with
  | none => []
  | some pos => kvLoop mem slen slen pos

/-- The rounds of `json_array_for_each_entry`. -/
def entryLoop (mem : Bytes) (strEnd : ℕ) : ℕ → ℕ → List JsonValue
  | 0, _ => []
  | rounds + 1, pos =>
    if mem.getD pos 0 = 0 then []
    else
      match jsonNextValue mem (pos + 1) strEnd with
      | none => []
      | some value => value :: entryLoop mem strEnd rounds value.pos

def jsonArrayForEachEntry (slen : ℕ) : List JsonValue :=
  match jsonGetObject 0x5b (window mem 0 slen) with
  | none => []
  | some pos => entryLoop mem slen slen pos

def JsonKv.nonempty (kv : JsonKv) : Bool := kv.key.len ≠ 0 ∧ kv.val.len ≠ 0

/-- What `json_parse_name_value` hands to its callback, for as long as that goes on. -/
def jsonParseNameValue (slen : ℕ) : List JsonKv :=
  (jsonObjectForEachKv mem slen).filter JsonKv.nonempty

/-- `json_get_value_by_name`: nothing if the result is `JSON_RESULT_ERR`, so that the length is
not written either; else the value, if there is one. -/
def jsonGetValueByName (slen : ℕ) (name : Bytes) : Option (Option Span) :=
  match jsonParseNameValue mem slen with
  | [] => none
  | kv :: kvs =>
    some (((kv :: kvs).find? fun kv => kv.key.len = name.length ∧
      strncmpEq (ofString (kv.key.bytes mem)) (ofString name) name.length).map (·.val))

/-! ## Searching a longer text -/

variable {s : Bytes}

theorem strchr_append_of_some {ch : UInt8} {n : ℕ} (h : strchr ch s = some n) (t : Bytes) :
    strchr ch (s ++ t) = some n ∧ n < s.length := by
  induction s generalizing n with
  | nil => simp [strchr] at h
  | cons c s ih =>
    rw [strchr] at h
    rw [cons_append, strchr, length_cons]
    split_ifs at h ⊢
    · obtain rfl := Option.some.inj h
      exact ⟨rfl, Nat.succ_pos _⟩
    · obtain ⟨m, hm, rfl⟩ := map_eq_some_iff.mp h
      obtain ⟨hsome, hlt⟩ := ih hm
      rw [hsome]
      exact ⟨rfl, Nat.succ_lt_succ hlt⟩

theorem strchr_append_of_none {ch : UInt8} {t : Bytes} {n : ℕ} (h : strchr ch s = none)
    (hn : strchr ch (s ++ t) = some n) : s.length ≤ n := by
  induction s generalizing n with
  | nil => exact Nat.zero_le n
  | cons c s ih =>
    rw [strchr] at h
    rw [cons_append, strchr] at hn
    split_ifs at h hn
    obtain ⟨m, hm, rfl⟩ := map_eq_some_iff.mp hn
    exact Nat.succ_le_succ (ih (map_eq_none_iff.mp h) hm)

theorem strchr_eq_none {ch : UInt8} (h : ch ∉ s) : strchr ch s = none := by
  induction s with
  | nil => rfl
  | cons c s ih =>
    rw [mem_cons, not_or] at h
    rw [strchr, if_neg (Ne.symm h.1), ih h.2]
    simp

/-- What a search finds from `p` on in a text with bytes behind it: the same as in the text alone, or
nothing that lies in it. -/
theorem strchr_drop_append (ch : UInt8) (text behind : Bytes) (p : ℕ) :
    (∃ n, strchr ch (text.drop p) = some n ∧ strchr ch ((text ++ behind).drop p) = some n ∧
        p + n < text.length) ∨
      strchr ch (text.drop p) = none ∧
        ∀ n, strchr ch ((text ++ behind).drop p) = some n → text.length ≤ p + n := by
  rw [drop_append]
  cases h : strchr ch (text.drop p) with
  | some n =>
    obtain ⟨hsome, hlt⟩ := strchr_append_of_some h (behind.drop (p - text.length))
    rw [length_drop] at hlt
    exact Or.inl ⟨n, rfl, hsome, by omega⟩
  | none =>
    refine .inr ⟨rfl, fun n hn => ?_⟩
    have hle := strchr_append_of_none h hn
    rw [length_drop] at hle
    omega

variable (text behind : Bytes)

/-- Up to its end, a text reads the same whatever is behind it. -/
theorem window_append (p : ℕ) : window (text ++ behind) p text.length = text.drop p := by
  unfold window
  rw [drop_append, take_append_of_le_length (by rw [length_drop])]
  exact take_of_length_le (by rw [length_drop])

theorem window_self (p : ℕ) : window text p text.length = text.drop p :=
  take_of_length_le (by rw [length_drop])

/-! ## Reading a longer text -/

/-- The texts of a boolean value. -/
def booleanTexts : List Bytes :=
  [[0x74, 0x72, 0x75, 0x65], [0x54, 0x52, 0x55, 0x45], [0x66, 0x61, 0x6c, 0x73, 0x65],
    [0x46, 0x41, 0x4c, 0x53, 0x45]]

theorem booleanTexts_eq : ∀ w ∈ booleanTexts, ∀ w' ∈ booleanTexts, w <+: w' → w = w' := by
  decide

theorem booleanLen_cases (s : Bytes) :
    (booleanLen s = 0 ∧ ∀ w ∈ booleanTexts, ¬ w <+: s) ∨
      ∃ w ∈ booleanTexts, w <+: s ∧ booleanLen s = w.length := by
  unfold booleanLen
  split_ifs with h4 h5
  · rcases h4 with h | h
    · exact .inr ⟨_, by decide, h, rfl⟩
    · exact .inr ⟨_, by decide, h, rfl⟩
  · rcases h5 with h | h
    · exact .inr ⟨_, by decide, h, rfl⟩
    · exact .inr ⟨_, by decide, h, rfl⟩
  · refine .inl ⟨rfl, fun w hw => ?_⟩
    obtain ⟨h1, h2⟩ := not_or.mp h4
    obtain ⟨h3, h4⟩ := not_or.mp h5
    simp only [booleanTexts, mem_cons, not_mem_nil, or_false] at hw
    rcases hw with rfl | rfl | rfl | rfl <;> assumption

theorem booleanLen_append (s t : Bytes) :
    booleanLen (s ++ t) = booleanLen s ∨
      s.length < booleanLen (s ++ t) ∧ booleanLen s = 0 ∧ 0x22 ∉ s := by
  rcases booleanLen_cases (s ++ t) with ⟨hzero, hnone⟩ | ⟨w, hw, hpre, hlen⟩
  · rcases booleanLen_cases s with ⟨hzero', -⟩ | ⟨w, hw, hpre, -⟩
    · exact .inl (hzero.trans hzero'.symm)
    · exact absurd (hpre.trans (prefix_append s t)) (hnone w hw)
  rcases Nat.lt_or_ge s.length w.length with hlt | hge
  · right
    have hs := prefix_of_prefix_length_le (prefix_append s t) hpre hlt.le
    have hquote : ∀ w ∈ booleanTexts, 0x22 ∉ w := by decide
    refine ⟨hlen ▸ hlt, ?_, fun hmem => hquote w hw (hs.subset hmem)⟩
    rcases booleanLen_cases s with ⟨hzero, -⟩ | ⟨w', hw', hpre', -⟩
    · exact hzero
    · rw [booleanTexts_eq w' hw' w hw (hpre'.trans hs)] at hpre'
      exact absurd hpre'.length_le (by omega)
  · left
    have hs := prefix_of_prefix_length_le hpre (prefix_append s t) hge
    rcases booleanLen_cases s with ⟨-, hnone⟩ | ⟨w', hw', hpre', hlen'⟩
    · exact absurd hs (hnone w hw)
    · rw [hlen, hlen']
      rcases prefix_or_prefix_of_prefix hs hpre' with h | h
      · rw [booleanTexts_eq w hw w' hw' h]
      · rw [booleanTexts_eq w' hw' w hw h]

variable {pos strEnd : ℕ}

theorem jsonNextValue_of_le (h : strEnd ≤ pos) : jsonNextValue mem pos strEnd = none := by
  unfold jsonNextValue window
  rw [Nat.sub_eq_zero_of_le h, take_zero]
  rfl

theorem findValue_lt {type : JsonType} {n : ℕ} (h : findValue s = some (type, n)) :
    n < s.length := by
  induction s generalizing n with
  | nil => simp [findValue] at h
  | cons c s ih =>
    rw [findValue] at h
    split_ifs at h
    cases htype : valueType c with
    | some type' =>
      rw [htype] at h
      obtain ⟨-, rfl⟩ := Prod.mk.inj (Option.some.inj h)
      exact Nat.succ_pos _
    | none =>
      rw [htype] at h
      obtain ⟨⟨type', m⟩, hm, heq⟩ := map_eq_some_iff.mp h
      obtain ⟨rfl, rfl⟩ := Prod.mk.inj heq
      exact Nat.succ_lt_succ (ih hm)

variable {mem : Bytes}

/-- A value lies between where it is looked for and the end, and reading goes on behind it. -/
theorem jsonNextValue_bounds {value : JsonValue} (h : jsonNextValue mem pos strEnd = some value) :
    pos < strEnd ∧ value.val.start + value.val.len ≤ strEnd ∧ pos ≤ value.val.start ∧
      value.val.start + value.val.len ≤ value.pos ∧ value.pos ≤ strEnd + 1 := by
  have hlt : pos < strEnd := by
    by_contra hle
    rw [jsonNextValue_of_le mem (not_lt.mp hle)] at h
    cases h
  unfold jsonNextValue at h
  split at h
  · cases h
  · next type n hfound =>
      simp only at h
      split_ifs at h with hstring
      all_goals
        obtain rfl := Option.some.inj h
        refine ⟨hlt, ?_, ?_, ?_, ?_⟩ <;> simp only <;> omega

/-- The next value of a text is the same in a longer one, where only what the end of the text can
begin gets lost, an empty value behind which there is no quote. -/
theorem jsonNextValue_append (pos : ℕ) :
    jsonNextValue (text ++ behind) pos text.length = jsonNextValue text pos text.length ∨
      jsonNextValue (text ++ behind) pos text.length = none ∧
        ∃ value, jsonNextValue text pos text.length = some value ∧ value.val.len = 0 ∧
          0x22 ∉ text.drop value.pos := by
  unfold jsonNextValue
  rw [window_append, window_self]
  cases hfound : findValue (text.drop pos) with
  | none => exact .inl rfl
  | some found =>
    obtain ⟨type, n⟩ := found
    by_cases hbool : type = .jboolean
    · subst hbool
      have hn := findValue_lt hfound
      rw [length_drop] at hn
      have hdrop : (text ++ behind).drop (pos + n) = text.drop (pos + n) ++ behind := by
        rw [drop_append_of_le_length (by omega)]
      simp only [reduceCtorEq, if_false, valueLen, hdrop]
      rcases booleanLen_append (text.drop (pos + n)) behind with hlen | ⟨hlt, hzero, hquote⟩
      · rw [hlen]
        exact .inl rfl
      right
      rw [length_drop] at hlt
      rw [if_pos (by omega), if_neg (by omega)]
      refine ⟨rfl, _, rfl, hzero, ?_⟩
      rw [hzero]
      exact hquote
    · have hlen : ∀ value, valueLen (text ++ behind) text.length type value
          = valueLen text text.length type value := by
        intro value
        cases type with
        | jboolean => exact absurd rfl hbool
        | _ => simp only [valueLen, window_append, window_self]
      simp only [hlen, true_or]

theorem jsonGetNextObject_of_le (mem : Bytes) {str : ℕ} (h : strEnd ≤ str) :
    jsonGetNextObject mem str strEnd = none := by
  unfold jsonGetNextObject
  split
  · rfl
  · simp only
    split
    · rfl
    · rw [if_pos (by omega)]

theorem jsonGetNextObject_bounds {str : ℕ} {kv : JsonKv}
    (h : jsonGetNextObject mem str strEnd = some kv) :
    str < kv.key.start ∧ kv.key.start + kv.key.len ≤ kv.val.start ∧
      kv.val.start + kv.val.len ≤ strEnd ∧ kv.val.start + kv.val.len ≤ kv.pos := by
  unfold jsonGetNextObject at h
  split at h
  · cases h
  · next n hname =>
      simp only at h
      split at h
      · cases h
      · next nameLen hend =>
          split_ifs at h
          split at h
          · cases h
          · next m hcolon =>
              obtain ⟨value, hvalue, rfl⟩ := map_eq_some_iff.mp h
              obtain ⟨-, hstart, hle, hpos, -⟩ := jsonNextValue_bounds hvalue
              refine ⟨?_, ?_, ?_, ?_⟩ <;> simp only <;> omega

theorem jsonGetNextObject_append (str : ℕ) :
    jsonGetNextObject (text ++ behind) str text.length = jsonGetNextObject text str text.length ∨
      jsonGetNextObject (text ++ behind) str text.length = none ∧
        ∃ kv, jsonGetNextObject text str text.length = some kv ∧ kv.val.len = 0 ∧
          0x22 ∉ text.drop kv.pos := by
  -- what is found behind the end leads to nothing
  have hcolon : ∀ p, text.length ≤ p → ∀ key : Span,
      (match strchr 0x3a ((text ++ behind).drop p) with
        | none => none
        | some n => (jsonNextValue (text ++ behind) (p + n) text.length).map fun value =>
          (⟨value, key⟩ : JsonKv)) = none := by
    intro p hp key
    cases strchr 0x3a ((text ++ behind).drop p) with
    | none => rfl
    | some n =>
      simp only [jsonNextValue_of_le (text ++ behind) (show text.length ≤ p + n by omega),
        map_none]
  unfold jsonGetNextObject
  rcases strchr_drop_append 0x22 text behind str with ⟨n, hn, hn', hlt⟩ | ⟨hn, hfar⟩
  · rw [hn, hn']
    simp only
    rcases strchr_drop_append 0x22 text behind (str + n + 1) with ⟨m, hm, hm', hlt'⟩ | ⟨hm, hfar⟩
    · rw [hm, hm']
      simp only
      rw [if_neg (by omega), if_neg (by omega)]
      rcases strchr_drop_append 0x3a text behind (str + n + 1 + m) with ⟨k, hk, hk', -⟩ | ⟨hk, hfar⟩
      · rw [hk, hk']
        simp only
        rcases jsonNextValue_append text behind (str + n + 1 + m + k) with
          heq | ⟨hnone, value, hvalue, hlen, hquote⟩
        · rw [heq]
          exact .inl rfl
        · rw [hnone, hvalue]
          exact .inr ⟨rfl, _, rfl, hlen, hquote⟩
      · left
        rw [hk]
        cases hk' : strchr 0x3a ((text ++ behind).drop (str + n + 1 + m)) with
        | none => rfl
        | some k => simp only [jsonNextValue_of_le _ (hfar k hk'), map_none]
    · left
      rw [hm]
      cases hm' : strchr 0x22 ((text ++ behind).drop (str + n + 1)) with
      | none => rfl
      | some m =>
        simp only
        rw [hcolon _ (hfar m hm'), ite_self]
  · left
    rw [hn]
    cases hn' : strchr 0x22 ((text ++ behind).drop str) with
    | none => rfl
    | some n =>
      simp only
      have hle := hfar n hn'
      cases strchr 0x22 ((text ++ behind).drop (str + n + 1)) with
      | none => rfl
      | some m => exact if_pos (by omega)

/-! ## Iterating over a longer text -/

theorem kvLoop_rounds (mem : Bytes) (strEnd : ℕ) {rounds rounds' : ℕ}
    (h : strEnd ≤ pos + rounds) (h' : strEnd ≤ pos + rounds') :
    kvLoop mem strEnd rounds pos = kvLoop mem strEnd rounds' pos := by
  have hend : ∀ rounds pos, strEnd ≤ pos → kvLoop mem strEnd rounds pos = [] := by
    intro rounds pos hle
    cases rounds with
    | zero => rfl
    | succ rounds =>
      rw [kvLoop, jsonGetNextObject_of_le mem hle]
      exact ite_self _
  induction rounds generalizing rounds' pos with
  | zero => rw [hend 0 pos (by omega), hend rounds' pos (by omega)]
  | succ rounds ih =>
    cases rounds' with
    | zero => rw [hend _ pos (by omega), hend _ pos (by omega)]
    | succ rounds' =>
      rw [kvLoop, kvLoop]
      cases hkv : jsonGetNextObject mem pos strEnd with
      | none => rfl
      | some kv =>
        have hpos := jsonGetNextObject_bounds hkv
        have htail : kvLoop mem strEnd rounds kv.pos = kvLoop mem strEnd rounds' kv.pos :=
          ih (by omega) (by omega)
        simp only [htail]

theorem Span.bytes_append {text : Bytes} {span : Span}
    (h : span.start + span.len ≤ text.length) : span.bytes (text ++ behind) = span.bytes text := by
  unfold Span.bytes
  rw [drop_append_of_le_length (by omega),
    take_append_of_le_length (by rw [length_drop]; omega)]

theorem kvLoop_append (rounds : ℕ) :
    ∀ pos, (kvLoop (text ++ behind) text.length rounds pos).filter JsonKv.nonempty
      = (kvLoop text text.length rounds pos).filter JsonKv.nonempty := by
  induction rounds with
  | zero => exact fun _ => rfl
  | succ rounds ih =>
    intro pos
    rw [kvLoop, kvLoop]
    by_cases hlt : pos < text.length
    · have hget : (text ++ behind).getD pos 0 = text.getD pos 0 := by
        rw [getD_append _ _ _ _ hlt]
      rw [hget]
      split_ifs
      · rfl
      · rcases jsonGetNextObject_append text behind pos with
          heq | ⟨hnone, kv, hkv, hlen, hquote⟩
        · rw [heq]
          cases jsonGetNextObject text pos text.length with
          | none => rfl
          | some kv => simp only [filter_cons, ih kv.pos]
        have hstop : jsonGetNextObject text kv.pos text.length = none := by
          unfold jsonGetNextObject
          rw [strchr_eq_none hquote]
        have hrest : kvLoop text text.length rounds kv.pos = [] := by
          cases rounds with
          | zero => rfl
          | succ rounds =>
            rw [kvLoop, hstop]
            exact ite_self _
        rw [hnone, hkv]
        simp [hrest, JsonKv.nonempty, hlen]
    · rw [jsonGetNextObject_of_le _ (not_lt.mp hlt), jsonGetNextObject_of_le _ (not_lt.mp hlt)]
      simp only [ite_self]

theorem jsonParseNameValue_append :
    jsonParseNameValue (text ++ behind) text.length = jsonParseNameValue text text.length := by
  unfold jsonParseNameValue jsonObjectForEachKv
  rw [window_append, window_self]
  cases jsonGetObject 0x7b (text.drop 0) with
  | none => rfl
  | some pos => exact kvLoop_append text behind text.length pos

theorem bounds_of_mem_kvLoop {rounds : ℕ} {kv : JsonKv} (h : kv ∈ kvLoop mem strEnd rounds pos) :
    kv.key.start + kv.key.len ≤ strEnd ∧ kv.val.start + kv.val.len ≤ strEnd := by
  induction rounds generalizing pos with
  | zero => cases h
  | succ rounds ih =>
    rw [kvLoop] at h
    split_ifs at h
    · cases h
    · cases hkv : jsonGetNextObject mem pos strEnd with
      | none =>
        rw [hkv] at h
        cases h
      | some first =>
        rw [hkv] at h
        rcases mem_cons.mp h with rfl | htail
        · have hbounds := jsonGetNextObject_bounds hkv
          omega
        · exact ih htail

theorem bounds_of_mem_jsonParseNameValue {slen : ℕ} {kv : JsonKv}
    (h : kv ∈ jsonParseNameValue mem slen) :
    kv.key.start + kv.key.len ≤ slen ∧ kv.val.start + kv.val.len ≤ slen := by
  have hmem : kv ∈ jsonObjectForEachKv mem slen := mem_of_mem_filter h
  unfold jsonObjectForEachKv at hmem
  cases hpos : jsonGetObject 0x7b (window mem 0 slen) with
  | none =>
    rw [hpos] at hmem
    cases hmem
  | some pos =>
    rw [hpos] at hmem
    exact bounds_of_mem_kvLoop hmem

/-- **The reader depends on the text alone.**  What `json_get_value_by_name` finds in a text
does not depend on the bytes behind it. -/
theorem jsonGetValueByName_append (name : Bytes) :
    jsonGetValueByName (text ++ behind) text.length name
      = jsonGetValueByName text text.length name := by
  unfold jsonGetValueByName
  rw [jsonParseNameValue_append]
  cases hpairs : jsonParseNameValue text text.length with
  | nil => rfl
  | cons kv kvs =>
    have hkey : ∀ kv' ∈ kv :: kvs, kv'.key.bytes (text ++ behind) = kv'.key.bytes text := by
      intro kv' hkv'
      rw [← hpairs] at hkv'
      exact Span.bytes_append behind (bounds_of_mem_jsonParseNameValue hkv').1
    simp only
    congr 2
    apply List.find?_congr
    intro kv' hkv'
    rw [hkey kv' hkv']

theorem bounds_of_jsonGetValueByName {name : Bytes} {slen : ℕ} {span : Span}
    (h : jsonGetValueByName mem slen name = some (some span)) : span.start + span.len ≤ slen := by
  unfold jsonGetValueByName at h
  cases hpairs : jsonParseNameValue mem slen with
  | nil =>
    rw [hpairs] at h
    cases h
  | cons kv kvs =>
    rw [hpairs] at h
    obtain ⟨kv', hkv', rfl⟩ := map_eq_some_iff.mp (Option.some.inj h)
    have hmem := mem_of_find?_eq_some hkv'
    rw [← hpairs] at hmem
    exact (bounds_of_mem_jsonParseNameValue hmem).2

end Iotkit.Json
