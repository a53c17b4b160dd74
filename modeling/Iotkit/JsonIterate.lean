/-
# Iterating over texts without quotes in strings

`json_object_for_each_kv` and `json_array_for_each_entry` (`infra_json_parser.c`) on the texts that
they support: objects and arrays of any depth, numbers, `true` and `false`, and strings without
quotes and backslashes.
-/
import Iotkit.JsonParser
import Iotkit.JsonText

open LibC JsonText

namespace Iotkit.Json

open List Option

/-! ## Characters -/

theorem isDigit_iff (c : UInt8) : isDigit c = true ↔ IsDigit c := by
  rw [isDigit, Bool.and_eq_true, decide_eq_true_eq, decide_eq_true_eq, IsDigit]

/-- No value begins with the character, and no text ends with it. -/
def Idle (c : UInt8) : Prop := c ≠ 0 ∧ valueType c = none

instance (c : UInt8) : Decidable (Idle c) := inferInstanceAs (Decidable (_ ∧ _))

variable {c : UInt8}

theorem idle_of_isSpace (h : IsSpace c) : Idle c := by
  rcases h with rfl | rfl | rfl | rfl <;> decide

/-- A character behind a number that is none of it. -/
def Delimits (c : UInt8) : Prop := c ≠ 0 ∧ ¬IsNumberChar c

instance (c : UInt8) : Decidable (Delimits c) := inferInstanceAs (Decidable (_ ∧ _))

theorem delimits_of_isSpace (h : IsSpace c) : Delimits c := by
  rcases h with rfl | rfl | rfl | rfl <;> decide

theorem isNumberChar_ne_zero (h : IsNumberChar c) : c ≠ 0 := by
  rintro rfl
  exact absurd h (by decide)

/-- Letters in small. -/
def IsLetter (c : UInt8) : Prop := 0x61 ≤ c ∧ c ≤ 0x7a

instance (c : UInt8) : Decidable (IsLetter c) := inferInstanceAs (Decidable (_ ∧ _))

theorem isLetter_words : (∀ c ∈ trueText, IsLetter c) ∧ ∀ c ∈ falseText, IsLetter c := by
  constructor
  · exact fun c hc => of_decide_eq_true (all_eq_true.mp (rfl : trueText.all
      fun c => decide (IsLetter c)) c hc)
  · exact fun c hc => of_decide_eq_true (all_eq_true.mp (rfl : falseText.all
      fun c => decide (IsLetter c)) c hc)

/-! ## Searches -/

theorem map_add_map_add (found : Option ℕ) (a b : ℕ) :
    (found.map (· + a)).map (· + b) = found.map (· + (a + b)) := by
  rw [Option.map_map]
  congr 1
  funext n
  exact add_assoc n a b

variable {s : Bytes}

/-- Blanks and colons in front of a value are skipped. -/
theorem findValue_idle {t : Bytes} (h : ∀ c ∈ s, Idle c) :
    findValue (s ++ t) = (findValue t).map fun found => (found.1, found.2 + s.length) := by
  induction s with
  | nil => exact map_id'.symm ▸ rfl
  | cons c s ih =>
    obtain ⟨hzero, hnone⟩ := h c mem_cons_self
    rw [cons_append, findValue, if_neg hzero, hnone,
      ih fun c' hc' => h c' (mem_cons_of_mem c hc')]
    show Option.map _ (Option.map _ _) = _
    rw [Option.map_map]
    rfl

theorem strchr_append {ch : UInt8} (h : ∀ c ∈ s, c ≠ 0 ∧ c ≠ ch) (t : Bytes) :
    strchr ch (s ++ t) = (strchr ch t).map (· + s.length) := by
  induction s with
  | nil => exact map_id'.symm ▸ rfl
  | cons c s ih =>
    obtain ⟨hzero, hne⟩ := h c mem_cons_self
    rw [cons_append, strchr, if_neg hne, if_neg hzero,
      ih fun c' hc' => h c' (mem_cons_of_mem c hc'), Option.map_map]
    rfl

theorem strchr_append_cons {ch : UInt8} (h : ∀ c ∈ s, c ≠ 0 ∧ c ≠ ch) (t : Bytes) :
    strchr ch (s ++ ch :: t) = some s.length := by
  rw [strchr_append h, strchr, if_pos rfl, map_some, zero_add]

/-- A number ends at its delimiter. -/
theorem scanNumber_append_cons (h : ∀ c ∈ s, IsNumberChar c) (hc : Delimits c) (t : Bytes) :
    scanNumber (s ++ c :: t) = some s.length := by
  have hiff : ∀ c, (¬ isDigit c ∧ c ≠ 0x2e ∧ c ≠ 0x2b ∧ c ≠ 0x2d ∧ c ≠ 0x65 ∧ c ≠ 0x45) ↔
      ¬IsNumberChar c := by
    intro c
    rw [isDigit_iff, IsNumberChar]
    simp only [not_or]
  induction s with
  | nil => rw [nil_append, scanNumber, if_neg hc.1, if_pos ((hiff c).mpr hc.2)]; rfl
  | cons d s ih =>
    have hd := h d mem_cons_self
    rw [cons_append, scanNumber, if_neg (isNumberChar_ne_zero hd),
      if_neg (mt (hiff d).mp (not_not.mpr hd)), ih fun c' hc' => h c' (mem_cons_of_mem d hc')]
    rfl

/-! ## Brackets -/

/-- The two kinds of brackets. -/
def IsMarks (opening closing : UInt8) : Prop :=
  opening = 0x7b ∧ closing = 0x7d ∨ opening = 0x5b ∧ closing = 0x5d

/-- Outside of strings, a text is passed and leaves the depth alone. -/
def Neutral (opening closing : UInt8) (s : Bytes) : Prop :=
  ∀ rest depth, scanMarks opening closing (s ++ rest) depth false =
    (scanMarks opening closing rest depth false).map (· + s.length)

section Marks

variable {opening closing : UInt8}

theorem neutral_nil : Neutral opening closing [] := fun _ _ => map_id'.symm ▸ rfl

variable {s : Bytes}

theorem Neutral.append {t : Bytes} (hs : Neutral opening closing s)
    (ht : Neutral opening closing t) : Neutral opening closing (s ++ t) := by
  intro rest depth
  rw [append_assoc, hs, ht, map_add_map_add, length_append, add_comm t.length]

theorem neutral_of_quiet (h : ∀ c ∈ s, c ≠ 0 ∧ c ≠ closing ∧ c ≠ opening ∧ c ≠ 0x22) :
    Neutral opening closing s := by
  induction s with
  | nil => exact neutral_nil
  | cons c s ih =>
    obtain ⟨hzero, hclosing, hopening, hquote⟩ := h c mem_cons_self
    have hs := ih fun c' hc' => h c' (mem_cons_of_mem c hc')
    intro rest depth
    rw [cons_append, scanMarks, if_neg hzero, if_neg hclosing, if_neg hopening,
      if_neg hquote, hs, Option.map_map]
    rfl

theorem scanMarks_inside (h : ∀ c ∈ s, c ≠ 0 ∧ c ≠ 0x22) (rest : Bytes) (depth : ℕ) :
    scanMarks opening closing (s ++ rest) depth true =
      (scanMarks opening closing rest depth true).map (· + s.length) := by
  induction s with
  | nil => exact map_id'.symm ▸ rfl
  | cons c s ih =>
    obtain ⟨hzero, hquote⟩ := h c mem_cons_self
    have hstep : scanMarks opening closing (c :: (s ++ rest)) depth true =
        (scanMarks opening closing (s ++ rest) depth true).map (· + 1) := by
      simp [scanMarks, hzero, hquote]
    rw [cons_append, hstep, ih fun c' hc' => h c' (mem_cons_of_mem c hc'),
      Option.map_map]
    rfl

section

variable (hmarks : IsMarks opening closing)
include hmarks

theorem neutral_quoted (h : ∀ c ∈ s, c ≠ 0 ∧ c ≠ 0x22) : Neutral opening closing (quoted s) := by
  have hquote : (0x22 : UInt8) ≠ closing ∧ (0x22 : UInt8) ≠ opening := by
    rcases hmarks with ⟨rfl, rfl⟩ | ⟨rfl, rfl⟩ <;> decide
  have htoggle : ∀ rest depth b, scanMarks opening closing (0x22 :: rest) depth b =
      (scanMarks opening closing rest depth !b).map (· + 1) := by
    intro rest depth b
    rw [scanMarks, if_neg (by decide), if_neg hquote.1, if_neg hquote.2, if_pos rfl]
  intro rest depth
  rw [quoted, cons_append, append_assoc, htoggle, Bool.not_false, scanMarks_inside h,
    singleton_append, htoggle, Bool.not_true, map_add_map_add, map_add_map_add,
    length_cons, length_append, add_comm 1]
  rfl

theorem Neutral.bracket (hs : Neutral opening closing s) :
    Neutral opening closing (opening :: (s ++ [closing])) := by
  have hopening : opening ≠ 0 ∧ opening ≠ closing ∧ closing ≠ 0 := by
    rcases hmarks with ⟨rfl, rfl⟩ | ⟨rfl, rfl⟩ <;> decide
  intro rest depth
  rw [cons_append, scanMarks, if_neg hopening.1, if_neg hopening.2.1, if_pos rfl,
    if_neg Bool.false_ne_true, append_assoc, hs, singleton_append, scanMarks,
    if_neg hopening.2.2, if_pos rfl, if_neg Bool.false_ne_true, if_neg (Nat.succ_ne_zero depth),
    Nat.add_sub_cancel, map_add_map_add, map_add_map_add, length_cons, length_append,
    add_comm 1]
  rfl

theorem Neutral.other {opening' closing' : UInt8} (hmarks' : IsMarks opening' closing')
    (hne : opening ≠ opening') (hs : Neutral opening closing s) :
    Neutral opening closing (opening' :: (s ++ [closing'])) := by
  have hquiet : (opening' ≠ 0 ∧ opening' ≠ closing ∧ opening' ≠ opening ∧ opening' ≠ 0x22) ∧
      closing' ≠ 0 ∧ closing' ≠ closing ∧ closing' ≠ opening ∧ closing' ≠ 0x22 := by
    rcases hmarks with ⟨rfl, rfl⟩ | ⟨rfl, rfl⟩ <;> rcases hmarks' with ⟨rfl, rfl⟩ | ⟨rfl, rfl⟩
    · exact absurd rfl hne
    · decide
    · decide
    · exact absurd rfl hne
  exact (neutral_of_quiet (forall_mem_singleton.mpr hquiet.1)).append
    (hs.append (neutral_of_quiet (forall_mem_singleton.mpr hquiet.2)))

/-- A bracketed text is neutral to the count of every kind of bracket. -/
theorem Neutral.brackets {opening' closing' : UInt8} (hmarks' : IsMarks opening' closing')
    (hs : Neutral opening closing s) : Neutral opening closing (opening' :: (s ++ [closing'])) := by
  by_cases hne : opening = opening'
  · have hclosing : closing = closing' := by
      rcases hmarks with ⟨rfl, rfl⟩ | ⟨rfl, rfl⟩ <;> rcases hmarks' with ⟨h, rfl⟩ | ⟨h, rfl⟩
      · rfl
      · exact absurd (hne.trans h) (by decide)
      · exact absurd (hne.trans h) (by decide)
      · rfl
    rw [← hne, ← hclosing]
    exact hs.bracket hmarks
  · exact hs.other hmarks hmarks' hne

theorem Neutral.blank (hs : plain.Blank s) : Neutral opening closing s := by
  apply neutral_of_quiet
  intro c hc
  rcases hmarks with ⟨rfl, rfl⟩ | ⟨rfl, rfl⟩ <;>
    rcases hs c hc with rfl | rfl | rfl | rfl <;> decide

theorem Neutral.punctuation (hc : c = 0x2c ∨ c = 0x3a) : Neutral opening closing [c] := by
  apply neutral_of_quiet
  intro d hd
  rw [mem_singleton.mp hd]
  rcases hmarks with ⟨rfl, rfl⟩ | ⟨rfl, rfl⟩ <;> rcases hc with rfl | rfl <;> decide

/-- An array is neutral where its elements are. -/
theorem neutral_elements {blank : Bytes} {l : List Element} (hblank : plain.Blank blank)
    (hspaced : ∀ e ∈ l, e.Spaced plain) (hvalue : ∀ e ∈ l, Neutral opening closing e.value) :
    Neutral opening closing (listText Element.text blank l) := by
  apply listText_of_append (fun _ _ => Neutral.append) neutral_nil
    (Neutral.punctuation hmarks (.inl rfl)) (Neutral.blank hmarks hblank)
  intro e he
  exact (Neutral.blank hmarks (hspaced e he).pre).append
    ((hvalue e he).append (Neutral.blank hmarks (hspaced e he).post))

/-- An object is neutral where its values are. -/
theorem neutral_members {blank : Bytes} {l : List Member} (hblank : plain.Blank blank)
    (hspaced : ∀ m ∈ l, m.Spaced plain) (hvalue : ∀ m ∈ l, Neutral opening closing m.value) :
    Neutral opening closing (listText Member.text blank l) := by
  apply listText_of_append (fun _ _ => Neutral.append) neutral_nil
    (Neutral.punctuation hmarks (.inl rfl)) (Neutral.blank hmarks hblank)
  intro m hm
  have hspace := hspaced m hm
  have hname : Neutral opening closing (quoted m.name) :=
    neutral_quoted hmarks fun c hc => ⟨(hspace.name c hc).2.2, (hspace.name c hc).1⟩
  have hright := (Neutral.blank hmarks hspace.gap).append
    ((hvalue m hm).append (Neutral.blank hmarks hspace.post))
  have hcolon := (Neutral.punctuation hmarks (.inr rfl)).append hright
  exact (Neutral.blank hmarks hspace.pre).append
    (hname.append ((Neutral.blank hmarks hspace.mid).append hcolon))

/-- **Values are balanced.**  The scan for a closing bracket passes every value. -/
theorem neutral_of_isValue {n : ℕ} (hs : IsValue plain n s) : Neutral opening closing s := by
  have hletter : ∀ {c : UInt8}, IsLetter c → c ≠ 0 ∧ c ≠ closing ∧ c ≠ opening ∧ c ≠ 0x22 := by
    intro c hc
    refine ⟨?_, ?_, ?_, ?_⟩ <;> rintro rfl <;>
      rcases hmarks with ⟨rfl, rfl⟩ | ⟨rfl, rfl⟩ <;> exact absurd hc (by decide)
  induction hs with
  | scalar h =>
    apply neutral_of_quiet
    intro c hc
    rcases h with h | rfl | rfl
    · have hnumber := h.chars c hc
      refine ⟨?_, ?_, ?_, ?_⟩ <;> rintro rfl <;>
        rcases hmarks with ⟨rfl, rfl⟩ | ⟨rfl, rfl⟩ <;> exact absurd hnumber (by decide)
    · exact hletter (isLetter_words.1 c hc)
    · exact hletter (isLetter_words.2 c hc)
  | string h => exact neutral_quoted hmarks fun c hc => ⟨(h c hc).2.2, (h c hc).1⟩
  | array hblank hspaced _ ih =>
    exact Neutral.brackets hmarks (.inr ⟨rfl, rfl⟩) (neutral_elements hmarks hblank hspaced ih)
  | object hblank hspaced _ ih =>
    exact Neutral.brackets hmarks (.inl ⟨rfl, rfl⟩) (neutral_members hmarks hblank hspaced ih)

/-- The scan stops at the bracket that closes a neutral text. -/
theorem scanMarks_closing (hs : Neutral opening closing s) (rest : Bytes) :
    scanMarks opening closing (s ++ closing :: rest) 0 false = some s.length := by
  have hzero : closing ≠ 0 := by
    rcases hmarks with ⟨rfl, rfl⟩ | ⟨rfl, rfl⟩ <;> decide
  rw [hs, scanMarks, if_neg hzero, if_pos rfl, if_neg Bool.false_ne_true, if_pos rfl,
    map_some, zero_add]

end

end Marks

/-! ## What is to be visited -/

def typeOf (v : Bytes) : JsonType :=
  if v.headD 0 = 0x22 then .jstring
  else if v.headD 0 = 0x7b then .jobject
  else if v.headD 0 = 0x5b then .jarray
  else if IsLetter (v.headD 0) then .jboolean
  else .jnumber

/-- The value `v` at an offset: a string without its quotes, and the end of its text. -/
def valueAt (off : ℕ) (v : Bytes) : JsonValue :=
  if typeOf v = .jstring then ⟨.jstring, ⟨off + 1, v.length - 2⟩, off + v.length⟩
  else ⟨typeOf v, ⟨off, v.length⟩, off + v.length⟩

/-- The elements of an array, the first one of which begins at an offset. -/
def elementsAt : ℕ → List Element → List JsonValue
  | _, [] => []
  | off, e :: l => valueAt (off + e.pre.length) e.value :: elementsAt (off + e.text.length + 1) l

/-- A name between quotes at an offset, and its value. -/
def kvAt (off : ℕ) (m : Member) : JsonKv :=
  ⟨valueAt (off + (m.name.length + 2 + m.mid.length + 1 + m.gap.length)) m.value,
    ⟨off + 1, m.name.length⟩⟩

/-- Where the member behind the members `l` begins. -/
def offsetAfter : ℕ → List Member → ℕ
  | off, [] => off
  | off, m :: l => offsetAfter (off + m.text.length + 1) l

def membersAt : ℕ → List Member → List JsonKv
  | _, [] => []
  | off, m :: l => kvAt (off + m.pre.length) m :: membersAt (off + m.text.length + 1) l

@[simp] theorem valueAt_pos (off : ℕ) (v : Bytes) : (valueAt off v).pos = off + v.length := by
  unfold valueAt
  split_ifs <;> rfl

/-! ## One value -/

/-- The first character of a value tells its type, and a string has its quotes. -/
structure Begins (v : Bytes) : Prop where
  head : ∃ c s, v = c :: s ∧ c ≠ 0 ∧ valueType c = some (typeOf v)
  quotes : typeOf v = .jstring → 2 ≤ v.length

/-- The second loop of `json_get_next_object` finds the end of the value, whatever follows. -/
def Measured (v : Bytes) : Prop :=
  ∀ (a t behind : Bytes) (c : UInt8), Delimits c →
    valueLen (a ++ (v ++ c :: t) ++ behind) (a ++ (v ++ c :: t)).length (typeOf v)
        (if typeOf v = .jstring then a.length + 1 else a.length) =
      if typeOf v = .jstring then v.length - 2 else v.length

variable {v : Bytes}

variable {lead : Bytes}

theorem findValue_lead (hbegins : Begins v) (a : Bytes) (hlead : ∀ c ∈ lead, Idle c)
    (c : UInt8) (t : Bytes) :
    findValue ((a ++ (lead ++ (v ++ c :: t))).drop a.length) = some (typeOf v, lead.length) := by
  obtain ⟨d, s, hd, hzero, htype⟩ := hbegins.head
  have hfirst : findValue (v ++ c :: t) = some (typeOf v, 0) := by
    rw [hd, cons_append, findValue, if_neg hzero, ← hd, htype]
  rw [drop_left, findValue_idle hlead, hfirst, map_some, zero_add]

/-- The value behind blanks is found with its type and its length. -/
theorem jsonNextValue_measured (hbegins : Begins v) (hv : Measured v) (a : Bytes)
    (hlead : ∀ c ∈ lead, Idle c) (hc : Delimits c) (t behind : Bytes) :
    jsonNextValue (a ++ (lead ++ (v ++ c :: t)) ++ behind) a.length
        (a ++ (lead ++ (v ++ c :: t))).length =
      some (valueAt (a.length + lead.length) v) := by
  have hlen := hv (a ++ lead) t behind c hc
  have hlead' : (a ++ lead).length = a.length + lead.length := length_append
  rw [append_assoc a lead, hlead'] at hlen
  have hlength : (a ++ (lead ++ (v ++ c :: t))).length =
      a.length + lead.length + v.length + 1 + t.length := by
    simp only [length_append, length_cons]
    omega
  rw [jsonNextValue, window_append, findValue_lead hbegins a hlead]
  simp only [hlen]
  by_cases hstring : typeOf v = .jstring
  · have hquotes := hbegins.quotes hstring
    simp only [hstring, if_true, valueAt]
    rw [if_neg (by omega)]
    congr 2
    omega
  · simp only [hstring, if_false, valueAt]
    rw [if_neg (by omega)]

theorem typeOf_quoted (s : Bytes) : typeOf (quoted s) = .jstring := rfl

variable {s : Bytes}

theorem typeOf_number (h : IsNumber s) :
    ∃ c t, s = c :: t ∧ c ≠ 0 ∧ valueType c = some .jnumber ∧ typeOf s = .jnumber := by
  obtain ⟨c, t, rfl, hc⟩ := h.exists_cons
  refine ⟨c, t, rfl, ?_, ?_, ?_⟩
  · rintro rfl
    exact absurd hc (by decide)
  · have hne : c ≠ 0x22 ∧ c ≠ 0x7b ∧ c ≠ 0x5b := by
      refine ⟨?_, ?_, ?_⟩ <;> rintro rfl <;> exact absurd hc (by decide)
    rw [valueType, if_neg hne.1, if_neg hne.2.1, if_neg hne.2.2, if_pos]
    rwa [isDigit_iff]
  · have hne : c ≠ 0x22 ∧ c ≠ 0x7b ∧ c ≠ 0x5b ∧ ¬IsLetter c := by
      refine ⟨?_, ?_, ?_, fun hletter => ?_⟩
      · rintro rfl
        exact absurd hc (by decide)
      · rintro rfl
        exact absurd hc (by decide)
      · rintro rfl
        exact absurd hc (by decide)
      · rcases hc with rfl | hdigit
        · exact absurd hletter (by decide)
        · exact absurd (UInt8.le_trans hletter.1 hdigit.2) (by decide)
    rw [typeOf, headD_cons, if_neg hne.1, if_neg hne.2.1, if_neg hne.2.2.1,
      if_neg hne.2.2.2]

/-- The first byte of a value tells its type. -/
theorem begins_of_isValue {g : Grammar} {n : ℕ} (hv : IsValue g n v)
    (hscalar : g.IsScalar v → IsNumber v ∨ v = trueText ∨ v = falseText) : Begins v := by
  cases hv with
  | scalar h =>
    rcases hscalar h with h | rfl | rfl
    · obtain ⟨c, t, hs, hzero, htype, hnumber⟩ := typeOf_number h
      refine ⟨⟨c, t, hs, hzero, hnumber ▸ htype⟩, fun hstring => ?_⟩
      rw [hnumber] at hstring
      cases hstring
    · exact ⟨⟨_, _, rfl, by decide, rfl⟩, fun h => absurd h (by decide)⟩
    · exact ⟨⟨_, _, rfl, by decide, rfl⟩, fun h => absurd h (by decide)⟩
  | string h =>
    refine ⟨⟨_, _, rfl, by decide, rfl⟩, fun _ => ?_⟩
    rw [length_quoted]
    exact Nat.le_add_left 2 _
  | array _ _ _ =>
    refine ⟨⟨_, _, rfl, by decide, rfl⟩, fun h => ?_⟩
    have hne : JsonType.jarray = .jstring := h
    cases hne
  | object _ _ _ =>
    refine ⟨⟨_, _, rfl, by decide, rfl⟩, fun h => ?_⟩
    have hne : JsonType.jobject = .jstring := h
    cases hne

theorem drop_value (a v t behind : Bytes) (c : UInt8) :
    (a ++ (v ++ c :: t) ++ behind).drop a.length = v ++ c :: (t ++ behind) := by
  rw [append_assoc, drop_left, append_assoc, cons_append]

theorem window_tail (a s t behind : Bytes) (c d : UInt8) :
    window (a ++ (d :: s ++ c :: t) ++ behind) (a.length + 1) (a ++ (d :: s ++ c :: t)).length =
      s ++ c :: t := by
  rw [window_append, ← drop_drop, drop_left]
  rfl

theorem booleanLen_words (rest : Bytes) :
    booleanLen (trueText ++ rest) = 4 ∧ booleanLen (falseText ++ rest) = 5 := by
  constructor
  · exact if_pos (.inl (prefix_append _ _))
  · rw [booleanLen, if_neg]
    · exact if_pos (.inl (prefix_append falseText rest))
    · rintro (⟨t, ht⟩ | ⟨t, ht⟩) <;> cases ht

/-- The end of a number is found. -/
theorem measured_number (h : IsNumber v) : Measured v := by
  obtain ⟨d, s, rfl, -, -, hnumber⟩ := typeOf_number h
  intro a t behind c hc
  have hscan : scanNumber (s ++ c :: t) = some s.length :=
    scanNumber_append_cons (fun c' hc' => h.chars c' (mem_cons_of_mem d hc')) hc t
  simp only [hnumber, reduceCtorEq, if_false, valueLen]
  rw [window_tail, hscan]
  rfl

/-- The end of a string is found. -/
theorem measured_quoted (h : ∀ c ∈ s, c ≠ 0 ∧ c ≠ 0x22) : Measured (quoted s) := by
  intro a t behind c hc
  have hchr : strchr 0x22 (s ++ [0x22] ++ c :: t) = some s.length := by
    rw [append_assoc]
    exact strchr_append_cons h _
  simp only [typeOf_quoted, if_true, valueLen, length_quoted]
  rw [quoted, window_tail, hchr]
  rfl

/-- The end of an array or object is found. -/
theorem measured_brackets {opening closing : UInt8} (hmarks : IsMarks opening closing)
    (h : ∀ rest, scanMarks opening closing (s ++ closing :: rest) 0 false = some s.length) :
    Measured (opening :: (s ++ [closing])) := by
  intro a t behind c hc
  have hscan : scanMarks opening closing (s ++ [closing] ++ c :: t) 0 false = some s.length := by
    rw [append_assoc]
    exact h (c :: t)
  rcases hmarks with ⟨rfl, rfl⟩ | ⟨rfl, rfl⟩
  · have htype : typeOf (0x7b :: (s ++ [0x7d])) = .jobject := rfl
    simp only [htype, reduceCtorEq, if_false, valueLen]
    rw [window_tail, hscan, length_cons, length_append]
    rfl
  · have htype : typeOf (0x5b :: (s ++ [0x5d])) = .jarray := rfl
    simp only [htype, reduceCtorEq, if_false, valueLen]
    rw [window_tail, hscan, length_cons, length_append]
    rfl

theorem measured_words : Measured trueText ∧ Measured falseText := by
  constructor
  · intro a t behind c hc
    have htype : typeOf trueText = .jboolean := rfl
    simp only [htype, reduceCtorEq, if_false, valueLen]
    rw [drop_value, (booleanLen_words _).1]
    rfl
  · intro a t behind c hc
    have htype : typeOf falseText = .jboolean := rfl
    simp only [htype, reduceCtorEq, if_false, valueLen]
    rw [drop_value, (booleanLen_words _).2]
    rfl

/-- **Values are measured.** -/
theorem measured_of_isValue {n : ℕ} (hv : IsValue plain n v) : Measured v := by
  cases hv with
  | scalar h =>
    rcases h with h | rfl | rfl
    · exact measured_number h
    · exact measured_words.1
    · exact measured_words.2
  | string h => exact measured_quoted fun c hc => ⟨(h c hc).2.2, (h c hc).1⟩
  | array hblank hspaced hvalue =>
    have hmarks : IsMarks 0x5b 0x5d := .inr ⟨rfl, rfl⟩
    exact measured_brackets hmarks (scanMarks_closing hmarks (neutral_elements hmarks hblank hspaced
      fun e he => neutral_of_isValue hmarks (hvalue e he)))
  | object hblank hspaced hvalue =>
    have hmarks : IsMarks 0x7b 0x7d := .inl ⟨rfl, rfl⟩
    exact measured_brackets hmarks (scanMarks_closing hmarks (neutral_members hmarks hblank hspaced
      fun m hm => neutral_of_isValue hmarks (hvalue m hm)))

/-! ## Between two values -/

theorem findValue_of_idle (h : ∀ c ∈ s, Idle c) : findValue s = none := by
  rw [← append_nil s, findValue_idle h]
  rfl

theorem exists_delimiter {α : Type*} (text : α → Bytes) {post : Bytes}
    (hpost : plain.Blank post) (l : List α) {closing : UInt8} (hclosing : Delimits closing)
    (t : Bytes) :
    ∃ c t', post ++ (commaTail text l ++ closing :: t) = c :: t' ∧ Delimits c := by
  cases post with
  | cons c post => exact ⟨c, _, rfl, delimits_of_isSpace (hpost c mem_cons_self)⟩
  | nil =>
    cases l with
    | cons a l => exact ⟨0x2c, _, rfl, by decide⟩
    | nil => exact ⟨closing, t, rfl, hclosing⟩

theorem drop_of_eq {text p : Bytes} (h : text = p ++ s) (behind : Bytes) :
    (text ++ behind).drop p.length = s ++ behind := by
  rw [h, append_assoc, drop_left]

theorem idle_colon {gap : Bytes} (hgap : plain.Blank gap) : ∀ c ∈ 0x3a :: gap, Idle c :=
  forall_mem_cons.mpr ⟨by decide, fun c hc => idle_of_isSpace (hgap c hc)⟩

theorem getD_append_cons (a s : Bytes) (c : UInt8) : (a ++ c :: s).getD a.length 0 = c := by
  rw [getD_append_right _ _ _ _ le_rfl, Nat.sub_self]
  rfl

theorem jsonGetNextObject_of_notMem {text : Bytes} {pos : ℕ} (h : 0x22 ∉ text.drop pos)
    (behind : Bytes) : jsonGetNextObject (text ++ behind) pos text.length = none := by
  have hnone : jsonGetNextObject text pos text.length = none := by
    rw [jsonGetNextObject, strchr_eq_none h]
  rcases jsonGetNextObject_append text behind pos with heq | ⟨hnone', -⟩
  · rw [heq, hnone]
  · exact hnone'

/-! ## Elements -/

section Elements

variable {text behind : Bytes}

/-- One round: the character at the cursor is skipped, and the next value is visited. -/
theorem entryLoop_step {a v t : Bytes} {x : UInt8} (hx : x ≠ 0) (hlead : ∀ d ∈ lead, Idle d)
    (hbegins : Begins v) (hv : Measured v) (hc : Delimits c)
    (htext : text = a ++ (x :: lead ++ (v ++ c :: t))) (rounds : ℕ) :
    entryLoop (text ++ behind) text.length (rounds + 1) a.length =
      valueAt (a.length + 1 + lead.length) v ::
        entryLoop (text ++ behind) text.length rounds (a.length + 1 + lead.length + v.length) := by
  have hget : (text ++ behind).getD a.length 0 = x := by
    rw [htext, append_assoc]
    exact getD_append_cons _ _ x
  have hnext := jsonNextValue_measured hbegins hv (a ++ [x]) hlead hc t behind
  have hsame : a ++ [x] ++ (lead ++ (v ++ c :: t)) = text := by
    rw [htext, append_assoc]
    rfl
  rw [hsame, length_append, length_singleton] at hnext
  rw [entryLoop, if_neg (by rw [hget]; exact hx), hnext]
  show valueAt _ v :: entryLoop _ _ rounds (valueAt _ v).pos = _
  rw [valueAt_pos]

theorem entryLoop_idle {a : Bytes} (hidle : ∀ c ∈ text.drop (a.length + 1), Idle c)
    (rounds n : ℕ) :
    entryLoop (text ++ behind) text.length rounds a.length = elementsAt n [] := by
  cases rounds with
  | zero => rfl
  | succ rounds =>
    rw [entryLoop, jsonNextValue, window_append, findValue_of_idle hidle, elementsAt]
    exact ite_self _

/-- An element, and the elements behind it, which the other rounds visit. -/
theorem entryLoop_cons {a lead tail : Bytes} {x : UInt8} {e : Element} {l : List Element}
    (hx : x ≠ 0) (hlead : ∀ d ∈ lead, Idle d) (he : e.Spaced plain) (hbegins : Begins e.value)
    (hvalue : Measured e.value)
    (htext : text = a ++ (x :: lead ++ (e.value ++ (e.post ++
      (commaTail Element.text l ++ 0x5d :: tail))))) {n rounds : ℕ}
    (hn : n + e.pre.length = a.length + 1 + lead.length)
    (hrest : ∀ b, text = b ++ (e.post ++ (commaTail Element.text l ++ 0x5d :: tail)) →
      entryLoop (text ++ behind) text.length rounds b.length =
        elementsAt (b.length + e.post.length + 1) l) :
    entryLoop (text ++ behind) text.length (rounds + 1) a.length = elementsAt n (e :: l) := by
  obtain ⟨c, t, hct, hc⟩ := exists_delimiter Element.text he.post l (by decide : Delimits 0x5d) tail
  have hbehind : text = a ++ (x :: lead) ++ e.value ++
      (e.post ++ (commaTail Element.text l ++ 0x5d :: tail)) := by
    rw [htext, append_assoc, append_assoc]
  have hlen : (a ++ (x :: lead) ++ e.value).length = n + e.pre.length + e.value.length := by
    rw [length_append, length_append, length_cons]
    omega
  rw [hct] at htext
  rw [entryLoop_step hx hlead hbegins hvalue hc htext, elementsAt, ← hn, ← hlen,
    hrest _ hbehind, hlen, Element.text, length_append, length_append]
  congr 2
  omega

/-- The elements behind the first one. -/
theorem entryLoop_tail {tail : Bytes} (htail : plain.Blank tail) (l : List Element)
    (hspaced : ∀ e ∈ l, e.Spaced plain) (hbegins : ∀ e ∈ l, Begins e.value)
    (hvalue : ∀ e ∈ l, Measured e.value) {a : Bytes} (hlead : plain.Blank lead)
    (htext : text = a ++ (lead ++ (commaTail Element.text l ++ 0x5d :: tail))) {rounds : ℕ}
    (hrounds : l.length ≤ rounds) :
    entryLoop (text ++ behind) text.length rounds a.length =
      elementsAt (a.length + lead.length + 1) l := by
  induction l generalizing a lead rounds with
  | nil =>
    -- nothing but blanks is left
    apply entryLoop_idle
    intro c hc
    rw [htext, ← drop_drop, drop_left] at hc
    have hmem := mem_of_mem_drop hc
    rw [commaTail_nil, nil_append, mem_append, mem_cons] at hmem
    rcases hmem with hmem | rfl | hmem
    · exact idle_of_isSpace (hlead c hmem)
    · decide
    · exact idle_of_isSpace (htail c hmem)
  | cons e l ih =>
    obtain ⟨rounds, rfl⟩ := Nat.exists_eq_add_of_le' (Nat.lt_of_lt_of_le (Nat.succ_pos _) hrounds)
    have he := hspaced e mem_cons_self
    obtain ⟨x, lead', hx⟩ := exists_cons_of_ne_nil
      (append_ne_nil_of_right_ne_nil lead (cons_ne_nil 0x2c e.pre))
    have hall : ∀ d ∈ x :: lead', Idle d := by
      intro d hd
      rw [← hx, mem_append, mem_cons] at hd
      rcases hd with hd | rfl | hd
      · exact idle_of_isSpace (hlead d hd)
      · decide
      · exact idle_of_isSpace (he.pre d hd)
    have hlength : lead.length + 1 + e.pre.length = 1 + lead'.length := by
      have h := congrArg List.length hx
      rw [length_append, length_cons, length_cons] at h
      omega
    have hsplit : text = a ++ (x :: lead' ++ (e.value ++ (e.post ++
        (commaTail Element.text l ++ 0x5d :: tail)))) := by
      rw [htext, ← hx, commaTail_cons, Element.text]
      simp only [append_assoc, cons_append]
    exact entryLoop_cons (hall x mem_cons_self).1
      (fun d hd => hall d (mem_cons_of_mem x hd)) he (hbegins e mem_cons_self)
      (hvalue e mem_cons_self) hsplit (by omega)
      fun b hb => ih (fun e' he' => hspaced e' (mem_cons_of_mem e he'))
        (fun e' he' => hbegins e' (mem_cons_of_mem e he'))
        (fun e' he' => hvalue e' (mem_cons_of_mem e he')) he.post hb
        (Nat.le_of_succ_le_succ hrounds)

/-- All elements, behind the bracket that opens the array. -/
theorem entryLoop_array {blank tail a : Bytes} (hblank : plain.Blank blank)
    (htail : plain.Blank tail) {l : List Element} (hspaced : ∀ e ∈ l, e.Spaced plain)
    (hbegins : ∀ e ∈ l, Begins e.value) (hvalue : ∀ e ∈ l, Measured e.value)
    (htext : text = a ++ (arrayText blank l ++ tail)) {rounds : ℕ} (hrounds : l.length ≤ rounds) :
    entryLoop (text ++ behind) text.length rounds a.length = elementsAt (a.length + 1) l := by
  cases l with
  | nil =>
    apply entryLoop_idle
    intro c hc
    rw [htext, ← drop_drop, drop_left] at hc
    have hmem : c ∈ blank ++ [0x5d] ++ tail := hc
    rw [mem_append, mem_append, mem_singleton] at hmem
    rcases hmem with (hmem | rfl) | hmem
    · exact idle_of_isSpace (hblank c hmem)
    · decide
    · exact idle_of_isSpace (htail c hmem)
  | cons e l =>
    obtain ⟨rounds, rfl⟩ := Nat.exists_eq_add_of_le' (Nat.lt_of_lt_of_le (Nat.succ_pos _) hrounds)
    have he := hspaced e mem_cons_self
    have hsplit : text = a ++ (0x5b :: e.pre ++ (e.value ++ (e.post ++
        (commaTail Element.text l ++ 0x5d :: tail)))) := by
      rw [htext, arrayText, listText, Element.text]
      simp only [append_assoc, cons_append, nil_append]
    exact entryLoop_cons (by decide) (fun d hd => idle_of_isSpace (he.pre d hd)) he
      (hbegins e mem_cons_self) (hvalue e mem_cons_self) hsplit rfl
      fun b hb => entryLoop_tail htail l (fun e' he' => hspaced e' (mem_cons_of_mem e he'))
        (fun e' he' => hbegins e' (mem_cons_of_mem e he'))
        (fun e' he' => hvalue e' (mem_cons_of_mem e he')) he.post hb
        (Nat.le_of_succ_le_succ hrounds)

end Elements

/-! ## Members -/

section Members

variable {text behind : Bytes}

/-- A name that ends at its first quote. -/
def Plain (s : Bytes) : Prop := ∀ c ∈ s, c ≠ 0 ∧ c ≠ 0x22

/-- The name of the next member, and the colon behind it, from which its value is looked for. -/
def memberName (mem : Bytes) (str strEnd : ℕ) : Option (Span × ℕ) :=
  (strchr 0x22 (mem.drop str)).bind fun n =>
    (strchr 0x22 (mem.drop (str + n + 1))).bind fun nameLen =>
      if str + n + 1 + nameLen > strEnd then none
      else (strchr 0x3a (mem.drop (str + n + 1 + nameLen))).map fun m =>
        (⟨str + n + 1, nameLen⟩, str + n + 1 + nameLen + m)

theorem jsonGetNextObject_name (mem : Bytes) (str strEnd : ℕ) :
    jsonGetNextObject mem str strEnd = (memberName mem str strEnd).bind fun name =>
      (jsonNextValue mem name.2 strEnd).map fun value => ⟨value, name.1⟩ := by
  unfold jsonGetNextObject memberName
  cases strchr 0x22 (mem.drop str) with
  | none => rfl
  | some n =>
    simp only
    rw [bind_some]
    cases strchr 0x22 (mem.drop (str + n + 1)) with
    | none => rfl
    | some nameLen =>
      simp only
      rw [bind_some]
      split_ifs
      · rfl
      · cases strchr 0x3a (mem.drop (str + n + 1 + nameLen)) <;> rfl

variable {a lead t : Bytes} {m : Member}

/-- The name of a member is read up to its second quote. -/
theorem memberName_eq (hlead : Plain lead) (hname : Plain m.name) (hmid : plain.Blank m.mid)
    (htext : text = a ++ (lead ++ (quoted m.name ++ (m.mid ++ 0x3a :: t)))) :
    memberName (text ++ behind) a.length text.length =
      some (⟨a.length + lead.length + 1, m.name.length⟩,
        a.length + lead.length + 1 + m.name.length + (m.mid.length + 1)) := by
  have hopen : strchr 0x22 ((text ++ behind).drop a.length) = some lead.length := by
    rw [drop_of_eq htext, append_assoc]
    exact strchr_append_cons hlead _
  have htext1 : text = (a ++ lead ++ [0x22]) ++ (m.name ++ 0x22 :: (m.mid ++ 0x3a :: t)) := by
    rw [htext, quoted]
    simp only [append_assoc, cons_append, nil_append]
  have hlen1 : (a ++ lead ++ [0x22]).length = a.length + lead.length + 1 := by
    rw [length_append, length_append]
    rfl
  have hclose : strchr 0x22 ((text ++ behind).drop (a.length + lead.length + 1)) =
      some m.name.length := by
    rw [← hlen1, drop_of_eq htext1, append_assoc]
    exact strchr_append_cons hname _
  have htext2 : text = (a ++ lead ++ [0x22] ++ m.name) ++ (0x22 :: m.mid ++ 0x3a :: t) := by
    rw [htext1]
    simp only [append_assoc, cons_append]
  have hlen2 : (a ++ lead ++ [0x22] ++ m.name).length =
      a.length + lead.length + 1 + m.name.length := by
    rw [length_append, hlen1]
  have hcolon : strchr 0x3a ((text ++ behind).drop (a.length + lead.length + 1 + m.name.length)) =
      some (m.mid.length + 1) := by
    rw [← hlen2, drop_of_eq htext2, append_assoc]
    refine strchr_append_cons (fun d hd => ?_) _
    rcases mem_cons.mp hd with rfl | hd
    · decide
    · rcases hmid d hd with rfl | rfl | rfl | rfl <;> decide
  have hle : ¬a.length + lead.length + 1 + m.name.length > text.length := by
    rw [htext2, length_append, hlen2]
    omega
  rw [memberName, hopen, bind_some, hclose, bind_some, if_neg hle, hcolon,
    map_some]

/-- A member is read with its name and its value. -/
theorem jsonGetNextObject_eq {a lead t : Bytes} {m : Member} {c : UInt8}
    (hlead : Plain lead) (hname : Plain m.name) (hmid : plain.Blank m.mid)
    (hgap : plain.Blank m.gap) (hbegins : Begins m.value) (hv : Measured m.value) (hc : Delimits c)
    (htext : text = a ++ (lead ++ (quoted m.name ++ (m.mid ++ 0x3a :: (m.gap ++
      (m.value ++ c :: t)))))) :
    jsonGetNextObject (text ++ behind) a.length text.length =
      some (kvAt (a.length + lead.length) m) := by
  have hsplit : text = (a ++ (lead ++ (quoted m.name ++ m.mid))) ++
      (0x3a :: m.gap ++ (m.value ++ c :: t)) := by
    rw [htext]
    simp only [append_assoc, cons_append]
  have hlen : (a ++ (lead ++ (quoted m.name ++ m.mid))).length =
      a.length + lead.length + 1 + m.name.length + (m.mid.length + 1) := by
    simp only [length_append, length_quoted]
    omega
  have hnext := jsonNextValue_measured hbegins hv (a ++ (lead ++ (quoted m.name ++ m.mid)))
    (idle_colon hgap) hc t behind
  rw [← hsplit, hlen, length_cons] at hnext
  rw [jsonGetNextObject_name, memberName_eq hlead hname hmid htext, bind_some, hnext,
    map_some, kvAt]
  congr 3
  omega

/-- One round of `json_parse_name_value` reads one member. -/
theorem kvLoop_step {a lead t : Bytes} {m : Member} {c : UInt8}
    (hlead : Plain lead) (hname : Plain m.name) (hmid : plain.Blank m.mid)
    (hgap : plain.Blank m.gap) (hbegins : Begins m.value) (hv : Measured m.value) (hc : Delimits c)
    (htext : text = a ++ (lead ++ (quoted m.name ++ (m.mid ++ 0x3a :: (m.gap ++
      (m.value ++ c :: t)))))) (rounds : ℕ) :
    kvLoop (text ++ behind) text.length (rounds + 1) a.length = kvAt (a.length + lead.length) m ::
        kvLoop (text ++ behind) text.length rounds (kvAt (a.length + lead.length) m).pos := by
  have hget : (text ++ behind).getD a.length 0 ≠ 0 := by
    rw [htext, append_assoc]
    cases lead with
    | nil =>
      rw [nil_append, quoted, cons_append, cons_append, getD_append_cons]
      decide
    | cons x lead =>
      rw [cons_append, cons_append, getD_append_cons]
      exact (hlead x mem_cons_self).1
  rw [kvLoop, if_neg hget, jsonGetNextObject_eq hlead hname hmid hgap hbegins hv hc htext]

/-- A member that the reader takes as it is. -/
structure Readable (m : Member) : Prop where
  pre : plain.Blank m.pre
  name : Plain m.name
  mid : plain.Blank m.mid
  gap : plain.Blank m.gap
  post : plain.Blank m.post
  begins : Begins m.value
  measured : Measured m.value

theorem plain_of_blank {s : Bytes} (h : plain.Blank s) : Plain s := by
  intro c hc
  rcases h c hc with rfl | rfl | rfl | rfl <;> decide

theorem kvLoop_readable {next : Bytes} (hm : Readable m) (hlead : plain.Blank lead) {x : UInt8}
    (hx : x ≠ 0 ∧ x ≠ 0x22) (hnext : m.post ++ next = c :: t) (hc : Delimits c)
    (htext : text = a ++ (lead ++ x :: (m.text ++ next))) :
    ∃ a', text = a' ++ (m.post ++ next) ∧
      a'.length + m.post.length = a.length + lead.length + 1 + m.text.length ∧
      ∀ rounds, kvLoop (text ++ behind) text.length (rounds + 1) a.length =
        kvAt (a.length + lead.length + 1 + m.pre.length) m ::
          kvLoop (text ++ behind) text.length rounds a'.length := by
  have hplain : Plain (lead ++ x :: m.pre) := by
    intro d hd
    rw [mem_append, mem_cons] at hd
    rcases hd with hd | rfl | hd
    · exact plain_of_blank hlead d hd
    · exact hx
    · exact plain_of_blank hm.pre d hd
  have hsplit : text = a ++ ((lead ++ x :: m.pre) ++ (quoted m.name ++ (m.mid ++ 0x3a :: (m.gap ++
      (m.value ++ c :: t))))) := by
    rw [htext, ← hnext, Member.text]
    simp only [append_assoc, cons_append]
  have hquote : a.length + (lead ++ x :: m.pre).length =
      a.length + lead.length + 1 + m.pre.length := by
    rw [length_append, length_cons]
    omega
  refine ⟨a ++ (lead ++ x :: m.pre) ++ quoted m.name ++ m.mid ++ 0x3a :: (m.gap ++ m.value),
    ?_, ?_, fun rounds => ?_⟩
  · rw [hnext, hsplit]
    simp only [append_assoc, cons_append]
  · simp only [Member.text, length_append, length_cons]
    omega
  · rw [kvLoop_step hplain hm.name hm.mid hm.gap hm.begins hm.measured hc hsplit, hquote]
    congr 2
    simp only [kvAt, valueAt_pos, length_append, length_cons, length_quoted]
    omega

/-- Members with separators before them are visited one after the other, up to what follows. -/
theorem kvLoop_members {closing : UInt8} (hclosing : Delimits closing) {rest : Bytes}
    (l : List Member) (hl : ∀ m' ∈ m :: l, Readable m') (hlead : plain.Blank lead) {x : UInt8}
    (hx : x ≠ 0 ∧ x ≠ 0x22)
    (htext : text = a ++ (lead ++ x :: (m.text ++ (commaTail Member.text l ++ closing :: rest)))) :
    ∃ a' lead', plain.Blank lead' ∧ text = a' ++ (lead' ++ closing :: rest) ∧
      a'.length + lead'.length + 1 = offsetAfter (a.length + lead.length + 1) (m :: l) ∧
      ∀ rounds, kvLoop (text ++ behind) text.length (rounds + (l.length + 1)) a.length =
        membersAt (a.length + lead.length + 1) (m :: l) ++
          kvLoop (text ++ behind) text.length rounds a'.length := by
  induction l generalizing m a lead x with
  | nil =>
    have hm := hl m mem_cons_self
    obtain ⟨c, t, hct, hc⟩ := exists_delimiter Member.text hm.post [] hclosing rest
    obtain ⟨a', htext', hlength, hstep⟩ := kvLoop_readable hm hlead hx hct hc htext
    exact ⟨a', m.post, hm.post, htext', by rw [hlength]; rfl, hstep⟩
  | cons m' l ih =>
    have hm := hl m mem_cons_self
    obtain ⟨c, t, hct, hc⟩ := exists_delimiter Member.text hm.post (m' :: l) hclosing rest
    obtain ⟨a', htext', hlength, hstep⟩ := kvLoop_readable hm hlead hx hct hc htext
    have hcomma : text = a' ++ (m.post ++ 0x2c :: (m'.text ++ (commaTail Member.text l ++
        closing :: rest))) := by
      rw [htext', commaTail_cons]
      simp only [append_assoc, cons_append]
    obtain ⟨a'', lead', hlead', htext'', hoff, hrest⟩ :=
      ih (fun m'' hm'' => hl m'' (mem_cons_of_mem m hm'')) hm.post (by decide) hcomma
    refine ⟨a'', lead', hlead', htext'', by rw [hoff, hlength]; rfl, fun rounds => ?_⟩
    have hrounds : rounds + ((m' :: l).length + 1) = rounds + (l.length + 1) + 1 := by
      rw [length_cons]
      omega
    rw [hrounds, hstep, hrest, hlength]
    rfl

/-- The rounds read every member of an object in order. -/
theorem kvLoop_object {blank tail : Bytes} (hblank : plain.Blank blank)
    (htail : plain.Blank tail) {l : List Member} (hl : ∀ m ∈ l, Readable m)
    (htext : text = a ++ (objectText blank l ++ tail)) {rounds : ℕ} (hrounds : l.length ≤ rounds) :
    kvLoop (text ++ behind) text.length rounds a.length = membersAt (a.length + 1) l := by
  have hstop : ∀ a' lead', plain.Blank lead' → text = a' ++ (lead' ++ 0x7d :: tail) →
      ∀ rounds, kvLoop (text ++ behind) text.length rounds a'.length = [] := by
    intro a' lead' hlead' htext' rounds
    have hquote : (0x22 : UInt8) ∉ text.drop a'.length := by
      rw [htext', drop_left, mem_append, mem_cons]
      rintro (hmem | heq | hmem)
      · exact (plain_of_blank hlead' _ hmem).2 rfl
      · exact absurd heq (by decide)
      · exact (plain_of_blank htail _ hmem).2 rfl
    cases rounds with
    | zero => rfl
    | succ rounds =>
      rw [kvLoop, jsonGetNextObject_of_notMem hquote]
      exact ite_self _
  cases l with
  | nil =>
    have hquote : (0x22 : UInt8) ∉ text.drop a.length := by
      rw [htext, drop_left, objectText, listText, cons_append, append_assoc,
        mem_cons, mem_append]
      rintro (heq | hmem | hmem)
      · exact absurd heq (by decide)
      · exact (plain_of_blank hblank _ hmem).2 rfl
      · rcases mem_cons.mp hmem with heq | hmem
        · exact absurd heq (by decide)
        · exact (plain_of_blank htail _ hmem).2 rfl
    cases rounds with
    | zero => rfl
    | succ rounds =>
      rw [kvLoop, jsonGetNextObject_of_notMem hquote]
      exact ite_self _
  | cons m l =>
    have hsplit : text = a ++ ([] ++ 0x7b :: (m.text ++ (commaTail Member.text l ++
        0x7d :: tail))) := by
      rw [htext, objectText, listText]
      simp only [append_assoc, cons_append, nil_append]
    obtain ⟨a', lead', hlead', htext', -, hrun⟩ := kvLoop_members (by decide) l hl
      (fun c hc => absurd hc not_mem_nil) (by decide) hsplit
    obtain ⟨rest, rfl⟩ := Nat.exists_eq_add_of_le' hrounds
    rw [length_cons, hrun, hstop a' lead' hlead' htext', append_nil]
    rfl

end Members

/-! ## Texts -/

theorem jsonGetObject_spaces (ch : UInt8) (hch : ch ≠ 0 ∧ ch ≠ 0x20) (spaces : ℕ)
    (s : Bytes) :
    jsonGetObject ch (List.replicate spaces 0x20 ++ ch :: s) = some spaces := by
  induction spaces with
  | zero => rw [replicate_zero, nil_append, jsonGetObject, if_neg hch.1, if_neg hch.2,
      if_pos rfl]
  | succ spaces ih =>
    rw [replicate_succ, cons_append, jsonGetObject, if_neg (by decide), if_pos rfl, ih]
    rfl

theorem length_le_commaTail {α : Type*} (text : α → Bytes) (l : List α) :
    l.length ≤ (commaTail text l).length := by
  induction l with
  | nil => exact le_rfl
  | cons a l ih =>
    rw [commaTail_cons, length_cons, length_cons, length_append]
    omega

theorem length_le_listText {α : Type*} (text : α → Bytes) (blank : Bytes) (l : List α) :
    l.length ≤ (listText text blank l).length + 1 := by
  cases l with
  | nil => exact Nat.zero_le _
  | cons a l =>
    rw [listText, length_append, length_cons]
    have h := length_le_commaTail text l
    omega

/-- A member whose value has no escapes is readable. -/
theorem readable_of_isValue {n : ℕ} {m : Member} (hspaced : m.Spaced plain)
    (hvalue : IsValue plain n m.value) : Readable m where
  pre := hspaced.pre
  name c hc := ⟨(hspaced.name c hc).2.2, (hspaced.name c hc).1⟩
  mid := hspaced.mid
  gap := hspaced.gap
  post := hspaced.post
  begins := begins_of_isValue hvalue id
  measured := measured_of_isValue hvalue

/-- **Iteration is exact.**  In a text with only spaces before its bracket, whatever stands behind
it: the members of an object are visited, and nothing else, each one once and in its order, with
its name, the extent of its value and its type; and so are the elements of an array.  The iteration
stops there, with any number of rounds left. -/
theorem json_iteration_exact (n spaces : ℕ) (blank tail behind : Bytes)
    (hblank : plain.Blank blank) (htail : plain.Blank tail) :
    (∀ l : List Member, (∀ m ∈ l, m.Spaced plain ∧ IsValue plain n m.value) →
      let text := List.replicate spaces 0x20 ++ (objectText blank l ++ tail)
      jsonObjectForEachKv (text ++ behind) text.length = membersAt (spaces + 1) l ∧
        ∀ rounds, text.length ≤ rounds →
          kvLoop (text ++ behind) text.length rounds spaces = membersAt (spaces + 1) l) ∧
    ∀ l : List Element, (∀ e ∈ l, e.Spaced plain ∧ IsValue plain n e.value) →
      let text := List.replicate spaces 0x20 ++ (arrayText blank l ++ tail)
      jsonArrayForEachEntry (text ++ behind) text.length = elementsAt (spaces + 1) l ∧
        ∀ rounds, text.length ≤ rounds →
          entryLoop (text ++ behind) text.length rounds spaces = elementsAt (spaces + 1) l := by
  constructor
  · intro l hl text
    have hreadable : ∀ m ∈ l, Readable m := fun m hm => readable_of_isValue (hl m hm).1 (hl m hm).2
    have hlength : l.length ≤ text.length := by
      have h := length_le_listText Member.text blank l
      simp only [text, objectText, length_append, length_cons]
      omega
    have hloop : ∀ rounds, text.length ≤ rounds →
        kvLoop (text ++ behind) text.length rounds spaces = membersAt (spaces + 1) l := by
      intro rounds hrounds
      have hsplit : text = List.replicate spaces 0x20 ++ (objectText blank l ++ tail) := rfl
      have hrun : kvLoop (text ++ behind) text.length rounds
          (List.replicate spaces (0x20 : UInt8)).length =
          membersAt ((List.replicate spaces (0x20 : UInt8)).length + 1) l :=
        kvLoop_object hblank htail hreadable hsplit (hlength.trans hrounds)
      rwa [length_replicate] at hrun
    refine ⟨?_, hloop⟩
    have hpos : jsonGetObject 0x7b (window (text ++ behind) 0 text.length) = some spaces := by
      rw [window_append]
      exact jsonGetObject_spaces 0x7b (by decide) spaces _
    rw [jsonObjectForEachKv, hpos]
    exact hloop _ le_rfl
  · intro l hl text
    have hlength : l.length ≤ text.length := by
      have h := length_le_listText Element.text blank l
      simp only [text, arrayText, length_append, length_cons]
      omega
    have hloop : ∀ rounds, text.length ≤ rounds →
        entryLoop (text ++ behind) text.length rounds spaces = elementsAt (spaces + 1) l := by
      intro rounds hrounds
      have hsplit : text = List.replicate spaces 0x20 ++ (arrayText blank l ++ tail) := rfl
      have hrun : entryLoop (text ++ behind) text.length rounds
          (List.replicate spaces (0x20 : UInt8)).length =
          elementsAt ((List.replicate spaces (0x20 : UInt8)).length + 1) l :=
        entryLoop_array hblank htail (fun e he => (hl e he).1)
          (fun e he => begins_of_isValue (hl e he).2 id)
          (fun e he => measured_of_isValue (hl e he).2)
          hsplit (hlength.trans hrounds)
      rwa [length_replicate] at hrun
    refine ⟨?_, hloop⟩
    have hpos : jsonGetObject 0x5b (window (text ++ behind) 0 text.length) = some spaces := by
      rw [window_append]
      exact jsonGetObject_spaces 0x5b (by decide) spaces _
    rw [jsonArrayForEachEntry, hpos]
    exact hloop _ le_rfl

/-- `"a": [1]`. -/
def memberA : Member := ⟨[], [0x61], [], [0x20], arrayText [] [⟨[], [0x31], []⟩], []⟩

/-- The text ` {"a": [1]}` with `,"b":2}` behind it. -/
theorem json_iteration_exact_memberA :
    jsonObjectForEachKv ([0x20, 0x7b, 0x22, 0x61, 0x22, 0x3a, 0x20, 0x5b, 0x31, 0x5d, 0x7d] ++
        [0x2c, 0x22, 0x62, 0x22, 0x3a, 0x32, 0x7d]) 11 =
      [⟨⟨.jarray, ⟨7, 3⟩, 10⟩, ⟨3, 1⟩⟩] := by
  have hblank : plain.Blank [] := fun c hc => absurd hc not_mem_nil
  have hspace : plain.Blank [0x20] := forall_mem_singleton.mpr (.inl rfl)
  have hname : plain.IsChars [0x61] := forall_mem_singleton.mpr (by decide)
  have hvalue : IsValue plain 1 memberA.value :=
    .array hblank (forall_mem_singleton.mpr ⟨hblank, hblank⟩)
      (forall_mem_singleton.mpr (.scalar (.inl isNumber_one)))
  exact ((json_iteration_exact 1 1 [] [] [0x2c, 0x22, 0x62, 0x22, 0x3a, 0x32, 0x7d] hblank
    hblank).1 [memberA] (forall_mem_singleton.mpr
      ⟨⟨hblank, hname, hblank, hspace, hblank⟩, hvalue⟩)).1

end Iotkit.Json
