/-
# Looking up members of RFC 8259 texts

`json_get_value_by_name` and `LITE_json_value_of` (`infra_json_parser.c`) on all objects of
RFC 8259.  The reader knows no `null` and no escapes, and it passes over empty names and values;
what it does find, and when it finds everything.
-/
import Iotkit.JsonIterate

open LibC JsonText

namespace Iotkit.Json

open List Option

/-! ## Lookups -/

/-- `stNV` after `json_parse_name_value` with `json_get_value_by_name_cb`: `pV`, `vLen` and `vType`,
if `pV` has been set.  The name has `nLen` bytes. -/
def nameValue (mem : Bytes) (slen : ℕ) (name : Bytes) : Option JsonValue :=
  ((jsonParseNameValue mem slen).find? fun kv => kv.key.len = name.length ∧
    strncmpEq (ofString (kv.key.bytes mem)) (ofString name) name.length).map (·.toJsonValue)

/-- The loop of `LITE_json_value_of`: the text at an offset, and what is left of the key. -/
def liteLoop (mem : Bytes) : ℕ → ℕ → ℕ → Bytes → Option Span
  | 0, _, _, _ => none
  | rounds + 1, src, slen, key =>
    let keyLen := (strchr 0x2e key).getD key.length
    (nameValue (mem.drop src) slen (key.take keyLen)).bind fun value =>
      if (strchr 0x2e key).isSome then
        liteLoop mem rounds (src + value.val.start) value.val.len (key.drop (keyLen + 1))
      else some ⟨src + value.val.start, value.val.len⟩

/-- `LITE_json_value_of`, where each round takes a name from the key.  The value is printed up to
its first zero. -/
def liteJsonValueOf (malloc : Bool) (key src : Bytes) : Option Bytes :=
  (liteLoop src (key.length + 1) 0 src.length key).bind fun span =>
    if malloc then some ((span.bytes src).takeWhile (· ≠ 0)) else none

/-! ## What is to be found -/

/-- The type of a value, but for `null`. -/
def kindOf (v : Bytes) : Option JsonType := if v = nullText then none else some (typeOf v)

/-- The value with a name: its type and its extent, without the quotes of a string. -/
def lookupAt : ℕ → List Member → Bytes → Option (Option JsonType × Span)
  | _, [], _ => none
  | off, m :: l, name =>
    if unescape m.name = name then
      some (kindOf m.value, (kvAt (off + m.pre.length) m).val)
    else lookupAt (off + m.text.length + 1) l name

/-- One lookup after the other, each in the text that the one before has found. -/
def nestedLookup : Bytes → List Bytes → Option Bytes
  | text, [] => some text
  | text, name :: names =>
    (nameValue text text.length name).bind fun value => nestedLookup (value.val.bytes text) names

def dotted : List Bytes → Bytes
  | [] => []
  | name :: names => name ++ names.flatMap fun name => 0x2e :: name

def Found (expected : Option (Option JsonType × Span)) (found : Option JsonValue) : Prop :=
  match expected with
  | none => found = none
  | some (kind, span) => ∃ value, found = some value ∧ value.val = span ∧
      ∀ type, kind = some type → value.type = type

/-- Every name is looked up right in the text with the members `l`, whatever stands behind it, and
a dotted key stands for nested lookups. -/
structure LookupLaw (text : Bytes) (off : ℕ) (l : List Member) : Prop where
  name : ∀ behind name, 0 ∉ name →
    Found (lookupAt off l name) (nameValue (text ++ behind) text.length name)
  key : ∀ names, names ≠ [] → (∀ name ∈ names, ∀ c ∈ name, c ≠ 0 ∧ c ≠ 0x2e) →
    liteJsonValueOf true (dotted names) text = nestedLookup text names ∧
      liteJsonValueOf false (dotted names) text = none

/-! ## What the reader finds -/

/-- A scan of brackets of one kind, where every quote begins or ends a string: the depth, and whether
the scan is in a string. -/
def naiveStep (opening closing : UInt8) (state : ℕ × Bool) (c : UInt8) : ℕ × Bool :=
  if c = 0x22 then (state.1, !state.2)
  else if state.2 then state
  else if c = opening then (state.1 + 1, false)
  else if c = closing then (state.1 - 1, false)
  else state

def naiveScan (opening closing : UInt8) (state : ℕ × Bool) (s : Bytes) : ℕ × Bool :=
  s.foldl (naiveStep opening closing) state

/-- The text between two brackets does not seem to close the first one. -/
structure ClosesLast (opening closing : UInt8) (s : Bytes) : Prop where
  last : naiveScan opening closing (1, false) s = (1, false)
  first : ∀ p, p <+: s → (naiveScan opening closing (1, false) p).1 ≠ 0

/-- A value that the reader finds: not `null`, no empty string, no string with a quote in it, and
no array or object whose brackets seem to close before its end, or not at all. -/
structure Findable (v : Bytes) : Prop where
  word : v ≠ nullText
  string : ∀ s, v = quoted s → s ≠ [] ∧ 0x22 ∉ s
  brackets : ∀ opening closing s, IsMarks opening closing → v = opening :: (s ++ [closing]) →
    ClosesLast opening closing s

/-- A text of which the reader finds every member. -/
def AllFindable (lead : Bytes) (l : List Member) : Prop :=
  l = [] ∨ (∀ c ∈ lead, c = 0x20) ∧
    ∀ m ∈ l, m.name ≠ [] ∧ 0x5c ∉ m.name ∧ Findable m.value

/-! ## Lookups in a longer text -/

/-- What lies behind the text does not change a lookup. -/
theorem nameValue_append (text behind name : Bytes) :
    nameValue (text ++ behind) text.length name = nameValue text text.length name := by
  unfold nameValue
  rw [jsonParseNameValue_append]
  congr 1
  apply List.find?_congr
  intro kv hkv
  rw [Span.bytes_append behind (bounds_of_mem_jsonParseNameValue hkv).1]

variable {mem name : Bytes} {value : JsonValue}

theorem nameValue_bounds {slen : ℕ} (h : nameValue mem slen name = some value) :
    value.val.start + value.val.len ≤ slen := by
  obtain ⟨kv, hkv, rfl⟩ := map_eq_some_iff.mp h
  exact (bounds_of_mem_jsonParseNameValue (mem_of_find?_eq_some hkv)).2

variable {text : Bytes}

theorem exists_split_span {span : Span} (h : span.start + span.len ≤ text.length) :
    ∃ before after, text = before ++ (span.bytes text ++ after) ∧ before.length = span.start ∧
      (span.bytes text).length = span.len := by
  refine ⟨text.take span.start, (text.drop span.start).drop span.len, ?_, ?_, ?_⟩
  · rw [Span.bytes, take_append_drop, take_append_drop]
  · rw [length_take, Nat.min_eq_left (by omega)]
  · rw [Span.bytes, length_take, length_drop, Nat.min_eq_left (by omega)]

theorem bytes_shift {behind : Bytes} {src : ℕ} (hdrop : mem.drop src = text ++ behind)
    {span : Span} (h : span.start + span.len ≤ text.length) :
    (⟨src + span.start, span.len⟩ : Span).bytes mem = span.bytes text := by
  show (mem.drop (src + span.start)).take span.len = _
  rw [← drop_drop, hdrop]
  exact Span.bytes_append behind h

theorem dotted_singleton (name : Bytes) : dotted [name] = name := append_nil name

variable {names : List Bytes}

theorem dotted_cons (name : Bytes) (hnames : names ≠ []) :
    dotted (name :: names) = name ++ 0x2e :: dotted names := by
  cases names with
  | nil => exact absurd rfl hnames
  | cons name' names => rfl

theorem length_le_dotted (names : List Bytes) : names.length ≤ (dotted names).length + 1 := by
  induction names with
  | nil => exact Nat.zero_le _
  | cons name names ih =>
    by_cases hnames : names = []
    · rw [hnames]
      exact Nat.le_add_left 1 _
    · rw [dotted_cons name hnames, length_append, length_cons, length_cons]
      omega

variable {rounds : ℕ}

/-- The loop over a dotted name looks up one name after the other. -/
theorem liteLoop_eq {behind : Bytes} (hne : names ≠ [])
    (hnames : ∀ name ∈ names, ∀ c ∈ name, c ≠ 0 ∧ c ≠ 0x2e) {src : ℕ}
    (hdrop : mem.drop src = text ++ behind) (hrounds : names.length ≤ rounds) :
    (liteLoop mem rounds src text.length (dotted names)).map (Span.bytes mem) =
      nestedLookup text names := by
  induction names generalizing src text behind rounds with
  | nil => exact absurd rfl hne
  | cons name names ih =>
    obtain ⟨rounds, rfl⟩ := Nat.exists_eq_add_of_le' (Nat.lt_of_lt_of_le (Nat.succ_pos _) hrounds)
    have hname := hnames name mem_cons_self
    rw [liteLoop, hdrop, nestedLookup]
    by_cases hlast : names = []
    · -- the last name of the key
      have hnone : strchr 0x2e name = none :=
        strchr_eq_none fun hmem => (hname _ hmem).2 rfl
      rw [hlast, dotted_singleton, hnone, getD_none, take_length, nameValue_append]
      cases hvalue : nameValue text text.length name with
      | none => rfl
      | some value =>
        exact congrArg some (bytes_shift hdrop (nameValue_bounds hvalue))
    · have hsome : strchr 0x2e (name ++ 0x2e :: dotted names) = some name.length :=
        strchr_append_cons hname _
      rw [dotted_cons name hlast, hsome, getD_some, take_left, nameValue_append]
      cases hvalue : nameValue text text.length name with
      | none => rfl
      | some value =>
        have hbounds := nameValue_bounds hvalue
        obtain ⟨before, after, htext, hbefore, hlen⟩ := exists_split_span hbounds
        have hnext : mem.drop (src + value.val.start) =
            value.val.bytes text ++ (after ++ behind) := by
          rw [← drop_drop, hdrop, ← hbefore, ← append_assoc]
          conv_lhs => rw [htext]
          rw [append_assoc, drop_left]
        have hrest := ih hlast (fun name' hname' => hnames name' (mem_cons_of_mem _ hname'))
          hnext (Nat.le_of_succ_le_succ hrounds)
        rw [hlen] at hrest
        have hkey : (name ++ 0x2e :: dotted names).drop (name.length + 1) = dotted names := by
          rw [← drop_drop, drop_left]
          rfl
        rw [bind_some, bind_some, isSome_some, if_pos rfl, hkey]
        exact hrest

variable {s : Bytes}

theorem nestedLookup_subset (h : nestedLookup text names = some s) : s ⊆ text := by
  induction names generalizing text with
  | nil =>
    cases h
    exact List.Subset.refl s
  | cons name names ih =>
    obtain ⟨value, -, hnext⟩ := bind_eq_some_iff.mp h
    have hvalue : value.val.bytes text ⊆ text :=
      List.Subset.trans (take_subset _ _) (drop_subset _ _)
    exact List.Subset.trans (ih hnext) hvalue

/-- A dotted name is looked up level by level. -/
theorem liteJsonValueOf_eq (htext : 0 ∉ text) (hne : names ≠ [])
    (hnames : ∀ name ∈ names, ∀ c ∈ name, c ≠ 0 ∧ c ≠ 0x2e) :
    liteJsonValueOf true (dotted names) text = nestedLookup text names ∧
      liteJsonValueOf false (dotted names) text = none := by
  have hdrop : text.drop 0 = text ++ [] := by rw [drop_zero, append_nil]
  have hloop := liteLoop_eq hne hnames hdrop (length_le_dotted names)
  unfold liteJsonValueOf
  cases hspan : liteLoop text ((dotted names).length + 1) 0 text.length (dotted names) with
  | none =>
    rw [hspan] at hloop
    exact ⟨hloop, rfl⟩
  | some span =>
    rw [hspan, map_some] at hloop
    refine ⟨?_, rfl⟩
    have hall : (span.bytes text).takeWhile (· ≠ 0) = span.bytes text := by
      rw [takeWhile_eq_self_iff]
      intro c hc
      have hmem := nestedLookup_subset hloop.symm hc
      exact decide_eq_true fun hzero => htext (hzero ▸ hmem)
    rw [bind_some, if_pos rfl, hall, hloop]

/-! ## Bytes of RFC 8259 texts -/

/-- An RFC 8259 string holds no raw zero. -/
theorem IsRfcChars.zero_notMem (h : IsRfcChars s) : (0 : UInt8) ∉ s := by
  have hhex : ∀ {c : UInt8}, IsHex c → (0 : UInt8) ≠ c := by
    rintro c hc rfl
    rcases hc with hc | hc | hc
    · exact absurd hc (by decide)
    · exact absurd hc.1 (by decide)
    · exact absurd hc.1 (by decide)
  induction h with
  | nil => exact not_mem_nil
  | unescaped hc _ _ _ ih =>
    rw [mem_cons, not_or]
    refine ⟨?_, ih⟩
    rintro rfl
    exact absurd hc (by decide)
  | escape hc _ ih =>
    rw [mem_cons, mem_cons, not_or, not_or]
    refine ⟨by decide, ?_, ih⟩
    rintro rfl
    simp only [mem_cons, not_mem_nil, or_false] at hc
    exact absurd hc (by decide)
  | unicode ha hb hc hd _ ih =>
    simp only [mem_cons, not_or]
    exact ⟨by decide, by decide, hhex ha, hhex hb, hhex hc, hhex hd, ih⟩

theorem zero_notMem_append {t : Bytes} (hs : (0 : UInt8) ∉ s) (ht : (0 : UInt8) ∉ t) :
    (0 : UInt8) ∉ s ++ t := by
  rw [mem_append, not_or]
  exact ⟨hs, ht⟩

theorem zero_notMem_blank (h : rfc.Blank s) : (0 : UInt8) ∉ s := by
  intro hmem
  have hspace : IsSpace 0 := h 0 hmem
  exact absurd hspace (by decide)

theorem zero_notMem_quoted (h : (0 : UInt8) ∉ s) : (0 : UInt8) ∉ quoted s := by
  rw [quoted, mem_cons, not_or]
  exact ⟨by decide, zero_notMem_append h (by decide)⟩

theorem zero_notMem_elements {blank : Bytes} {l : List Element} (hblank : rfc.Blank blank)
    (hspaced : ∀ e ∈ l, e.Spaced rfc) (hvalue : ∀ e ∈ l, (0 : UInt8) ∉ e.value) :
    (0 : UInt8) ∉ listText Element.text blank l := by
  have happend : ∀ s t : Bytes, 0 ∉ s → 0 ∉ t → 0 ∉ s ++ t :=
    fun _ _ => zero_notMem_append
  refine listText_of_append happend not_mem_nil (by decide) (zero_notMem_blank hblank) ?_
  intro e he
  exact zero_notMem_append (zero_notMem_blank (hspaced e he).pre)
    (zero_notMem_append (hvalue e he) (zero_notMem_blank (hspaced e he).post))

theorem zero_notMem_members {blank : Bytes} {l : List Member} (hblank : rfc.Blank blank)
    (hspaced : ∀ m ∈ l, m.Spaced rfc) (hvalue : ∀ m ∈ l, (0 : UInt8) ∉ m.value) :
    (0 : UInt8) ∉ listText Member.text blank l := by
  have happend : ∀ s t : Bytes, 0 ∉ s → 0 ∉ t → 0 ∉ s ++ t :=
    fun _ _ => zero_notMem_append
  refine listText_of_append happend not_mem_nil (by decide) (zero_notMem_blank hblank) ?_
  intro m hm
  have hspace := hspaced m hm
  have hright := zero_notMem_append (zero_notMem_blank hspace.gap)
    (zero_notMem_append (hvalue m hm) (zero_notMem_blank hspace.post))
  have hcolon := zero_notMem_append (by decide : (0 : UInt8) ∉ [0x3a]) hright
  exact zero_notMem_append (zero_notMem_blank hspace.pre)
    (zero_notMem_append (zero_notMem_quoted (IsRfcChars.zero_notMem hspace.name))
      (zero_notMem_append (zero_notMem_blank hspace.mid) hcolon))

variable {opening closing : UInt8}

theorem zero_notMem_brackets (hmarks : IsMarks opening closing) (hs : (0 : UInt8) ∉ s) :
    (0 : UInt8) ∉ opening :: (s ++ [closing]) := by
  rw [mem_cons, mem_append, mem_singleton, not_or, not_or]
  rcases hmarks with ⟨rfl, rfl⟩ | ⟨rfl, rfl⟩
  · exact ⟨by decide, hs, by decide⟩
  · exact ⟨by decide, hs, by decide⟩

variable {v : Bytes}

/-- Nor does any value. -/
theorem zero_notMem_of_isValue {n : ℕ} (hv : IsValue rfc n v) : (0 : UInt8) ∉ v := by
  induction hv with
  | scalar h =>
    rcases h with h | rfl | rfl | rfl
    · exact fun hmem => isNumberChar_ne_zero (h.chars 0 hmem) rfl
    · decide
    · decide
    · decide
  | string h => exact zero_notMem_quoted (IsRfcChars.zero_notMem h)
  | array hblank hspaced _ ih =>
    exact zero_notMem_brackets (.inr ⟨rfl, rfl⟩) (zero_notMem_elements hblank hspaced ih)
  | object hblank hspaced _ ih =>
    exact zero_notMem_brackets (.inl ⟨rfl, rfl⟩) (zero_notMem_members hblank hspaced ih)

/-! ## The scan for a closing bracket -/

theorem forall_prefix_cons {α : Type*} {P : List α → Prop} (a : α) (s : List α) :
    (∀ p, p <+: a :: s → P p) ↔ P [] ∧ ∀ p, p <+: s → P (a :: p) := by
  constructor
  · intro h
    exact ⟨h [] nil_prefix, fun p hp => h (a :: p) (cons_prefix_cons.mpr ⟨rfl, hp⟩)⟩
  · rintro ⟨hnil, hcons⟩ p hp
    cases p with
    | nil => exact hnil
    | cons b p =>
      obtain ⟨rfl, hp'⟩ := cons_prefix_cons.mp hp
      exact hcons p hp'

/-- A text between two brackets ends where its own closing bracket is met, from any depth. -/
def ClosesFrom (opening closing : UInt8) (state : ℕ × Bool) (s : Bytes) : Prop :=
  naiveScan opening closing state s = (1, false) ∧
    ∀ p, p <+: s → (naiveScan opening closing state p).1 ≠ 0

theorem closesFrom_cons {state : ℕ × Bool} (c : UInt8) (s : Bytes) :
    ClosesFrom opening closing state (c :: s) ↔
      state.1 ≠ 0 ∧ ClosesFrom opening closing (naiveStep opening closing state c) s := by
  rw [ClosesFrom, forall_prefix_cons]
  constructor
  · rintro ⟨hlast, hnil, hall⟩
    exact ⟨hnil, hlast, hall⟩
  · rintro ⟨hnil, hlast, hall⟩
    exact ⟨hlast, hnil, hall⟩

theorem map_succ_eq_some_succ {found : Option ℕ} {n : ℕ} :
    found.map (· + 1) = some (n + 1) ↔ found = some n := by
  cases found with
  | none => exact iff_of_false (fun h => by cases h) fun h => by cases h
  | some m => simp

/-- **The naive scan.**  The second loop of `json_get_next_object` stops at the closing bracket if
and only if the text between the brackets closes last. -/
theorem scanMarks_iff (hmarks : IsMarks opening closing) (hs : (0 : UInt8) ∉ s) (rest : Bytes)
    (depth : ℕ) (b : Bool) :
    scanMarks opening closing (s ++ closing :: rest) depth b = some s.length ↔
      ClosesFrom opening closing (depth + 1, b) s := by
  have hne : opening ≠ 0 ∧ closing ≠ 0 ∧ opening ≠ closing ∧ opening ≠ 0x22 ∧ closing ≠ 0x22 := by
    rcases hmarks with ⟨rfl, rfl⟩ | ⟨rfl, rfl⟩ <;> decide
  obtain ⟨hopening, hclosing, hdiffer, hopenquote, hclosequote⟩ := hne
  induction s generalizing depth b with
  | nil =>
    rw [nil_append, scanMarks, if_neg hclosing, if_pos rfl, length_nil]
    cases b with
    | true =>
      rw [if_pos rfl]
      refine iff_of_false ?_ fun h => ?_
      · cases scanMarks opening closing rest depth true <;> simp
      · cases h.1
    | false =>
      rw [if_neg Bool.false_ne_true]
      by_cases hdepth : depth = 0
      · rw [if_pos hdepth, hdepth]
        refine iff_of_true rfl ⟨rfl, fun p hp => ?_⟩
        rw [prefix_nil.mp hp]
        exact Nat.one_ne_zero
      · rw [if_neg hdepth]
        refine iff_of_false ?_ fun h => ?_
        · cases scanMarks opening closing rest (depth - 1) false <;> simp
        · exact hdepth (Nat.succ_inj.mp (Prod.mk.inj h.1).1)
  | cons c s ih =>
    rw [mem_cons, not_or] at hs
    have hzero : c ≠ 0 := Ne.symm hs.1
    rw [cons_append, length_cons, closesFrom_cons, scanMarks, if_neg hzero]
    refine Iff.trans ?_ (and_iff_right (Nat.succ_ne_zero depth)).symm
    by_cases hc : c = closing
    · rw [if_pos hc]
      cases b with
      | true =>
        have hstep : naiveStep opening closing (depth + 1, true) c = (depth + 1, true) := by
          rw [naiveStep, hc, if_neg hclosequote, if_pos rfl]
        rw [if_pos rfl, hstep]
        exact map_succ_eq_some_succ.trans (ih hs.2 depth true)
      | false =>
        have hstep : naiveStep opening closing (depth + 1, false) c = (depth, false) := by
          rw [naiveStep, hc, if_neg hclosequote, if_neg Bool.false_ne_true,
            if_neg (Ne.symm hdiffer), if_pos rfl]
          rfl
        rw [if_neg Bool.false_ne_true, hstep]
        by_cases hdepth : depth = 0
        · rw [if_pos hdepth, hdepth]
          refine iff_of_false (fun h => ?_) fun h => h.2 [] nil_prefix rfl
          exact absurd (Option.some.inj h) (Nat.succ_ne_zero _).symm
        · obtain ⟨k, rfl⟩ := Nat.exists_eq_succ_of_ne_zero hdepth
          rw [if_neg hdepth]
          exact map_succ_eq_some_succ.trans (ih hs.2 k false)
    · rw [if_neg hc]
      by_cases ho : c = opening
      · have hstep : naiveStep opening closing (depth + 1, b) c =
            ((if b then depth else depth + 1) + 1, b) := by
          rw [naiveStep, ho, if_neg hopenquote, if_pos rfl]
          cases b <;> rfl
        rw [if_pos ho, hstep]
        exact map_succ_eq_some_succ.trans (ih hs.2 _ b)
      rw [if_neg ho]
      by_cases hquote : c = 0x22
      · rw [if_pos hquote, naiveStep, if_pos hquote]
        exact map_succ_eq_some_succ.trans (ih hs.2 depth !b)
      · have hstep : naiveStep opening closing (depth + 1, b) c = (depth + 1, b) := by
          rw [naiveStep, if_neg hquote]
          split_ifs <;> rfl
        rw [if_neg hquote, hstep]
        exact map_succ_eq_some_succ.trans (ih hs.2 depth b)

theorem closesLast_iff : ClosesLast opening closing s ↔ ClosesFrom opening closing (1, false) s :=
  ⟨fun h => ⟨h.last, h.first⟩, fun h => ⟨h.1, h.2⟩⟩

/-! ## Values that are found -/

theorem rfc_scalar (hv : v ≠ nullText) (h : rfc.IsScalar v) :
    IsNumber v ∨ v = trueText ∨ v = falseText := by
  rcases h with h | h | h | h
  · exact .inl h
  · exact .inr (.inl h)
  · exact .inr (.inr h)
  · exact absurd h hv

/-- The end of a findable value is found. -/
theorem measured_of_findable {n : ℕ} (hv : IsValue rfc n v) (hfind : Findable v) : Measured v := by
  have hzero := zero_notMem_of_isValue hv
  cases hv with
  | scalar h =>
    rcases rfc_scalar hfind.word h with h | rfl | rfl
    · exact measured_number h
    · exact measured_words.1
    · exact measured_words.2
  | string h =>
    have hquote := (hfind.string _ rfl).2
    exact measured_quoted fun c hc =>
      ⟨fun heq => IsRfcChars.zero_notMem h (heq ▸ hc), fun heq => hquote (heq ▸ hc)⟩
  | array hblank hspaced hvalue =>
    have hmarks : IsMarks 0x5b 0x5d := .inr ⟨rfl, rfl⟩
    have hcloses := closesLast_iff.mp (hfind.brackets _ _ _ hmarks rfl)
    have hinner := zero_notMem_elements hblank hspaced fun e he =>
      zero_notMem_of_isValue (hvalue e he)
    exact measured_brackets hmarks fun rest =>
      (scanMarks_iff hmarks hinner rest 0 false).mpr hcloses
  | object hblank hspaced hvalue =>
    have hmarks : IsMarks 0x7b 0x7d := .inl ⟨rfl, rfl⟩
    have hcloses := closesLast_iff.mp (hfind.brackets _ _ _ hmarks rfl)
    have hinner := zero_notMem_members hblank hspaced fun m hm =>
      zero_notMem_of_isValue (hvalue m hm)
    exact measured_brackets hmarks fun rest =>
      (scanMarks_iff hmarks hinner rest 0 false).mpr hcloses

/-- A value that is measured wrong, or is an empty string. -/
def Mismeasured (v : Bytes) : Prop :=
  v = quoted [] ∨ ∀ (a t behind : Bytes) (c : UInt8),
    valueLen (a ++ (v ++ c :: t) ++ behind) (a ++ (v ++ c :: t)).length (typeOf v)
        (if typeOf v = .jstring then a.length + 1 else a.length) ≠
      if typeOf v = .jstring then v.length - 2 else v.length

/-- A bracket in a string ends the scan elsewhere. -/
theorem mismeasured_brackets (hmarks : IsMarks opening closing) (hs : (0 : UInt8) ∉ s)
    (h : ¬ClosesLast opening closing s) : Mismeasured (opening :: (s ++ [closing])) := by
  right
  intro a t behind c heq
  rw [closesLast_iff] at h
  have hscan : scanMarks opening closing (s ++ [closing] ++ c :: t) 0 false ≠ some s.length := by
    rw [append_assoc]
    exact mt (scanMarks_iff hmarks hs (c :: t) 0 false).mp h
  have hlen : (opening :: (s ++ [closing])).length = s.length + 2 := by
    rw [length_cons, length_append]
    rfl
  have hget : ∀ found : Option ℕ, (found.map (· + 2)).getD 0 = s.length + 2 →
      found = some s.length := by
    intro found hfound
    cases found with
    | none => exact absurd hfound (Nat.succ_ne_zero _).symm
    | some k => exact congrArg some (Nat.add_right_cancel hfound)
  rcases hmarks with ⟨rfl, rfl⟩ | ⟨rfl, rfl⟩
  · have htype : typeOf (0x7b :: (s ++ [0x7d])) = .jobject := rfl
    simp only [htype, reduceCtorEq, if_false, valueLen] at heq
    rw [window_tail, hlen] at heq
    exact hscan (hget _ heq)
  · have htype : typeOf (0x5b :: (s ++ [0x5d])) = .jarray := rfl
    simp only [htype, reduceCtorEq, if_false, valueLen] at heq
    rw [window_tail, hlen] at heq
    exact hscan (hget _ heq)

/-- An escaped quote ends a string too early. -/
theorem mismeasured_quoted (hs : (0 : UInt8) ∉ s) (h : 0x22 ∈ s) : Mismeasured (quoted s) := by
  right
  intro a t behind c heq
  obtain ⟨s₁, s₂, rfl, hfirst⟩ := eq_append_cons_of_mem h
  have hplain : ∀ d ∈ s₁, d ≠ 0 ∧ d ≠ 0x22 := fun d hd =>
    ⟨fun heq => hs (heq ▸ mem_append_left _ hd), fun heq => hfirst (heq ▸ hd)⟩
  have hchr : strchr 0x22 (s₁ ++ 0x22 :: s₂ ++ [0x22] ++ c :: t) = some s₁.length := by
    rw [append_assoc, append_assoc]
    exact strchr_append_cons hplain _
  simp only [typeOf_quoted, if_true, valueLen, length_quoted] at heq
  rw [quoted, window_tail, hchr, length_append, length_cons] at heq
  have hlen : s₁.length = s₁.length + (s₂.length + 1) := heq
  omega

theorem findable_of_type {v : Bytes} (hword : v ≠ nullText)
    (htype : typeOf v = .jnumber ∨ typeOf v = .jboolean) : Findable v where
  word := hword
  string s hs := by
    rw [hs, typeOf_quoted] at htype
    rcases htype with h | h <;> cases h
  brackets opening closing s hmarks hs := by
    rcases hmarks with ⟨rfl, rfl⟩ | ⟨rfl, rfl⟩
    · have hobject : typeOf v = .jobject := by rw [hs]; rfl
      rw [hobject] at htype
      rcases htype with h | h <;> cases h
    · have harray : typeOf v = .jarray := by rw [hs]; rfl
      rw [harray] at htype
      rcases htype with h | h <;> cases h

theorem findable_quoted (hs : s ≠ []) (hquote : 0x22 ∉ s) :
    Findable (quoted s) where
  word h := by cases h
  string s' hs' := by
    have hinj : s = s' := append_cancel_right (List.cons.inj hs').2
    exact hinj ▸ ⟨hs, hquote⟩
  brackets opening closing s' hmarks hs' := by
    rcases hmarks with ⟨rfl, rfl⟩ | ⟨rfl, rfl⟩ <;> cases hs'

theorem findable_brackets (hmarks : IsMarks opening closing)
    (hcloses : ClosesLast opening closing s) :
    Findable (opening :: (s ++ [closing])) where
  word h := by
    rcases hmarks with ⟨rfl, rfl⟩ | ⟨rfl, rfl⟩ <;> cases h
  string s' hs' := by
    rcases hmarks with ⟨rfl, rfl⟩ | ⟨rfl, rfl⟩ <;> cases hs'
  brackets opening' closing' s' hmarks' hs' := by
    obtain ⟨hopening, hrest⟩ := List.cons.inj hs'
    obtain ⟨hs, hclosing⟩ := append_inj' hrest rfl
    rw [← hopening, ← hs, ← singleton_inj.mp hclosing]
    exact hcloses

/-- The end of any other value is missed. -/
theorem mismeasured_of_not_findable {n : ℕ} (hv : IsValue rfc n v) (hword : v ≠ nullText)
    (h : ¬Findable v) : Mismeasured v := by
  cases hv with
  | scalar hscalar =>
    refine absurd (findable_of_type hword ?_) h
    rcases rfc_scalar hword hscalar with hnumber | rfl | rfl
    · obtain ⟨-, -, -, -, -, htype⟩ := typeOf_number hnumber
      exact .inl htype
    · exact .inr rfl
    · exact .inr rfl
  | @string _ s hchars =>
    by_cases hs : s = []
    · rw [hs]
      exact .inl rfl
    · by_cases hquote : 0x22 ∈ s
      · exact mismeasured_quoted (IsRfcChars.zero_notMem hchars) hquote
      · exact absurd (findable_quoted hs hquote) h
  | array hblank hspaced hvalue =>
    have hmarks : IsMarks 0x5b 0x5d := .inr ⟨rfl, rfl⟩
    have hinner := zero_notMem_elements hblank hspaced fun e he =>
      zero_notMem_of_isValue (hvalue e he)
    exact mismeasured_brackets hmarks hinner fun hcloses => h (findable_brackets hmarks hcloses)
  | object hblank hspaced hvalue =>
    have hmarks : IsMarks 0x7b 0x7d := .inl ⟨rfl, rfl⟩
    have hinner := zero_notMem_members hblank hspaced fun m hm =>
      zero_notMem_of_isValue (hvalue m hm)
    exact mismeasured_brackets hmarks hinner fun hcloses => h (findable_brackets hmarks hcloses)

/-- The next value begins where it is, and has the length that is measured. -/
theorem jsonNextValue_begins {v : Bytes} (hbegins : Begins v) (a : Bytes)
    {lead : Bytes} (hlead : ∀ c ∈ lead, Idle c) (c : UInt8) (t behind : Bytes)
    {value : JsonValue}
    (h : jsonNextValue (a ++ (lead ++ (v ++ c :: t)) ++ behind) a.length
      (a ++ (lead ++ (v ++ c :: t))).length = some value) :
    value.val.start = (valueAt (a.length + lead.length) v).val.start ∧
      value.val.len = valueLen (a ++ lead ++ (v ++ c :: t) ++ behind)
        (a ++ lead ++ (v ++ c :: t)).length (typeOf v)
        (if typeOf v = .jstring then (a ++ lead).length + 1 else (a ++ lead).length) ∧
      value.val.start ≤ value.pos := by
  rw [jsonNextValue, window_append, findValue_lead hbegins a hlead] at h
  have hlen : (a ++ lead).length = a.length + lead.length := length_append
  rw [append_assoc a lead, hlen, valueAt]
  by_cases hstring : typeOf v = .jstring
  · simp only [hstring, if_true] at h ⊢
    split_ifs at h with hout
    cases h
    exact ⟨rfl, rfl, (Nat.le_add_right _ _).trans (Nat.le_succ _)⟩
  · simp only [hstring, if_false] at h ⊢
    split_ifs at h with hout
    cases h
    exact ⟨rfl, rfl, Nat.le_add_right _ _⟩

theorem jsonNextValue_null (a : Bytes) {lead : Bytes} (hlead : ∀ c ∈ lead, Idle c)
    (t behind : Bytes) {value : JsonValue}
    (h : jsonNextValue (a ++ (lead ++ (nullText ++ t)) ++ behind) a.length
      (a ++ (lead ++ (nullText ++ t))).length = some value) :
    a.length + lead.length < value.val.start ∧ value.val.start ≤ value.pos := by
  have hidle : ∀ c ∈ lead ++ nullText, Idle c := by
    intro c hc
    rcases mem_append.mp hc with hc | hc
    · exact hlead c hc
    · simp only [nullText, mem_cons, not_mem_nil, or_false] at hc
      rcases hc with rfl | rfl | rfl | rfl <;> decide
  rw [jsonNextValue, window_append, drop_left, ← append_assoc lead,
    findValue_idle hidle] at h
  cases hfound : findValue t with
  | none =>
    rw [hfound] at h
    cases h
  | some found =>
    obtain ⟨type, k⟩ := found
    rw [hfound] at h
    simp only [map_some] at h
    split_ifs at h with hstring hout hout
    all_goals
      cases h
      simp only [length_append, nullText, length_cons, length_nil]
      omega

/-- The next value is not the one that is due, or it is empty. -/
theorem jsonNextValue_not_findable {n : ℕ} {v : Bytes} (hv : IsValue rfc n v)
    (hfind : ¬Findable v) (a : Bytes) {lead : Bytes} (hlead : ∀ c ∈ lead, Idle c)
    (c : UInt8) (t behind : Bytes) {value : JsonValue}
    (h : jsonNextValue (a ++ (lead ++ (v ++ c :: t)) ++ behind) a.length
      (a ++ (lead ++ (v ++ c :: t))).length = some value) :
    (value.val ≠ (valueAt (a.length + lead.length) v).val ∨ value.val.len = 0) ∧
      (valueAt (a.length + lead.length) v).val.start ≤ value.pos := by
  by_cases hword : v = nullText
  · rw [hword] at h ⊢
    obtain ⟨hstart, hpos⟩ := jsonNextValue_null a hlead (c :: t) behind h
    have hnull : (valueAt (a.length + lead.length) nullText).val.start = a.length + lead.length := rfl
    rw [hnull]
    refine ⟨Or.inl fun heq => ?_, by omega⟩
    rw [heq, hnull] at hstart
    omega
  obtain ⟨hstart, hlen, hpos⟩ := jsonNextValue_begins
    (begins_of_isValue hv (rfc_scalar hword)) a hlead c t behind h
  refine ⟨?_, hstart ▸ hpos⟩
  rcases mismeasured_of_not_findable hv hword hfind with rfl | hmis
  · by_cases heq : value.val = (valueAt (a.length + lead.length) (quoted [])).val
    · exact Or.inr (by rw [heq]; rfl)
    · exact .inl heq
  · refine .inl fun heq => hmis (a ++ lead) t behind c ?_
    rw [← hlen, heq, valueAt]
    split_ifs <;> rfl

/-! ## Members that are visited -/

theorem notMem_of_strchr {ch : UInt8} {n : ℕ} (h : strchr ch s = some n) : ch ∉ s.take n := by
  induction s generalizing n with
  | nil => cases h
  | cons c s ih =>
    rw [strchr] at h
    split_ifs at h with hch
    · cases h
      exact not_mem_nil
    · obtain ⟨m, hm, rfl⟩ := map_eq_some_iff.mp h
      rw [take_succ_cons, mem_cons, not_or]
      exact ⟨fun heq => hch heq.symm, ih hm⟩

variable {kv : JsonKv}

theorem quote_notMem_key {str strEnd : ℕ} (h : jsonGetNextObject mem str strEnd = some kv) :
    0x22 ∉ kv.key.bytes mem := by
  rw [jsonGetNextObject_name, bind_eq_some_iff] at h
  obtain ⟨⟨name, p⟩, hname, hmap⟩ := h
  obtain ⟨value, -, rfl⟩ := map_eq_some_iff.mp hmap
  obtain ⟨n, -, hrest⟩ := bind_eq_some_iff.mp hname
  obtain ⟨nameLen, hlen, hcolon⟩ := bind_eq_some_iff.mp hrest
  split_ifs at hcolon
  obtain ⟨m, -, heq⟩ := map_eq_some_iff.mp hcolon
  cases heq
  exact notMem_of_strchr hlen

/-- A member that is visited is the next one, or it is behind the next one. -/
theorem mem_kvLoop_cases {strEnd pos : ℕ} (h : kv ∈ kvLoop mem strEnd rounds pos) :
    pos < kv.val.start ∧ (∃ str, jsonGetNextObject mem str strEnd = some kv) ∧
      (jsonGetNextObject mem pos strEnd = some kv ∨
        ∃ first, jsonGetNextObject mem pos strEnd = some first ∧ first.pos < kv.val.start) := by
  induction rounds generalizing pos with
  | zero => cases h
  | succ rounds ih =>
    rw [kvLoop] at h
    split_ifs at h
    · cases h
    · cases hfirst : jsonGetNextObject mem pos strEnd with
      | none =>
        rw [hfirst] at h
        cases h
      | some first =>
        rw [hfirst] at h
        have hbounds := jsonGetNextObject_bounds hfirst
        rcases mem_cons.mp h with rfl | htail
        · exact ⟨by omega, ⟨pos, hfirst⟩, Or.inl rfl⟩
        · obtain ⟨hlt, hex, -⟩ := ih htail
          exact ⟨by omega, hex, Or.inr ⟨first, rfl, hlt⟩⟩

/-- The comparison of a name with the one that is looked up. -/
def isNamed (mem name : Bytes) (kv : JsonKv) : Bool :=
  decide (kv.key.len = name.length ∧
    strncmpEq (ofString (kv.key.bytes mem)) (ofString name) name.length = true)

theorem nameValue_eq (mem : Bytes) (slen : ℕ) (name : Bytes) :
    nameValue mem slen name =
      ((jsonParseNameValue mem slen).find? (isNamed mem name)).map (·.toJsonValue) := rfl

/-- A member is named by its bytes between the quotes. -/
theorem isNamed_iff (hmem : 0 ∉ mem) (hname : 0 ∉ name)
    (hkey : kv.key.start + kv.key.len ≤ mem.length) :
    isNamed mem name kv = true ↔ kv.key.bytes mem = name := by
  obtain ⟨-, -, -, -, hlen⟩ := exists_split_span hkey
  have hbytes : 0 ∉ kv.key.bytes mem := fun h =>
    hmem (drop_subset _ _ (take_subset _ _ h))
  rw [isNamed, decide_eq_true_eq]
  constructor
  · rintro ⟨hsame, hcmp⟩
    rw [strncmpEq_iff, cstr_ofString hbytes (by omega), cstr_ofString hname le_rfl] at hcmp
    exact hcmp
  · rintro rfl
    refine ⟨hlen.symm, ?_⟩
    rw [strncmpEq_iff]

variable {off : ℕ}

theorem key_bytes {m : Member} (h : mem.drop off = m.text ++ s) :
    (kvAt (off + m.pre.length) m).key.bytes mem = m.name ∧
      (kvAt (off + m.pre.length) m).key.start + m.name.length ≤ mem.length := by
  have hdrop : mem.drop (off + m.pre.length + 1) = m.name ++ 0x22 :: (m.mid ++ 0x3a :: (m.gap ++
      (m.value ++ (m.post ++ s)))) := by
    have hquote : mem.drop (off + m.pre.length) = 0x22 :: (m.name ++ 0x22 :: (m.mid ++ 0x3a ::
        (m.gap ++ (m.value ++ (m.post ++ s))))) := by
      rw [← drop_drop, h, Member.text, quoted]
      simp only [append_assoc, cons_append, drop_left, nil_append]
    rw [← drop_drop, hquote]
    rfl
  constructor
  · show (mem.drop (off + m.pre.length + 1)).take m.name.length = _
    rw [hdrop, take_left]
  · have hlength := congrArg List.length hdrop
    rw [length_drop, length_append, length_cons] at hlength
    show off + m.pre.length + 1 + m.name.length ≤ mem.length
    omega

/-- The members `l` stand at an offset. -/
def Placed (mem : Bytes) : ℕ → List Member → Prop
  | _, [] => True
  | off, m :: l => (∃ s, mem.drop off = m.text ++ s) ∧ Placed mem (off + m.text.length + 1) l

theorem placed_of_drop {rest : Bytes} {m : Member} (l : List Member)
    (h : mem.drop off = m.text ++ (commaTail Member.text l ++ rest)) : Placed mem off (m :: l) := by
  induction l generalizing m off with
  | nil => exact ⟨⟨_, h⟩, trivial⟩
  | cons m' l ih =>
    refine ⟨⟨_, h⟩, ih ?_⟩
    rw [commaTail_cons, cons_append, append_assoc] at h
    rw [Nat.add_assoc, ← drop_drop, h, ← drop_drop, drop_left]
    rfl

theorem find_membersAt_none (hmem : 0 ∉ mem) (hname : 0 ∉ name) {l : List Member}
    (hplaced : Placed mem off l) (hl : ∀ m ∈ l, m.name ≠ name) :
    ((membersAt off l).filter JsonKv.nonempty).find? (isNamed mem name) = none := by
  rw [List.find?_eq_none]
  intro kv hfilter
  have hkv := mem_of_mem_filter hfilter
  clear hfilter
  induction l generalizing off with
  | nil => cases hkv
  | cons m l ih =>
    obtain ⟨⟨s, hs⟩, hplaced⟩ := hplaced
    rcases mem_cons.mp hkv with rfl | hkv
    · obtain ⟨hbytes, hbound⟩ := key_bytes hs
      rw [isNamed_iff hmem hname hbound, hbytes]
      exact hl m mem_cons_self
    · exact ih hplaced (fun m' hm' => hl m' (mem_cons_of_mem m hm')) hkv

theorem valueAt_len_ne_zero {n : ℕ} (hv : IsValue rfc n v) (hfind : Findable v) :
    (valueAt off v).val.len ≠ 0 := by
  have hbegins := begins_of_isValue hv (rfc_scalar hfind.word)
  obtain ⟨c, s, hcons, -, -⟩ := hbegins.head
  unfold valueAt
  split_ifs with hstring
  · cases hv with
    | scalar h =>
      rcases rfc_scalar hfind.word h with hnumber | rfl | rfl
      · obtain ⟨-, -, -, -, -, htype⟩ := typeOf_number hnumber
        rw [htype] at hstring
        cases hstring
      · cases hstring
      · cases hstring
    | string h =>
      show (quoted _).length - 2 ≠ 0
      rw [length_quoted, Nat.add_sub_cancel]
      exact fun hzero => (hfind.string _ rfl).1 (eq_nil_of_length_eq_zero hzero)
    | array _ _ _ =>
      have hne : JsonType.jarray = .jstring := hstring
      cases hne
    | object _ _ _ =>
      have hne : JsonType.jobject = .jstring := hstring
      cases hne
  · rw [hcons]
    exact Nat.succ_ne_zero _

theorem valueAt_type (off : ℕ) (v : Bytes) : (valueAt off v).type = typeOf v := by
  unfold valueAt
  split_ifs with hstring
  · exact hstring.symm
  · rfl

/-- The first member of the name is the one that is found. -/
theorem find_membersAt {n : ℕ} (hmem : 0 ∉ mem) (hname : 0 ∉ name) {l : List Member}
    (hplaced : Placed mem off l) (hvalue : ∀ m ∈ l, IsValue rfc n m.value)
    (hl : ∀ m ∈ l, m.name ≠ [] ∧ 0x5c ∉ m.name ∧ Findable m.value) :
    Found (lookupAt off l name)
      ((((membersAt off l).filter JsonKv.nonempty).find? (isNamed mem name)).map
        (·.toJsonValue)) := by
  induction l generalizing off with
  | nil => exact rfl
  | cons m l ih =>
    obtain ⟨⟨s, hs⟩, hplaced⟩ := hplaced
    obtain ⟨hne, hslash, hfind⟩ := hl m mem_cons_self
    obtain ⟨hbytes, hbound⟩ := key_bytes hs
    have hnonempty : (kvAt (off + m.pre.length) m).nonempty = true :=
      decide_eq_true ⟨fun hzero => hne (eq_nil_of_length_eq_zero hzero),
        valueAt_len_ne_zero (hvalue m mem_cons_self) hfind⟩
    have hnamed := isNamed_iff hmem hname hbound
    rw [hbytes] at hnamed
    rw [membersAt, filter_cons_of_pos hnonempty, lookupAt, unescape_eq_self hslash]
    by_cases hsame : m.name = name
    · rw [if_pos hsame, List.find?_cons_of_pos (hnamed.mpr hsame)]
      refine ⟨_, rfl, rfl, fun type htype => ?_⟩
      rw [kindOf, if_neg hfind.word] at htype
      exact (valueAt_type _ _).trans (Option.some.inj htype)
    · rw [if_neg hsame, List.find?_cons_of_neg (mt hnamed.mp hsame)]
      exact ih hplaced (fun m' hm' => hvalue m' (mem_cons_of_mem m hm'))
        fun m' hm' => hl m' (mem_cons_of_mem m hm')

theorem lookupAt_append {l₁ : List Member} (hl : ∀ m ∈ l₁, unescape m.name ≠ name)
    (l₂ : List Member) : lookupAt off (l₁ ++ l₂) name = lookupAt (offsetAfter off l₁) l₂ name := by
  induction l₁ generalizing off with
  | nil => rfl
  | cons m l₁ ih =>
    rw [cons_append, lookupAt, if_neg (hl m mem_cons_self),
      ih fun m' hm' => hl m' (mem_cons_of_mem m hm')]
    rfl

/-! ## Members that are missed -/

/-- A member that the reader does not find, behind a separator: what is visited from there on under
its name is not that member. -/
theorem kvLoop_missed {n : ℕ} {a lead next : Bytes} {m : Member} {x : UInt8}
    (hspaced : m.Spaced rfc) (hvalue : IsValue rfc n m.value) (hlead : rfc.Blank lead)
    (hx : x ≠ 0 ∧ x ≠ 0x22) (hnext : m.post ++ next ≠ [])
    (htext : text = a ++ (lead ++ x :: (m.text ++ next)))
    (hmiss : ¬(m.name ≠ [] ∧ 0x5c ∉ m.name ∧ Findable m.value))
    (hkv : kv ∈ kvLoop text text.length rounds a.length) (hnonempty : kv.nonempty = true)
    (hname : kv.key.bytes text = unescape m.name) :
    kv.val ≠ (kvAt (a.length + lead.length + 1 + m.pre.length) m).val := by
  obtain ⟨hkey, hlen⟩ := of_decide_eq_true hnonempty
  obtain ⟨-, ⟨str, hstr⟩, hcases⟩ := mem_kvLoop_cases hkv
  obtain ⟨-, -, -, -, hbytes⟩ := exists_split_span (bounds_of_mem_kvLoop hkv).1
  have hne : m.name ≠ [] := by
    intro hnil
    rw [hname, hnil] at hbytes
    exact hkey hbytes.symm
  have hquote : 0x22 ∉ m.name := fun hmem =>
    quote_notMem_key hstr (hname ▸ quote_mem_unescapeFrom hspaced.name hmem 0)
  have hslash : Findable m.value → 0x5c ∈ m.name := fun h =>
    by_contra fun hmem => hmiss ⟨hne, hmem, h⟩
  obtain ⟨c, t, hct⟩ := exists_cons_of_ne_nil hnext
  have hplain : Plain (lead ++ x :: m.pre) := by
    intro d hd
    rw [mem_append, mem_cons] at hd
    rcases hd with hd | rfl | hd
    · exact plain_of_blank hlead d hd
    · exact hx
    · exact plain_of_blank hspaced.pre d hd
  have hnamePlain : Plain m.name := fun d hd =>
    ⟨fun heq => IsRfcChars.zero_notMem hspaced.name (heq ▸ hd), fun heq => hquote (heq ▸ hd)⟩
  have hsplit : text = a ++ ((lead ++ x :: m.pre) ++ (quoted m.name ++ (m.mid ++ 0x3a ::
      (m.gap ++ (m.value ++ c :: t))))) := by
    rw [htext, ← hct, Member.text]
    simp only [append_assoc, cons_append]
  have hcolon : text = (a ++ ((lead ++ x :: m.pre) ++ (quoted m.name ++ m.mid))) ++
      (0x3a :: m.gap ++ (m.value ++ c :: t)) := by
    rw [hsplit]
    simp only [append_assoc, cons_append]
  have hmember : memberName (text ++ []) a.length text.length = _ :=
    memberName_eq hplain hnamePlain hspaced.mid hsplit
  rw [append_nil] at hmember
  have hstart : a.length + lead.length + 1 + m.pre.length +
      (m.name.length + 2 + m.mid.length + 1 + m.gap.length) =
      (a ++ ((lead ++ x :: m.pre) ++ (quoted m.name ++ m.mid))).length +
        (0x3a :: m.gap).length := by
    simp only [length_append, length_cons, length_quoted]
    omega
  -- the next member has the name as it is spelled, or another value
  have hfirst : ∀ first, jsonGetNextObject text a.length text.length = some first →
      (first.key.bytes text ≠ unescape m.name ∨
        first.val ≠ (kvAt (a.length + lead.length + 1 + m.pre.length) m).val ∨
        first.val.len = 0) ∧
      (kvAt (a.length + lead.length + 1 + m.pre.length) m).val.start ≤ first.pos := by
    intro first hget
    rw [jsonGetNextObject_name, hmember, bind_some] at hget
    obtain ⟨value, hvalue', rfl⟩ := map_eq_some_iff.mp hget
    have hpos : a.length + (lead ++ x :: m.pre).length + 1 + m.name.length + (m.mid.length + 1) =
        (a ++ ((lead ++ x :: m.pre) ++ (quoted m.name ++ m.mid))).length := by
      simp only [length_append, length_cons, length_quoted]
      omega
    have hget' : jsonNextValue ((a ++ ((lead ++ x :: m.pre) ++ (quoted m.name ++ m.mid))) ++
        (0x3a :: m.gap ++ (m.value ++ c :: t)) ++ [])
        (a ++ ((lead ++ x :: m.pre) ++ (quoted m.name ++ m.mid))).length
        ((a ++ ((lead ++ x :: m.pre) ++ (quoted m.name ++ m.mid))) ++
          (0x3a :: m.gap ++ (m.value ++ c :: t))).length = some value := by
      rw [← hcolon, append_nil, ← hpos]
      exact hvalue'
    rw [kvAt, hstart]
    by_cases hfind : Findable m.value
    · obtain ⟨hbegin, -, hle⟩ := jsonNextValue_begins (begins_of_isValue hvalue
        (rfc_scalar hfind.word)) _ (idle_colon hspaced.gap) c t [] hget'
      refine ⟨.inl ?_, hbegin ▸ hle⟩
      have hdrop : text.drop (a.length + lead.length + 1) = m.text ++ next := by
        rw [htext, ← drop_drop, ← drop_drop, drop_left, drop_left]
        rfl
      have hspelled := (key_bytes hdrop).1
      have hoff : a.length + (lead ++ x :: m.pre).length + 1 =
          a.length + lead.length + 1 + m.pre.length + 1 := by
        rw [length_append, length_cons]
        omega
      rw [hoff]
      show (kvAt (a.length + lead.length + 1 + m.pre.length) m).key.bytes text ≠ _
      rw [hspelled]
      exact (unescape_ne_self hspaced.name (hslash hfind)).symm
    · obtain ⟨hvalue, hle⟩ := jsonNextValue_not_findable hvalue hfind _ (idle_colon hspaced.gap) c t
        [] hget'
      exact ⟨.inr hvalue, hle⟩
  intro heq
  rcases hcases with hget | ⟨first, hget, hlt⟩
  · rcases (hfirst kv hget).1 with hdiffer | hdiffer | hempty
    · exact hdiffer hname
    · exact hdiffer heq
    · exact hlen hempty
  · have hle := (hfirst first hget).2
    rw [← heq] at hle
    omega

/-! ## Texts -/

section Texts

variable {n : ℕ} {lead blank tail : Bytes} {l : List Member}

/-- A tab or line break before the bracket hides it. -/
theorem jsonGetObject_of_not_spaces {ch : UInt8} (hch : ¬IsSpace ch) (hlead : rfc.Blank lead)
    (h : ¬∀ c ∈ lead, c = 0x20) (s : Bytes) : jsonGetObject ch (lead ++ s) = none := by
  induction lead with
  | nil => exact absurd (fun c hc => absurd hc not_mem_nil) h
  | cons c lead ih =>
    have hc : IsSpace c := hlead c mem_cons_self
    rw [cons_append, jsonGetObject]
    by_cases hspace : c = 0x20
    · have hrest : ¬∀ c ∈ lead, c = 0x20 := fun hall =>
        h (forall_mem_cons.mpr ⟨hspace, hall⟩)
      rw [if_neg (by rw [hspace]; decide), if_pos hspace,
        ih (fun d hd => hlead d (mem_cons_of_mem c hd)) hrest]
      rfl
    · have hne : c ≠ ch := fun heq => hch (heq ▸ hc)
      have hzero : c ≠ 0 := (idle_of_isSpace hc).1
      rw [if_neg hzero, if_neg hspace, if_neg hne]

theorem jsonGetObject_of_spaces {ch : UInt8} (hch : ch ≠ 0 ∧ ch ≠ 0x20)
    (h : ∀ c ∈ lead, c = 0x20) (s : Bytes) :
    jsonGetObject ch (lead ++ ch :: s) = some lead.length := by
  rw [eq_replicate_length.mpr h, length_replicate]
  exact jsonGetObject_spaces ch hch lead.length s

/-- What is visited in a text that begins with a bracket. -/
theorem jsonObjectForEachKv_of_spaces (h : ∀ c ∈ lead, c = 0x20) (s : Bytes) :
    jsonObjectForEachKv (lead ++ 0x7b :: s) (lead ++ 0x7b :: s).length =
      kvLoop (lead ++ 0x7b :: s) (lead ++ 0x7b :: s).length (lead ++ 0x7b :: s).length
        lead.length := by
  rw [jsonObjectForEachKv, window_self, drop_zero, jsonGetObject_of_spaces (by decide) h]

/-- A member whose name has no backslash and whose value is findable is readable. -/
theorem readable_of_findable {m : Member} (hspaced : m.Spaced rfc) (hvalue : IsValue rfc n m.value)
    (hslash : 0x5c ∉ m.name) (hfind : Findable m.value) : Readable m where
  pre := hspaced.pre
  name _ hc := ⟨fun heq => IsRfcChars.zero_notMem hspaced.name (heq ▸ hc),
    fun heq => hslash (hspaced.name.slash_mem (heq ▸ hc))⟩
  mid := hspaced.mid
  gap := hspaced.gap
  post := hspaced.post
  begins := begins_of_isValue hvalue (rfc_scalar hfind.word)
  measured := measured_of_findable hvalue hfind

theorem zero_notMem_text (hlead : rfc.Blank lead) (hblank : rfc.Blank blank) (htail : rfc.Blank tail)
    (hl : ∀ m ∈ l, m.Spaced rfc ∧ IsValue rfc n m.value) :
    (0 : UInt8) ∉ lead ++ (objectText blank l ++ tail) := by
  have hinner := zero_notMem_members hblank (fun m hm => (hl m hm).1)
    fun m hm => zero_notMem_of_isValue (hl m hm).2
  exact zero_notMem_append (zero_notMem_blank hlead)
    (zero_notMem_append (zero_notMem_brackets (.inl ⟨rfl, rfl⟩) hinner) (zero_notMem_blank htail))

variable {text : Bytes}

/-- Where the members up to the name are findable, the value is found. -/
theorem found_of_allFindable (hlead : rfc.Blank lead) (hblank : rfc.Blank blank)
    (htail : rfc.Blank tail) (hl : ∀ m ∈ l, m.Spaced rfc ∧ IsValue rfc n m.value)
    (h : AllFindable lead l) (htext : text = lead ++ (objectText blank l ++ tail))
    {name : Bytes} (hname : 0 ∉ name) :
    Found (lookupAt (lead.length + 1) l name) (nameValue text text.length name) := by
  have hzero : 0 ∉ text := htext ▸ zero_notMem_text hlead hblank htail hl
  by_cases hspaces : ∀ c ∈ lead, c = 0x20
  · have hall : ∀ m ∈ l, m.name ≠ [] ∧ 0x5c ∉ m.name ∧ Findable m.value := by
      rcases h with rfl | ⟨-, hall⟩
      · exact forall_mem_nil _
      · exact hall
    have hreadable : ∀ m ∈ l, Readable m := fun m hm =>
      readable_of_findable (hl m hm).1 (hl m hm).2 (hall m hm).2.1 (hall m hm).2.2
    have hlength : l.length ≤ text.length := by
      have hle := length_le_listText Member.text blank l
      rw [htext, objectText]
      simp only [length_append, length_cons]
      omega
    have hloop : kvLoop (text ++ []) text.length text.length lead.length =
        membersAt (lead.length + 1) l := kvLoop_object hblank htail hreadable htext hlength
    have hvisit : jsonObjectForEachKv text text.length = membersAt (lead.length + 1) l := by
      rw [append_nil] at hloop
      rw [← hloop, htext, objectText, cons_append]
      exact jsonObjectForEachKv_of_spaces hspaces _
    have hplaced : Placed text (lead.length + 1) l := by
      cases l with
      | nil => exact trivial
      | cons m l =>
        have hdrop : text.drop (lead.length + 1) =
            m.text ++ (commaTail Member.text l ++ 0x7d :: tail) := by
          rw [htext, ← drop_drop, drop_left, objectText, listText]
          simp only [cons_append, append_assoc, drop_succ_cons, drop_zero,
            nil_append]
        exact placed_of_drop l hdrop
    rw [nameValue_eq, jsonParseNameValue, hvisit]
    exact find_membersAt hzero hname hplaced (fun m hm => (hl m hm).2) hall
  · have hempty : l = [] := h.resolve_right fun hall => hspaces hall.1
    have hvisit : jsonObjectForEachKv text text.length = [] := by
      rw [jsonObjectForEachKv, window_self, drop_zero, htext,
        jsonGetObject_of_not_spaces (by decide) hlead hspaces]
    rw [hempty, nameValue_eq, jsonParseNameValue, hvisit]
    exact rfl

/-- The members before one of them are visited, up to the separator before it. -/
theorem kvLoop_before {l₁ l₂ : List Member} {m : Member} (hl₁ : ∀ m' ∈ l₁, Readable m')
    (htext : text = lead ++ (objectText blank (l₁ ++ m :: l₂) ++ tail)) :
    ∃ a lead' x rounds, rfc.Blank lead' ∧ (x ≠ 0 ∧ x ≠ 0x22) ∧
      text = a ++ (lead' ++ x :: (m.text ++ (commaTail Member.text l₂ ++ 0x7d :: tail))) ∧
      a.length + lead'.length + 1 = offsetAfter (lead.length + 1) l₁ ∧
      kvLoop text text.length text.length lead.length =
        membersAt (lead.length + 1) l₁ ++ kvLoop text text.length rounds a.length := by
  have hnil : rfc.Blank [] := forall_mem_nil _
  have hbrace : (0x7b : UInt8) ≠ 0 ∧ (0x7b : UInt8) ≠ 0x22 := by decide
  cases l₁ with
  | nil =>
    refine ⟨lead, [], 0x7b, text.length, hnil, hbrace, ?_, rfl, rfl⟩
    rw [htext, objectText, nil_append, listText]
    simp only [append_assoc, cons_append, nil_append]
  | cons m₀ l₁ =>
    have hsplit : text = lead ++ ([] ++ 0x7b :: (m₀.text ++ (commaTail Member.text l₁ ++
        0x2c :: (m.text ++ (commaTail Member.text l₂ ++ 0x7d :: tail))))) := by
      have hcons : m₀ :: l₁ ++ m :: l₂ = m₀ :: (l₁ ++ m :: l₂) := rfl
      rw [htext, objectText, hcons, listText, commaTail_append]
      simp only [append_assoc, cons_append, nil_append, commaTail_cons]
    have hlength : l₁.length + 1 ≤ text.length := by
      have hle := length_le_commaTail Member.text l₁
      rw [hsplit]
      simp only [length_append, length_cons]
      omega
    obtain ⟨a, lead', hlead', htext', hoff, hrun⟩ :=
      @kvLoop_members text [] lead [] m₀ 0x2c (by decide) _ l₁ hl₁ hnil 0x7b hbrace hsplit
    obtain ⟨rounds, hrounds⟩ := Nat.exists_eq_add_of_le' hlength
    have hvisit := hrun rounds
    rw [append_nil, ← hrounds] at hvisit
    exact ⟨a, lead', 0x2c, rounds, hlead', by decide, htext', hoff, hvisit⟩

theorem exists_first {α : Type*} {p : α → Prop} {l : List α} (h : ∃ a ∈ l, ¬p a) :
    ∃ l₁ a l₂, l = l₁ ++ a :: l₂ ∧ (∀ b ∈ l₁, p b) ∧ ¬p a := by
  induction l with
  | nil =>
    obtain ⟨a, ha, -⟩ := h
    exact absurd ha not_mem_nil
  | cons b l ih =>
    by_cases hb : p b
    · have hrest : ∃ a ∈ l, ¬p a := by
        obtain ⟨a, ha, hna⟩ := h
        rcases mem_cons.mp ha with rfl | ha
        · exact absurd hb hna
        · exact ⟨a, ha, hna⟩
      obtain ⟨l₁, a, l₂, rfl, hbefore, hna⟩ := ih hrest
      exact ⟨b :: l₁, a, l₂, rfl, forall_mem_cons.mpr ⟨hb, hbefore⟩, hna⟩
    · exact ⟨[], b, l, rfl, forall_mem_nil _, hb⟩

/-- A text with a member that the reader does not find. -/
theorem not_found_of_missed (hlead : rfc.Blank lead) (hblank : rfc.Blank blank)
    (htail : rfc.Blank tail) (hl : ∀ m ∈ l, m.Spaced rfc ∧ IsValue rfc n m.value)
    (hnodup : (l.map fun m => unescape m.name).Nodup) (hspaces : ∀ c ∈ lead, c = 0x20)
    {l₁ l₂ : List Member} {m : Member} (hsplit : l = l₁ ++ m :: l₂)
    (hbefore : ∀ m' ∈ l₁, m'.name ≠ [] ∧ 0x5c ∉ m'.name ∧ Findable m'.value)
    (hkey : 0 ∉ unescape m.name) (hmiss : ¬(m.name ≠ [] ∧ 0x5c ∉ m.name ∧ Findable m.value))
    (htext : text = lead ++ (objectText blank l ++ tail)) :
    ¬Found (lookupAt (lead.length + 1) l (unescape m.name))
      (nameValue text text.length (unescape m.name)) := by
  have hzero : 0 ∉ text := htext ▸ zero_notMem_text hlead hblank htail hl
  have hm := hl m (hsplit ▸ mem_append_right l₁ mem_cons_self)
  have hdistinct : ∀ m' ∈ l₁, unescape m'.name ≠ unescape m.name := by
    intro m' hm' heq
    rw [hsplit, map_append, map_cons, nodup_append] at hnodup
    exact hnodup.2.2 _ (mem_map_of_mem hm') _ mem_cons_self heq
  have hspelled : ∀ m' ∈ l₁, m'.name ≠ unescape m.name := by
    intro m' hm'
    have h := hdistinct m' hm'
    rwa [unescape_eq_self (hbefore m' hm').2.1] at h
  have hreadable : ∀ m' ∈ l₁, Readable m' := by
    intro m' hm'
    obtain ⟨hspaced, hvalue⟩ := hl m' (hsplit ▸ mem_append_left _ hm')
    exact readable_of_findable hspaced hvalue (hbefore m' hm').2.1 (hbefore m' hm').2.2
  rw [hsplit] at htext
  obtain ⟨a, lead', x, rounds, hlead', hx, hplace, hoff, hrun⟩ := kvLoop_before hreadable htext
  have hvisit : jsonObjectForEachKv text text.length =
      membersAt (lead.length + 1) l₁ ++ kvLoop text text.length rounds a.length := by
    rw [← hrun, htext, objectText, cons_append]
    exact jsonObjectForEachKv_of_spaces hspaces _
  -- the members before have other names
  have hplaced : Placed text (lead.length + 1) l₁ := by
    cases l₁ with
    | nil => exact trivial
    | cons m₀ l₁ =>
      have hdrop : text.drop (lead.length + 1) =
          m₀.text ++ (commaTail Member.text l₁ ++ (commaTail Member.text (m :: l₂) ++
            0x7d :: tail)) := by
        have hcons : m₀ :: l₁ ++ m :: l₂ = m₀ :: (l₁ ++ m :: l₂) := rfl
        rw [htext, ← drop_drop, drop_left, objectText, hcons, listText,
          commaTail_append]
        simp only [cons_append, append_assoc, drop_succ_cons, drop_zero,
          nil_append]
      exact placed_of_drop l₁ hdrop
  have hnone := find_membersAt_none hzero hkey hplaced hspelled
  rw [nameValue_eq, jsonParseNameValue, hvisit, filter_append, List.find?_append, hnone,
    none_or, hsplit, lookupAt_append hdistinct, lookupAt, if_pos rfl, ← hoff]
  rintro ⟨value, hfound, hval, -⟩
  obtain ⟨kv, hkv, rfl⟩ := map_eq_some_iff.mp hfound
  obtain ⟨hmem, hnonempty⟩ := mem_filter.mp (mem_of_find?_eq_some hkv)
  have hbound : kv.key.start + kv.key.len ≤ text.length := (bounds_of_mem_kvLoop hmem).1
  have hsame : kv.key.bytes text = unescape m.name :=
    (isNamed_iff hzero hkey hbound).mp (List.find?_some hkv)
  have hnext : m.post ++ (commaTail Member.text l₂ ++ 0x7d :: tail) ≠ [] := by simp
  exact kvLoop_missed hm.1 hm.2 hlead' hx hnext hplace hmiss hmem hnonempty hsame hval

/-- **Which lookups are right.**  In a text whose members the reader finds, every name is looked up
right.  In any other one, whose keys are strings without zeros, some name is not. -/
theorem json_lookup_iff (n : ℕ) (lead blank tail : Bytes) (l : List Member)
    (hlead : rfc.Blank lead) (hblank : rfc.Blank blank) (htail : rfc.Blank tail)
    (hl : ∀ m ∈ l, m.Spaced rfc ∧ IsValue rfc n m.value)
    (hnodup : (l.map fun m => unescape m.name).Nodup) :
    let text := lead ++ (objectText blank l ++ tail)
    (AllFindable lead l → LookupLaw text (lead.length + 1) l) ∧
      ((∀ m ∈ l, 0 ∉ unescape m.name) → LookupLaw text (lead.length + 1) l →
        AllFindable lead l) := by
  intro text
  have hzero : 0 ∉ text := zero_notMem_text hlead hblank htail hl
  constructor
  · intro h
    constructor
    · intro behind name hname
      rw [nameValue_append]
      exact found_of_allFindable hlead hblank htail hl h rfl hname
    · exact fun names hne hnames => liteJsonValueOf_eq hzero hne hnames
  · intro hkeys hlaw
    have hfound : ∀ m ∈ l, Found (lookupAt (lead.length + 1) l (unescape m.name))
        (nameValue text text.length (unescape m.name)) := by
      intro m hm
      have h := hlaw.name [] _ (hkeys m hm)
      rwa [nameValue_append] at h
    by_contra hmissed
    rw [AllFindable, not_or] at hmissed
    obtain ⟨hne, hmissed⟩ := hmissed
    by_cases hspaces : ∀ c ∈ lead, c = 0x20
    · have hex : ∃ m ∈ l, ¬(m.name ≠ [] ∧ 0x5c ∉ m.name ∧ Findable m.value) := by
        by_contra hall
        exact hmissed ⟨hspaces, fun m hm => by_contra fun h => hall ⟨m, hm, h⟩⟩
      obtain ⟨l₁, m, l₂, hsplit, hbefore, hmiss⟩ := exists_first hex
      have hm : m ∈ l := hsplit ▸ mem_append_right l₁ mem_cons_self
      exact not_found_of_missed hlead hblank htail hl hnodup hspaces hsplit hbefore (hkeys m hm)
        hmiss rfl (hfound m hm)
    -- the reader does not see the brace
    obtain ⟨m, l', rfl⟩ := exists_cons_of_ne_nil hne
    have hvisit : jsonObjectForEachKv text text.length = [] := by
      rw [jsonObjectForEachKv, window_self, drop_zero,
        jsonGetObject_of_not_spaces (by decide) hlead hspaces]
    have h := hfound m mem_cons_self
    rw [nameValue_eq, jsonParseNameValue, hvisit, lookupAt, if_pos rfl] at h
    obtain ⟨value, hvalue, -⟩ := h
    cases hvalue

end Texts

/-- `"b":1`. -/
def memberB : Member := ⟨[], [0x62], [], [], [0x31], []⟩

theorem memberB_spaced : memberB.Spaced rfc ∧ IsValue rfc 0 memberB.value := by
  have hblank : rfc.Blank [] := forall_mem_nil _
  exact ⟨⟨hblank, .unescaped (by decide) (by decide) (by decide) .nil, hblank, hblank, hblank⟩,
    .scalar (.inl isNumber_one)⟩

/-- The text ` {"b":1}`. -/
theorem json_lookup_iff_memberB :
    LookupLaw [0x20, 0x7b, 0x22, 0x62, 0x22, 0x3a, 0x31, 0x7d] 2 [memberB] := by
  have hblank : rfc.Blank [] := fun c hc => absurd hc not_mem_nil
  have hspace : rfc.Blank [0x20] := forall_mem_singleton.mpr (.inl rfl)
  have hfind : AllFindable [0x20] [memberB] :=
    .inr ⟨forall_mem_singleton.mpr rfl, forall_mem_singleton.mpr
      ⟨by decide, by decide, findable_of_type (by decide) (.inl rfl)⟩⟩
  exact (json_lookup_iff 0 [0x20] [] [] [memberB] hspace hblank hblank
    (forall_mem_singleton.mpr memberB_spaced) (nodup_singleton _)).1 hfind

/-- `"a":null`. -/
def memberNull : Member := ⟨[], [0x61], [], [], nullText, []⟩

/-- In `{"a":null,"b":1}` the name of the second member is taken for the value of the first one. -/
theorem json_lookup_null :
    (∀ m ∈ [memberNull, memberB], m.Spaced rfc ∧ IsValue rfc 0 m.value) ∧
      ¬LookupLaw (objectText [] [memberNull, memberB]) 1 [memberNull, memberB] := by
  have hblank : rfc.Blank [] := fun c hc => absurd hc not_mem_nil
  constructor
  · rw [forall_mem_cons, forall_mem_singleton]
    have hname : rfc.IsChars memberNull.name :=
      .unescaped (by decide) (by decide) (by decide) .nil
    exact ⟨⟨⟨hblank, hname, hblank, hblank, hblank⟩,
      .scalar (.inr (.inr (.inr rfl)))⟩, memberB_spaced⟩
  · intro h
    have hfound := h.name [] [0x62] (by decide)
    rw [append_nil] at hfound
    have hnone : nameValue (objectText [] [memberNull, memberB])
        (objectText [] [memberNull, memberB]).length [0x62] = none := by decide
    rw [hnone] at hfound
    obtain ⟨value, hvalue, -⟩ := hfound
    cases hvalue

end Iotkit.Json
