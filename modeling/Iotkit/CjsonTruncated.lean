/-
# Truncated texts

The texts that `lite_cjson_parse` (`infra_cjson.c`) takes for whole ones although brackets are
missing: those where the last byte closes more than one array or object.
-/
import Iotkit.CjsonAccepted

open JsonText

namespace Iotkit.Cjson

open List

/-! ## Short texts -/

section Short

variable {β : Type*} {text : β → Bytes}

/-- An entry and a comma, for each of the entries. -/
def commaLead (text : β → Bytes) (l : List β) : Bytes :=
  l.flatMap fun b => text b ++ [0x2c]

theorem commaLead_cons (b : β) (l : List β) :
    commaLead text (b :: l) = text b ++ 0x2c :: commaLead text l := by
  rw [commaLead, flatMap_cons, append_assoc]
  rfl

theorem length_le_commaLead (text : β → Bytes) (l : List β) :
    l.length ≤ (commaLead text l).length := by
  induction l with
  | nil => exact le_rfl
  | cons b l ih =>
    rw [commaLead_cons, length_append, length_cons, length_cons]
    omega

theorem commaTail_concat (l : List β) (b : β) :
    commaTail text (l ++ [b]) = 0x2c :: (commaLead text l ++ text b) := by
  induction l with
  | nil => rw [nil_append, commaTail_cons, commaTail_nil, append_nil]; rfl
  | cons a l ih =>
    rw [cons_append, commaTail_cons, ih, commaLead_cons, append_assoc,
      cons_append]

theorem listText_concat (blank : Bytes) (l : List β) (b : β) :
    listText text blank (l ++ [b]) = commaLead text l ++ text b := by
  cases l with
  | nil => rw [nil_append, listText, commaTail_nil, append_nil]; rfl
  | cons a l =>
    rw [cons_append, listText, commaTail_concat, commaLead_cons, append_assoc,
      cons_append]

theorem Starts.not_replicate {v u : Bytes} (hv : Starts v) {c : UInt8} (hc : IsClosing c)
    {k : ℕ} : List.replicate k c ≠ u ++ v := by
  intro heq
  obtain ⟨d, t, rfl, -, hne, hlt⟩ := hv
  have hmem : d ∈ List.replicate k c :=
    heq ▸ mem_append_right u mem_cons_self
  obtain rfl := (mem_replicate.mp hmem).2
  rcases hc with rfl | rfl
  · exact hne rfl
  · exact absurd hlt (by decide)

/-- Where entries end with more brackets than one, the last value ends with them. -/
theorem short_last {lead value post : β → Bytes}
    (htext : ∀ b, text b = lead b ++ (value b ++ post b)) {closing : UInt8}
    (hclosing : IsClosing closing) {blank : Bytes} (hblank : lenient.Blank blank)
    {l : List β} (hl : ∀ b ∈ l, lenient.Blank (post b) ∧ Starts (value b)) {t : Bytes} {k : ℕ}
    (ht : t.getLast? = some closing)
    (h : t ++ List.replicate k closing = listText text blank l) :
    ∃ (init : List β) (b : β) (u : Bytes), l = init ++ [b] ∧ post b = [] ∧
      value b = u ++ List.replicate k closing ∧ u.getLast? = some closing ∧
      t = commaLead text init ++ (lead b ++ u) := by
  have hgt : ¬closing ≤ 32 := by rcases hclosing with rfl | rfl <;> decide
  have hlast : (t ++ List.replicate k closing).getLast? = some closing := by
    rw [List.getLast?_append, ht]
    cases k with
    | zero => rfl
    | succ k =>
      rw [replicate_succ', List.getLast?_concat]
      rfl
  rcases eq_nil_or_concat l with rfl | ⟨init, b, rfl⟩
  · rw [h, listText] at hlast
    exact absurd (hblank closing (mem_of_getLast? hlast)) hgt
  rw [concat_eq_append] at hl h ⊢
  obtain ⟨hpost, hstarts⟩ := hl b (mem_append_right init mem_cons_self)
  rw [listText_concat, htext] at h
  have hnil : post b = [] := by
    by_contra hne
    obtain ⟨c, hc⟩ := Option.isSome_iff_exists.mp (List.getLast?_isSome.mpr hne)
    rw [h, List.getLast?_append, List.getLast?_append, List.getLast?_append, hc] at hlast
    obtain rfl : c = closing := Option.some.inj hlast
    exact hgt (hpost c (mem_of_getLast? hc))
  rw [hnil, append_nil, ← append_assoc] at h
  rcases append_eq_append_iff.mp h with ⟨u, -, hrep⟩ | ⟨u, hu, hvalue⟩
  · exact absurd hrep (hstarts.not_replicate hclosing)
  have hne : u ≠ [] := by
    rintro rfl
    exact hstarts.not_replicate (u := []) hclosing hvalue.symm
  refine ⟨init, b, u, rfl, hnil, hvalue, ?_, by rw [hu, append_assoc]⟩
  rw [hu, List.getLast?_append] at ht
  obtain ⟨c, hc⟩ := Option.isSome_iff_exists.mp (List.getLast?_isSome.mpr hne)
  rw [hc] at ht ⊢
  exact ht

variable {α : Type} {R : ℕ → β → α → Prop} {entry : ℕ → Except Stop (α × ℕ)} {closing : UInt8}
  {s w : Bytes} {p : ℕ}

theorem entryLoop_commas {l : List β} (hentry : ∀ b ∈ l, ReadsEntry entry R text closing s b)
    (h : s.drop p = commaLead text l ++ w) :
    ∃ as : List α, as.length = l.length ∧ ∀ rounds, entryLoop entry s (rounds + l.length) p =
      (entryLoop entry s rounds (p + (commaLead text l).length)).map
        fun found => (as ++ found.1, found.2) := by
  induction l generalizing p with
  | nil =>
    refine ⟨[], rfl, fun rounds => ?_⟩
    have hpos : p + (commaLead text []).length = p := rfl
    rw [hpos]
    show entryLoop entry s rounds p = _
    cases entryLoop entry s rounds p with
    | error e => rfl
    | ok found => rfl
  | cons b l ih =>
    rw [commaLead_cons, append_assoc, cons_append] at h
    obtain ⟨a, hread, -⟩ := hentry b mem_cons_self p 0x2c _ (.inl rfl) h
    have hcomma := drop_add h
    have hnext : s.drop (p + (text b).length + 1) = commaLead text l ++ w := by
      rw [← drop_drop, hcomma]
      rfl
    obtain ⟨as, hlen, hloop⟩ := ih (fun b' hb' => hentry b' (mem_cons_of_mem b hb')) hnext
    refine ⟨a :: as, by rw [length_cons, length_cons, hlen], fun rounds => ?_⟩
    have hpos : p + (text b).length + 1 + (commaLead text l).length =
        p + (commaLead text (b :: l)).length := by
      rw [commaLead_cons, length_append, length_cons]
      omega
    rw [length_cons, ← Nat.add_assoc, entryLoop_comma hread (getElem?_of_drop hcomma), hloop,
      hpos]
    cases entryLoop entry s rounds (p + (commaLead text (b :: l)).length) with
    | error e => rfl
    | ok found => rfl

/-- An array or object whose last entry ends with the text. -/
theorem parseEntries_short (hopens : OpensWith closing (s.drop (p + 1)))
    (hclosing : IsClosing closing)
    (hskip : ∀ p, entry (bufferSkipWhitespace s p) = entry p) {l : List β}
    (hentry : ∀ b ∈ l, ReadsEntry entry R text closing s b)
    (h : s.drop (p + 1) = commaLead text l ++ w) {a : α}
    (hlast : entry (p + 1 + (commaLead text l).length) = .ok (a, s.length - 1))
    (hget : s[s.length - 1]? = some closing) (type : ItemType) :
    parseEntries closing type entry s p =
      .ok (⟨type, p, s.length - p, l.length + 1⟩, s.length) := by
  obtain ⟨u, d, t, hu, hd, hne, hdrop⟩ := hopens
  have hfirst := bufferSkipWhitespace_eq hu hd hdrop
  have hget' := getElem?_of_drop (drop_add hdrop)
  have hlt := lt_of_drop (drop_add hdrop)
  obtain ⟨as, hlen, hloop⟩ := entryLoop_commas hentry h
  have hrounds : l.length ≤ s.length := by
    have hle := length_le_commaLead text l
    have hlength := congrArg List.length h
    rw [length_drop, length_append] at hlength
    omega
  obtain ⟨rounds, hsum⟩ := Nat.exists_eq_add_of_le' hrounds
  have hcomma : s[s.length - 1]? ≠ some 0x2c := by
    rw [hget]
    rcases hclosing with rfl | rfl <;> decide
  have hrun : entryLoop entry s (s.length + 1) (p + 1) = .ok (as ++ [a], s.length - 1) := by
    have hsucc : s.length + 1 = rounds + 1 + l.length := by omega
    rw [hsucc, hloop, entryLoop_last hlast hcomma]
    rfl
  unfold parseEntries
  simp only
  rw [hfirst, hget', if_neg fun heq => hne (Option.some.inj heq), if_neg (not_le.mpr hlt), ← hfirst,
    entryLoop_first hskip, hrun]
  show (if s[s.length - 1]? ≠ some closing then _ else _) = _
  rw [if_neg (not_not.mpr hget), length_append, hlen]
  have hlength : s.length - 1 - p + 1 = s.length - p := by omega
  have hend : s.length - 1 + 1 = s.length := by omega
  rw [hlength, hend]
  rfl

variable {value : ℕ → Except Stop (Item × ℕ)} {u : Bytes} {item : Item}

theorem parseElement_short {pre : Bytes} (hpre : lenient.Blank pre)
    (hu : ∃ d t, u = d :: t ∧ 32 < d) (h : s.drop p = pre ++ u)
    (hrun : value (p + pre.length) = .ok (item, s.length)) :
    parseElement value s p = .ok (item, s.length - 1) := by
  obtain ⟨d, t, rfl, hd⟩ := hu
  have hend := bufferSkipWhitespace_end (s := s) le_rfl fun d hd => by
    rw [drop_eq_nil_of_le le_rfl] at hd
    cases hd
  rw [parseElement, bufferSkipWhitespace_eq hpre hd h, hrun]
  show Except.ok (item, bufferSkipWhitespace s s.length) = _
  rw [hend]

theorem parseMember_short {m : Member} (hm : m.Spaced lenient) (hu : ∃ d t, u = d :: t ∧ 32 < d)
    (h : s.drop p = m.pre ++ (quoted m.name ++ (m.mid ++ 0x3a :: (m.gap ++ u))))
    (hrun : value (p + valueStart m) = .ok (item, s.length)) :
    ∃ items, parseMember value s p = .ok (items, s.length - 1) := by
  have hhead : s.drop p = m.pre ++ 0x22 :: (m.name ++ [0x22] ++ (m.mid ++ 0x3a ::
      (m.gap ++ u))) := h
  have hmid := drop_add (drop_add h)
  have hcolon := drop_add hmid
  have hvalue : s.drop (p + m.pre.length + (quoted m.name).length + m.mid.length + 1) =
      m.gap ++ u := by
    rw [← drop_drop, hcolon]
    rfl
  have hstart : p + valueStart m =
      p + m.pre.length + (quoted m.name).length + m.mid.length + 1 + m.gap.length := by
    rw [valueStart, length_quoted]
    omega
  have hblank : (32 : UInt8) < 0x22 ∧ (32 : UInt8) < 0x3a := by decide
  rw [hstart] at hrun
  refine ⟨(⟨.cjsonString, p + m.pre.length + 1, m.name.length, 0⟩, item), ?_⟩
  rw [parseMember, bufferSkipWhitespace_eq hm.pre hblank.1 hhead,
    parseString_eq hm.name (drop_add h)]
  show (if s[bufferSkipWhitespace s (p + m.pre.length + (quoted m.name).length)]? ≠ some 0x3a
    then _ else _) = _
  rw [bufferSkipWhitespace_eq hm.mid hblank.2 hmid, if_neg (not_not.mpr (getElem?_of_drop hcolon)),
    parseElement_short hm.gap hu hvalue hrun]
  rfl

end Short

variable {c : UInt8} {t : Bytes}

theorem short_brackets {opening closing : UInt8} {inner : Bytes} {k : ℕ}
    (h : opening :: (inner ++ [closing]) = t ++ List.replicate k c) (hk : 0 < k)
    (ht : t.getLast? = some c) (hne : opening ≠ c) :
    c = closing ∧ ∃ j t', k = j + 1 ∧ t = opening :: t' ∧ t'.getLast? = some c ∧
      t' ++ List.replicate j c = inner := by
  obtain ⟨j, rfl⟩ := Nat.exists_eq_add_of_le' hk
  rw [replicate_succ', ← append_assoc, ← cons_append] at h
  obtain ⟨hinit, hlast⟩ := append_inj' h rfl
  obtain rfl := singleton_inj.mp hlast
  cases t with
  | nil => cases ht
  | cons d t' =>
    rw [cons_append] at hinit
    obtain ⟨rfl, hinner⟩ := List.cons.inj hinit
    refine ⟨rfl, j, t', rfl, rfl, ?_, hinner.symm⟩
    cases t' with
    | nil => exact absurd (Option.some.inj ht) hne
    | cons e t' => rwa [List.getLast?_cons_cons] at ht

/-- The value at the end of the text is whole, or brackets are missing. -/
theorem run_last {n : ℕ} {v u : Bytes} {j : ℕ} (hv : IsValue lenient n v)
    (hvu : v = u ++ List.replicate j c) {limit : ℕ} {s : Bytes} {p rounds depth : ℕ}
    (h : s.drop p = u) (hp : p ≤ s.length) (hdepth : n + depth ≤ limit) (hrounds : n < rounds)
    (hshort : 0 < j → ∃ item, parseValue limit s rounds depth p = .ok (item, s.length)) :
    ∃ item, parseValue limit s rounds depth p = .ok (item, s.length) := by
  rcases Nat.eq_zero_or_pos j with rfl | hj
  · rw [replicate_zero, append_nil] at hvu
    obtain ⟨base, -, hparses⟩ := exists_parses hv
    have hdrop : s.drop p = v ++ [] := by rw [h, hvu, append_nil]
    have hrun := hparses hdrop (fun _ c hc => by cases hc) hdepth hrounds
    rw [hvu, ← length_of_drop h hp] at hrun
    exact ⟨_, hrun⟩
  · exact hshort hj

theorem getElem?_last {s : Bytes} {p : ℕ} (h : s.drop p = t) (ht : t.getLast? = some c) :
    s[s.length - 1]? = some c := by
  have hlt : p < s.length := by
    by_contra hle
    rw [drop_eq_nil_of_le (not_lt.mp hle)] at h
    rw [← h] at ht
    cases ht
  rw [← h, List.getLast?_eq_getElem?, List.getElem?_drop, length_drop] at ht
  rw [← ht]
  congr 1
  omega

theorem Starts.of_append {v u w : Bytes} (hv : Starts v) (h : v = u ++ w) (hu : u ≠ []) :
    ∃ d t, u = d :: t ∧ 32 < d ∧ d ≠ 0x5d ∧ d < 0x7d := by
  obtain ⟨d, t, rfl, hd⟩ := hv
  cases u with
  | nil => exact absurd rfl hu
  | cons e u =>
    obtain ⟨rfl, -⟩ := List.cons.inj h
    exact ⟨d, u, rfl, hd⟩

theorem opensWith_append {β : Type*} {text : β → Bytes} {closing : UInt8} {l : List β}
    {x : Bytes} (hl : ∀ b ∈ l, OpensWith closing (text b)) (hx : OpensWith closing x) :
    OpensWith closing (commaLead text l ++ x) := by
  cases l with
  | nil => exact hx
  | cons b l =>
    obtain ⟨u, d, t, hu, hd, hne, heq⟩ := hl b mem_cons_self
    refine ⟨u, d, t ++ 0x2c :: (commaLead text l ++ x), hu, hd, hne, ?_⟩
    rw [commaLead_cons, heq]
    simp only [append_assoc, cons_append]

/-- **Short texts are accepted.**  A text that becomes a value when its last byte, a closing bracket,
is repeated, is taken for that value, up to the end of the text. -/
theorem parseValue_short {n : ℕ} {v : Bytes} (hv : IsValue lenient n v) {k : ℕ}
    (hvt : v = t ++ List.replicate k c) (hk : 0 < k) (hc : IsClosing c) (ht : t.getLast? = some c)
    {limit : ℕ} {s : Bytes} {p rounds depth : ℕ} (h : s.drop p = t)
    (hdepth : n + depth ≤ limit) (hrounds : n < rounds) :
    ∃ item, parseValue limit s rounds depth p = .ok (item, s.length) ∧
      item.type ≠ .cjsonString ∧ item.value = p ∧ item.valueLength = t.length := by
  have hmem : c ∈ v := by
    rw [hvt]
    exact mem_append_left _ (mem_of_getLast? ht)
  induction hv generalizing t k p rounds depth with
  | scalar hscalar =>
    exfalso
    rcases hscalar with rfl | rfl | rfl | hnumber
    · rcases hc with rfl | rfl <;> exact absurd hmem (by decide)
    · rcases hc with rfl | rfl <;> exact absurd hmem (by decide)
    · rcases hc with rfl | rfl <;> exact absurd hmem (by decide)
    · have hchar := hnumber.chars c hmem
      rcases hc with rfl | rfl <;> exact absurd hchar (by decide)
  | @string n t' _ =>
    exfalso
    have hne : (0x22 : UInt8) ≠ c := by rcases hc with rfl | rfl <;> decide
    obtain ⟨heq, -⟩ := short_brackets hvt hk ht hne
    exact hne heq.symm
  | @array n blank l hblank hspaced hvalue ih =>
    have hne : (0x5b : UInt8) ≠ c := by rcases hc with rfl | rfl <;> decide
    obtain ⟨rfl, j, t', rfl, rfl, ht', hinner⟩ := short_brackets hvt hk ht hne
    obtain ⟨rounds, rfl⟩ := Nat.exists_eq_add_of_le' (Nat.one_le_of_lt hrounds)
    have hparts : ∀ e ∈ l, lenient.Blank e.post ∧ Starts e.value := fun e he =>
      ⟨(hspaced e he).post, starts_of_isValue (hvalue e he)⟩
    have htext : ∀ e : Element, e.text = e.pre ++ (e.value ++ e.post) := fun _ => rfl
    obtain ⟨init, e, u, rfl, -, heq, hu, hsplit⟩ :=
      short_last htext hc hblank hparts ht' hinner
    have he : e ∈ init ++ [e] := mem_append_right init mem_cons_self
    have hune : u ≠ [] := by
      rintro rfl
      cases hu
    obtain ⟨d, x, hd, hgt, hdne, hdlt⟩ := (hparts e he).2.of_append heq hune
    have hnext : s.drop (p + 1) = commaLead Element.text init ++ (e.pre ++ u) := by
      rw [← drop_drop, h, ← hsplit]
      rfl
    have hrest := drop_add hnext
    have hstart := drop_add hrest
    have hdepth' : n + (depth + 1) ≤ limit := by omega
    have hrounds' : n < rounds := Nat.lt_of_succ_lt_succ hrounds
    have hle : p + 1 + (commaLead Element.text init).length + e.pre.length ≤ s.length :=
      (lt_of_drop (hd ▸ hstart)).le
    obtain ⟨item, hrun⟩ := run_last (hvalue e he) heq hstart hle hdepth' hrounds' fun hj => by
      have hmem' : 0x5d ∈ e.value := heq ▸ mem_append_left _ (mem_of_getLast? hu)
      obtain ⟨item, hrun, -⟩ := ih e he heq hj hu hstart hdepth' hrounds' hmem'
      exact ⟨item, hrun⟩
    have hlast := parseElement_short (hspaced e he).pre ⟨d, x, hd, hgt⟩ hrest hrun
    have hopens : OpensWith 0x5d (s.drop (p + 1)) := by
      rw [hnext]
      refine opensWith_append (fun e' he' => ?_) ⟨e.pre, d, x, (hspaced e he).pre, hgt, hdne, hd ▸ rfl⟩
      have hmem := mem_append_left [e] he'
      exact opensWith_element (hspaced e' hmem) (hparts e' hmem).2
    have hentry : ∀ e' ∈ init, ReadsEntry (parseElement (parseValue limit s rounds (depth + 1)) s)
        (ElementAt n) Element.text 0x5d s e' := by
      intro e' he'
      have hmem := mem_append_left [e] he'
      obtain ⟨base, -, hparses⟩ := exists_parses (hvalue e' hmem)
      exact readsEntry_element hdepth' hrounds' rfl (hspaced e' hmem) (hparts e' hmem).2
        ⟨base, hparses⟩
    have hrun := parseEntries_short hopens hc (parseElement_skip _) hentry hnext hlast
      (getElem?_last h ht) .cjsonArray
    have htype : ItemType.cjsonArray ≠ .cjsonString := by decide
    refine ⟨⟨.cjsonArray, p, s.length - p, init.length + 1⟩, ?_, htype, rfl, ?_⟩
    · rw [parseValue_of_head h (by decide), if_neg (by decide), if_neg (by decide), if_pos rfl,
        parseArray, if_neg (by omega), byteAt_of_drop h]
      exact hrun
    · rw [← h, length_drop]
  | @object n blank l hblank hspaced hvalue ih =>
    have hne : (0x7b : UInt8) ≠ c := by rcases hc with rfl | rfl <;> decide
    obtain ⟨rfl, j, t', rfl, rfl, ht', hinner⟩ := short_brackets hvt hk ht hne
    obtain ⟨rounds, rfl⟩ := Nat.exists_eq_add_of_le' (Nat.one_le_of_lt hrounds)
    have hparts : ∀ m ∈ l, lenient.Blank m.post ∧ Starts m.value := fun m hm =>
      ⟨(hspaced m hm).post, starts_of_isValue (hvalue m hm)⟩
    have htext : ∀ m : Member, m.text = m.pre ++ (quoted m.name ++ (m.mid ++ 0x3a :: m.gap)) ++
        (m.value ++ m.post) := by
      intro m
      rw [Member.text]
      simp only [append_assoc, cons_append]
    obtain ⟨init, m, u, rfl, -, heq, hu, hsplit⟩ :=
      short_last htext hc hblank hparts ht' hinner
    have hm : m ∈ init ++ [m] := mem_append_right init mem_cons_self
    have hune : u ≠ [] := by
      rintro rfl
      cases hu
    obtain ⟨d, x, hd, hgt, hdne, hdlt⟩ := (hparts m hm).2.of_append heq hune
    have hnext : s.drop (p + 1) = commaLead Member.text init ++
        (m.pre ++ (quoted m.name ++ (m.mid ++ 0x3a :: (m.gap ++ u)))) := by
      rw [← drop_drop, h, hsplit]
      simp only [drop_succ_cons, drop_zero, append_assoc, cons_append]
    have hrest := drop_add hnext
    have hstart : s.drop (p + 1 + (commaLead Member.text init).length + valueStart m) = u := by
      have hfrom : s.drop (p + 1 + (commaLead Member.text init).length) =
          (m.pre ++ (quoted m.name ++ (m.mid ++ 0x3a :: m.gap))) ++ u := by
        rw [hrest]
        simp only [append_assoc, cons_append]
      have hlen : (m.pre ++ (quoted m.name ++ (m.mid ++ 0x3a :: m.gap))).length = valueStart m := by
        simp only [valueStart, length_append, length_cons, length_quoted]
        omega
      rw [← hlen]
      exact drop_add hfrom
    have hdepth' : n + (depth + 1) ≤ limit := by omega
    have hrounds' : n < rounds := Nat.lt_of_succ_lt_succ hrounds
    have hle : p + 1 + (commaLead Member.text init).length + valueStart m ≤ s.length :=
      (lt_of_drop (hd ▸ hstart)).le
    obtain ⟨item, hrun⟩ := run_last (hvalue m hm) heq hstart hle hdepth' hrounds' fun hj => by
      have hmem' : 0x7d ∈ m.value := heq ▸ mem_append_left _ (mem_of_getLast? hu)
      obtain ⟨item, hrun, -⟩ := ih m hm heq hj hu hstart hdepth' hrounds' hmem'
      exact ⟨item, hrun⟩
    obtain ⟨items, hlast⟩ := parseMember_short (hspaced m hm) ⟨d, x, hd, hgt⟩ hrest hrun
    have hopens : OpensWith 0x7d (s.drop (p + 1)) := by
      rw [hnext]
      refine opensWith_append (fun m' hm' => ?_)
        ⟨m.pre, 0x22, _, (hspaced m hm).pre, by decide, by decide, rfl⟩
      exact opensWith_member (hspaced m' (mem_append_left [m] hm'))
    have hentry : ∀ m' ∈ init, ReadsEntry (parseMember (parseValue limit s rounds (depth + 1)) s)
        (MemberAt n) Member.text 0x7d s m' := by
      intro m' hm'
      have hmem := mem_append_left [m] hm'
      obtain ⟨base, -, hparses⟩ := exists_parses (hvalue m' hmem)
      exact readsEntry_member hdepth' hrounds' rfl (hspaced m' hmem) (hparts m' hmem).2
        ⟨base, hparses⟩
    have hrun := parseEntries_short hopens hc (parseMember_skip _) hentry hnext hlast
      (getElem?_last h ht) .cjsonObject
    have htype : ItemType.cjsonObject ≠ .cjsonString := by decide
    refine ⟨⟨.cjsonObject, p, s.length - p, init.length + 1⟩, ?_, htype, rfl, ?_⟩
    · rw [parseValue_of_head h (by decide), if_neg (by decide), if_neg (by decide),
        if_neg (by decide), if_pos rfl, parseObject, if_neg (by omega), getElem?_of_drop h,
        if_neg (not_not.mpr rfl)]
      exact hrun
    · rw [← h, length_drop]

/-! ## Whole values -/

/-- The text behind a byte order mark and blanks. -/
def payload (text : Bytes) : Bytes :=
  text.drop (bufferSkipWhitespace text (skipUtf8Bom text))

/-- The item is a value of the text, which stands there as a whole. -/
def IsWhole (text : Bytes) (item : Item) : Prop :=
  ∃ n off v w, text.drop off = v ++ w ∧ IsValue lenient n v ∧ Covers off v item

/-- The parser ends without reading a byte outside of the text, and what it accepts lies in the text
and is a whole value. -/
structure ParseLaw (limit : ℕ) (text : Bytes) : Prop where
  ends : liteCjsonParse limit text ≠ .error .unfinished
  inside : liteCjsonParse limit text ≠ .error .outside
  extent : ∀ item, liteCjsonParse limit text = .ok item →
    item.value + item.valueLength ≤ text.length
  whole : ∀ item, liteCjsonParse limit text = .ok item → IsWhole text item

/-- Brackets are missing, and all of them like the last byte. -/
def Short (limit : ℕ) (t : Bytes) : Prop :=
  ∃ n k c, n ≤ limit ∧ 0 < k ∧ IsClosing c ∧ t.getLast? = some c ∧
    IsValue lenient n (t ++ List.replicate k c)

theorem isWhole_bounds {text : Bytes} {item : Item} (h : IsWhole text item) :
    item.value + item.valueLength ≤ text.length := by
  obtain ⟨n, off, v, w, hdrop, hv, hcovers⟩ := h
  obtain ⟨d, t, hd, -⟩ := starts_of_isValue hv
  have hlt : off < text.length := by
    rw [hd, cons_append] at hdrop
    exact lt_of_drop hdrop
  have hlen := congrArg List.length hdrop
  rw [length_drop, length_append] at hlen
  have hextent := hcovers.extent
  split_ifs at hextent
  · omega
  · omega

theorem isValue_append_unique {n n' k : ℕ} (hc : IsClosing c) (h : IsValue lenient n t)
    (h' : IsValue lenient n' (t ++ List.replicate k c)) : k = 0 := by
  obtain ⟨item, -, hparses⟩ := exists_parses h
  obtain ⟨item', -, hparses'⟩ := exists_parses h'
  have hdrop : (t ++ List.replicate k c).drop 0 = t ++ List.replicate k c := drop_zero
  have hdrop' : (t ++ List.replicate k c).drop 0 = t ++ List.replicate k c ++ [] := by
    rw [append_nil, drop_zero]
  have hstop : IsCNumber t → ∀ x ∈ (List.replicate k c).head?, ¬IsNumberChar x := by
    intro _ x hx
    have hxc := eq_of_mem_replicate (mem_of_mem_head? hx)
    rw [hxc]
    rcases hc with rfl | rfl <;> decide
  have hn : n + 0 ≤ max n n' := le_max_left n n'
  have hn' : n' + 0 ≤ max n n' := le_max_right n n'
  have hrun := hparses hdrop hstop hn (Nat.lt_succ_of_le hn)
  have hrun' := hparses' hdrop' (fun _ x hx => by cases hx) hn' (Nat.lt_succ_of_le hn')
  have heq := (Prod.mk.inj (Except.ok.inj (hrun.symm.trans hrun'))).2
  rw [length_append, length_replicate] at heq
  omega

theorem skipUtf8Bom_le (text : Bytes) : skipUtf8Bom text ≤ text.length := by
  unfold skipUtf8Bom
  split_ifs with h
  · omega
  · exact Nat.zero_le _

theorem liteCjsonParse_regular (limit : ℕ) (text : Bytes) :
    Regular (liteCjsonParse limit text) := by
  refine Regular.ite (fun _ => regular_error) fun hne => ?_
  have hlt := bufferSkipWhitespace_lt hne (skipUtf8Bom_le text)
  have hrun : Regular (parseTop limit text (bufferSkipWhitespace text (skipUtf8Bom text))) :=
    parseValue_regular hlt (by omega) (Nat.succ_pos limit)
  intro e h
  cases hparse : parseTop limit text (bufferSkipWhitespace text (skipUtf8Bom text)) with
  | error e' =>
    rw [hparse] at h
    cases h
    exact hrun _ hparse
  | ok found =>
    rw [hparse] at h
    cases h

theorem taken_of_liteCjsonParse {limit : ℕ} {text : Bytes} {item : Item}
    (h : liteCjsonParse limit text = .ok item) :
    ∃ q, Taken limit text (bufferSkipWhitespace text (skipUtf8Bom text)) item q := by
  unfold liteCjsonParse at h
  split_ifs at h
  cases hparse : parseTop limit text (bufferSkipWhitespace text (skipUtf8Bom text)) with
  | error e =>
    rw [hparse] at h
    cases h
  | ok found =>
    rw [hparse] at h
    obtain rfl := Except.ok.inj h
    exact ⟨found.2, parseValue_taken hparse⟩

/-- **Incomplete texts.**  On any bytes the parser ends and reads none outside of them, and what it
accepts lies in them.  It is a whole value, unless brackets are missing that are all like the last
byte. -/
theorem lite_cjson_parse_iff (limit : ℕ) (text : Bytes) :
    (liteCjsonParse limit text ≠ .error .unfinished ∧ liteCjsonParse limit text ≠ .error .outside ∧
      ∀ item, liteCjsonParse limit text = .ok item →
        item.value + item.valueLength ≤ text.length) ∧
      (ParseLaw limit text ↔ ¬Short limit (payload text)) := by
  have hregular := liteCjsonParse_regular limit text
  have hends : liteCjsonParse limit text ≠ .error .unfinished := fun h => by cases hregular _ h
  have hinside : liteCjsonParse limit text ≠ .error .outside := fun h => by cases hregular _ h
  have hextent : ∀ item, liteCjsonParse limit text = .ok item →
      item.value + item.valueLength ≤ text.length := by
    intro item h
    obtain ⟨q, hq⟩ := taken_of_liteCjsonParse h
    have hlt := hq.le
    cases hq with
    | whole hdrop hv _ hitem => exact isWhole_bounds ⟨_, _, _, _, hdrop, hv, hitem⟩
    | short _ _ _ _ _ hvalue hlength =>
      rw [hvalue, hlength, length_drop]
      omega
  refine ⟨⟨hends, hinside, hextent⟩, fun h => ?_, fun h => ⟨hends, hinside, hextent, ?_⟩⟩
  · rintro ⟨n, k, c, hn, hk, hc, hlast, hv⟩
    have hdepth : n + 0 ≤ limit := hn
    obtain ⟨item, hrun, htype, hvalue, hlength⟩ := parseValue_short hv rfl hk hc hlast (s := text)
      rfl hdepth (Nat.lt_succ_of_le hn)
    have hne : text ≠ [] := by
      rintro rfl
      rw [payload, drop_nil] at hlast
      cases hlast
    have hparse : liteCjsonParse limit text = .ok item := by
      rw [liteCjsonParse, if_neg hne, parseTop, hrun]
      rfl
    obtain ⟨n', off, v, w, hdrop, hv', hcovers⟩ := h.whole item hparse
    have hextent := hcovers.extent
    rw [← hcovers.type, if_neg htype] at hextent
    rw [← hextent.1, hvalue] at hdrop
    have hsame : v.length = (payload text).length := hextent.2.symm.trans hlength
    have hprefix : v <+: payload text := ⟨w, hdrop.symm⟩
    have hwhole : v = payload text := hprefix.eq_of_length hsame
    exact hk.ne' (isValue_append_unique hc (hwhole ▸ hv') hv)
  · intro item hparse
    obtain ⟨q, hq⟩ := taken_of_liteCjsonParse hparse
    cases hq with
    | whole hdrop hv _ hitem => exact ⟨_, _, _, _, hdrop, hv, hitem⟩
    | @short k c hk hc hlast hv _ _ _ => exact absurd ⟨limit, k, c, le_rfl, hk, hc, hlast, hv⟩ h

/-- In `[[1]` the bracket that closes the inner array closes the outer one as well. -/
theorem lite_cjson_parse_short :
    liteCjsonParse 1000 [0x5b, 0x5b, 0x31, 0x5d] = .ok ⟨.cjsonArray, 0, 4, 1⟩ ∧
      ¬ParseLaw 1000 [0x5b, 0x5b, 0x31, 0x5d] := by
  have hparse : liteCjsonParse 1000 [0x5b, 0x5b, 0x31, 0x5d] = .ok ⟨.cjsonArray, 0, 4, 1⟩ := rfl
  refine ⟨hparse, fun h => ?_⟩
  obtain ⟨n, off, v, w, hdrop, hv, hcovers⟩ := h.whole _ hparse
  have hextent := hcovers.extent
  rw [← hcovers.type, if_neg (by decide)] at hextent
  obtain ⟨rfl, hlength⟩ : 0 = off ∧ 4 = v.length := hextent
  have hprefix : v <+: [0x5b, 0x5b, 0x31, 0x5d] := ⟨w, hdrop.symm⟩
  have hwhole : v = [0x5b, 0x5b, 0x31, 0x5d] := hprefix.eq_of_length hlength.symm
  -- with one more bracket it is a value
  have hblank : lenient.Blank [] := fun c hc => absurd hc not_mem_nil
  have hone : lenient.IsScalar [0x31] :=
    shortRfc_le_lenient.scalar _ (.inl ⟨isNumber_one, by decide⟩)
  have harray : IsValue lenient 1 (arrayText [] [⟨[], [0x31], []⟩]) :=
    .array hblank (forall_mem_singleton.mpr ⟨hblank, hblank⟩)
      (forall_mem_singleton.mpr (.scalar hone))
  have houter : IsValue lenient 2 (arrayText [] [⟨[], arrayText [] [⟨[], [0x31], []⟩], []⟩]) :=
    .array hblank (forall_mem_singleton.mpr ⟨hblank, hblank⟩) (forall_mem_singleton.mpr harray)
  have hmore : IsValue lenient 2 (v ++ List.replicate 1 0x5d) := hwhole ▸ houter
  exact absurd (isValue_append_unique (.inl rfl) hv hmore) Nat.one_ne_zero

end Iotkit.Cjson
