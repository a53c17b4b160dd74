/-
# The items of what has been parsed

An item is no more than the place of its value, so that its entries are read again from its bytes.
For everything that has been parsed (`infra_cjson.c`) these are as many as its size says, and each
of them lies behind the one before it.
-/
import Iotkit.CjsonTruncated

open JsonText

namespace Iotkit.Cjson

open List

theorem bind_eq_ok {α β : Type} {x : Except Stop α} {f : α → Except Stop β} {b : β}
    (h : x >>= f = .ok b) : ∃ a, x = .ok a ∧ f a = .ok b := by
  cases x with
  | error e => cases h
  | ok a => exact ⟨a, rfl, h⟩

/-! ## Reading at another depth -/

/-- Where the first reader succeeds, the second one does, with the same result. -/
def Extends {α : Type} (f g : ℕ → Except Stop α) : Prop := ∀ p r, f p = .ok r → g p = .ok r

section Extends

variable {value value' : ℕ → Except Stop (Item × ℕ)} {s : Bytes}

theorem parseElement_extends (h : Extends value value') :
    Extends (parseElement value s) (parseElement value' s) := by
  intro p r hrun
  obtain ⟨found, hvalue, hrest⟩ := bind_eq_ok hrun
  rw [parseElement, h _ _ hvalue]
  exact hrest

theorem parseMember_extends (h : Extends value value') :
    Extends (parseMember value s) (parseMember value' s) := by
  intro p r hrun
  obtain ⟨⟨key, q⟩, hkey, hrest⟩ := bind_eq_ok hrun
  rw [parseMember, hkey]
  simp only [bind, Except.bind] at hrest ⊢
  split_ifs at hrest ⊢
  obtain ⟨found, helement, hrest⟩ := bind_eq_ok hrest
  rw [parseElement_extends h _ _ helement]
  exact hrest

variable {α : Type} {entry entry' : ℕ → Except Stop (α × ℕ)}

theorem entryLoop_extends (h : Extends entry entry') (rounds : ℕ) :
    Extends (entryLoop entry s rounds) (entryLoop entry' s rounds) := by
  induction rounds with
  | zero =>
    intro p r hrun
    cases hrun
  | succ rounds ih =>
    intro p r hrun
    obtain ⟨⟨a, q⟩, hentry, hrest⟩ := bind_eq_ok hrun
    have hentry' := h _ _ hentry
    by_cases hcomma : s[q]? = some 0x2c
    · rw [entryLoop_comma hentry hcomma] at hrun
      rw [entryLoop_comma hentry' hcomma]
      cases hloop : entryLoop entry s rounds (q + 1) with
      | error e =>
        rw [hloop] at hrun
        cases hrun
      | ok found =>
        rw [hloop] at hrun
        rw [ih _ _ hloop]
        exact hrun
    · rw [entryLoop_last hentry hcomma] at hrun
      rw [entryLoop_last hentry' hcomma]
      exact hrun

theorem parseEntries_extends (h : Extends entry entry') (closing : UInt8) (type : ItemType) :
    Extends (parseEntries closing type entry s) (parseEntries closing type entry' s) := by
  intro p r hrun
  unfold parseEntries at hrun ⊢
  simp only at hrun ⊢
  split_ifs at hrun ⊢
  · exact hrun
  · obtain ⟨found, hloop, hrest⟩ := bind_eq_ok hrun
    rw [entryLoop_extends h _ _ _ hloop]
    exact hrest

end Extends

/-- **A value is read at a smaller depth** as it is at a greater one. -/
theorem parseValue_extends {limit : ℕ} {s : Bytes} {rounds rounds' depth depth' : ℕ}
    (hrounds : rounds ≤ rounds') (hdepth : depth' ≤ depth) :
    Extends (parseValue limit s rounds depth) (parseValue limit s rounds' depth') := by
  induction rounds generalizing rounds' depth depth' with
  | zero =>
    intro p r hrun
    cases hrun
  | succ rounds ih =>
    obtain ⟨rounds', rfl⟩ := Nat.exists_eq_add_of_le' (Nat.one_le_of_lt hrounds)
    have hvalue := ih (Nat.le_of_succ_le_succ hrounds) (Nat.succ_le_succ hdepth)
    intro p r hrun
    rw [parseValue] at hrun ⊢
    split_ifs at hrun ⊢
    · exact hrun
    · exact hrun
    · exact hrun
    · exact hrun
    · exact hrun
    · unfold parseArray at hrun ⊢
      split_ifs at hrun with hlimit
      rw [if_neg (by omega)]
      obtain ⟨c, hc, hrest⟩ := bind_eq_ok hrun
      rw [hc]
      simp only [bind, Except.bind] at hrest ⊢
      split_ifs at hrest ⊢
      exact parseEntries_extends (parseElement_extends hvalue) _ _ _ _ hrest
    · unfold parseObject at hrun ⊢
      split_ifs at hrun with hlimit hopen
      rw [if_neg (by omega), if_neg hopen]
      exact parseEntries_extends (parseMember_extends hvalue) _ _ _ _ hrun

/-! ## The bytes of an item -/

/-- The bytes are a text up to brackets at its end, all of them like the last byte. -/
def UpTo (c : UInt8) (b v : Bytes) : Prop :=
  b.getLast? = some c ∧ ∃ k, b ++ List.replicate k c = v

section Bytes

variable {limit n : ℕ} {s b v : Bytes} {c : UInt8} {p q rounds depth : ℕ} {item : Item}

theorem UpTo.head? (h : UpTo c b v) : b[0]? = v[0]? := by
  obtain ⟨hlast, k, rfl⟩ := h
  cases b with
  | nil => cases hlast
  | cons d b => rfl

theorem UpTo.unique {n' : ℕ} {v' : Bytes} (hc : IsClosing c) (hv : IsValue lenient n v)
    (hv' : IsValue lenient n' v') (h : UpTo c b v) (h' : UpTo c b v') : v = v' := by
  have hle : ∀ {n n' k k' : ℕ}, IsValue lenient n (b ++ List.replicate k c) →
      IsValue lenient n' (b ++ List.replicate k' c) → k ≤ k' → k = k' := by
    intro n n' k k' hk hk' hle
    obtain ⟨j, rfl⟩ := Nat.exists_eq_add_of_le hle
    rw [replicate_add, ← append_assoc] at hk'
    rw [isValue_append_unique hc hk hk', Nat.add_zero]
  obtain ⟨-, k, rfl⟩ := h
  obtain ⟨-, k', rfl⟩ := h'
  rcases le_total k k' with hkk | hkk
  · rw [hle hv hv' hkk]
  · rw [hle hv' hv hkk]

/-- The bytes of a value, or of one that brackets are missing of, are parsed as a whole. -/
theorem parseTop_upTo (hc : IsClosing c) (hv : IsValue lenient n v) (hn : n ≤ limit)
    (htype : typeOf v ≠ .cjsonString) (h : UpTo c b v) :
    ∃ item q, parseTop limit b 0 = .ok (item, q) ∧ item.value = 0 ∧
      item.valueLength = b.length := by
  obtain ⟨hlast, k, hk⟩ := h
  have hdepth : n + 0 ≤ limit := hn
  rcases Nat.eq_zero_or_pos k with rfl | hpos
  · rw [replicate_zero, append_nil] at hk
    obtain ⟨base, hcovers, hparses⟩ := exists_parses hv
    have hdrop : b.drop 0 = v ++ [] := by rw [drop_zero, hk, append_nil]
    have hextent := hcovers.extent
    rw [if_neg htype] at hextent
    have hstop : IsCNumber v → ∀ c ∈ ([] : Bytes).head?, ¬IsNumberChar c :=
      fun _ c hc => by cases hc
    refine ⟨_, _, hparses hdrop hstop hdepth (Nat.lt_succ_of_le hn), ?_, ?_⟩
    · rw [shift_zero, hextent.1]
    · rw [shift_zero, hextent.2, hk]
  · obtain ⟨item, hrun, -, hvalue, hlength⟩ := parseValue_short hv hk.symm hpos hc hlast
      (drop_zero : b.drop 0 = b) hdepth (Nat.lt_succ_of_le hn)
    exact ⟨item, b.length, hrun, hvalue, hlength⟩

theorem bytes_upTo {opening closing : UInt8} {inner : Bytes} (hvalue : item.value = p)
    (h : (∃ w, s.drop p = opening :: (inner ++ [closing]) ++ w ∧ q = p + item.valueLength ∧
          item.valueLength = (opening :: (inner ++ [closing])).length) ∨
        q = s.length ∧ item.valueLength = (s.drop p).length ∧
          (s.drop p).getLast? = some closing ∧ ∃ k, 0 < k ∧
            s.drop p ++ List.replicate k closing = opening :: (inner ++ [closing])) :
    UpTo closing (item.bytes s) (opening :: (inner ++ [closing])) := by
  rcases h with ⟨w, hw, -, hlength⟩ | ⟨-, hlength, hlast, k, -, hk⟩
  · rw [bytes_of_drop hw item hvalue hlength]
    refine ⟨?_, 0, append_nil _⟩
    rw [← cons_append]
    exact List.getLast?_concat
  · rw [bytes_of_drop (append_nil _).symm item hvalue hlength]
    exact ⟨hlast, k, hk⟩

/-- What is read behind a bracket: entries, which have a text between such brackets. -/
def ReadsEntries {α β : Type} (opening closing : UInt8) (type : ItemType)
    (entry : (ℕ → Except Stop (Item × ℕ)) → Bytes → ℕ → Except Stop (β × ℕ))
    (Good : ℕ → α → Prop) (text : Bytes → List α → Bytes) : Prop :=
  ∀ {limit : ℕ} {s : Bytes} {p q rounds depth : ℕ} {item : Item}, s[p]? = some opening →
    parseValue limit s (rounds + 1) depth p = .ok (item, q) →
    depth < limit ∧ item.type = type ∧
      parseEntries closing type (entry (parseValue limit s rounds (depth + 1)) s) s p =
        .ok (item, q) ∧ ∃ (blank : Bytes) (l : List α), lenient.Blank blank ∧
        (∀ a ∈ l, Good (limit - (depth + 1)) a) ∧ item.size = l.length ∧
        UpTo closing (item.bytes s) (text blank l)

theorem parseValue_array :
    ReadsEntries 0x5b 0x5d .cjsonArray parseElement GoodElement arrayText := by
  intro limit s p q rounds depth item hopen h
  rw [parseValue_of_head (drop_of_getElem? hopen) (by decide), if_neg (by decide),
    if_neg (by decide), if_pos rfl, parseArray, byteAt_of_drop (drop_of_getElem? hopen)] at h
  split_ifs at h with hdepth
  have hentries : parseEntries 0x5d .cjsonArray
      (parseElement (parseValue limit s rounds (depth + 1)) s) s p = .ok (item, q) := h
  have hentry : EntryCases (parseElement (parseValue limit s rounds (depth + 1)) s) Element.text
      (GoodElement (limit - (depth + 1))) s :=
    parseElement_entryCases fun _ _ _ hrun => parseValue_taken hrun
  have hopening : IsSeparator 0x5b ∧ (0x5b : UInt8) ≠ 0x5d :=
    ⟨.inr (.inr (.inl rfl)), by decide⟩
  obtain ⟨htype, hvalue, blank, l, hblank, hl, hsize, hcases⟩ :=
    parseEntries_cases hentry (parseElement_skip _) hopening (.inl rfl) hopen hentries
  exact ⟨not_le.mp hdepth, htype, hentries, blank, l, hblank, hl, hsize,
    bytes_upTo hvalue hcases⟩

theorem parseValue_object :
    ReadsEntries 0x7b 0x7d .cjsonObject parseMember GoodMember objectText := by
  intro limit s p q rounds depth item hopen h
  rw [parseValue_of_head (drop_of_getElem? hopen) (by decide), if_neg (by decide),
    if_neg (by decide), if_neg (by decide), if_pos rfl, parseObject] at h
  split_ifs at h with hdepth
  have hentry : EntryCases (parseMember (parseValue limit s rounds (depth + 1)) s) Member.text
      (GoodMember (limit - (depth + 1))) s :=
    parseMember_entryCases fun _ _ _ hrun => parseValue_taken hrun
  have hopening : IsSeparator 0x7b ∧ (0x7b : UInt8) ≠ 0x7d :=
    ⟨.inr (.inr (.inr rfl)), by decide⟩
  obtain ⟨htype, hvalue, blank, l, hblank, hl, hsize, hcases⟩ :=
    parseEntries_cases hentry (parseMember_skip _) hopening (.inr rfl) hopen h
  exact ⟨not_le.mp hdepth, htype, h, blank, l, hblank, hl, hsize, bytes_upTo hvalue hcases⟩

theorem parseValue_open (h : parseValue limit s (rounds + 1) depth p = .ok (item, q)) :
    (item.type = .cjsonArray → s[p]? = some 0x5b) ∧
      (item.type = .cjsonObject → s[p]? = some 0x7b) := by
  have hrun := h
  have hnone : ∀ type : ItemType, type ≠ .cjsonArray ∧ type ≠ .cjsonObject → item.type = type →
      (item.type = .cjsonArray → s[p]? = some 0x5b) ∧
        (item.type = .cjsonObject → s[p]? = some 0x7b) := fun type hne htype =>
    ⟨fun heq => absurd (htype.symm.trans heq) hne.1,
      fun heq => absurd (htype.symm.trans heq) hne.2⟩
  rw [parseValue] at h
  split_ifs at h with hnull hfalse htrue hquote hdigit harray hobject
  · obtain ⟨rfl, -⟩ := Prod.mk.inj (Except.ok.inj h)
    exact hnone .cjsonNull (by decide) rfl
  · obtain ⟨rfl, -⟩ := Prod.mk.inj (Except.ok.inj h)
    exact hnone .cjsonFalse (by decide) rfl
  · obtain ⟨rfl, -⟩ := Prod.mk.inj (Except.ok.inj h)
    exact hnone .cjsonTrue (by decide) rfl
  · obtain ⟨t, w, -, -, rfl, -⟩ := parseString_cases h
    exact hnone .cjsonString (by decide) rfl
  · obtain ⟨v, w, -, -, rfl, -⟩ := parseNumber_cases hdigit h
    exact hnone .cjsonNumber (by decide) rfl
  · obtain ⟨-, htype, -⟩ := parseValue_array harray hrun
    exact ⟨fun _ => harray, fun heq => absurd (htype.symm.trans heq) (by decide)⟩
  · obtain ⟨-, htype, -⟩ := parseValue_object hobject hrun
    exact ⟨fun heq => absurd (htype.symm.trans heq) (by decide), fun _ => hobject⟩

theorem Taken.extent (h : Taken n s p item q) :
    p ≤ item.value ∧ item.value + item.valueLength ≤ q ∧ q ≤ s.length := by
  have hle := h.le
  cases h with
  | whole hdrop hv hq hitem =>
    have hextent := hitem.extent
    split_ifs at hextent
    · omega
    · omega
  | short hk hc hlast hv hq hvalue hlength =>
    rw [length_drop] at hlength
    omega

end Bytes

/-! ## Parsed items -/

/-- An item of a text that `parse_value` has set up from a part of the text. -/
def IsParsed (limit : ℕ) (text : Bytes) (item : Item) : Prop :=
  ∃ (off p q : ℕ) (s : Bytes) (base : Item), s <+: text.drop off ∧
    parseTop limit s p = .ok (base, q) ∧ item = base.shift off

/-- The item `a` lies in the item `b`. -/
structure Inside (a b : Item) : Prop where
  start : b.value ≤ a.value
  stop : a.value + a.valueLength ≤ b.value + b.valueLength

theorem Inside.trans {a b c : Item} (hab : Inside a b) (hbc : Inside b c) : Inside a c :=
  ⟨hbc.start.trans hab.start, hab.stop.trans hbc.stop⟩

section Parsed

variable {limit off p q : ℕ} {text s : Bytes} {base item : Item}

theorem bytes_shift (hs : s <+: text.drop off)
    (hin : base.value + base.valueLength ≤ s.length) :
    (base.shift off).bytes text = base.bytes s := by
  obtain ⟨w, hw⟩ := hs
  have hdrop : text.drop (off + base.value) = s.drop base.value ++ w := by
    rw [← drop_drop, ← hw, drop_append_of_le_length (by omega)]
  show (text.drop (off + base.value)).take base.valueLength = _
  rw [hdrop, take_append_of_le_length]
  · rfl
  · rw [length_drop]
    omega

theorem parseTop_extent (h : parseTop limit s p = .ok (base, q)) :
    p ≤ base.value ∧ base.value + base.valueLength ≤ q ∧ q ≤ s.length :=
  (parseValue_taken h).extent

theorem length_bytes (h : IsParsed limit text item) :
    (item.bytes text).length = item.valueLength := by
  obtain ⟨off, p, q, s, base, hs, hparse, rfl⟩ := h
  obtain ⟨-, hstop, hq⟩ := parseTop_extent hparse
  rw [bytes_shift hs (hstop.trans hq), Item.bytes, length_take, length_drop]
  show _ = base.valueLength
  omega

theorem bytes_isPrefix (text : Bytes) (item : Item) :
    item.bytes text <+: text.drop item.value := take_prefix _ _

theorem IsParsed.entry (h : IsParsed limit text item)
    (hparse : parseTop limit (item.bytes text) p = .ok (base, q)) :
    IsParsed limit text (base.shift item.value) ∧ Inside (base.shift item.value) item := by
  obtain ⟨-, hstop, hq⟩ := parseTop_extent hparse
  rw [length_bytes h] at hq
  refine ⟨⟨item.value, p, q, _, base, bytes_isPrefix text item, hparse, rfl⟩, ?_, ?_⟩
  · exact Nat.le_add_right _ _
  · show item.value + base.value + base.valueLength ≤ _
    omega

end Parsed

/-! ## Entries read again -/

section Again

variable {n limit : ℕ} {text b : Bytes} {item : Item}

theorem readableElements_of_good {l : List Element} (hl : ∀ e ∈ l, GoodElement n e) :
    ReadableElements n l := by
  intro e he
  obtain ⟨hspaced, hv⟩ := hl e he
  obtain ⟨base, -, hparses⟩ := exists_parses hv
  exact ⟨hspaced, starts_of_isValue hv, base, hparses⟩

theorem readableMembers_of_good {l : List Member} (hl : ∀ m ∈ l, GoodMember n m) :
    ReadableMembers n l := by
  intro m hm
  obtain ⟨hspaced, hv⟩ := hl m hm
  obtain ⟨base, -, hparses⟩ := exists_parses hv
  exact ⟨hspaced, starts_of_isValue hv, base, hparses⟩

/-- The entries of an item are as many when they are read again from its bytes. -/
theorem ReadsEntries.again {α β : Type} {opening closing : UInt8} {type : ItemType}
    {entry : (ℕ → Except Stop (Item × ℕ)) → Bytes → ℕ → Except Stop (β × ℕ)}
    {Good : ℕ → α → Prop} {layout : Bytes → List α → Bytes}
    (hreads : ReadsEntries opening closing type entry Good layout) (hc : IsClosing closing)
    (hvalue : ∀ {n blank l}, lenient.Blank blank → (∀ a ∈ l, Good n a) →
      IsValue lenient (n + 1) (layout blank l) ∧ typeOf (layout blank l) ≠ .cjsonString ∧
        (layout blank l)[0]? = some opening ∧
        ∃ base, base.size = l.length ∧ Parses (n + 1) (layout blank l) base)
    (hopen : ∀ {s p q base}, parseTop limit s p = .ok (base, q) → base.type = type →
      s[p]? = some opening) (h : IsParsed limit text item) (htype : item.type = type) :
    (item.bytes text)[0]? = some opening ∧ ∃ item' q, item'.size = item.size ∧
      parseEntries closing type (entry (parseValue limit (item.bytes text) limit 1)
        (item.bytes text)) (item.bytes text) 0 = .ok (item', q) := by
  obtain ⟨off, p, q, s, base, hs, hparse, rfl⟩ := h
  obtain ⟨-, hstop, hq⟩ := parseTop_extent hparse
  obtain ⟨hdepth, -, -, blank, l, hblank, hl, hsize, hupto⟩ := hreads (hopen hparse htype) hparse
  rw [bytes_shift hs (hstop.trans hq)]
  obtain ⟨hv, hstring, hfirst, a, ha, hparses⟩ := hvalue hblank hl
  have hn : limit - 1 + 1 ≤ limit := by omega
  obtain ⟨item', q', hparse', hstart', hlength'⟩ := parseTop_upTo hc hv hn hstring hupto
  have hhead := hupto.head?.trans hfirst
  obtain ⟨-, -, hentries, blank', l', hblank', hl', hsize', hupto'⟩ := hreads hhead hparse'
  have hself : item'.bytes (base.bytes s) = base.bytes s :=
    bytes_of_drop (append_nil _).symm item' hstart' hlength'
  rw [hself] at hupto'
  obtain ⟨hv', -, -, a', ha', hparses'⟩ := hvalue hblank' hl'
  rw [UpTo.unique hc hv' hv hupto' hupto] at hparses'
  obtain rfl := parses_unique hparses' hparses
  exact ⟨hhead, item', q', by rw [hsize', ← ha', ha]; exact hsize.symm, hentries⟩

theorem array_again (h : IsParsed limit text item) (htype : item.type = .cjsonArray) :
    (item.bytes text)[0]? = some 0x5b ∧ ∃ item' q, item'.size = item.size ∧
      parseEntries 0x5d .cjsonArray
        (parseElement (parseValue limit (item.bytes text) limit 1) (item.bytes text))
        (item.bytes text) 0 = .ok (item', q) :=
  parseValue_array.again (.inl rfl) (fun hblank hl =>
    ⟨.array hblank (fun e he => (hl e he).1) fun e he => (hl e he).2,
      show ItemType.cjsonArray ≠ _ by decide, rfl, _, rfl,
      parses_array hblank (readableElements_of_good hl)⟩)
    (fun hparse => (parseValue_open hparse).1) h htype

theorem object_again (h : IsParsed limit text item) (htype : item.type = .cjsonObject) :
    (item.bytes text)[0]? = some 0x7b ∧ ∃ item' q, item'.size = item.size ∧
      parseEntries 0x7d .cjsonObject
        (parseMember (parseValue limit (item.bytes text) limit 1) (item.bytes text))
        (item.bytes text) 0 = .ok (item', q) :=
  parseValue_object.again (.inr rfl) (fun hblank hl =>
    ⟨.object hblank (fun m hm => (hl m hm).1) fun m hm => (hl m hm).2,
      show ItemType.cjsonObject ≠ _ by decide, rfl, _, rfl,
      parses_object hblank (readableMembers_of_good hl)⟩)
    (fun hparse => (parseValue_open hparse).2) h htype

/-- What is looked for is looked for among the entries that have been counted. -/
theorem findEntry_of_parse {α : Type} {entry entry' : ℕ → Except Stop (α × ℕ)}
    (hentry : Extends entry entry') {closing : UInt8} {type : ItemType} {q : ℕ}
    (h : parseEntries closing type entry b 0 = .ok (item, q)) :
    ∃ as : List α, as.length = item.size ∧
      (∀ wanted, findEntry closing entry' wanted b = firstWanted wanted 0 as) ∧
      (as = [] ∨ ∃ last, entryLoop entry' b (b.length + 1) (bufferSkipWhitespace b 1) =
        .ok (as, last)) := by
  have hrun := parseEntries_extends hentry closing type _ _ h
  unfold parseEntries at hrun
  unfold findEntry
  simp only [Nat.zero_add] at hrun ⊢
  split_ifs at hrun ⊢
  · obtain ⟨rfl, -⟩ := Prod.mk.inj (Except.ok.inj hrun)
    exact ⟨[], rfl, fun _ => rfl, .inl rfl⟩
  · obtain ⟨⟨as, last⟩, hloop, hrest⟩ := bind_eq_ok hrun
    simp only at hrest
    split_ifs at hrest
    obtain ⟨rfl, -⟩ := Prod.mk.inj (Except.ok.inj hrest)
    exact ⟨as, rfl, fun wanted => itemLoop_eq wanted hloop 0, .inr ⟨last, hloop⟩⟩

end Again

/-! ## The order of entries -/

section Order

variable {α : Type} {entry : ℕ → Except Stop (α × ℕ)} {s : Bytes} {rounds p last : ℕ}
  {as : List α}

theorem entryLoop_forall {P : α → Prop} (hentry : ∀ p a r, entry p = .ok (a, r) → P a)
    (h : entryLoop entry s rounds p = .ok (as, last)) : ∀ a ∈ as, P a := by
  induction rounds generalizing p as with
  | zero => cases h
  | succ rounds ih =>
    obtain ⟨_, a, r, hrounds, hrun, ⟨-, as', rfl, hrest⟩ | ⟨-, rfl, rfl⟩⟩ := entryLoop_eq_ok h
    · obtain rfl := Nat.succ.inj hrounds
      exact forall_mem_cons.mpr ⟨hentry _ _ _ hrun, ih hrest⟩
    · exact forall_mem_singleton.mpr (hentry _ _ _ hrun)

/-- Every entry of the loop lies behind the comma before it, where the one before has ended. -/
theorem entryLoop_ordered {start stop : α → ℕ} (hentry : ∀ p a r, entry p = .ok (a, r) →
      p ≤ start a ∧ start a ≤ stop a ∧ (s[r]? = some 0x2c → stop a ≤ r))
    (h : entryLoop entry s rounds p = .ok (as, last)) :
    (∀ a ∈ as, p ≤ start a) ∧ as.Pairwise fun a b => stop a < start b := by
  induction rounds generalizing p as with
  | zero => cases h
  | succ rounds ih =>
    obtain ⟨_, a, r, hrounds, hrun, ⟨hcomma, as', rfl, hrest⟩ | ⟨-, rfl, rfl⟩⟩ :=
      entryLoop_eq_ok h
    all_goals obtain ⟨hstart, hle, hstop⟩ := hentry _ _ _ hrun
    · obtain rfl := Nat.succ.inj hrounds
      obtain ⟨hall, hpairs⟩ := ih hrest
      have hr := hstop hcomma
      refine ⟨forall_mem_cons.mpr ⟨hstart, fun b hb => ?_⟩,
        pairwise_cons.mpr ⟨fun b hb => ?_, hpairs⟩⟩
      · have hb := hall b hb
        omega
      · have hb := hall b hb
        omega
    · exact ⟨forall_mem_singleton.mpr hstart, pairwise_singleton _ _⟩

end Order

section Bounds

variable {n limit : ℕ} {s : Bytes} {p q r : ℕ} {item : Item} {kv : Item × Item}

theorem le_bufferSkipWhitespace (s : Bytes) (p : ℕ) : p ≤ bufferSkipWhitespace s p + 1 := by
  unfold bufferSkipWhitespace
  simp only
  split_ifs
  · omega
  · omega

theorem Taken.last (h : Taken n s p item q) : s[q - 1]? ≠ some 0x2c := by
  have hle := h.le
  cases h with
  | @whole v w hdrop hv hq hitem =>
    obtain ⟨d, hd, hne, -⟩ := last_of_isValue hv
    have hlt : q - 1 - p < v.length := by omega
    have hget : s[p + (q - 1 - p)]? = v[q - 1 - p]? := by
      rw [← List.getElem?_drop, hdrop, List.getElem?_append_left hlt]
    have hsum : p + (q - 1 - p) = q - 1 := by omega
    have hend : v.length - 1 = q - 1 - p := by omega
    rw [List.getLast?_eq_getElem?, hend] at hd
    rw [hsum, hd] at hget
    rw [hget]
    exact fun heq => hne (Option.some.inj heq)
  | short hk hc hlast hv hq hvalue hlength =>
    rw [hq, getElem?_last rfl hlast]
    rcases hc with rfl | rfl <;> decide

theorem Taken.le_comma (h : Taken n s p item q)
    (hcomma : s[bufferSkipWhitespace s q]? = some 0x2c) : q ≤ bufferSkipWhitespace s q := by
  by_contra hlt
  have hskip := le_bufferSkipWhitespace s q
  have heq : bufferSkipWhitespace s q = q - 1 := by omega
  rw [heq] at hcomma
  exact h.last hcomma

theorem parseElement_bounds (h : parseElement (parseTop limit s) s p = .ok (item, r)) :
    (∃ p' q, parseTop limit s p' = .ok (item, q)) ∧ p ≤ item.value + 1 ∧
      (s[r]? = some 0x2c → item.value + item.valueLength ≤ r) := by
  obtain ⟨⟨item', q⟩, hrun, hrest⟩ := bind_eq_ok h
  obtain ⟨rfl, rfl⟩ := Prod.mk.inj (Except.ok.inj hrest)
  obtain ⟨hstart, hstop, -⟩ := parseTop_extent hrun
  have hskip := le_bufferSkipWhitespace s p
  refine ⟨⟨_, q, hrun⟩, by omega, fun hcomma => ?_⟩
  exact hstop.trans ((parseValue_taken hrun).le_comma hcomma)

theorem parseMember_bounds (h : parseMember (parseTop limit s) s p = .ok (kv, r)) :
    ((∃ p' q, parseTop limit s p' = .ok (kv.2, q)) ∧
      kv.1.value + kv.1.valueLength ≤ s.length) ∧ p ≤ kv.2.value ∧
      (s[r]? = some 0x2c → kv.2.value + kv.2.valueLength ≤ r) := by
  obtain ⟨⟨key, q⟩, hkey, hrest⟩ := bind_eq_ok h
  simp only [bind, Except.bind] at hrest
  split_ifs at hrest
  obtain ⟨⟨value, r'⟩, helement, hrest⟩ := bind_eq_ok hrest
  obtain ⟨rfl, rfl⟩ := Prod.mk.inj (Except.ok.inj hrest)
  obtain ⟨hvalue, hle, hstop⟩ := parseElement_bounds helement
  obtain ⟨name, w, hname, -, rfl, hq⟩ := parseString_cases hkey
  have hlen := congrArg List.length hname
  rw [length_drop, length_append, length_quoted] at hlen
  rw [length_quoted] at hq
  have hskip := le_bufferSkipWhitespace s p
  have hskip' := le_bufferSkipWhitespace s q
  refine ⟨⟨hvalue, ?_⟩, ?_, hstop⟩
  · simp only
    omega
  · simp only
    omega

end Bounds

/-! ## Access -/

section Access

variable {limit : ℕ} {text : Bytes} {item : Item}

/-- What an index stands for, in a list of entries. -/
def entryAt {α : Type} (as : List α) (index : ℤ) : Except Stop α :=
  if index < 0 then .error .error else (as[index.toNat]?).elim (.error .error) .ok

theorem firstWanted_find {α : Type} (wanted : α → Bool) (i : ℕ) (as : List α) :
    firstWanted (fun _ => wanted) i as = (as.find? wanted).elim (.error .error) .ok := by
  induction as generalizing i with
  | nil => rfl
  | cons a as ih =>
    rw [firstWanted, ih]
    by_cases ha : wanted a
    · rw [if_pos ha, List.find?_cons_of_pos ha]
      rfl
    · rw [if_neg ha, List.find?_cons_of_neg ha]

theorem firstWanted_int {α : Type} {index : ℤ} (h : ¬index < 0) (as : List α) :
    firstWanted (fun j _ => decide ((j : ℤ) = index)) 0 as = entryAt as index := by
  obtain ⟨k, rfl⟩ := Int.eq_ofNat_of_zero_le (not_lt.mp h)
  have hwanted := firstWanted_index 0 k as
  rw [Nat.zero_add] at hwanted
  rw [entryAt, if_neg h]
  exact hwanted

theorem entryAt_map {α β : Type} (f : α → β) (as : List α) (index : ℤ) :
    entryAt (as.map f) index = (entryAt as index).map f := by
  unfold entryAt
  split_ifs
  · rfl
  · rw [List.getElem?_map]
    cases as[index.toNat]? <;> rfl

theorem entryAt_out {α : Type} {as : List α} {index : ℤ} (h : index < 0 ∨ as.length ≤ index) :
    entryAt as index = .error .error := by
  unfold entryAt
  split_ifs with hneg
  · rfl
  · rw [List.getElem?_eq_none (by omega)]
    rfl

theorem parseTop_extends (limit : ℕ) (s : Bytes) :
    Extends (parseValue limit s limit 1) (parseTop limit s) :=
  parseValue_extends (Nat.le_succ limit) (Nat.zero_le 1)

/-- **The elements of an array** that has been parsed are as many as its size says. -/
theorem exists_array_items (h : IsParsed limit text item) (htype : item.type = .cjsonArray) :
    ∃ items : List Item, items.length = item.size ∧
      (∀ index, liteCjsonArrayItem limit text item index = entryAt items index) ∧
      ∀ a ∈ items, IsParsed limit text a ∧ Inside a item := by
  obtain ⟨hopen, item', q, hsize, hparse⟩ := array_again h htype
  obtain ⟨as, hlength, hfind, has⟩ :=
    findEntry_of_parse (parseElement_extends (parseTop_extends limit _)) hparse
  rw [hsize] at hlength
  refine ⟨as.map (·.shift item.value), ?_, fun index => ?_, fun a ha => ?_⟩
  · rw [length_map, hlength]
  · by_cases hout : index < 0 ∨ item.size ≤ index
    · rw [liteCjsonArrayItem_error (Or.inr hout), entryAt_out]
      rwa [length_map, hlength]
    have hin : ¬(item.type ≠ .cjsonArray ∨ index < 0 ∨ item.size ≤ index) :=
      not_or.mpr ⟨not_not.mpr htype, hout⟩
    have hbyte : byteAt (item.bytes text) 0 = .ok 0x5b :=
      byteAt_of_drop (drop_of_getElem? hopen)
    rw [liteCjsonArrayItem, if_neg hin]
    simp only [hbyte, hfind, firstWanted_int (not_or.mp hout).1]
    rw [entryAt_map]
    rfl
  · obtain ⟨base, hbase, rfl⟩ := mem_map.mp ha
    rcases has with rfl | ⟨last, hloop⟩
    · cases hbase
    · obtain ⟨p, q, hrun⟩ :=
        entryLoop_forall (fun _ _ _ hrun => (parseElement_bounds hrun).1) hloop base hbase
      exact h.entry hrun

/-- The items of a member of an object, in the text. -/
def inText (item : Item) (kv : Item × Item) : Item × Item :=
  (kv.1.shift item.value, kv.2.shift item.value)

/-- **The members of an object** that has been parsed are as many as its size says.  They stand one
behind the other, and a name leads to the first one that has it. -/
theorem exists_object_items (h : IsParsed limit text item) (htype : item.type = .cjsonObject) :
    ∃ items : List (Item × Item), items.length = item.size ∧
      (∀ index, liteCjsonObjectItemByIndex limit text item index = entryAt items index) ∧
      (∀ name ≠ [], liteCjsonObjectItemOf limit text item name =
        (items.find? fun kv => kv.1.bytes text = name).elim (.error .error) fun kv => .ok kv.2) ∧
      (∀ kv ∈ items, IsParsed limit text kv.2 ∧ Inside kv.2 item) ∧
      items.Pairwise fun a b => a.2.value + a.2.valueLength < b.2.value := by
  obtain ⟨hopen, item', q, hsize, hparse⟩ := object_again h htype
  obtain ⟨as, hlength, hfind, has⟩ :=
    findEntry_of_parse (parseMember_extends (parseTop_extends limit _)) hparse
  rw [hsize] at hlength
  have hall : ∀ kv ∈ as, (∃ p q, parseTop limit (item.bytes text) p = .ok (kv.2, q)) ∧
      kv.1.value + kv.1.valueLength ≤ (item.bytes text).length := by
    intro kv hkv
    rcases has with rfl | ⟨last, hloop⟩
    · cases hkv
    · exact entryLoop_forall (fun _ _ _ hrun => (parseMember_bounds hrun).1) hloop kv hkv
  have hmember : ∀ wanted, findMember limit text item wanted =
      (firstWanted wanted 0 as).map (inText item) := by
    intro wanted
    rw [findMember]
    simp only [hfind]
    rw [if_neg (not_not.mpr hopen)]
    cases firstWanted wanted 0 as <;> rfl
  refine ⟨as.map (inText item), ?_, fun index => ?_, fun name hname => ?_, fun kv hkv => ?_, ?_⟩
  · rw [length_map, hlength]
  · by_cases hout : index < 0 ∨ item.size ≤ index
    · rw [liteCjsonObjectItemByIndex_error (Or.inr (Or.inr hout)), entryAt_out]
      rwa [length_map, hlength]
    obtain ⟨hneg, hlt⟩ := not_or.mp hout
    have hin : ¬(item.type ≠ .cjsonObject ∨ item.size = 0 ∨ index < 0 ∨ item.size ≤ index) := by
      rintro (hne | hzero | hout')
      · exact hne htype
      · omega
      · exact hout hout'
    rw [liteCjsonObjectItemByIndex, if_neg hin, hmember, firstWanted_int hneg, entryAt_map]
  · have hkeys : ∀ kv ∈ as, kv.1.bytes (item.bytes text) = (inText item kv).1.bytes text :=
      fun kv hkv => (bytes_shift (bytes_isPrefix text item) (hall kv hkv).2).symm
    by_cases hzero : item.size = 0
    · have hnil := eq_nil_of_length_eq_zero (hlength.trans hzero)
      rw [hnil, liteCjsonObjectItemOf, if_pos (Or.inr (Or.inl hzero))]
      rfl
    have hin : ¬(item.type ≠ .cjsonObject ∨ item.size = 0 ∨ name = []) := by
      rintro (hne | hzero' | hnil)
      · exact hne htype
      · exact hzero hzero'
      · exact hname hnil
    have hsame : (as.find? fun kv => kv.1.bytes (item.bytes text) = name) =
        as.find? ((fun kv : Item × Item => decide (kv.1.bytes text = name)) ∘ inText item) := by
      apply List.find?_congr
      intro kv hkv
      rw [Function.comp_apply, ← hkeys kv hkv]
    rw [liteCjsonObjectItemOf, if_neg hin, hmember, firstWanted_find, List.find?_map, hsame]
    cases as.find? ((fun kv : Item × Item => decide (kv.1.bytes text = name)) ∘ inText item) <;> rfl
  · obtain ⟨base, hbase, rfl⟩ := mem_map.mp hkv
    obtain ⟨⟨p, q, hrun⟩, -⟩ := hall base hbase
    exact h.entry hrun
  · rcases has with rfl | ⟨last, hloop⟩
    · exact List.Pairwise.nil
    have hpairs := (entryLoop_ordered (fun _ _ _ hrun =>
      ⟨(parseMember_bounds hrun).2.1, Nat.le_add_right _ _, (parseMember_bounds hrun).2.2⟩)
      hloop).2
    refine pairwise_map.mpr (hpairs.imp fun {a b} hlt => ?_)
    show item.value + a.2.value + a.2.valueLength < item.value + b.2.value
    omega

end Access

end Iotkit.Cjson
