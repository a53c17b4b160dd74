/-
# lite-cjson reads RFC 8259

What `lite_cjson_parse` takes for a value, and that every item of a text of RFC 8259 is the value
that stands there, at any depth.
-/
import Iotkit.CjsonParser

open JsonText

namespace Iotkit.Cjson

open List

/-! ## The language of the parser -/

/-- A number that is copied as a whole and taken as a whole. -/
structure IsCNumber (v : Bytes) : Prop where
  head : ∃ c t, v = c :: t ∧ (c = 0x2d ∨ IsDigit c)
  chars : ∀ c ∈ v, IsNumberChar c
  short : v.length ≤ 63
  whole : strtod v = v.length

/-- The characters of a string, where a backslash hides any byte. -/
inductive IsCChars : Bytes → Prop
  | nil : IsCChars []
  | plain {c : UInt8} {s : Bytes} (hquote : c ≠ 0x22) (hslash : c ≠ 0x5c) (hs : IsCChars s) :
      IsCChars (c :: s)
  | escape {c : UInt8} {s : Bytes} (hs : IsCChars s) : IsCChars (0x5c :: c :: s)

/-- What the parser takes for blanks, numbers and strings. -/
def lenient : Grammar where
  IsBlank c := c ≤ 32
  IsScalar s := s = nullText ∨ s = falseText ∨ s = trueText ∨ IsCNumber s
  IsChars := IsCChars

/-- RFC 8259, with numbers of at most 63 characters. -/
def shortRfc : Grammar :=
  { rfc with
    IsScalar := fun s =>
      IsNumber s ∧ s.length ≤ 63 ∨ s = trueText ∨ s = falseText ∨ s = nullText }

/-! ## Numbers -/

variable {s : Bytes}

theorem digitsLen_append {s t : Bytes} (hs : ∀ c ∈ s, IsDigit c)
    (ht : ∀ c ∈ t.head?, ¬IsDigit c) : digitsLen (s ++ t) = s.length := by
  rw [digitsLen, takeWhile_append_of_pos fun c hc => decide_eq_true (hs c hc)]
  cases t with
  | nil => rw [takeWhile_nil, append_nil]
  | cons c t =>
    have hc : ¬IsDigit c := ht c rfl
    rw [takeWhile_cons_of_neg (by simpa using hc), append_nil]

theorem signLen_of_digit (h : ∀ c ∈ s.head?, IsDigit c) : signLen s = 0 := by
  apply if_neg
  rintro (hsign | hsign)
  · exact absurd (h _ hsign) (by decide)
  · exact absurd (h _ hsign) (by decide)

theorem isDigit_head (h : IsDigits s) (t : Bytes) : ∀ c ∈ (s ++ t).head?, IsDigit c := by
  obtain ⟨d, u, rfl⟩ := exists_cons_of_ne_nil h.1
  rintro c ⟨⟩
  exact h.2 d mem_cons_self

/-- The exponent of a number is read to its end. -/
theorem expLen_eq {exp : Bytes} (h : IsExp exp) : expLen exp = exp.length := by
  obtain rfl | ⟨e, sign, digits, he, hsign, hdigits, rfl⟩ := h
  · rfl
  have hhead : (e :: (sign ++ digits)).head? = some 0x65 ∨
      (e :: (sign ++ digits)).head? = some 0x45 := by
    rcases he with rfl | rfl
    · exact .inl rfl
    · exact .inr rfl
  have hsignLen : signLen (sign ++ digits) = sign.length := by
    rcases hsign with rfl | rfl | rfl
    · have hdigit := isDigit_head hdigits []
      rw [append_nil] at hdigit
      exact signLen_of_digit hdigit
    · rfl
    · rfl
  have hlen : digitsLen ((sign ++ digits).drop sign.length) = digits.length := by
    rw [drop_left]
    have hnil := digitsLen_append (t := []) hdigits.2 fun c hc => absurd hc (by simp)
    rwa [append_nil] at hnil
  have hpos : digits.length ≠ 0 := fun h => hdigits.1 (eq_nil_of_length_eq_zero h)
  rw [expLen, if_pos hhead]
  simp only [tail_cons, hsignLen, hlen]
  rw [if_neg hpos, length_cons, length_append]
  omega

/-- So is its fraction. -/
theorem fracLen_eq {frac exp : Bytes} (hfrac : IsFrac frac) (hexp : IsExp exp) :
    fracLen (frac ++ exp) = frac.length := by
  have hhead : ∀ c ∈ exp.head?, c = 0x65 ∨ c = 0x45 := by
    obtain rfl | ⟨e, sign, digits, he, -, -, rfl⟩ := hexp
    · exact fun c hc => by cases hc
    · rintro c ⟨⟩
      exact he
  obtain rfl | ⟨digits, hdigits, rfl⟩ := hfrac
  · apply if_neg
    intro hpoint
    rcases hhead _ hpoint with h | h
    · exact absurd h (by decide)
    · exact absurd h (by decide)
  have hstop : ∀ c ∈ exp.head?, ¬IsDigit c := by
    intro c hc
    rcases hhead c hc with rfl | rfl
    · decide
    · decide
  have hpoint : (0x2e :: (digits ++ exp)).head? = some 0x2e := rfl
  rw [cons_append, fracLen, if_pos hpoint, tail_cons,
    digitsLen_append hdigits.2 hstop, length_cons, add_comm]

variable {v : Bytes}

/-- `strtod` reads a number of the grammar to its end. -/
theorem strtod_eq (h : IsNumber v) : strtod v = v.length := by
  obtain ⟨int, frac, exp, ⟨digits, hdigits, -, hint⟩, hfrac, hexp, rfl⟩ := h
  have hstop : ∀ c ∈ (frac ++ exp).head?, ¬IsDigit c := by
    obtain rfl | ⟨digits', -, rfl⟩ := hfrac
    · obtain rfl | ⟨e, sign, digits', he, -, -, rfl⟩ := hexp
      · exact fun c hc => by cases hc
      · rintro c ⟨⟩
        rcases he with rfl | rfl
        · decide
        · decide
    · rintro c ⟨⟩
      decide
  have hpos : digits.length ≠ 0 := fun h => hdigits.1 (eq_nil_of_length_eq_zero h)
  -- from the sign on
  have hrest : ∀ sign : Bytes, signLen (sign ++ (digits ++ (frac ++ exp))) = sign.length →
      strtod (sign ++ (digits ++ (frac ++ exp))) = (sign ++ (digits ++ (frac ++ exp))).length := by
    intro sign hsign
    have hdigitsLen : digitsLen ((sign ++ (digits ++ (frac ++ exp))).drop sign.length) =
        digits.length := by
      rw [drop_left]
      exact digitsLen_append hdigits.2 hstop
    have hfracLen : fracLen ((sign ++ (digits ++ (frac ++ exp))).drop
        (sign.length + digits.length)) = frac.length := by
      rw [← drop_drop, drop_left, drop_left]
      exact fracLen_eq hfrac hexp
    have hexpLen : expLen ((sign ++ (digits ++ (frac ++ exp))).drop
        (sign.length + digits.length + frac.length)) = exp.length := by
      rw [← drop_drop, ← drop_drop, drop_left, drop_left, drop_left]
      exact expLen_eq hexp
    rw [strtod]
    simp only [hsign, hdigitsLen, hfracLen, hexpLen]
    rw [if_neg (by omega)]
    simp only [length_append]
    omega
  rcases hint with rfl | rfl
  · exact hrest [] (signLen_of_digit (isDigit_head hdigits _))
  · exact hrest [0x2d] rfl

theorem shortRfc_le_lenient : shortRfc.Le lenient where
  blank c hc := by
    have hle : c ≤ 32 := by rcases hc with rfl | rfl | rfl | rfl <;> decide
    exact hle
  scalar s hs := by
    rcases hs with ⟨hnumber, hshort⟩ | rfl | rfl | rfl
    · exact .inr (.inr (.inr ⟨hnumber.exists_cons, hnumber.chars, hshort, strtod_eq hnumber⟩))
    · exact .inr (.inr (.inl rfl))
    · exact .inr (.inl rfl)
    · exact .inl rfl
  chars s hs := by
    have hhex : ∀ {c : UInt8}, IsHex c → c ≠ 0x22 ∧ c ≠ 0x5c := by
      intro c hc
      constructor
      · rintro rfl
        exact absurd hc (by unfold IsHex IsDigit; decide)
      · rintro rfl
        exact absurd hc (by unfold IsHex IsDigit; decide)
    have hchars : IsRfcChars s := hs
    clear hs
    induction hchars with
    | nil => exact .nil
    | unescaped _ hquote hslash _ ih => exact .plain hquote hslash ih
    | escape _ _ ih => exact .escape ih
    | unicode ha hb hc hd _ ih =>
      exact .escape (.plain (hhex ha).1 (hhex ha).2 (.plain (hhex hb).1 (hhex hb).2
        (.plain (hhex hc).1 (hhex hc).2 (.plain (hhex hd).1 (hhex hd).2 ih))))

/-! ## One value -/

theorem inputEnd_cons {c : UInt8} (hquote : c ≠ 0x22) (hslash : c ≠ 0x5c) (s : Bytes) :
    inputEnd (c :: s) = (inputEnd s).map (· + 1) := by
  rw [inputEnd.eq_def]
  simp only
  rw [if_neg hquote, if_neg hslash]

theorem inputEnd_escape (c : UInt8) (s : Bytes) :
    inputEnd (0x5c :: c :: s) = (inputEnd s).map (· + 2) := rfl

/-- The end of a string is its closing quote. -/
theorem inputEnd_append (hs : IsCChars s) (w : Bytes) :
    inputEnd (s ++ 0x22 :: w) = some s.length := by
  induction hs with
  | nil =>
    rw [nil_append, inputEnd.eq_def]
    exact if_pos rfl
  | plain hquote hslash _ ih =>
    rw [cons_append, inputEnd_cons hquote hslash, ih]
    rfl
  | escape _ ih =>
    rw [cons_append, cons_append, inputEnd_escape, ih]
    rfl

section Value

variable {s w : Bytes} {p : ℕ}

/-- A string is parsed between its quotes. -/
theorem parseString_eq {t : Bytes} (ht : IsCChars t) (h : s.drop p = quoted t ++ w) :
    parseString s p = .ok (⟨.cjsonString, p + 1, t.length, 0⟩, p + (quoted t).length) := by
  have hopen : s.drop p = 0x22 :: (t ++ 0x22 :: w) := by
    rw [h, quoted, cons_append, append_assoc]
    rfl
  have hdrop : s.drop (p + 1) = t ++ 0x22 :: w := by rw [← drop_drop, hopen]; rfl
  rw [parseString, byteAt_of_drop hopen, hdrop, inputEnd_append ht, length_quoted]
  show Except.ok _ = Except.ok _
  congr 2
  omega

/-- A number is parsed up to the byte behind it. -/
theorem parseNumber_eq (hv : IsCNumber v) (hw : ∀ c ∈ w.head?, ¬IsNumberChar c)
    (h : s.drop p = v ++ w) :
    parseNumber s p = .ok (⟨.cjsonNumber, p, v.length, 0⟩, p + v.length) := by
  have hcopy : ((s.drop p).take 63).takeWhile (decide <| IsNumberChar ·) = v := by
    obtain ⟨k, hk⟩ := Nat.exists_eq_add_of_le hv.short
    have hall : ∀ c ∈ v, decide (IsNumberChar c) = true := fun c hc =>
      decide_eq_true (hv.chars c hc)
    rw [h, hk, take_length_add_append, takeWhile_append_of_pos hall]
    cases htake : w.take k with
    | nil => rw [takeWhile_nil, append_nil]
    | cons c t =>
      have hhead : w.head? = some c := by
        cases w with
        | nil => rw [take_nil] at htake; cases htake
        | cons d w =>
          cases k with
          | zero => cases htake
          | succ k =>
            rw [take_succ_cons] at htake
            rw [(List.cons.inj htake).1]
            rfl
      have hc : ¬IsNumberChar c := hw c hhead
      rw [takeWhile_cons_of_neg (by simpa using hc), append_nil]
  have hpos : v.length ≠ 0 := by
    obtain ⟨c, t, rfl, -⟩ := hv.head
    exact Nat.succ_ne_zero _
  rw [parseNumber, hcopy, hv.whole]
  exact if_neg hpos

theorem parseValue_of_head {c : UInt8} (h : s.drop p = c :: w)
    (hc : c ≠ 0x6e ∧ c ≠ 0x66 ∧ c ≠ 0x74) (limit rounds depth : ℕ) :
    parseValue limit s (rounds + 1) depth p = if c = 0x22 then parseString s p
      else if c = 0x2d ∨ IsDigit c then parseNumber s p
      else if c = 0x5b then parseArray limit (parseValue limit s rounds) s depth p
      else if c = 0x7b then parseObject limit (parseValue limit s rounds) s depth p
      else .error .error := by
  have hword : ∀ {d : UInt8} {u : Bytes}, c ≠ d → ¬(d :: u) <+: s.drop p := by
    intro d u hne hpre
    rw [h, cons_prefix_cons] at hpre
    exact hne hpre.1.symm
  rw [parseValue, nullText, falseText, trueText, if_neg (hword hc.1), if_neg (hword hc.2.1),
    if_neg (hword hc.2.2), getElem?_of_drop h]
  simp only [Option.some.injEq, Option.any_some, decide_eq_true_eq]

end Value

/-- The type of a value, from its text. -/
def typeOf (v : Bytes) : ItemType :=
  if v.head? = some 0x22 then .cjsonString
  else if v.head? = some 0x5b then .cjsonArray
  else if v.head? = some 0x7b then .cjsonObject
  else if v = nullText then .cjsonNull
  else if v = falseText then .cjsonFalse
  else if v = trueText then .cjsonTrue
  else .cjsonNumber

/-- The type and the extent of the value `v` at an offset: a string without its quotes. -/
structure Covers (off : ℕ) (v : Bytes) (item : Item) : Prop where
  type : item.type = typeOf v
  extent : if typeOf v = .cjsonString then item.value = off + 1 ∧ item.valueLength + 2 = v.length
    else item.value = off ∧ item.valueLength = v.length

/-- Wherever a value stands, the parser takes it for the same item. -/
def Parses (n : ℕ) (v : Bytes) (item : Item) : Prop :=
  ∀ {s w : Bytes} {limit p rounds depth : ℕ}, s.drop p = v ++ w →
    (IsCNumber v → ∀ c ∈ w.head?, ¬IsNumberChar c) → n + depth ≤ limit → n < rounds →
    parseValue limit s rounds depth p = .ok (item.shift p, p + v.length)

theorem typeOf_number (hv : IsCNumber v) : typeOf v = .cjsonNumber := by
  obtain ⟨c, t, rfl, hc⟩ := hv.head
  have hne : c ≠ 0x22 ∧ c ≠ 0x5b ∧ c ≠ 0x7b ∧ c ≠ 0x6e ∧ c ≠ 0x66 ∧ c ≠ 0x74 := by
    refine ⟨?_, ?_, ?_, ?_, ?_, ?_⟩ <;> (rintro rfl; exact absurd hc (by decide))
  obtain ⟨h1, h2, h3, h4, h5, h6⟩ := hne
  have hhead : ∀ d : UInt8, c ≠ d → (c :: t).head? ≠ some d := fun d hd h =>
    hd (Option.some.inj h)
  have hword : ∀ (d : UInt8) (u : Bytes), c ≠ d → c :: t ≠ d :: u := fun d u hd h =>
    hd (List.cons.inj h).1
  rw [typeOf, if_neg (hhead _ h1), if_neg (hhead _ h2), if_neg (hhead _ h3), nullText,
    if_neg (hword _ _ h4), falseText, if_neg (hword _ _ h5), trueText, if_neg (hword _ _ h6)]

/-- A scalar is parsed as it stands. -/
theorem parses_scalar (hv : lenient.IsScalar v) (n : ℕ) :
    ∃ item, Covers 0 v item ∧ Parses n v item := by
  rcases hv with rfl | rfl | rfl | hnumber
  · refine ⟨⟨.cjsonNull, 0, 4, 0⟩, ⟨rfl, rfl, rfl⟩,
      fun {s w limit p rounds depth} h _ _ hrounds => ?_⟩
    obtain ⟨rounds, rfl⟩ := Nat.exists_eq_add_of_le' (Nat.one_le_of_lt hrounds)
    rw [parseValue, if_pos (h ▸ prefix_append _ _)]
    rfl
  · refine ⟨⟨.cjsonFalse, 0, 5, 0⟩, ⟨rfl, rfl, rfl⟩,
      fun {s w limit p rounds depth} h _ _ hrounds => ?_⟩
    obtain ⟨rounds, rfl⟩ := Nat.exists_eq_add_of_le' (Nat.one_le_of_lt hrounds)
    have hnull : ¬nullText <+: s.drop p := by
      rw [h, nullText, falseText, cons_append, cons_prefix_cons]
      exact fun hpre => absurd hpre.1 (by decide)
    rw [parseValue, if_neg hnull, if_pos (h ▸ prefix_append _ _)]
    rfl
  · refine ⟨⟨.cjsonTrue, 0, 4, 0⟩, ⟨rfl, rfl, rfl⟩,
      fun {s w limit p rounds depth} h _ _ hrounds => ?_⟩
    obtain ⟨rounds, rfl⟩ := Nat.exists_eq_add_of_le' (Nat.one_le_of_lt hrounds)
    have hnull : ¬nullText <+: s.drop p := by
      rw [h, nullText, trueText, cons_append, cons_prefix_cons]
      exact fun hpre => absurd hpre.1 (by decide)
    have hfalse : ¬falseText <+: s.drop p := by
      rw [h, falseText, trueText, cons_append, cons_prefix_cons]
      exact fun hpre => absurd hpre.1 (by decide)
    rw [parseValue, if_neg hnull, if_neg hfalse, if_pos (h ▸ prefix_append _ _)]
    rfl
  · have htype := typeOf_number hnumber
    refine ⟨⟨.cjsonNumber, 0, v.length, 0⟩, ⟨htype.symm, ?_⟩,
      fun {s w limit p rounds depth} h hstop _ hrounds => ?_⟩
    · rw [htype]
      exact ⟨rfl, rfl⟩
    · obtain ⟨rounds, rfl⟩ := Nat.exists_eq_add_of_le' (Nat.one_le_of_lt hrounds)
      have hparse := parseNumber_eq hnumber (hstop hnumber) h
      obtain ⟨c, t, rfl, hc⟩ := hnumber.head
      have hne : (c ≠ 0x6e ∧ c ≠ 0x66 ∧ c ≠ 0x74) ∧ c ≠ 0x22 := by
        refine ⟨⟨?_, ?_, ?_⟩, ?_⟩ <;> (rintro rfl; exact absurd hc (by decide))
      rw [parseValue_of_head h hne.1, if_neg hne.2, if_pos hc, hparse]
      rfl

theorem parses_string {t : Bytes} (ht : IsCChars t) (n : ℕ) :
    Parses n (quoted t) ⟨.cjsonString, 1, t.length, 0⟩ := by
  intro s w limit p rounds depth h _ _ hrounds
  obtain ⟨rounds, rfl⟩ := Nat.exists_eq_add_of_le' (Nat.one_le_of_lt hrounds)
  have hopen : s.drop p = 0x22 :: (t ++ [0x22] ++ w) := h
  rw [parseValue_of_head hopen (by decide), if_pos rfl, parseString_eq ht h]
  rfl

/-! ## Entries -/

section Entries

variable {α : Type} {β : Type*} {text : β → Bytes} {R : ℕ → β → α → Prop}

/-- Where an entry begins, with commas between the entries. -/
def startOf (text : β → Bytes) : ℕ → List β → ℕ → ℕ
  | p, _, 0 => p
  | p, [], _ + 1 => p
  | p, b :: l, i + 1 => startOf text (p + (text b).length + 1) l i

/-- What is read stands for the entries, each one at its offset. -/
inductive ReadAll (R : ℕ → β → α → Prop) (text : β → Bytes) : ℕ → List β → List α → Prop
  | nil {p : ℕ} : ReadAll R text p [] []
  | cons {p : ℕ} {b : β} {l : List β} {a : α} {as : List α} (ha : R p b a)
      (has : ReadAll R text (p + (text b).length + 1) l as) : ReadAll R text p (b :: l) (a :: as)

variable {l : List β}

theorem ReadAll.length_eq {p : ℕ} {as : List α} (h : ReadAll R text p l as) :
    as.length = l.length := by
  induction h with
  | nil => rfl
  | cons _ _ ih => rw [length_cons, length_cons, ih]

theorem ReadAll.map {p off : ℕ} {l : List β} {as : List α} (h : ReadAll R text p l as)
    {f : α → α} (hf : ∀ q b a, R q b a → R (off + q) b (f a)) :
    ReadAll R text (off + p) l (as.map f) := by
  induction h with
  | nil => exact .nil
  | cons ha _ ih =>
    refine .cons (hf _ _ _ ha) ?_
    rwa [add_assoc, add_assoc, ← add_assoc _ _ 1]

theorem ReadAll.get {p : ℕ} {as : List α} (h : ReadAll R text p l as) {i : ℕ} (hi : i < l.length)
    (hi' : i < as.length) : R (startOf text p l i) l[i] as[i] := by
  induction h generalizing i with
  | nil => exact absurd hi (Nat.not_lt_zero i)
  | cons ha _ ih =>
    cases i with
    | zero => exact ha
    | succ i => exact ih (Nat.lt_of_succ_lt_succ hi) (Nat.lt_of_succ_lt_succ hi')

variable {entry : ℕ → Except Stop (α × ℕ)} {closing : UInt8} {s w : Bytes}

/-- A comma behind an entry asks for the next one. -/
theorem entryLoop_comma {p q : ℕ} {a : α} (hentry : entry p = .ok (a, q))
    (hcomma : s[q]? = some 0x2c) (rounds : ℕ) :
    entryLoop entry s (rounds + 1) p =
      (entryLoop entry s rounds (q + 1)).map fun found => (a :: found.1, found.2) := by
  rw [entryLoop, hentry]
  show (if s[q]? = some 0x2c then _ else _) = _
  rw [if_pos hcomma]
  cases entryLoop entry s rounds (q + 1) with
  | error => rfl
  | ok found => rfl

/-- Without one the entries end. -/
theorem entryLoop_last {p q : ℕ} {a : α} (hentry : entry p = .ok (a, q))
    (hcomma : s[q]? ≠ some 0x2c) (rounds : ℕ) :
    entryLoop entry s (rounds + 1) p = .ok ([a], q) := by
  rw [entryLoop, hentry]
  exact if_neg hcomma

/-- A loop that ends has read an entry, and went on if there was a comma behind it. -/
theorem entryLoop_eq_ok {rounds p last : ℕ} {as : List α}
    (h : entryLoop entry s rounds p = .ok (as, last)) :
    ∃ rest a q, rounds = rest + 1 ∧ entry p = .ok (a, q) ∧
      ((s[q]? = some 0x2c ∧ ∃ as', as = a :: as' ∧
          entryLoop entry s rest (q + 1) = .ok (as', last)) ∨
        s[q]? ≠ some 0x2c ∧ as = [a] ∧ last = q) := by
  cases rounds with
  | zero => cases h
  | succ rest =>
    cases hrun : entry p with
    | error e =>
      rw [entryLoop, hrun] at h
      cases h
    | ok found =>
      obtain ⟨a, q⟩ := found
      refine ⟨rest, a, q, rfl, rfl, ?_⟩
      by_cases hcomma : s[q]? = some 0x2c
      · rw [entryLoop_comma hrun hcomma] at h
        cases hrest : entryLoop entry s rest (q + 1) with
        | error e =>
          rw [hrest] at h
          cases h
        | ok found =>
          rw [hrest] at h
          obtain ⟨rfl, rfl⟩ := Prod.mk.inj (Except.ok.inj h)
          exact .inl ⟨hcomma, _, rfl, rfl⟩
      · rw [entryLoop_last hrun hcomma] at h
        obtain ⟨rfl, rfl⟩ := Prod.mk.inj (Except.ok.inj h)
        exact .inr ⟨hcomma, rfl, rfl⟩

/-- What is wanted of a function that reads one entry, with a comma or the closing bracket behind
it. -/
def ReadsEntry (entry : ℕ → Except Stop (α × ℕ)) (R : ℕ → β → α → Prop) (text : β → Bytes)
    (closing : UInt8) (s : Bytes) (b : β) : Prop :=
  ∀ q c u, c = 0x2c ∨ c = closing → s.drop q = text b ++ c :: u →
    ∃ a, entry q = .ok (a, q + (text b).length) ∧ R q b a

/-- **The loop reads the entries**, one after the other, up to the bracket. -/
theorem entryLoop_eq (hclosing : closing ≠ 0x2c) (l : List β) {b : β} {p : ℕ}
    (hentry : ∀ b' ∈ b :: l, ReadsEntry entry R text closing s b')
    (h : s.drop p = text b ++ (commaTail text l ++ closing :: w)) :
    ∃ as, (∀ rounds, l.length < rounds → entryLoop entry s rounds p =
        .ok (as, p + (text b ++ commaTail text l).length)) ∧ ReadAll R text p (b :: l) as := by
  induction l generalizing b p with
  | nil =>
    obtain ⟨a, hread, hR⟩ := hentry b mem_cons_self p closing w (.inr rfl) h
    have hlast : s[p + (text b).length]? ≠ some 0x2c := by
      rw [getElem?_of_drop (drop_add h)]
      exact fun heq => hclosing (Option.some.inj heq)
    refine ⟨[a], fun rounds hrounds => ?_, .cons hR .nil⟩
    obtain ⟨rounds, rfl⟩ := Nat.exists_eq_add_of_le' (Nat.one_le_of_lt hrounds)
    rw [entryLoop_last hread hlast, commaTail_nil, append_nil]
  | cons b' l ih =>
    rw [commaTail_cons, cons_append, append_assoc] at h
    obtain ⟨a, hread, hR⟩ := hentry b mem_cons_self p 0x2c _ (.inl rfl) h
    have hcomma := drop_add h
    have hnext : s.drop (p + (text b).length + 1) =
        text b' ++ (commaTail text l ++ closing :: w) := by
      rw [← drop_drop, hcomma]
      rfl
    obtain ⟨as, hloop, hall⟩ := ih (fun b'' hb'' => hentry b'' (mem_cons_of_mem b hb'')) hnext
    refine ⟨a :: as, fun rounds hrounds => ?_, .cons hR hall⟩
    obtain ⟨rounds, rfl⟩ := Nat.exists_eq_add_of_le' (Nat.one_le_of_lt hrounds)
    rw [entryLoop_comma hread (getElem?_of_drop hcomma),
      hloop rounds (Nat.lt_of_succ_lt_succ hrounds), commaTail_cons]
    simp only [Except.map, length_append, length_cons]
    congr 2
    omega

/-- The entry that is wanted. -/
def firstWanted (wanted : ℕ → α → Bool) : ℕ → List α → Except Stop α
  | _, [] => .error .error
  | i, a :: as => if wanted i a then .ok a else firstWanted wanted (i + 1) as

/-- The search over the entries stops at the first that is wanted. -/
theorem itemLoop_eq (wanted : ℕ → α → Bool) {rounds p last : ℕ} {as : List α}
    (h : entryLoop entry s rounds p = .ok (as, last)) (i : ℕ) :
    itemLoop entry wanted s rounds i p = firstWanted wanted i as := by
  induction rounds generalizing p as last i with
  | zero => cases h
  | succ rounds ih =>
    cases hentry : entry p with
    | error e =>
      rw [entryLoop, hentry] at h
      cases h
    | ok found =>
      obtain ⟨a, q⟩ := found
      by_cases hcomma : s[q]? = some 0x2c
      · rw [entryLoop_comma hentry hcomma] at h
        cases hrest : entryLoop entry s rounds (q + 1) with
        | error e =>
          rw [hrest] at h
          cases h
        | ok found =>
          rw [hrest] at h
          cases h
          rw [itemLoop, hentry, firstWanted, ← ih hrest (i + 1)]
          show (if wanted i a then _ else if s[q]? = some 0x2c then _ else _) = _
          rw [if_pos hcomma]
      · rw [entryLoop_last hentry hcomma] at h
        obtain ⟨rfl, rfl⟩ := Prod.mk.inj (Except.ok.inj h)
        rw [itemLoop, hentry, firstWanted, firstWanted]
        show (if wanted i a then _ else if s[q]? = some 0x2c then _ else _) = _
        rw [if_neg hcomma]

theorem firstWanted_index (i k : ℕ) (as : List α) :
    firstWanted (fun j _ => decide ((j : ℤ) = ((i + k : ℕ) : ℤ))) i as =
      (as[k]?).elim (.error .error) .ok := by
  induction as generalizing i k with
  | nil => rfl
  | cons a as ih =>
    rw [firstWanted]
    cases k with
    | zero => exact if_pos (decide_eq_true rfl)
    | succ k =>
      have hne : ¬((i : ℤ) = ((i + (k + 1) : ℕ) : ℤ)) := by omega
      have hsucc : i + (k + 1) = i + 1 + k := by omega
      rw [if_neg (by simpa using hne), hsucc, ih]
      rfl

theorem entryLoop_first (hskip : ∀ p, entry (bufferSkipWhitespace s p) = entry p)
    (rounds p : ℕ) :
    entryLoop entry s rounds (bufferSkipWhitespace s p) = entryLoop entry s rounds p := by
  cases rounds with
  | zero => rfl
  | succ rounds => rw [entryLoop, entryLoop, hskip]

/-- An entry begins with blanks and a character that does not close anything. -/
def OpensWith (closing : UInt8) (s : Bytes) : Prop :=
  ∃ u d t, (∀ x ∈ u, x ≤ 32) ∧ 32 < d ∧ d ≠ closing ∧ s = u ++ d :: t

theorem length_le_commaTail (text : β → Bytes) (l : List β) :
    l.length ≤ (commaTail text l).length := by
  induction l with
  | nil => exact le_rfl
  | cons b l ih =>
    rw [commaTail_cons, length_cons, length_cons, length_append]
    omega

section

variable (hclosing : 32 < closing ∧ closing ≠ 0x2c)
include hclosing

/-- What is behind the opening bracket: the closing one, or entries up to it. -/
theorem entries_first {blank : Bytes} (hblank : ∀ x ∈ blank, x ≤ 32)
    (hopens : ∀ b ∈ l, OpensWith closing (text b))
    (hskip : ∀ p, entry (bufferSkipWhitespace s p) = entry p)
    (hentry : ∀ b ∈ l, ReadsEntry entry R text closing s b) {p : ℕ}
    (h : s.drop p = listText text blank l ++ closing :: w) :
    (l = [] ∧ s[bufferSkipWhitespace s p]? = some closing ∧
        bufferSkipWhitespace s p = p + (listText text blank l).length) ∨
      s[bufferSkipWhitespace s p]? ≠ some closing ∧ bufferSkipWhitespace s p < s.length ∧
        s[p + (listText text blank l).length]? = some closing ∧ ∃ as, ReadAll R text p l as ∧
          entryLoop entry s (s.length + 1) (bufferSkipWhitespace s p) =
            .ok (as, p + (listText text blank l).length) := by
  cases l with
  | nil =>
    have hfirst := bufferSkipWhitespace_eq hblank hclosing.1 h
    rw [hfirst]
    exact .inl ⟨rfl, getElem?_of_drop (drop_add h), rfl⟩
  | cons b l =>
    right
    obtain ⟨u, d, t, hu, hd, hne, htext⟩ := hopens b mem_cons_self
    have hlist : s.drop p = text b ++ (commaTail text l ++ closing :: w) := by
      rw [h, listText, append_assoc]
    have hhead : s.drop p = u ++ d :: (t ++ (commaTail text l ++ closing :: w)) := by
      rw [hlist, htext, append_assoc, cons_append]
    have hfirst := bufferSkipWhitespace_eq hu hd hhead
    have hget := getElem?_of_drop (drop_add hhead)
    have hlt := lt_of_drop (drop_add hhead)
    obtain ⟨as, hloop, hall⟩ := entryLoop_eq hclosing.2 l hentry hlist
    have hrounds : l.length < s.length + 1 := by
      have hle := length_le_commaTail text l
      have hlen := congrArg List.length hlist
      rw [length_drop, length_append, length_append] at hlen
      omega
    refine ⟨?_, hfirst ▸ hlt, getElem?_of_drop (drop_add h), as, hall, ?_⟩
    · rw [hfirst, hget]
      exact fun heq => hne (Option.some.inj heq)
    · rw [entryLoop_first hskip, hloop _ hrounds, listText]

/-- **An array or object is read as a whole.** -/
theorem parseEntries_eq {blank : Bytes} (hblank : ∀ x ∈ blank, x ≤ 32)
    (hopens : ∀ b ∈ l, OpensWith closing (text b))
    (hskip : ∀ p, entry (bufferSkipWhitespace s p) = entry p)
    (hentry : ∀ b ∈ l, ReadsEntry entry R text closing s b) {p : ℕ}
    (h : s.drop (p + 1) = listText text blank l ++ closing :: w) (type : ItemType) :
    parseEntries closing type entry s p =
      .ok (⟨type, p, (listText text blank l).length + 2, l.length⟩,
        p + ((listText text blank l).length + 2)) := by
  have hlen : p + 1 + (listText text blank l).length - p + 1 =
      (listText text blank l).length + 2 := by omega
  have hend : p + 1 + (listText text blank l).length + 1 =
      p + ((listText text blank l).length + 2) := by omega
  unfold parseEntries
  rcases entries_first hclosing hblank hopens hskip hentry h with
    ⟨rfl, hget, hfirst⟩ | ⟨hget, hlt, hlast, as, hall, hloop⟩
  · rw [if_pos hget, hfirst, hlen, hend]
    rfl
  · rw [if_neg hget, if_neg (not_le.mpr hlt), hloop]
    show (if s[p + 1 + (listText text blank l).length]? ≠ some closing then _ else _) = _
    rw [if_neg (not_not.mpr hlast), hlen, hend, hall.length_eq]

/-- What is looked for is looked for among the same entries. -/
theorem findEntry_eq {blank : Bytes} (hblank : ∀ x ∈ blank, x ≤ 32)
    (hopens : ∀ b ∈ l, OpensWith closing (text b))
    (hskip : ∀ p, entry (bufferSkipWhitespace s p) = entry p)
    (hentry : ∀ b ∈ l, ReadsEntry entry R text closing s b)
    (h : s.drop 1 = listText text blank l ++ closing :: w) :
    ∃ as, ReadAll R text 1 l as ∧
      ∀ wanted, findEntry closing entry wanted s = firstWanted wanted 0 as := by
  unfold findEntry
  rcases entries_first hclosing hblank hopens hskip hentry h with
    ⟨rfl, hget, hfirst⟩ | ⟨hget, hlt, hlast, as, hall, hloop⟩
  · exact ⟨[], .nil, fun wanted => if_pos hget⟩
  · refine ⟨as, hall, fun wanted => ?_⟩
    rw [if_neg hget, if_neg (not_le.mpr hlt), itemLoop_eq wanted hloop]

end

end Entries

/-! ## Elements and members -/

/-- A value begins with a character that is neither blank nor a closing bracket. -/
def Starts (v : Bytes) : Prop := ∃ d t, v = d :: t ∧ 32 < d ∧ d ≠ 0x5d ∧ d < 0x7d

/-- The first byte of a value is none that the parser skips. -/
theorem starts_of_isValue {n : ℕ} (hv : IsValue lenient n v) : Starts v := by
  cases hv with
  | scalar h =>
    rcases h with rfl | rfl | rfl | h
    · exact ⟨0x6e, _, rfl, by decide⟩
    · exact ⟨0x66, _, rfl, by decide⟩
    · exact ⟨0x74, _, rfl, by decide⟩
    obtain ⟨c, t, rfl, hc⟩ := h.head
    refine ⟨c, t, rfl, ?_⟩
    rcases hc with rfl | ⟨hlow, hhigh⟩
    · decide
    · have hgt : (32 : UInt8) < 48 := by decide
      have hlt : (57 : UInt8) < 0x7d := by decide
      refine ⟨UInt8.lt_of_lt_of_le hgt hlow, ?_, UInt8.lt_of_le_of_lt hhigh hlt⟩
      rintro rfl
      exact absurd hhigh (by decide)
  | string _ => exact ⟨0x22, _, rfl, by decide⟩
  | array _ _ _ => exact ⟨0x5b, _, rfl, by decide⟩
  | object _ _ _ => exact ⟨0x7b, _, rfl, by decide⟩

theorem not_isNumberChar_of_le {c : UInt8} (h : c ≤ 32) : ¬IsNumberChar c := by
  rintro (⟨hlow, -⟩ | rfl | rfl | rfl | rfl | rfl)
  · have hle : (48 : UInt8) ≤ 32 := UInt8.le_trans hlow h
    exact absurd hle (by decide)
  all_goals exact absurd h (by decide)

/-- The entries of arrays and objects end with one of these. -/
def EndsEntry (c : UInt8) : Prop := c = 0x2c ∨ c = 0x5d ∨ c = 0x7d

theorem EndsEntry.gt {c : UInt8} (h : EndsEntry c) : 32 < c ∧ ¬IsNumberChar c := by
  rcases h with rfl | rfl | rfl <;> decide

/-- The item of an element. -/
def ElementAt (n q : ℕ) (e : Element) (item : Item) : Prop :=
  ∃ base, Parses n e.value base ∧ item = base.shift (q + e.pre.length)

/-- How far the value is from where a member begins. -/
def valueStart (m : Member) : ℕ :=
  m.pre.length + (m.name.length + 2) + m.mid.length + 1 + m.gap.length

/-- The items of a member. -/
def MemberAt (n q : ℕ) (m : Member) (items : Item × Item) : Prop :=
  items.1 = ⟨.cjsonString, q + m.pre.length + 1, m.name.length, 0⟩ ∧
    ∃ base, Parses n m.value base ∧ items.2 = base.shift (q + valueStart m)

section Entry

variable {n limit rounds depth : ℕ} {s : Bytes} (hdepth : n + depth ≤ limit)
  (hrounds : n < rounds)

theorem parseElement_skip (value : ℕ → Except Stop (Item × ℕ)) (p : ℕ) :
    parseElement value s (bufferSkipWhitespace s p) = parseElement value s p := by
  rw [parseElement, parseElement, bufferSkipWhitespace_idem]

theorem parseMember_skip (value : ℕ → Except Stop (Item × ℕ)) (p : ℕ) :
    parseMember value s (bufferSkipWhitespace s p) = parseMember value s p := by
  rw [parseMember, parseMember, bufferSkipWhitespace_idem]

include hdepth hrounds

/-- An element is parsed with the blanks around it. -/
theorem parseElement_eq {e : Element} (he : e.Spaced lenient) (hstarts : Starts e.value)
    {base : Item} (hparses : Parses n e.value base) {q : ℕ} {c : UInt8} {u : Bytes}
    (hc : EndsEntry c) (h : s.drop q = e.text ++ c :: u) :
    parseElement (parseValue limit s rounds depth) s q =
      .ok (base.shift (q + e.pre.length), q + e.text.length) := by
  obtain ⟨d, t, hd, hgt, -, -⟩ := hstarts
  have hvalue : s.drop q = e.pre ++ (e.value ++ (e.post ++ c :: u)) := by
    rw [h, Element.text, append_assoc, append_assoc]
  have hhead : s.drop q = e.pre ++ d :: (t ++ (e.post ++ c :: u)) := by
    rw [hvalue, hd, cons_append]
  have hpost := drop_add (drop_add hvalue)
  have hstop : IsCNumber e.value → ∀ x ∈ (e.post ++ c :: u).head?, ¬IsNumberChar x := by
    intro _ x hx
    cases hcons : e.post with
    | nil =>
      rw [hcons] at hx
      cases hx
      exact hc.gt.2
    | cons y post =>
      rw [hcons] at hx
      obtain rfl := Option.some.inj hx
      exact not_isNumberChar_of_le (he.post y (hcons ▸ mem_cons_self))
  rw [parseElement, bufferSkipWhitespace_eq he.pre hgt hhead,
    hparses (drop_add hvalue) hstop hdepth hrounds]
  show Except.ok _ = Except.ok _
  rw [bufferSkipWhitespace_eq he.post hc.gt.1 hpost, Element.text, length_append,
    length_append, add_assoc, add_assoc]

theorem readsEntry_element {closing : UInt8} (hclosing : closing = 0x5d) {e : Element}
    (he : e.Spaced lenient) (hstarts : Starts e.value)
    (hparses : ∃ base, Parses n e.value base) :
    ReadsEntry (parseElement (parseValue limit s rounds depth) s) (ElementAt n) Element.text closing s
      e := by
  intro q c u hc h
  obtain ⟨base, hparses⟩ := hparses
  have hends : EndsEntry c := hc.imp_right fun hc => .inl (hc.trans hclosing)
  exact ⟨_, parseElement_eq hdepth hrounds he hstarts hparses hends h, base, hparses, rfl⟩

theorem readsEntry_member {closing : UInt8} (hclosing : closing = 0x7d) {m : Member}
    (hm : m.Spaced lenient) (hstarts : Starts m.value)
    (hparses : ∃ base, Parses n m.value base) :
    ReadsEntry (parseMember (parseValue limit s rounds depth) s) (MemberAt n) Member.text closing s
      m := by
  intro q c u hc h
  obtain ⟨base, hparses⟩ := hparses
  have hends : EndsEntry c := hc.imp_right fun hc => .inr (hc.trans hclosing)
  have hname : s.drop q = m.pre ++ (quoted m.name ++ (m.mid ++ 0x3a ::
      (Element.text ⟨m.gap, m.value, m.post⟩ ++ c :: u))) := by
    rw [h, Member.text, Element.text]
    simp only [append_assoc, cons_append]
  have hhead : s.drop q = m.pre ++ 0x22 :: (m.name ++ [0x22] ++ (m.mid ++ 0x3a ::
      (Element.text ⟨m.gap, m.value, m.post⟩ ++ c :: u))) := hname
  have hmid := drop_add (drop_add hname)
  have hcolon := drop_add hmid
  have hvalue : s.drop (q + m.pre.length + (quoted m.name).length + m.mid.length + 1) =
      Element.text ⟨m.gap, m.value, m.post⟩ ++ c :: u := by
    rw [← drop_drop, hcolon]
    rfl
  have helement := parseElement_eq hdepth hrounds (e := ⟨m.gap, m.value, m.post⟩) ⟨hm.gap, hm.post⟩
    hstarts hparses hends hvalue
  have hblank : (32 : UInt8) < 0x22 ∧ (32 : UInt8) < 0x3a := by decide
  have hlen : q + m.pre.length + (quoted m.name).length + m.mid.length + 1 +
      (Element.text ⟨m.gap, m.value, m.post⟩).length = q + m.text.length := by
    simp only [Member.text, Element.text, length_append, length_cons]
    omega
  have hstart : q + m.pre.length + (quoted m.name).length + m.mid.length + 1 + m.gap.length =
      q + valueStart m := by
    rw [valueStart, length_quoted]
    omega
  rw [hlen, hstart] at helement
  refine ⟨(⟨.cjsonString, q + m.pre.length + 1, m.name.length, 0⟩, base.shift (q + valueStart m)),
    ?_, rfl, base, hparses, rfl⟩
  rw [parseMember, bufferSkipWhitespace_eq hm.pre hblank.1 hhead,
    parseString_eq hm.name (drop_add hname)]
  show (if s[bufferSkipWhitespace s (q + m.pre.length + (quoted m.name).length)]? ≠ some 0x3a
    then _ else _) = _
  rw [bufferSkipWhitespace_eq hm.mid hblank.2 hmid, if_neg (not_not.mpr (getElem?_of_drop hcolon)),
    helement]
  rfl

end Entry

/-! ## Arrays and objects -/

theorem opensWith_element {e : Element} (he : e.Spaced lenient) (hstarts : Starts e.value) :
    OpensWith 0x5d e.text := by
  obtain ⟨d, t, hd, hgt, hne, -⟩ := hstarts
  exact ⟨e.pre, d, t ++ e.post, he.pre, hgt, hne, by rw [Element.text, hd, cons_append]⟩

theorem opensWith_member {m : Member} (hm : m.Spaced lenient) : OpensWith 0x7d m.text :=
  ⟨m.pre, 0x22, _, hm.pre, by decide, by decide, rfl⟩

theorem length_arrayText (blank : Bytes) (l : List Element) :
    (arrayText blank l).length = (listText Element.text blank l).length + 2 := by
  rw [arrayText, length_cons, length_append]
  rfl

theorem length_objectText (blank : Bytes) (l : List Member) :
    (objectText blank l).length = (listText Member.text blank l).length + 2 := by
  rw [objectText, length_cons, length_append]
  rfl

/-- The elements of an array that the parser reads. -/
def ReadableElements (n : ℕ) (l : List Element) : Prop :=
  ∀ e ∈ l, e.Spaced lenient ∧ Starts e.value ∧ ∃ base, Parses n e.value base

/-- The members of an object that the parser reads. -/
def ReadableMembers (n : ℕ) (l : List Member) : Prop :=
  ∀ m ∈ l, m.Spaced lenient ∧ Starts m.value ∧ ∃ base, Parses n m.value base

section Containers

variable {n : ℕ} {blank : Bytes}

/-- An array of readable elements is parsed with their number. -/
theorem parses_array (hblank : lenient.Blank blank) {l : List Element}
    (hl : ReadableElements n l) :
    Parses (n + 1) (arrayText blank l) ⟨.cjsonArray, 0, (arrayText blank l).length, l.length⟩ := by
  intro s w limit p rounds depth h _ hdepth hrounds
  obtain ⟨rounds, rfl⟩ := Nat.exists_eq_add_of_le' (Nat.one_le_of_lt hrounds)
  have hopen : s.drop p = 0x5b :: (listText Element.text blank l ++ 0x5d :: w) := by
    rw [h, arrayText, cons_append, append_assoc]
    rfl
  have hinner : s.drop (p + 1) = listText Element.text blank l ++ 0x5d :: w := by
    rw [← drop_drop, hopen]
    rfl
  have hdepth' : n + (depth + 1) ≤ limit := by omega
  have hentry : ∀ e ∈ l, ReadsEntry (parseElement (parseValue limit s rounds (depth + 1)) s)
      (ElementAt n) Element.text 0x5d s e := fun e he =>
    readsEntry_element hdepth' (Nat.lt_of_succ_lt_succ hrounds) rfl (hl e he).1 (hl e he).2.1
      (hl e he).2.2
  have hbrackets : (32 : UInt8) < 0x5d ∧ (0x5d : UInt8) ≠ 0x2c := by decide
  have hparse := parseEntries_eq hbrackets hblank
    (fun e he => opensWith_element (hl e he).1 (hl e he).2.1) (parseElement_skip _) hentry hinner
    .cjsonArray
  rw [parseValue_of_head hopen (by decide), if_neg (by decide), if_neg (by decide), if_pos rfl,
    parseArray, if_neg (by omega), byteAt_of_drop hopen, length_arrayText]
  exact hparse

/-- An object of readable members is parsed with their number. -/
theorem parses_object (hblank : lenient.Blank blank) {l : List Member}
    (hl : ReadableMembers n l) :
    Parses (n + 1) (objectText blank l)
      ⟨.cjsonObject, 0, (objectText blank l).length, l.length⟩ := by
  intro s w limit p rounds depth h _ hdepth hrounds
  obtain ⟨rounds, rfl⟩ := Nat.exists_eq_add_of_le' (Nat.one_le_of_lt hrounds)
  have hopen : s.drop p = 0x7b :: (listText Member.text blank l ++ 0x7d :: w) := by
    rw [h, objectText, cons_append, append_assoc]
    rfl
  have hinner : s.drop (p + 1) = listText Member.text blank l ++ 0x7d :: w := by
    rw [← drop_drop, hopen]
    rfl
  have hdepth' : n + (depth + 1) ≤ limit := by omega
  have hentry : ∀ m ∈ l, ReadsEntry (parseMember (parseValue limit s rounds (depth + 1)) s)
      (MemberAt n) Member.text 0x7d s m := fun m hm =>
    readsEntry_member hdepth' (Nat.lt_of_succ_lt_succ hrounds) rfl (hl m hm).1 (hl m hm).2.1
      (hl m hm).2.2
  have hbrackets : (32 : UInt8) < 0x7d ∧ (0x7d : UInt8) ≠ 0x2c := by decide
  have hparse := parseEntries_eq hbrackets hblank (fun m hm => opensWith_member (hl m hm).1)
    (parseMember_skip _) hentry hinner .cjsonObject
  rw [parseValue_of_head hopen (by decide), if_neg (by decide), if_neg (by decide),
    if_neg (by decide), if_pos rfl, parseObject, if_neg (by omega), getElem?_of_drop hopen,
    if_neg (not_not.mpr rfl), length_objectText]
  exact hparse

end Containers

/-- **Values are read.**  The parser reads every value of its language that is not nested too deep,
with its type and its extent. -/
theorem exists_parses {n : ℕ} (hv : IsValue lenient n v) :
    ∃ item, Covers 0 v item ∧ Parses n v item := by
  induction hv with
  | scalar h => exact parses_scalar h _
  | @string n t h =>
    have hextent : t.length + 2 = (quoted t).length := (length_quoted t).symm
    exact ⟨_, ⟨rfl, rfl, hextent⟩, parses_string h n⟩
  | array hblank hspaced hvalue ih =>
    refine ⟨_, ⟨rfl, rfl, rfl⟩, parses_array hblank fun e he => ?_⟩
    obtain ⟨base, -, hparses⟩ := ih e he
    exact ⟨hspaced e he, starts_of_isValue (hvalue e he), base, hparses⟩
  | object hblank hspaced hvalue ih =>
    refine ⟨_, ⟨rfl, rfl, rfl⟩, parses_object hblank fun m hm => ?_⟩
    obtain ⟨base, -, hparses⟩ := ih m hm
    exact ⟨hspaced m hm, starts_of_isValue (hvalue m hm), base, hparses⟩

/-! ## Items of items -/

@[simp] theorem shift_shift (item : Item) (a b : ℕ) : (item.shift a).shift b = item.shift (b + a) := by
  unfold Item.shift
  simp only [add_assoc]

@[simp] theorem shift_zero (item : Item) : item.shift 0 = item := by
  unfold Item.shift
  simp only [zero_add]

/-- A text is parsed as one item only. -/
theorem parses_unique {n : ℕ} {item item' : Item} (h : Parses n v item) (h' : Parses n v item') :
    item = item' := by
  have hdrop : v.drop 0 = v ++ [] := by rw [drop_zero, append_nil]
  have hstop : IsCNumber v → ∀ c ∈ ([] : Bytes).head?, ¬IsNumberChar c :=
    fun _ c hc => by cases hc
  have hdepth : n + 0 ≤ n := le_rfl
  have hparse := h hdrop hstop hdepth (Nat.lt_succ_self n)
  have hrun := hparse.symm.trans (h' hdrop hstop hdepth (Nat.lt_succ_self n))
  have hitems := (Prod.mk.inj (Except.ok.inj hrun)).1
  rwa [shift_zero, shift_zero] at hitems

section Starts

variable {β : Type*} {text : β → Bytes}

theorem drop_startOf {blank w : Bytes} {l : List β} {i p : ℕ} (hi : i < l.length)
    (h : s.drop p = listText text blank l ++ w) :
    ∃ u, s.drop (startOf text p l i) = text l[i] ++ u := by
  induction l generalizing i p with
  | nil => exact absurd hi (Nat.not_lt_zero i)
  | cons b l ih =>
    rw [listText, append_assoc] at h
    cases i with
    | zero => exact ⟨_, h⟩
    | succ i =>
      have hi' : i < l.length := Nat.lt_of_succ_lt_succ hi
      cases l with
      | nil => exact absurd hi' (Nat.not_lt_zero i)
      | cons b' l =>
        have hnext : s.drop (p + (text b).length + 1) = listText text blank (b' :: l) ++ w := by
          rw [← drop_drop, drop_add h]
          rfl
        exact ih hi' hnext

end Starts

/-- **An item reads as the value `v`** that stands at an offset of a text: its type and its extent,
and for arrays and objects, written as their entries with blanks around them, the size, the items of
all entries, which read as the entries, and no item for any other index. -/
inductive Reads (limit : ℕ) (text : Bytes) : ℕ → Bytes → Item → Prop
  | scalar {off : ℕ} {v : Bytes} {item : Item} (hv : shortRfc.IsScalar v)
      (hitem : Covers off v item) : Reads limit text off v item
  | string {off : ℕ} {s : Bytes} {item : Item} (hs : IsRfcChars s)
      (hitem : Covers off (quoted s) item) : Reads limit text off (quoted s) item
  | array {off : ℕ} {blank : Bytes} {l : List Element} {item : Item} {items : List Item}
      (hblank : shortRfc.Blank blank) (hspaced : ∀ e ∈ l, e.Spaced shortRfc)
      (hvalue : ∀ e ∈ l, ∃ n, IsValue shortRfc n e.value)
      (hitem : Covers off (arrayText blank l) item) (hsize : item.size = l.length)
      (hlength : items.length = l.length)
      (hget : ∀ (i : ℕ) (hi : i < items.length), liteCjsonArrayItem limit text item i = .ok items[i])
      (hout : ∀ index : ℤ, index < 0 ∨ l.length ≤ index →
        liteCjsonArrayItem limit text item index = .error .error)
      (hreads : ∀ (i : ℕ) (hi : i < l.length) (hi' : i < items.length),
        Reads limit text (startOf Element.text (off + 1) l i + l[i].pre.length) l[i].value items[i]) :
      Reads limit text off (arrayText blank l) item
  | object {off : ℕ} {blank : Bytes} {l : List Member} {item : Item}
      {items : List (Item × Item)} (hblank : shortRfc.Blank blank)
      (hspaced : ∀ m ∈ l, m.Spaced shortRfc) (hvalue : ∀ m ∈ l, ∃ n, IsValue shortRfc n m.value)
      (hitem : Covers off (objectText blank l) item)
      (hsize : item.size = l.length) (hlength : items.length = l.length)
      (hget : ∀ (i : ℕ) (hi : i < items.length),
        liteCjsonObjectItemByIndex limit text item i = .ok items[i])
      (hout : ∀ index : ℤ, index < 0 ∨ l.length ≤ index →
        liteCjsonObjectItemByIndex limit text item index = .error .error)
      (hkey : ∀ (i : ℕ) (hi : i < l.length) (hi' : i < items.length),
        Covers (startOf Member.text (off + 1) l i + l[i].pre.length) (quoted l[i].name) items[i].1)
      (hreads : ∀ (i : ℕ) (hi : i < l.length) (hi' : i < items.length),
        Reads limit text (startOf Member.text (off + 1) l i + valueStart l[i]) l[i].value items[i].2) :
      Reads limit text off (objectText blank l) item

theorem bytes_of_drop {text w : Bytes} {off : ℕ} (h : text.drop off = v ++ w) (item : Item)
    (hvalue : item.value = off) (hlen : item.valueLength = v.length) : item.bytes text = v := by
  rw [Item.bytes, hvalue, hlen, h, take_left]

section Access

variable {n limit : ℕ} {blank text w : Bytes} {off : ℕ}

/-- An index out of range is refused. -/
theorem liteCjsonArrayItem_error {lite : Item} {index : ℤ}
    (h : lite.type ≠ .cjsonArray ∨ index < 0 ∨ lite.size ≤ index) :
    liteCjsonArrayItem limit text lite index = .error .error := if_pos h

theorem liteCjsonObjectItemByIndex_error {lite : Item} {index : ℤ}
    (h : lite.type ≠ .cjsonObject ∨ lite.size = 0 ∨ index < 0 ∨ lite.size ≤ index) :
    liteCjsonObjectItemByIndex limit text lite index = .error .error := if_pos h

/-- The elements of an array are read at their places. -/
theorem exists_elements (hn : n < limit) (hblank : lenient.Blank blank) {l : List Element}
    (hl : ReadableElements n l) (h : text.drop off = arrayText blank l ++ w) :
    ∃ items : List Item, ReadAll (ElementAt n) Element.text (off + 1) l items ∧
      ∀ (i : ℕ) (hi : i < items.length), liteCjsonArrayItem limit text
        ⟨.cjsonArray, off, (arrayText blank l).length, l.length⟩ i = .ok items[i] := by
  have hbytes := bytes_of_drop h ⟨.cjsonArray, off, (arrayText blank l).length, l.length⟩ rfl rfl
  have hdepth : n + 0 ≤ limit := hn.le
  have hbrackets : (32 : UInt8) < 0x5d ∧ (0x5d : UInt8) ≠ 0x2c := by decide
  have hinner : (arrayText blank l).drop 1 = listText Element.text blank l ++ 0x5d :: [] := rfl
  obtain ⟨as, hall, hfind⟩ := findEntry_eq hbrackets hblank
    (fun e he => opensWith_element (hl e he).1 (hl e he).2.1)
    (parseElement_skip (parseTop limit (arrayText blank l)))
    (fun e he => readsEntry_element hdepth (Nat.lt_succ_of_lt hn) rfl (hl e he).1 (hl e he).2.1
      (hl e he).2.2) hinner
  refine ⟨as.map (·.shift off), ?_, fun i hi => ?_⟩
  · apply hall.map
    rintro q e item ⟨base, hparses, rfl⟩
    exact ⟨base, hparses, by rw [shift_shift, add_assoc]⟩
  · rw [length_map] at hi
    have hlt : i < l.length := hall.length_eq ▸ hi
    have hwanted := firstWanted_index 0 i as
    rw [zero_add, List.getElem?_eq_getElem hi] at hwanted
    have hin : ¬(ItemType.cjsonArray ≠ .cjsonArray ∨ (i : ℤ) < 0 ∨ (l.length : ℤ) ≤ i) := by
      rintro (hne | hneg | hge)
      · exact hne rfl
      · omega
      · omega
    rw [liteCjsonArrayItem, if_neg hin]
    simp only [hbytes]
    rw [hfind, hwanted, getElem_map]
    rfl

/-- The members of an object are read at their places. -/
theorem exists_members (hn : n < limit) (hblank : lenient.Blank blank) {l : List Member}
    (hl : ReadableMembers n l) (h : text.drop off = objectText blank l ++ w) :
    ∃ items : List (Item × Item), ReadAll (MemberAt n) Member.text (off + 1) l items ∧
      ∀ (i : ℕ) (hi : i < items.length), liteCjsonObjectItemByIndex limit text
        ⟨.cjsonObject, off, (objectText blank l).length, l.length⟩ i = .ok items[i] := by
  have hbytes := bytes_of_drop h ⟨.cjsonObject, off, (objectText blank l).length, l.length⟩ rfl rfl
  have hdepth : n + 0 ≤ limit := hn.le
  have hbrackets : (32 : UInt8) < 0x7d ∧ (0x7d : UInt8) ≠ 0x2c := by decide
  have hinner : (objectText blank l).drop 1 = listText Member.text blank l ++ 0x7d :: [] := rfl
  obtain ⟨as, hall, hfind⟩ := findEntry_eq hbrackets hblank
    (fun m hm => opensWith_member (hl m hm).1) (parseMember_skip (parseTop limit (objectText blank l)))
    (fun m hm => readsEntry_member hdepth (Nat.lt_succ_of_lt hn) rfl (hl m hm).1 (hl m hm).2.1
      (hl m hm).2.2) hinner
  refine ⟨as.map fun kv => (kv.1.shift off, kv.2.shift off), ?_, fun i hi => ?_⟩
  · apply hall.map
    rintro q m ⟨key, value⟩ ⟨rfl, base, hparses, rfl⟩
    refine ⟨?_, base, hparses, ?_⟩
    · unfold Item.shift
      simp only [add_assoc]
    · show (base.shift (q + valueStart m)).shift off = _
      rw [shift_shift, add_assoc]
  · rw [length_map] at hi
    have hlt : i < l.length := hall.length_eq ▸ hi
    have hwanted := firstWanted_index 0 i as
    rw [zero_add, List.getElem?_eq_getElem hi] at hwanted
    have hin : ¬(ItemType.cjsonObject ≠ .cjsonObject ∨ l.length = 0 ∨ (i : ℤ) < 0 ∨
        (l.length : ℤ) ≤ i) := by
      rintro (hne | hzero | hneg | hge)
      · exact hne rfl
      · omega
      · omega
      · omega
    have hopen : (objectText blank l)[0]? = some 0x7b := rfl
    rw [liteCjsonObjectItemByIndex, if_neg hin, findMember]
    simp only [hbytes]
    rw [if_neg (not_not.mpr hopen), hfind, hwanted, getElem_map]
    rfl

end Access

/-- Every item of a text reads as the value that stands there. -/
theorem reads_of_isValue {n limit : ℕ} (hv : IsValue shortRfc n v) (hn : n ≤ limit) {base : Item}
    (hparses : Parses n v base) {text w : Bytes} {off : ℕ} (h : text.drop off = v ++ w) :
    Reads limit text off v (base.shift off) := by
  have hcovers : ∀ {n : ℕ} {v : Bytes} {base : Item} (off : ℕ), IsValue shortRfc n v →
      Parses n v base → Covers off v (base.shift off) := by
    intro n v base off hv hparses
    obtain ⟨item, hcovers, hparses'⟩ := exists_parses (hv.mono shortRfc_le_lenient)
    rw [parses_unique hparses hparses']
    refine ⟨hcovers.type, ?_⟩
    have hextent := hcovers.extent
    split_ifs at hextent ⊢
    · exact ⟨congrArg (off + ·) hextent.1, hextent.2⟩
    · exact ⟨congrArg (off + ·) hextent.1, hextent.2⟩
  induction hv generalizing base off w with
  | scalar hscalar => exact .scalar hscalar (hcovers off (.scalar hscalar) hparses)
  | string hchars => exact .string hchars (hcovers off (.string hchars) hparses)
  | @array n blank l hblank hspaced hvalue ih =>
    have hitem := hcovers off (.array hblank hspaced hvalue) hparses
    have hblank' := shortRfc_le_lenient.blanks hblank
    have hl : ReadableElements n l := by
      intro e he
      have hlenient := (hvalue e he).mono shortRfc_le_lenient
      obtain ⟨item, -, hparses⟩ := exists_parses hlenient
      exact ⟨(hspaced e he).mono shortRfc_le_lenient, starts_of_isValue hlenient, item, hparses⟩
    obtain rfl := parses_unique hparses (parses_array hblank' hl)
    obtain ⟨items, hall, hget⟩ := exists_elements (Nat.lt_of_succ_le hn) hblank' hl h
    refine .array hblank hspaced (fun e he => ⟨n, hvalue e he⟩) hitem rfl hall.length_eq hget
      (fun index hindex => ?_) fun i hi hi' => ?_
    · exact liteCjsonArrayItem_error (.inr hindex)
    · obtain ⟨base, hbase, heq⟩ := hall.get hi hi'
      have hinner : text.drop (off + 1) = listText Element.text blank l ++ 0x5d :: w := by
        rw [← drop_drop, h, arrayText, cons_append, append_assoc]
        rfl
      obtain ⟨u, hu⟩ := drop_startOf hi hinner
      rw [heq]
      apply ih l[i] (getElem_mem hi) (Nat.le_of_succ_le hn) hbase
      rw [Element.text, append_assoc] at hu
      rw [drop_add hu, append_assoc]
  | @object n blank l hblank hspaced hvalue ih =>
    have hitem := hcovers off (.object hblank hspaced hvalue) hparses
    have hblank' := shortRfc_le_lenient.blanks hblank
    have hl : ReadableMembers n l := by
      intro m hm
      have hlenient := (hvalue m hm).mono shortRfc_le_lenient
      obtain ⟨item, -, hparses⟩ := exists_parses hlenient
      exact ⟨(hspaced m hm).mono shortRfc_le_lenient, starts_of_isValue hlenient, item, hparses⟩
    obtain rfl := parses_unique hparses (parses_object hblank' hl)
    obtain ⟨items, hall, hget⟩ := exists_members (Nat.lt_of_succ_le hn) hblank' hl h
    refine .object hblank hspaced (fun m hm => ⟨n, hvalue m hm⟩) hitem rfl hall.length_eq hget
      (fun index hindex => ?_) (fun i hi hi' => ?_) fun i hi hi' => ?_
    · exact liteCjsonObjectItemByIndex_error (.inr (.inr hindex))
    · obtain ⟨heq, -⟩ := hall.get hi hi'
      rw [heq]
      exact ⟨rfl, rfl, (length_quoted _).symm⟩
    · obtain ⟨-, base, hbase, heq⟩ := hall.get hi hi'
      have hinner : text.drop (off + 1) = listText Member.text blank l ++ 0x7d :: w := by
        rw [← drop_drop, h, objectText, cons_append, append_assoc]
        rfl
      obtain ⟨u, hu⟩ := drop_startOf hi hinner
      rw [heq]
      apply ih l[i] (getElem_mem hi) (Nat.le_of_succ_le hn) hbase
      rw [Member.text, append_assoc, append_assoc, append_assoc,
        cons_append, append_assoc, append_assoc] at hu
      have hgap : text.drop (startOf Member.text (off + 1) l i + l[i].pre.length +
          (quoted l[i].name).length + l[i].mid.length + 1) =
          l[i].gap ++ (l[i].value ++ (l[i].post ++ u)) := by
        rw [← drop_drop, drop_add (drop_add (drop_add hu))]
        rfl
      have hstart : startOf Member.text (off + 1) l i + valueStart l[i] =
          startOf Member.text (off + 1) l i + l[i].pre.length +
            (quoted l[i].name).length + l[i].mid.length + 1 + l[i].gap.length := by
        rw [valueStart, length_quoted]
        omega
      rw [hstart, drop_add hgap]

/-- A text of the grammar does not begin with a byte order mark. -/
theorem not_utf8Bom {n : ℕ} {lead w : Bytes} (hlead : lenient.Blank lead)
    (hv : IsValue lenient n v) : ¬utf8Bom <+: lead ++ (v ++ w) := by
  intro hpre
  cases lead with
  | nil =>
    obtain ⟨d, t, rfl, -, -, hlt⟩ := starts_of_isValue hv
    rw [utf8Bom, nil_append, cons_append, cons_prefix_cons] at hpre
    rw [← hpre.1] at hlt
    exact absurd hlt (by decide)
  | cons c lead =>
    have hc : c ≤ 32 := hlead c mem_cons_self
    rw [utf8Bom, cons_append, cons_prefix_cons] at hpre
    rw [← hpre.1] at hc
    exact absurd hc (by decide)

/-- **lite-cjson reads every text exactly.**  A text of RFC 8259 that is nested below the limit and
whose numbers have at most 63 characters is parsed, and its item reads as its value, and so do all
items that are obtained from it.  There are no items in anything but arrays and objects. -/
theorem lite_cjson_reads (limit n : ℕ) (hn : n ≤ limit) (lead v tail : Bytes)
    (hlead : shortRfc.Blank lead) (hv : IsValue shortRfc n v) (htail : shortRfc.Blank tail) :
    let text := lead ++ (v ++ tail)
    (∃ item, liteCjsonParse limit text = .ok item ∧ Reads limit text lead.length v item) ∧
      ∀ (item : Item) (index : ℤ),
        (item.type ≠ .cjsonArray → liteCjsonArrayItem limit text item index = .error .error) ∧
        (item.type ≠ .cjsonObject →
          liteCjsonObjectItemByIndex limit text item index = .error .error) := by
  intro text
  have hlenient := hv.mono shortRfc_le_lenient
  have hblank := shortRfc_le_lenient.blanks hlead
  obtain ⟨item, -, hparses⟩ := exists_parses hlenient
  have hdrop : text.drop lead.length = v ++ tail := drop_left
  constructor
  · refine ⟨item.shift lead.length, ?_, reads_of_isValue hv hn hparses hdrop⟩
    obtain ⟨d, t, hd, hgt, -, -⟩ := starts_of_isValue hlenient
    have hhead : text.drop 0 = lead ++ d :: (t ++ tail) := by
      rw [drop_zero, ← cons_append, ← hd]
    have hstop : IsCNumber v → ∀ c ∈ tail.head?, ¬IsNumberChar c := by
      intro _ c hc
      apply not_isNumberChar_of_le
      exact shortRfc_le_lenient.blanks htail c (mem_of_mem_head? hc)
    have hne : text ≠ [] := by
      intro hnil
      rw [hnil, drop_nil] at hhead
      exact absurd hhead.symm (append_ne_nil_of_right_ne_nil _ (cons_ne_nil _ _))
    have hbom : skipUtf8Bom text = 0 := if_neg fun h => not_utf8Bom hblank hlenient h.2
    have hparse : parseTop limit text lead.length = .ok (item.shift lead.length, lead.length + v.length) :=
      hparses hdrop hstop hn (Nat.lt_succ_of_le hn)
    rw [liteCjsonParse, if_neg hne, hbom, bufferSkipWhitespace_eq hblank hgt hhead, zero_add,
      hparse]
    rfl
  · intro item index
    exact ⟨fun h => liteCjsonArrayItem_error (.inl h),
      fun h => liteCjsonObjectItemByIndex_error (.inl h)⟩

/-- The text ` [1]`. -/
theorem lite_cjson_reads_array :
    ∃ item, liteCjsonParse 1000 [0x20, 0x5b, 0x31, 0x5d] = .ok item ∧
      Reads 1000 [0x20, 0x5b, 0x31, 0x5d] 1 [0x5b, 0x31, 0x5d] item := by
  have hblank : shortRfc.Blank [] := fun c hc => absurd hc not_mem_nil
  have hspace : shortRfc.Blank [0x20] := forall_mem_singleton.mpr (.inl rfl)
  have hone : shortRfc.IsScalar [0x31] := .inl ⟨isNumber_one, by decide⟩
  have hvalue : IsValue shortRfc 1 (arrayText [] [⟨[], [0x31], []⟩]) :=
    .array hblank (forall_mem_singleton.mpr ⟨hblank, hblank⟩)
      (forall_mem_singleton.mpr (.scalar hone))
  exact (lite_cjson_reads 1000 1 (by decide) [0x20] _ [] hspace hvalue hblank).1

end Iotkit.Cjson
