/-
# Texts of JSON values

The grammar of RFC 8259 on bytes.  A dialect says which bytes are blank, which texts are numbers or
words, and what may stand between quotes; arrays and objects are the same in all of them.  The
number of a value is a bound on how deep its arrays and objects are nested.
-/
import Mathlib

namespace JsonText

open List

/-! ## Dialects and values -/

/-- What a dialect leaves open. -/
structure Grammar where
  IsBlank : UInt8 → Prop
  IsScalar : List UInt8 → Prop
  IsChars : List UInt8 → Prop

variable (s : List UInt8)

/-- A text of blanks. -/
def Grammar.Blank (g : Grammar) (s : List UInt8) : Prop := ∀ c ∈ s, g.IsBlank c

structure Element where
  pre : List UInt8
  value : List UInt8
  post : List UInt8
  deriving DecidableEq

/-- A name and its value, and the blanks around them. -/
structure Member where
  pre : List UInt8
  name : List UInt8
  mid : List UInt8
  gap : List UInt8
  value : List UInt8
  post : List UInt8
  deriving DecidableEq

def quoted : List UInt8 := 0x22 :: (s ++ [0x22])

def Element.text (e : Element) : List UInt8 := e.pre ++ (e.value ++ e.post)

def Member.text (m : Member) : List UInt8 :=
  m.pre ++ (quoted m.name ++ (m.mid ++ 0x3a :: (m.gap ++ (m.value ++ m.post))))

/-- A comma and an entry, for each of the entries. -/
def commaTail {α : Type*} (text : α → List UInt8) (l : List α) : List UInt8 :=
  l.flatMap fun a => 0x2c :: text a

/-- Entries with commas between them, or the blanks between two brackets. -/
def listText {α : Type*} (text : α → List UInt8) (blank : List UInt8) : List α → List UInt8
  | [] => blank
  | a :: l => text a ++ commaTail text l

def arrayText (blank : List UInt8) (l : List Element) : List UInt8 :=
  0x5b :: (listText Element.text blank l ++ [0x5d])

def objectText (blank : List UInt8) (l : List Member) : List UInt8 :=
  0x7b :: (listText Member.text blank l ++ [0x7d])

structure Element.Spaced (g : Grammar) (e : Element) : Prop where
  pre : g.Blank e.pre
  post : g.Blank e.post

structure Member.Spaced (g : Grammar) (m : Member) : Prop where
  pre : g.Blank m.pre
  name : g.IsChars m.name
  mid : g.Blank m.mid
  gap : g.Blank m.gap
  post : g.Blank m.post

/-- The values whose arrays and objects are nested at most so deep. -/
inductive IsValue (g : Grammar) : ℕ → List UInt8 → Prop
  | scalar {n : ℕ} {s : List UInt8} (h : g.IsScalar s) : IsValue g n s
  | string {n : ℕ} {s : List UInt8} (h : g.IsChars s) : IsValue g n (quoted s)
  | array {n : ℕ} {blank : List UInt8} {l : List Element} (hblank : g.Blank blank)
      (hspaced : ∀ e ∈ l, e.Spaced g) (hvalue : ∀ e ∈ l, IsValue g n e.value) :
      IsValue g (n + 1) (arrayText blank l)
  | object {n : ℕ} {blank : List UInt8} {l : List Member} (hblank : g.Blank blank)
      (hspaced : ∀ m ∈ l, m.Spaced g) (hvalue : ∀ m ∈ l, IsValue g n m.value) :
      IsValue g (n + 1) (objectText blank l)

/-- A dialect is contained in another one. -/
structure Grammar.Le (g g' : Grammar) : Prop where
  blank : ∀ c, g.IsBlank c → g'.IsBlank c
  scalar : ∀ s, g.IsScalar s → g'.IsScalar s
  chars : ∀ s, g.IsChars s → g'.IsChars s

variable {g g' : Grammar}

/-- Blanks of a grammar are blanks of a wider one. -/
theorem Grammar.Le.blanks (h : g.Le g') {s : List UInt8} (hs : g.Blank s) : g'.Blank s :=
  fun c hc => h.blank c (hs c hc)

/-- Elements of a grammar are elements of a wider one. -/
theorem Element.Spaced.mono (h : g.Le g') {e : Element} (he : e.Spaced g) : e.Spaced g' :=
  ⟨h.blanks he.pre, h.blanks he.post⟩

/-- Members of a grammar are members of a wider one. -/
theorem Member.Spaced.mono (h : g.Le g') {m : Member} (hm : m.Spaced g) : m.Spaced g' :=
  ⟨h.blanks hm.pre, h.chars _ hm.name, h.blanks hm.mid, h.blanks hm.gap, h.blanks hm.post⟩

/-- Values of a grammar are values of a wider one. -/
theorem IsValue.mono (h : g.Le g') {n : ℕ} {s : List UInt8} (hs : IsValue g n s) :
    IsValue g' n s := by
  induction hs with
  | scalar hscalar => exact .scalar (h.scalar _ hscalar)
  | string hchars => exact .string (h.chars _ hchars)
  | array hblank hspaced _ ih =>
    exact .array (h.blanks hblank) (fun e he => (hspaced e he).mono h) ih
  | object hblank hspaced _ ih =>
    exact .object (h.blanks hblank) (fun m hm => (hspaced m hm).mono h) ih

/-! ## Entries -/

section Entries

variable {α : Type*} {text : α → List UInt8}

@[simp] theorem commaTail_nil : commaTail text [] = [] := rfl

@[simp] theorem commaTail_cons (a : α) (l : List α) :
    commaTail text (a :: l) = 0x2c :: (text a ++ commaTail text l) := rfl

/-- The tail of two lists, one behind the other. -/
theorem commaTail_append (l₁ l₂ : List α) :
    commaTail text (l₁ ++ l₂) = commaTail text l₁ ++ commaTail text l₂ := flatMap_append

/-- A property of texts that is kept when texts are put together, and holds of the comma, is one of
entries. -/
theorem listText_of_append {P : List UInt8 → Prop} (happend : ∀ s t, P s → P t → P (s ++ t))
    (hnil : P []) (hcomma : P [0x2c]) {blank : List UInt8} (hblank : P blank) {l : List α}
    (hl : ∀ a ∈ l, P (text a)) : P (listText text blank l) := by
  have htail : ∀ l : List α, (∀ a ∈ l, P (text a)) → P (commaTail text l) := by
    intro l hl
    induction l with
    | nil => exact hnil
    | cons a l ih =>
      rw [commaTail_cons, ← singleton_append]
      have ha := hl a mem_cons_self
      have hrest := ih fun b hb => hl b (mem_cons_of_mem a hb)
      exact happend _ _ hcomma (happend _ _ ha hrest)
  cases l with
  | nil => exact hblank
  | cons a l =>
    have ha := hl a mem_cons_self
    exact happend _ _ ha (htail l fun b hb => hl b (mem_cons_of_mem a hb))

end Entries

/-- The quotes take two bytes. -/
@[simp] theorem length_quoted : (quoted s).length = s.length + 2 := by
  rw [quoted, length_cons, length_append]
  rfl

/-! ## RFC 8259 -/

variable (c : UInt8)

/-- Space, tab, line feed and carriage return. -/
def IsSpace : Prop := c = 0x20 ∨ c = 0x09 ∨ c = 0x0a ∨ c = 0x0d

instance (c : UInt8) : Decidable (IsSpace c) := inferInstanceAs (Decidable (_ ∨ _))

def IsDigit : Prop := 48 ≤ c ∧ c ≤ 57

instance (c : UInt8) : Decidable (IsDigit c) := inferInstanceAs (Decidable (_ ∧ _))

def IsDigits : Prop := s ≠ [] ∧ ∀ c ∈ s, IsDigit c

/-- `[ minus ] int`, where only the number zero begins with the digit `0`. -/
def IsInt : Prop :=
  ∃ digits, IsDigits digits ∧ (digits.head? = some 48 → digits = [48]) ∧
    (s = digits ∨ s = 0x2d :: digits)

/-- `[ frac ]` -/
def IsFrac : Prop := s = [] ∨ ∃ digits, IsDigits digits ∧ s = 0x2e :: digits

/-- `[ exp ]` -/
def IsExp : Prop :=
  s = [] ∨ ∃ e sign digits, (e = 0x65 ∨ e = 0x45) ∧ (sign = [] ∨ sign = [0x2b] ∨ sign = [0x2d]) ∧
    IsDigits digits ∧ s = e :: (sign ++ digits)

/-- `number` -/
def IsNumber : Prop :=
  ∃ int frac exp, IsInt int ∧ IsFrac frac ∧ IsExp exp ∧ s = int ++ (frac ++ exp)

def nullText : List UInt8 := [0x6e, 0x75, 0x6c, 0x6c]
def trueText : List UInt8 := [0x74, 0x72, 0x75, 0x65]
def falseText : List UInt8 := [0x66, 0x61, 0x6c, 0x73, 0x65]

def IsHex : Prop := IsDigit c ∨ 65 ≤ c ∧ c ≤ 70 ∨ 97 ≤ c ∧ c ≤ 102

/-- `char`s: unescaped ones, of any encoding, and escapes. -/
inductive IsRfcChars : List UInt8 → Prop
  | nil : IsRfcChars []
  | unescaped {c : UInt8} {s : List UInt8} (hc : 0x20 ≤ c) (hquote : c ≠ 0x22) (hslash : c ≠ 0x5c)
      (hs : IsRfcChars s) : IsRfcChars (c :: s)
  | escape {c : UInt8} {s : List UInt8}
      (hc : c ∈ [0x22, 0x5c, 0x2f, 0x62, 0x66, 0x6e, 0x72, (0x74 : UInt8)]) (hs : IsRfcChars s) :
      IsRfcChars (0x5c :: c :: s)
  | unicode {a b c d : UInt8} {s : List UInt8} (ha : IsHex a) (hb : IsHex b) (hc : IsHex c)
      (hd : IsHex d) (hs : IsRfcChars s) : IsRfcChars (0x5c :: 0x75 :: a :: b :: c :: d :: s)

/-! ## Escapes -/

def hexValue : ℕ :=
  if IsDigit c then c.toNat - 48 else if c ≤ 70 then c.toNat - 55 else c.toNat - 87

/-- The bytes of a character. -/
def utf8 (u : ℕ) : List UInt8 :=
  if u < 0x80 then [UInt8.ofNat u]
  else if u < 0x800 then [UInt8.ofNat (0xc0 + u / 64), UInt8.ofNat (0x80 + u % 64)]
  else if u < 0x10000 then
    [UInt8.ofNat (0xe0 + u / 4096), UInt8.ofNat (0x80 + u / 64 % 64), UInt8.ofNat (0x80 + u % 64)]
  else
    [UInt8.ofNat (0xf0 + u / 262144), UInt8.ofNat (0x80 + u / 4096 % 64),
      UInt8.ofNat (0x80 + u / 64 % 64), UInt8.ofNat (0x80 + u % 64)]

/-- The character behind a backslash. -/
def escaped : UInt8 :=
  if c = 0x62 then 0x08
  else if c = 0x66 then 0x0c
  else if c = 0x6e then 0x0a
  else if c = 0x72 then 0x0d
  else if c = 0x74 then 0x09
  else c

/-- The first half of a pair of surrogates, if there is one, on its own. -/
def lone (high : ℕ) : List UInt8 := if high = 0 then [] else utf8 high

def unescapeFrom : ℕ → List UInt8 → List UInt8
  | high, [] => lone high
  | high, [c] => lone high ++ [c]
  | high, c :: e :: s =>
    if c ≠ 0x5c then lone high ++ c :: unescapeFrom 0 (e :: s)
    else if e ≠ 0x75 then lone high ++ escaped e :: unescapeFrom 0 s
    else
      match s with
      | h₁ :: h₂ :: h₃ :: h₄ :: s =>
        let u := 4096 * hexValue h₁ + 256 * hexValue h₂ + 16 * hexValue h₃ + hexValue h₄
        if 0xd800 ≤ u ∧ u < 0xdc00 then lone high ++ unescapeFrom u s
        else if high ≠ 0 ∧ 0xdc00 ≤ u ∧ u < 0xe000 then
          utf8 (0x10000 + 1024 * (high - 0xd800) + (u - 0xdc00)) ++ unescapeFrom 0 s
        else lone high ++ (utf8 u ++ unescapeFrom 0 s)
      | _ => lone high

/-- What the characters between two quotes stand for. -/
def unescape : List UInt8 := unescapeFrom 0 s

/-- A character takes four bytes at most. -/
theorem length_utf8_le (u : ℕ) : (utf8 u).length ≤ 4 := by
  unfold utf8
  split_ifs <;> simp

/-- A lone surrogate takes four bytes at most. -/
theorem length_lone_le (high : ℕ) : (lone high).length ≤ 4 := by
  unfold lone
  split_ifs
  · exact Nat.zero_le 4
  · exact length_utf8_le high

/-- A character that is no backslash stands for itself. -/
theorem unescapeFrom_cons (high : ℕ) {c : UInt8} (hc : c ≠ 0x5c) (s : List UInt8) :
    unescapeFrom high (c :: s) = lone high ++ c :: unescapeFrom 0 s := by
  cases s with
  | nil => rfl
  | cons e s =>
    conv_lhs => rw [unescapeFrom.eq_def]
    exact if_pos hc

/-- An escape of two characters. -/
theorem unescapeFrom_escape (high : ℕ) {c : UInt8} (hc : c ≠ 0x75) (s : List UInt8) :
    unescapeFrom high (0x5c :: c :: s) = lone high ++ escaped c :: unescapeFrom 0 s := by
  rw [unescapeFrom.eq_def]
  simp only
  rw [if_neg (not_not.mpr rfl), if_pos hc]

variable {s : List UInt8}

/-- Unescaping makes no text longer, and one with an escape shorter. -/
theorem length_unescapeFrom (hs : IsRfcChars s) (high : ℕ) :
    (unescapeFrom high s).length ≤ (lone high).length + s.length ∧
      (0x5c ∈ s → (unescapeFrom high s).length < (lone high).length + s.length) := by
  have hzero : (lone 0).length = 0 := rfl
  induction hs generalizing high with
  | nil => exact ⟨le_rfl, fun hmem => absurd hmem not_mem_nil⟩
  | @unescaped c s _ _ hslash _ ih =>
    obtain ⟨hle, hlt⟩ := ih 0
    rw [unescapeFrom_cons high hslash, length_append, length_cons, length_cons]
    refine ⟨by omega, fun hmem => ?_⟩
    have hrest := hlt ((mem_cons.mp hmem).resolve_left (Ne.symm hslash))
    omega
  | @escape c s hc _ ih =>
    have hne : c ≠ 0x75 := by
      rintro rfl
      exact absurd hc (by decide)
    obtain ⟨hle, -⟩ := ih 0
    rw [unescapeFrom_escape high hne, length_append, length_cons, length_cons,
      length_cons]
    exact ⟨by omega, fun _ => by omega⟩
  | @unicode a b c d s _ _ _ _ _ ih =>
    obtain ⟨hle, -⟩ := ih 0
    have hhigh := (ih (4096 * hexValue a + 256 * hexValue b + 16 * hexValue c + hexValue d)).1
    have hlone := length_lone_le
      (4096 * hexValue a + 256 * hexValue b + 16 * hexValue c + hexValue d)
    have hutf8 := length_utf8_le
    suffices h : (unescapeFrom high (0x5c :: 0x75 :: a :: b :: c :: d :: s)).length <
        (lone high).length + (0x5c :: 0x75 :: a :: b :: c :: d :: s).length from
      ⟨h.le, fun _ => h⟩
    rw [unescapeFrom, if_neg (not_not.mpr rfl), if_neg (not_not.mpr rfl)]
    simp only [length_cons]
    split_ifs
    · rw [length_append]
      omega
    · rw [length_append]
      have hpair := hutf8 (0x10000 + 1024 * (high - 0xd800) +
        (4096 * hexValue a + 256 * hexValue b + 16 * hexValue c + hexValue d - 0xdc00))
      omega
    · rw [length_append, length_append]
      have hunit := hutf8 (4096 * hexValue a + 256 * hexValue b + 16 * hexValue c + hexValue d)
      omega

/-- A text with a backslash is changed. -/
theorem unescape_ne_self (hs : IsRfcChars s) (h : 0x5c ∈ s) : unescape s ≠ s := by
  intro heq
  have hlt := (length_unescapeFrom hs 0).2 h
  have hlen : (unescapeFrom 0 s).length = s.length := congrArg List.length heq
  have hzero : (lone 0).length = 0 := rfl
  omega

/-- A text without one is not. -/
theorem unescape_eq_self (h : 0x5c ∉ s) : unescape s = s := by
  induction s with
  | nil => rfl
  | cons c s ih =>
    rw [mem_cons, not_or] at h
    rw [unescape, unescapeFrom_cons 0 (Ne.symm h.1)]
    exact congrArg (c :: ·) (ih h.2)

/-- An escaped quote is left as a quote. -/
theorem quote_mem_unescapeFrom (hs : IsRfcChars s) (h : 0x22 ∈ s) (high : ℕ) :
    0x22 ∈ unescapeFrom high s := by
  have hhex : ∀ {c : UInt8}, IsHex c → (0x22 : UInt8) ≠ c := by
    rintro c hc rfl
    exact absurd hc (by unfold IsHex IsDigit; decide)
  induction hs generalizing high with
  | nil => exact absurd h not_mem_nil
  | @unescaped c s _ hquote hslash _ ih =>
    rw [unescapeFrom_cons high hslash]
    have hrest := ih ((mem_cons.mp h).resolve_left (Ne.symm hquote)) 0
    exact mem_append_right _ (mem_cons_of_mem c hrest)
  | @escape c s hc _ ih =>
    have hne : c ≠ 0x75 := by
      rintro rfl
      exact absurd hc (by decide)
    rw [unescapeFrom_escape high hne]
    apply mem_append_right
    rcases mem_cons.mp ((mem_cons.mp h).resolve_left (by decide)) with rfl | hmem
    · exact mem_cons_self
    · exact mem_cons_of_mem _ (ih hmem 0)
  | @unicode a b c d s ha hb hc hd _ ih =>
    have hmem : 0x22 ∈ s := by
      simp only [mem_cons] at h
      rcases h with h | h | h | h | h | h | h
      · exact absurd h (by decide)
      · exact absurd h (by decide)
      · exact absurd h (hhex ha)
      · exact absurd h (hhex hb)
      · exact absurd h (hhex hc)
      · exact absurd h (hhex hd)
      · exact h
    rw [unescapeFrom, if_neg (not_not.mpr rfl), if_neg (not_not.mpr rfl)]
    simp only
    split_ifs
    · exact mem_append_right _ (ih hmem _)
    · exact mem_append_right _ (ih hmem 0)
    · exact mem_append_right _ (mem_append_right _ (ih hmem 0))

/-- A quote comes with a backslash in front of it. -/
theorem IsRfcChars.slash_mem {s : List UInt8} (hs : IsRfcChars s) (h : 0x22 ∈ s) : 0x5c ∈ s := by
  cases hs with
  | nil => exact absurd h not_mem_nil
  | unescaped _ hquote _ hs =>
    have hmem := (mem_cons.mp h).resolve_left (Ne.symm hquote)
    exact mem_cons_of_mem _ (hs.slash_mem hmem)
  | escape _ _ => exact mem_cons_self
  | unicode _ _ _ _ _ => exact mem_cons_self

/-! ## Dialects -/

/-- RFC 8259. -/
def rfc : Grammar where
  IsBlank := IsSpace
  IsScalar s := IsNumber s ∨ s = trueText ∨ s = falseText ∨ s = nullText
  IsChars := IsRfcChars

/-- Without `null`, and with strings of any bytes but quotes, backslashes and zeros. -/
def plain : Grammar where
  IsBlank := IsSpace
  IsScalar s := IsNumber s ∨ s = trueText ∨ s = falseText
  IsChars s := ∀ c ∈ s, c ≠ 0x22 ∧ c ≠ 0x5c ∧ c ≠ 0

/-! ## Numbers -/

/-- The characters of a number. -/
def IsNumberChar : Prop :=
  IsDigit c ∨ c = 0x2e ∨ c = 0x2b ∨ c = 0x2d ∨ c = 0x65 ∨ c = 0x45

instance (c : UInt8) : Decidable (IsNumberChar c) := inferInstanceAs (Decidable (_ ∨ _))

/-- Digits are number characters. -/
theorem IsDigits.chars (h : IsDigits s) : ∀ c ∈ s, IsNumberChar c :=
  fun c hc => .inl (h.2 c hc)

/-- The characters of an integer. -/
theorem IsInt.chars (h : IsInt s) : ∀ c ∈ s, IsNumberChar c := by
  obtain ⟨digits, hdigits, -, rfl | rfl⟩ := h
  · exact hdigits.chars
  · rintro c (_ | ⟨_, hc⟩)
    · exact .inr (.inr (.inr (.inl rfl)))
    · exact hdigits.chars c hc

/-- The characters of a fraction. -/
theorem IsFrac.chars (h : IsFrac s) : ∀ c ∈ s, IsNumberChar c := by
  obtain rfl | ⟨digits, hdigits, rfl⟩ := h
  · exact fun c hc => absurd hc not_mem_nil
  · rintro c (_ | ⟨_, hc⟩)
    · exact .inr (.inl rfl)
    · exact hdigits.chars c hc

/-- The characters of an exponent. -/
theorem IsExp.chars (h : IsExp s) : ∀ c ∈ s, IsNumberChar c := by
  obtain rfl | ⟨e, sign, digits, he, hsign, hdigits, rfl⟩ := h
  · exact fun c hc => absurd hc not_mem_nil
  rintro c (_ | ⟨_, hc⟩)
  · exact .inr (.inr (.inr (.inr he)))
  · rcases mem_append.mp hc with hc | hc
    · rcases hsign with rfl | rfl | rfl
      · exact absurd hc not_mem_nil
      · exact .inr (.inr (.inl (mem_singleton.mp hc)))
      · exact .inr (.inr (.inr (.inl (mem_singleton.mp hc))))
    · exact hdigits.chars c hc

/-- The characters of a number. -/
theorem IsNumber.chars (h : IsNumber s) : ∀ c ∈ s, IsNumberChar c := by
  obtain ⟨int, frac, exp, hint, hfrac, hexp, rfl⟩ := h
  intro c hc
  rcases mem_append.mp hc with hc | hc
  · exact hint.chars c hc
  · rcases mem_append.mp hc with hc | hc
    · exact hfrac.chars c hc
    · exact hexp.chars c hc

/-- A number begins with a digit or a minus. -/
theorem IsNumber.exists_cons (h : IsNumber s) : ∃ c t, s = c :: t ∧ (c = 0x2d ∨ IsDigit c) := by
  obtain ⟨int, frac, exp, ⟨digits, hdigits, -, rfl | rfl⟩, -, -, rfl⟩ := h
  · obtain ⟨c, t, rfl⟩ := exists_cons_of_ne_nil hdigits.1
    exact ⟨c, _, rfl, .inr (hdigits.2 c mem_cons_self)⟩
  · exact ⟨0x2d, _, rfl, .inl rfl⟩

theorem isNumber_one : IsNumber [0x31] := by
  have hdigits : IsDigits [0x31] :=
    ⟨cons_ne_nil _ _, forall_mem_singleton.mpr (by decide)⟩
  exact ⟨[0x31], [], [], ⟨[0x31], hdigits, fun h => absurd h (by decide), .inl rfl⟩, .inl rfl,
    .inl rfl, rfl⟩

end JsonText
