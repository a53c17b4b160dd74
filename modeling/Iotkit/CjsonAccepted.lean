/-
# What lite-cjson accepts

Every success of `parse_value` (`infra_cjson.c`) on any bytes, and that the parser ends.  At the end
of the text `buffer_skip_whitespace` steps back by one byte, so that a bracket that has closed an
array or object is seen again.
-/
import Iotkit.CjsonRead

open JsonText

namespace Iotkit.Cjson

open List

/-! ## Numbers and strings -/

theorem digitsLen_cons_of_pos {c : UInt8} (hc : IsDigit c) (s : Bytes) :
    digitsLen (c :: s) = digitsLen s + 1 := by
  have hpos : decide (IsDigit c) = true := decide_eq_true hc
  rw [digitsLen, takeWhile_cons, if_pos hpos]
  rfl

theorem digitsLen_cons_of_neg {c : UInt8} (hc : ¬IsDigit c) (s : Bytes) :
    digitsLen (c :: s) = 0 := by
  have hneg : ¬decide (IsDigit c) = true := fun h => hc (of_decide_eq_true h)
  rw [digitsLen, takeWhile_cons, if_neg hneg]
  rfl

variable (s : Bytes)

theorem digitsLen_le : digitsLen s ≤ s.length :=
  (List.takeWhile_prefix _).length_le

theorem digitsLen_take {s : Bytes} {m : ℕ} (h : digitsLen s ≤ m) :
    digitsLen (s.take m) = digitsLen s := by
  induction s generalizing m with
  | nil => rw [take_nil]
  | cons c s ih =>
    by_cases hc : IsDigit c
    · rw [digitsLen_cons_of_pos hc] at h ⊢
      obtain ⟨m, rfl⟩ := Nat.exists_eq_add_of_le' (Nat.one_le_of_lt h)
      rw [take_succ_cons, digitsLen_cons_of_pos hc, ih (Nat.le_of_succ_le_succ h)]
    · rw [digitsLen_cons_of_neg hc]
      cases m with
      | zero => rfl
      | succ m => rw [take_succ_cons, digitsLen_cons_of_neg hc]

theorem head?_take {s : Bytes} {m : ℕ} (h : 0 < m) : (s.take m).head? = s.head? := by
  obtain ⟨m, rfl⟩ := Nat.exists_eq_add_of_le' h
  cases s <;> rfl

theorem tail_take (m : ℕ) : (s.take (m + 1)).tail = s.tail.take m := by
  cases s with
  | nil => rw [take_nil, tail_nil, take_nil]
  | cons c s => rfl

theorem signLen_take {s : Bytes} {m : ℕ} (h : 0 < m) : signLen (s.take m) = signLen s := by
  rw [signLen, signLen, head?_take h]

theorem fracLen_take {s : Bytes} {m : ℕ} (h : fracLen s ≤ m) :
    fracLen (s.take m) = fracLen s := by
  cases m with
  | zero => rw [Nat.le_zero.mp h, take_zero]; rfl
  | succ m =>
    unfold fracLen at h ⊢
    rw [head?_take (Nat.succ_pos m), tail_take]
    split_ifs at h ⊢ with hpoint
    · rw [digitsLen_take (by omega)]
    · rfl

theorem expLen_take : expLen (s.take (expLen s)) = expLen s := by
  by_cases hzero : expLen s = 0
  · rw [hzero]
    rfl
  obtain ⟨m, hm⟩ := Nat.exists_eq_succ_of_ne_zero hzero
  have hexp := hm
  rw [hm, expLen, head?_take (Nat.succ_pos m), tail_take]
  unfold expLen at hexp
  split_ifs at hexp ⊢ with hhead
  · simp only at hexp ⊢
    split_ifs at hexp with hdigits
    have hsign : signLen (s.tail.take m) = signLen s.tail := signLen_take (by omega)
    have hrest : digitsLen ((s.tail.take m).drop (signLen s.tail)) =
        digitsLen (s.tail.drop (signLen s.tail)) := by
      rw [drop_take]
      exact digitsLen_take (by omega)
    rw [hsign, hrest, if_neg hdigits]
    exact hexp

/-- The parts of what `strtod` takes. -/
structure StrtodParts (s : Bytes) (sign int frac exp : ℕ) : Prop where
  signLen : signLen s = sign
  intLen : digitsLen (s.drop sign) = int
  fracLen : fracLen (s.drop (sign + int)) = frac
  expLen : expLen (s.drop (sign + int + frac)) = exp
  digits : int + (frac - 1) ≠ 0

theorem StrtodParts.eq {s : Bytes} {sign int frac exp : ℕ}
    (h : StrtodParts s sign int frac exp) : strtod s = sign + int + frac + exp := by
  rw [strtod]
  simp only [h.signLen, h.intLen, h.fracLen, h.expLen]
  exact if_neg h.digits

theorem exists_strtodParts {s : Bytes} (h : strtod s ≠ 0) :
    ∃ sign int frac exp, StrtodParts s sign int frac exp := by
  refine ⟨_, _, _, _, rfl, rfl, rfl, rfl, fun hdigits => h ?_⟩
  rw [strtod]
  exact if_pos hdigits

theorem strtod_take {s : Bytes} (h : strtod s ≠ 0) :
    strtod (s.take (strtod s)) = strtod s := by
  obtain ⟨sign, int, frac, exp, hparts⟩ := exists_strtodParts h
  have heq := hparts.eq
  have htake : StrtodParts (s.take (strtod s)) sign int frac exp := by
    refine ⟨?_, ?_, ?_, ?_, hparts.digits⟩
    · rw [signLen_take (Nat.pos_of_ne_zero h), hparts.signLen]
    · have hle := hparts.intLen
      rw [drop_take, digitsLen_take (by omega), hle]
    · have hle := hparts.fracLen
      rw [drop_take, fracLen_take (by omega), hle]
    · have hrest : strtod s - (sign + int + frac) = exp := by omega
      rw [drop_take, hrest, ← hparts.expLen, expLen_take]
  rw [htake.eq, heq]

theorem signLen_le : signLen s ≤ s.length := by
  cases s with
  | nil => exact le_rfl
  | cons c s =>
    unfold signLen
    split_ifs
    · exact Nat.succ_le_succ (Nat.zero_le _)
    · exact Nat.zero_le _

theorem fracLen_le : fracLen s ≤ s.length := by
  cases s with
  | nil => exact le_rfl
  | cons c s =>
    have hle := digitsLen_le s
    unfold fracLen
    split_ifs
    · rw [tail_cons, length_cons]
      omega
    · exact Nat.zero_le _

theorem expLen_le : expLen s ≤ s.length := by
  cases s with
  | nil => exact le_rfl
  | cons c s =>
    have hsign : signLen (c :: s).tail ≤ s.length := signLen_le s
    have hle := digitsLen_le ((c :: s).tail.drop (signLen (c :: s).tail))
    have hlen : ((c :: s).tail.drop (signLen (c :: s).tail)).length =
        s.length - signLen (c :: s).tail := length_drop
    rw [length_cons]
    unfold expLen
    simp only
    split_ifs <;> omega

theorem strtod_le : strtod s ≤ s.length := by
  by_cases h : strtod s = 0
  · omega
  obtain ⟨sign, int, frac, exp, hparts⟩ := exists_strtodParts h
  have hsign := signLen_le s
  have hint := digitsLen_le (s.drop sign)
  have hfrac := fracLen_le (s.drop (sign + int))
  have hexp := expLen_le (s.drop (sign + int + frac))
  rw [hparts.signLen] at hsign
  rw [hparts.intLen, length_drop] at hint
  rw [hparts.fracLen, length_drop] at hfrac
  rw [hparts.expLen, length_drop] at hexp
  rw [hparts.eq]
  omega

section Scalars

variable {s : Bytes} {p q : ℕ} {item : Item}

theorem exists_of_inputEnd {s : Bytes} {n : ℕ} (h : inputEnd s = some n) :
    ∃ t w, s = t ++ 0x22 :: w ∧ IsCChars t ∧ t.length = n := by
  induction s using inputEnd.induct generalizing n with
  | case1 => cases h
  | case2 s =>
    rw [inputEnd.eq_def] at h
    obtain rfl := Option.some.inj (h.symm.trans (if_pos rfl))
    exact ⟨[], s, rfl, .nil, rfl⟩
  | case3 => cases h
  | case4 c s _ ih =>
    rw [inputEnd_escape] at h
    obtain ⟨m, hm, rfl⟩ := Option.map_eq_some_iff.mp h
    obtain ⟨t, w, rfl, ht, rfl⟩ := ih hm
    exact ⟨0x5c :: c :: t, w, rfl, .escape ht, rfl⟩
  | case5 c s hquote hslash ih =>
    rw [inputEnd_cons hquote hslash] at h
    obtain ⟨m, hm, rfl⟩ := Option.map_eq_some_iff.mp h
    obtain ⟨t, w, rfl, ht, rfl⟩ := ih hm
    exact ⟨c :: t, w, rfl, .plain hquote hslash ht, rfl⟩

theorem drop_of_getElem? {c : UInt8} (h : s[p]? = some c) : s.drop p = c :: s.drop (p + 1) := by
  obtain ⟨hlt, rfl⟩ := List.getElem?_eq_some_iff.mp h
  exact drop_eq_getElem_cons hlt

theorem getElem?_of_byteAt {c : UInt8} (h : byteAt s p = .ok c) : s[p]? = some c := by
  unfold byteAt at h
  cases hget : s[p]? with
  | none =>
    rw [hget] at h
    cases h
  | some d =>
    rw [hget] at h
    exact congrArg some (Except.ok.inj h)

theorem parseString_cases (h : parseString s p = .ok (item, q)) :
    ∃ t w, s.drop p = quoted t ++ w ∧ IsCChars t ∧
      item = ⟨.cjsonString, p + 1, t.length, 0⟩ ∧ q = p + (quoted t).length := by
  unfold parseString at h
  cases hbyte : byteAt s p with
  | error e =>
    rw [hbyte] at h
    cases h
  | ok c =>
    rw [hbyte] at h
    have hopen := drop_of_getElem? (getElem?_of_byteAt hbyte)
    simp only [bind, Except.bind] at h
    split_ifs at h with hquote
    cases hend : inputEnd (s.drop (p + 1)) with
    | none =>
      rw [hend] at h
      cases h
    | some n =>
      rw [hend] at h
      obtain ⟨t, w, hdrop, ht, rfl⟩ := exists_of_inputEnd hend
      obtain ⟨rfl, rfl⟩ := Prod.mk.inj (Except.ok.inj h)
      refine ⟨t, w, ?_, ht, rfl, ?_⟩
      · rw [hopen, not_not.mp hquote, hdrop, quoted, cons_append, append_assoc]
        rfl
      · rw [length_quoted]
        omega

theorem parseNumber_cases (hhead : s[p]? = some 0x2d ∨ s[p]?.any (decide <| IsDigit ·) = true)
    (h : parseNumber s p = .ok (item, q)) :
    ∃ v w, s.drop p = v ++ w ∧ IsCNumber v ∧ item = ⟨.cjsonNumber, p, v.length, 0⟩ ∧
      q = p + v.length := by
  unfold parseNumber at h
  simp only at h
  generalize hu : ((s.drop p).take 63).takeWhile (decide <| IsNumberChar ·) = u at h
  split_ifs at h with hzero
  obtain ⟨rfl, rfl⟩ := Prod.mk.inj (Except.ok.inj h)
  have hlen : (u.take (strtod u)).length = strtod u := by
    rw [length_take, Nat.min_eq_left (strtod_le u)]
  have hcopied : u <+: (s.drop p).take 63 := hu ▸ takeWhile_prefix _
  have hprefix : u.take (strtod u) <+: s.drop p :=
    (List.take_prefix _ _).trans (hcopied.trans (List.take_prefix _ _))
  have hshort : u.length ≤ 63 := by
    have hle := hcopied.length_le
    rw [length_take] at hle
    omega
  obtain ⟨w, hw⟩ := hprefix
  refine ⟨u.take (strtod u), w, hw.symm, ⟨?_, ?_, ?_, ?_⟩, by rw [hlen], by rw [hlen]⟩
  · cases hv : u.take (strtod u) with
    | nil =>
      rw [hv] at hlen
      exact absurd hlen.symm hzero
    | cons c t =>
      refine ⟨c, t, rfl, ?_⟩
      rw [hv, cons_append] at hw
      rw [getElem?_of_drop hw.symm] at hhead
      simpa using hhead
  · intro c hc
    have hmem : c ∈ ((s.drop p).take 63).takeWhile (decide <| IsNumberChar ·) :=
      hu ▸ mem_of_mem_take hc
    have hchar := mem_takeWhile_imp hmem
    exact of_decide_eq_true hchar
  · exact hlen.trans_le ((strtod_le u).trans hshort)
  · rw [strtod_take hzero, hlen]

end Scalars

/-! ## What is accepted -/

/-- A bracket that closes an array or object. -/
def IsClosing (c : UInt8) : Prop := c = 0x5d ∨ c = 0x7d

/-- A character before an element or a value. -/
def IsSeparator (c : UInt8) : Prop := c = 0x2c ∨ c = 0x3a ∨ c = 0x5b ∨ c = 0x7b

/-- A position behind a separator. -/
def Behind (s : Bytes) (p : ℕ) : Prop :=
  ∃ q x, p = q + 1 ∧ s[q]? = some x ∧ IsSeparator x

/-- What the parser takes from a position on: a value, or all of the text, where its last byte is
short of closing some more arrays or objects. -/
inductive Taken (n : ℕ) (s : Bytes) (p : ℕ) (item : Item) (q : ℕ) : Prop
  | whole {v w : Bytes} (hdrop : s.drop p = v ++ w) (hv : IsValue lenient n v)
      (hq : q = p + v.length) (hitem : Covers p v item)
  | short {k : ℕ} {c : UInt8} (hk : 0 < k) (hc : IsClosing c) (hlast : (s.drop p).getLast? = some c)
      (hv : IsValue lenient n (s.drop p ++ List.replicate k c)) (hq : q = s.length)
      (hvalue : item.value = p) (hlength : item.valueLength = (s.drop p).length)

/-- The same of an entry and the character that is found behind it. -/
inductive EntryTaken {β : Type*} (text : β → Bytes) (s : Bytes) (p r : ℕ) (d : UInt8)
    (b : β) : Prop
  | whole {u : Bytes} (hdrop : s.drop p = text b ++ d :: u) (hr : r = p + (text b).length)
  | short {k : ℕ} (hd : IsClosing d) (hlast : (s.drop p).getLast? = some d)
      (htext : s.drop p ++ List.replicate k d = text b) (hr : r + 1 = s.length)

theorem isValue_const {n : ℕ} {v : Bytes} {x : UInt8} (hv : IsValue lenient n v)
    (hx : ∀ y ∈ v, y = x) : x = 0x22 ∨ x = 0x2d ∨ IsDigit x := by
  cases hv with
  | scalar h =>
    rcases h with rfl | rfl | rfl | h
    · have h1 := hx 0x6e (by decide)
      have h2 := hx 0x75 (by decide)
      exact absurd (h1.trans h2.symm) (by decide)
    · have h1 := hx 0x66 (by decide)
      have h2 := hx 0x61 (by decide)
      exact absurd (h1.trans h2.symm) (by decide)
    · have h1 := hx 0x74 (by decide)
      have h2 := hx 0x72 (by decide)
      exact absurd (h1.trans h2.symm) (by decide)
    · obtain ⟨c, t, rfl, hc⟩ := h.head
      exact .inr (hx c mem_cons_self ▸ hc)
  | string _ => exact .inl (hx 0x22 mem_cons_self).symm
  | array _ _ _ =>
    have h1 := hx 0x5b mem_cons_self
    have h2 := hx 0x5d (mem_cons_of_mem _ (mem_append_right _ mem_cons_self))
    exact absurd (h1.trans h2.symm) (by decide)
  | object _ _ _ =>
    have h1 := hx 0x7b mem_cons_self
    have h2 := hx 0x7d (mem_cons_of_mem _ (mem_append_right _ mem_cons_self))
    exact absurd (h1.trans h2.symm) (by decide)

theorem last_of_isValue {n : ℕ} {v : Bytes} (hv : IsValue lenient n v) :
    ∃ d, v.getLast? = some d ∧ d ≠ 0x2c ∧ 32 < d := by
  have hconcat : ∀ (c d : UInt8) (t : Bytes), (c :: (t ++ [d])).getLast? = some d := by
    intro c d t
    rw [← cons_append]
    exact List.getLast?_concat
  cases hv with
  | scalar h =>
    rcases h with rfl | rfl | rfl | h
    · exact ⟨0x6c, rfl, by decide⟩
    · exact ⟨0x65, rfl, by decide⟩
    · exact ⟨0x65, rfl, by decide⟩
    obtain ⟨c, t, rfl, -⟩ := h.head
    have hsome : (c :: t).getLast? = some ((c :: t).getLast (cons_ne_nil c t)) :=
      List.getLast?_eq_getLast_of_ne_nil _
    have hchar := h.chars _ (getLast_mem (cons_ne_nil c t))
    refine ⟨_, hsome, fun hcomma => ?_,
      UInt8.not_le.mp fun hle => not_isNumberChar_of_le hle hchar⟩
    rw [hcomma] at hchar
    exact absurd hchar (by decide)
  | string _ => exact ⟨0x22, hconcat _ _ _, by decide⟩
  | array _ _ _ => exact ⟨0x5d, hconcat _ _ _, by decide⟩
  | object _ _ _ => exact ⟨0x7d, hconcat _ _ _, by decide⟩

section Accepted

variable {n : ℕ} {s : Bytes} {p q r : ℕ} {item : Item}

theorem Behind.le (h : Behind s p) : 0 < p ∧ p ≤ s.length := by
  obtain ⟨q, x, rfl, hget, -⟩ := h
  exact ⟨Nat.succ_pos q, (List.getElem?_eq_some_iff.mp hget).1⟩

theorem Taken.ne_nil (h : Taken n s p item q) : s.drop p ≠ [] := by
  intro hnil
  cases h with
  | whole hdrop hv _ _ =>
    obtain ⟨d, t, rfl, -⟩ := starts_of_isValue hv
    rw [hnil] at hdrop
    cases hdrop
  | short _ _ hlast _ _ _ _ =>
    rw [hnil] at hlast
    cases hlast

theorem Taken.le (h : Taken n s p item q) : p < q ∧ q ≤ s.length := by
  have hne := h.ne_nil
  have hlt : p < s.length := by
    by_contra hle
    exact hne (drop_eq_nil_of_le (not_lt.mp hle))
  cases h with
  | whole hdrop hv hq _ =>
    obtain ⟨d, t, rfl, -⟩ := starts_of_isValue hv
    have hlen := congrArg List.length hdrop
    rw [length_drop, length_append] at hlen
    rw [length_cons] at hlen hq
    omega
  | short _ _ _ _ hq _ _ => omega

theorem not_taken_last (hp : p ≤ s.length) (hblank : ∀ d ∈ s.drop p, d ≤ 32)
    (hbehind : Behind s p) : ¬Taken n s (s.length - 1) item q := by
  intro htaken
  have hpos : 0 < s.length := by
    by_contra hzero
    exact htaken.ne_nil (drop_eq_nil_of_le (by omega))
  obtain ⟨x, hx⟩ : ∃ x, s[s.length - 1]? = some x :=
    ⟨_, List.getElem?_eq_getElem (by omega)⟩
  have hdrop := drop_of_getElem? hx
  have hnil : s.drop (s.length - 1 + 1) = [] := drop_eq_nil_of_le (by omega)
  rw [hnil] at hdrop
  -- the last byte is a blank, or the separator
  have hlast : x ≤ 32 ∨ IsSeparator x := by
    by_cases hend : p = s.length
    · obtain ⟨i, y, hi, hget, hy⟩ := hbehind
      have hidx : s.length - 1 = i := by omega
      rw [hidx, hget] at hx
      exact .inr (Option.some.inj hx ▸ hy)
    refine .inl (hblank x ?_)
    have hget : (s.drop p)[s.length - 1 - p]? = some x := by
      rw [List.getElem?_drop, ← hx]
      congr 1
      omega
    exact mem_of_getElem? hget
  have hno : ¬(x = 0x22 ∨ x = 0x2d ∨ IsDigit x) := by
    rcases hlast with hle | rfl | rfl | rfl | rfl
    · rintro (rfl | rfl | ⟨hlow, -⟩)
      · exact absurd hle (by decide)
      · exact absurd hle (by decide)
      · have h48 : (48 : UInt8) ≤ 32 := UInt8.le_trans hlow hle
        exact absurd h48 (by decide)
    all_goals decide
  cases htaken with
  | @whole v w hcons hv _ _ =>
    apply hno
    apply isValue_const hv
    intro y hy
    have hmem : y ∈ s.drop (s.length - 1) := hcons ▸ mem_append_left w hy
    rw [hdrop] at hmem
    exact mem_singleton.mp hmem
  | @short k c _ _ hc hv _ _ _ =>
    apply hno
    apply isValue_const hv
    rw [hdrop] at hc
    obtain rfl : x = c := Option.some.inj hc
    intro y hy
    rw [hdrop] at hy
    rcases mem_append.mp hy with hy | hy
    · exact mem_singleton.mp hy
    · exact (mem_replicate.mp hy).2

/-- What is skipped behind a value: blanks before a character, or nothing at the end, where the last
byte of the value is met again. -/
theorem skip_cases {d : UInt8} (hq : q ≤ s.length) (hr : r = bufferSkipWhitespace s q)
    (hd : s[r]? = some d) (hgt : 32 < d) :
    (∃ u w, (∀ x ∈ u, x ≤ 32) ∧ s.drop q = u ++ d :: w ∧ r = q + u.length) ∨
      q = s.length ∧ r + 1 = s.length := by
  have hlt := (List.getElem?_eq_some_iff.mp hd).1
  rcases exists_blanks s q with hblank | ⟨u, c, w, hu, hc, hdrop⟩
  · rw [bufferSkipWhitespace_end hq hblank] at hr
    by_cases hend : q = s.length
    · exact Or.inr ⟨hend, by omega⟩
    · have hget : (s.drop q)[r - q]? = some d := by
        rw [List.getElem?_drop, ← hd]
        congr 1
        omega
      exact absurd (hblank d (mem_of_getElem? hget)) (UInt8.not_le.mpr hgt)
  · rw [bufferSkipWhitespace_eq hu hc hdrop] at hr
    have hget := getElem?_of_drop (drop_add hdrop)
    rw [← hr, hd] at hget
    obtain rfl := Option.some.inj hget
    exact .inl ⟨u, w, hu, hdrop, hr⟩

theorem getLast?_of_drop {c : UInt8} (h : s[s.length - 1]? = some c) (hp : p < s.length) :
    (s.drop p).getLast? = some c := by
  rw [List.getLast?_eq_getElem?, List.getElem?_drop, length_drop, ← h]
  congr 1
  omega

variable {value : ℕ → Except Stop (Item × ℕ)}

/-- An element that is read: a value with blanks around it, or one that the end of the text is
short of. -/
theorem parseElement_cases
    (hvalue : ∀ p item q, value p = .ok (item, q) → Taken n s p item q) (hbehind : Behind s p)
    (h : parseElement value s p = .ok (item, r)) {d : UInt8} (hd : s[r]? = some d)
    (hends : EndsEntry d) :
    ∃ e : Element, e.Spaced lenient ∧ IsValue lenient n e.value ∧
      EntryTaken Element.text s p r d e := by
  unfold parseElement at h
  cases hrun : value (bufferSkipWhitespace s p) with
  | error e =>
    rw [hrun] at h
    cases h
  | ok found =>
    obtain ⟨item', q⟩ := found
    rw [hrun] at h
    obtain ⟨-, hr⟩ := Prod.mk.inj (Except.ok.inj h)
    have htaken := hvalue _ _ _ hrun
    have hlt := (List.getElem?_eq_some_iff.mp hd).1
    rcases exists_blanks s p with hblank | ⟨u, c, w, hu, hc, hdrop⟩
    · rw [bufferSkipWhitespace_end hbehind.le.2 hblank] at htaken
      exact absurd htaken (not_taken_last hbehind.le.2 hblank hbehind)
    rw [bufferSkipWhitespace_eq hu hc hdrop] at htaken
    have hrest : s.drop (p + u.length) = c :: w := drop_add hdrop
    have hplt : p < s.length := Nat.lt_of_le_of_lt (Nat.le_add_right p _) (lt_of_drop hrest)
    have hnil : lenient.Blank [] := forall_mem_nil _
    rcases skip_cases htaken.le.2 hr.symm hd hends.gt.1 with
      ⟨post, w', hpost, hafter, hr'⟩ | ⟨hq, hr'⟩
    · cases htaken with
      | @whole v w'' hv hvalue' hq _ =>
        refine ⟨⟨u, v, post⟩, ⟨hu, hpost⟩, hvalue', .whole (u := w') ?_ ?_⟩
        · rw [hq, drop_add hv] at hafter
          rw [hdrop, ← hrest, hv, hafter, Element.text]
          simp only [append_assoc]
        · rw [hr', hq, Element.text]
          simp only [length_append]
          omega
      | short _ _ _ _ hq _ _ =>
        rw [hq, drop_eq_nil_of_le le_rfl] at hafter
        exact absurd hafter.symm (append_ne_nil_of_right_ne_nil _ (cons_ne_nil _ _))
    · have hlast : (s.drop p).getLast? = some d := by
        refine getLast?_of_drop ?_ hplt
        rw [← hd]
        congr 1
        omega
      have hlast' : (s.drop (p + u.length)).getLast? = some d := by
        refine getLast?_of_drop ?_ (lt_of_drop hrest)
        rw [← hd]
        congr 1
        omega
      cases htaken with
      | @whole v w'' hv hvalue' hq' _ =>
        have hw : w'' = [] := by
          have hnext := drop_add hv
          rwa [← hq', hq, drop_eq_nil_of_le le_rfl, eq_comm] at hnext
        rw [hw, append_nil] at hv
        have hclosing : IsClosing d := by
          obtain ⟨d', hd', hne, -⟩ := last_of_isValue hvalue'
          rw [← hv, hlast'] at hd'
          obtain rfl := Option.some.inj hd'
          exact hends.resolve_left hne
        refine ⟨⟨u, v, []⟩, ⟨hu, hnil⟩, hvalue', .short (k := 0) hclosing hlast ?_ hr'⟩
        rw [hdrop, ← hrest, hv, Element.text]
        simp only [replicate_zero, append_nil]
      | @short k c' hk hc' hlast'' hvalue' _ _ _ =>
        obtain rfl : d = c' := Option.some.inj (hlast'.symm.trans hlast'')
        refine ⟨⟨u, _, []⟩, ⟨hu, hnil⟩, hvalue', .short (k := k) hc' hlast ?_ hr'⟩
        rw [hdrop, ← hrest, Element.text]
        simp only [append_assoc, append_nil]

/-- A member that is read: its name and colon are complete. -/
theorem parseMember_cases {items : Item × Item}
    (hvalue : ∀ p item q, value p = .ok (item, q) → Taken n s p item q) (hp : p ≤ s.length)
    (h : parseMember value s p = .ok (items, r)) {d : UInt8} (hd : s[r]? = some d)
    (hends : EndsEntry d) :
    ∃ m : Member, m.Spaced lenient ∧ IsValue lenient n m.value ∧
      EntryTaken Member.text s p r d m := by
  unfold parseMember at h
  cases hkey : parseString s (bufferSkipWhitespace s p) with
  | error e =>
    rw [hkey] at h
    cases h
  | ok found =>
    obtain ⟨key, q⟩ := found
    rw [hkey] at h
    simp only [bind, Except.bind] at h
    split_ifs at h with hcolon
    rw [not_not] at hcolon
    cases helement : parseElement value s (bufferSkipWhitespace s q + 1) with
    | error e =>
      rw [helement] at h
      cases h
    | ok found =>
      obtain ⟨item, r'⟩ := found
      rw [helement] at h
      obtain ⟨-, rfl⟩ := Prod.mk.inj (Except.ok.inj h)
      obtain ⟨name, w, hname, hchars, -, hq⟩ := parseString_cases hkey
      have hlen := congrArg List.length hname
      rw [length_drop, length_append, length_quoted] at hlen
      rcases exists_blanks s p with hblank | ⟨u, c, w', hu, hc, hdrop⟩
      · rw [bufferSkipWhitespace_end hp hblank] at hlen
        omega
      have hskip := bufferSkipWhitespace_eq hu hc hdrop
      have hopen : s.drop (p + u.length) = quoted name ++ w := hskip ▸ hname
      have hquote : s.drop p = u ++ (quoted name ++ w) := by
        rw [hdrop, ← hopen, drop_add hdrop]
      rw [hskip] at hq hlen
      have hqle : q ≤ s.length := by
        rw [hq, length_quoted]
        omega
      rcases skip_cases hqle rfl hcolon (by decide) with
        ⟨mid, w'', hmid, hafter, hr⟩ | ⟨hend, hr⟩
      · have hw : w = mid ++ 0x3a :: w'' := by
          rw [← hafter, hq, drop_add hopen]
        have hbehind : Behind s (bufferSkipWhitespace s q + 1) :=
          ⟨_, 0x3a, rfl, hcolon, .inr (.inl rfl)⟩
        obtain ⟨e, hspaced, hvalue', htaken⟩ :=
          parseElement_cases hvalue hbehind helement hd hends
        have hnext : s.drop (bufferSkipWhitespace s q + 1) = w'' := by
          rw [← drop_drop, hr, drop_add hafter]
          rfl
        have hpos : bufferSkipWhitespace s q + 1 =
            p + u.length + (quoted name).length + mid.length + 1 := by
          rw [hr, hq]
        have hplt : p < s.length := by omega
        refine ⟨⟨u, name, mid, e.pre, e.value, e.post⟩,
          ⟨hu, hchars, hmid, hspaced.pre, hspaced.post⟩, hvalue', ?_⟩
        have htext : Member.text ⟨u, name, mid, e.pre, e.value, e.post⟩ =
            u ++ (quoted name ++ (mid ++ 0x3a :: e.text)) := rfl
        cases htaken with
        | @whole t hwhole hr' =>
          refine .whole (u := t) ?_ ?_
          · rw [hquote, hw, ← hnext, hwhole, htext]
            simp only [append_assoc, cons_append]
          · rw [hr', hpos, htext]
            simp only [length_append, length_cons]
            omega
        | @short k hclosing _ hshort hr' =>
          have hlast : (s.drop p).getLast? = some d := by
            refine getLast?_of_drop ?_ hplt
            rw [← hd]
            congr 1
            omega
          refine .short (k := k) hclosing hlast ?_ hr'
          rw [hquote, hw, ← hnext, htext, ← hshort]
          simp only [append_assoc, cons_append]
      · -- the last byte is the quote of the name
        have hw : w = [] := by
          rw [← drop_add hopen, ← hq, hend]
          exact drop_eq_nil_of_le le_rfl
        have hquote' : (s.drop (p + u.length)).getLast? = some 0x22 := by
          rw [hopen, hw, append_nil, quoted, ← cons_append]
          exact List.getLast?_concat
        have hcolon' : (s.drop (p + u.length)).getLast? = some 0x3a := by
          refine getLast?_of_drop ?_ (by omega)
          rw [← hcolon]
          congr 1
          omega
        rw [hquote'] at hcolon'
        cases hcolon'

variable {α : Type} {β : Type*} {text : β → Bytes} {entry : ℕ → Except Stop (α × ℕ)}
  {Good : β → Prop}

/-- What an entry that is read stands for. -/
def EntryCases (entry : ℕ → Except Stop (α × ℕ)) (text : β → Bytes) (Good : β → Prop)
    (s : Bytes) : Prop :=
  ∀ p a r d, Behind s p → entry p = .ok (a, r) → s[r]? = some d → EndsEntry d →
    ∃ b, Good b ∧ EntryTaken text s p r d b

/-- The entries of arrays. -/
def GoodElement (n : ℕ) (e : Element) : Prop := e.Spaced lenient ∧ IsValue lenient n e.value

/-- The entries of objects. -/
def GoodMember (n : ℕ) (m : Member) : Prop := m.Spaced lenient ∧ IsValue lenient n m.value

theorem parseElement_entryCases
    (hvalue : ∀ p item q, value p = .ok (item, q) → Taken n s p item q) :
    EntryCases (parseElement value s) Element.text (GoodElement n) s := by
  intro p a r d hbehind hrun hd hends
  obtain ⟨e, hspaced, hv, htaken⟩ := parseElement_cases hvalue hbehind hrun hd hends
  exact ⟨e, ⟨hspaced, hv⟩, htaken⟩

theorem parseMember_entryCases
    (hvalue : ∀ p item q, value p = .ok (item, q) → Taken n s p item q) :
    EntryCases (parseMember value s) Member.text (GoodMember n) s := by
  intro p a r d hbehind hrun hd hends
  obtain ⟨m, hspaced, hv, htaken⟩ := parseMember_cases hvalue hbehind.le.2 hrun hd hends
  exact ⟨m, ⟨hspaced, hv⟩, htaken⟩

/-- The entries that the loop reads; the last one may be short. -/
theorem entryLoop_cases (hentry : EntryCases entry text Good s) {closing : UInt8}
    (hclosing : IsClosing closing) {rounds last : ℕ} {as : List α} (hbehind : Behind s p)
    (h : entryLoop entry s rounds p = .ok (as, last)) (hlast : s[last]? = some closing) :
    ∃ (b : β) (l : List β), (∀ b' ∈ b :: l, Good b') ∧ as.length = l.length + 1 ∧
      ((∃ w, s.drop p = text b ++ (commaTail text l ++ closing :: w) ∧
          last = p + (text b ++ commaTail text l).length) ∨
        last + 1 = s.length ∧ (s.drop p).getLast? = some closing ∧
          ∃ k, s.drop p ++ List.replicate k closing = text b ++ commaTail text l) := by
  induction rounds generalizing p as with
  | zero => cases h
  | succ rounds ih =>
    obtain ⟨_, a, r, hrounds, hrun, ⟨hcomma, as', rfl, hrest⟩ | ⟨-, rfl, rfl⟩⟩ :=
      entryLoop_eq_ok h
    · obtain rfl := Nat.succ.inj hrounds
      obtain ⟨b, hgood, htaken⟩ := hentry p a r 0x2c hbehind hrun hcomma (.inl rfl)
      have hnext : Behind s (r + 1) := ⟨r, 0x2c, rfl, hcomma, .inl rfl⟩
      obtain ⟨b', l, hl, hlength, hcases⟩ := ih hnext hrest
      refine ⟨b, b' :: l, forall_mem_cons.mpr ⟨hgood, hl⟩, ?_, ?_⟩
      · rw [length_cons, hlength, length_cons]
      · cases htaken with
        | @whole u hdrop hr =>
          have hu : s.drop (r + 1) = u := by
            rw [← drop_drop, hr, drop_add hdrop]
            rfl
          rw [commaTail_cons]
          rcases hcases with ⟨w, hw, heq⟩ | ⟨heq, hlast', k, hk⟩
          · refine .inl ⟨w, ?_, ?_⟩
            · rw [hdrop, ← hu, hw]
              simp only [append_assoc, cons_append]
            · rw [heq, hr]
              simp only [length_append, length_cons]
              omega
          · refine .inr ⟨heq, ?_, k, ?_⟩
            · rw [hdrop, ← hu, List.getLast?_append, List.getLast?_cons, hlast']
              rfl
            · rw [hdrop, ← hu, append_assoc, cons_append, hk]
        | short hcommaClosing _ _ _ =>
          rcases hcommaClosing with hne | hne
          · exact absurd hne (by decide)
          · exact absurd hne (by decide)
    · obtain ⟨b, hgood, htaken⟩ := hentry p a last closing hbehind hrun hlast (.inr hclosing)
      refine ⟨b, [], forall_mem_singleton.mpr hgood, rfl, ?_⟩
      simp only [commaTail_nil, append_nil, nil_append]
      cases htaken with
      | @whole u hdrop hr => exact .inl ⟨u, hdrop, hr⟩
      | @short k _ hlast' hk hr => exact .inr ⟨hr, hlast', k, hk⟩

/-- What an array or object that is read stands for; there may be brackets missing. -/
theorem parseEntries_cases (hentry : EntryCases entry text Good s)
    (hskip : ∀ p, entry (bufferSkipWhitespace s p) = entry p) {opening closing : UInt8}
    (hopening : IsSeparator opening ∧ opening ≠ closing) (hclosing : IsClosing closing)
    {type : ItemType} (hopen : s[p]? = some opening)
    (h : parseEntries closing type entry s p = .ok (item, q)) :
    item.type = type ∧ item.value = p ∧ ∃ (blank : Bytes) (l : List β),
      lenient.Blank blank ∧ (∀ b ∈ l, Good b) ∧ item.size = l.length ∧
      ((∃ w, s.drop p = opening :: (listText text blank l ++ [closing]) ++ w ∧
          q = p + item.valueLength ∧
          item.valueLength = (opening :: (listText text blank l ++ [closing])).length) ∨
        q = s.length ∧ item.valueLength = (s.drop p).length ∧
          (s.drop p).getLast? = some closing ∧ ∃ k, 0 < k ∧
            s.drop p ++ List.replicate k closing =
              opening :: (listText text blank l ++ [closing])) := by
  have hdrop := drop_of_getElem? hopen
  have hle : p + 1 ≤ s.length := (List.getElem?_eq_some_iff.mp hopen).1
  have hgt : 32 < closing := by rcases hclosing with rfl | rfl <;> decide
  have hbehind : Behind s (p + 1) := ⟨p, opening, rfl, hopen, hopening.1⟩
  unfold parseEntries at h
  simp only at h
  split_ifs at h with hempty hend
  · obtain ⟨rfl, rfl⟩ := Prod.mk.inj (Except.ok.inj h)
    refine ⟨rfl, rfl, ?_⟩
    rcases skip_cases hle rfl hempty hgt with ⟨u, w, hu, hafter, hr⟩ | ⟨hend, hr⟩
    · refine ⟨u, [], hu, forall_mem_nil _, rfl, .inl ⟨w, ?_, ?_, ?_⟩⟩
      · rw [hdrop, hafter, listText, cons_append, append_assoc]
        rfl
      · simp only
        omega
      · rw [listText, length_cons, length_append, hr]
        simp only [length_cons, length_nil]
        omega
    · -- the bracket that opens is the last byte
      have hsame : bufferSkipWhitespace s (p + 1) = p := by omega
      rw [hsame, hopen] at hempty
      exact absurd (Option.some.inj hempty) hopening.2
  · cases hloop : entryLoop entry s (s.length + 1) (bufferSkipWhitespace s (p + 1)) with
    | error e =>
      rw [hloop] at h
      cases h
    | ok found =>
      obtain ⟨as, last⟩ := found
      rw [hloop] at h
      simp only [bind, Except.bind] at h
      split_ifs at h with hlast
      rw [not_not] at hlast
      obtain ⟨rfl, rfl⟩ := Prod.mk.inj (Except.ok.inj h)
      rw [entryLoop_first hskip] at hloop
      obtain ⟨b, l, hgood, hlength, hcases⟩ :=
        entryLoop_cases hentry hclosing hbehind hloop hlast
      have hnil : lenient.Blank [] := forall_mem_nil _
      refine ⟨rfl, rfl, [], b :: l, hnil, hgood, hlength, ?_⟩
      rcases hcases with ⟨w, hw, heq⟩ | ⟨heq, hlast', k, hk⟩
      · refine .inl ⟨w, ?_, ?_, ?_⟩
        · rw [hdrop, hw, listText]
          simp only [append_assoc, cons_append, nil_append]
        · simp only
          omega
        · rw [listText, length_cons, length_append, heq]
          simp only [length_cons, length_nil]
          omega
      · refine .inr ⟨heq, ?_, ?_, k + 1, Nat.succ_pos k, ?_⟩
        · rw [length_drop]
          simp only
          omega
        · rw [hdrop, List.getLast?_cons, hlast']
          rfl
        · rw [hdrop, replicate_succ', cons_append, ← append_assoc, hk, listText]

end Accepted

section Value

variable {limit : ℕ} {s : Bytes} {p q : ℕ} {item : Item}

/-- **What is accepted**: every success stands for a value, or for the rest of the text with some
more closing brackets like its last byte. -/
theorem parseValue_taken {rounds depth : ℕ}
    (h : parseValue limit s rounds depth p = .ok (item, q)) :
    Taken (limit - depth) s p item q := by
  induction rounds generalizing depth p item q with
  | zero => cases h
  | succ rounds ih =>
    have hword : ∀ {v : Bytes}, v <+: s.drop p → ∃ w, s.drop p = v ++ w := by
      rintro v ⟨w, hw⟩
      exact ⟨w, hw.symm⟩
    have htaken : ∀ p item q, parseValue limit s rounds (depth + 1) p = .ok (item, q) →
        Taken (limit - (depth + 1)) s p item q := fun _ _ _ hrun => ih hrun
    rw [parseValue] at h
    split_ifs at h with hnull hfalse htrue hquote hdigit harray hobject
    · obtain ⟨rfl, rfl⟩ := Prod.mk.inj (Except.ok.inj h)
      obtain ⟨w, hw⟩ := hword hnull
      exact .whole hw (.scalar (.inl rfl)) rfl ⟨rfl, rfl, rfl⟩
    · obtain ⟨rfl, rfl⟩ := Prod.mk.inj (Except.ok.inj h)
      obtain ⟨w, hw⟩ := hword hfalse
      exact .whole hw (.scalar (.inr (.inl rfl))) rfl ⟨rfl, rfl, rfl⟩
    · obtain ⟨rfl, rfl⟩ := Prod.mk.inj (Except.ok.inj h)
      obtain ⟨w, hw⟩ := hword htrue
      exact .whole hw (.scalar (.inr (.inr (.inl rfl)))) rfl ⟨rfl, rfl, rfl⟩
    · obtain ⟨t, w, hw, ht, rfl, hq⟩ := parseString_cases h
      exact .whole hw (.string ht) hq ⟨rfl, rfl, (length_quoted t).symm⟩
    · obtain ⟨v, w, hw, hv, rfl, hq⟩ := parseNumber_cases hdigit h
      refine .whole hw (.scalar (.inr (.inr (.inr hv)))) hq ⟨(typeOf_number hv).symm, ?_⟩
      rw [typeOf_number hv]
      exact ⟨rfl, rfl⟩
    · unfold parseArray at h
      split_ifs at h with hdepth
      have hn : limit - depth = limit - (depth + 1) + 1 := by omega
      rw [byteAt_of_drop (drop_of_getElem? harray)] at h
      have hentries : parseEntries 0x5d .cjsonArray
          (parseElement (parseValue limit s rounds (depth + 1)) s) s p = .ok (item, q) := h
      have hentry := parseElement_entryCases htaken
      have hopening : IsSeparator 0x5b ∧ (0x5b : UInt8) ≠ 0x5d :=
        ⟨.inr (.inr (.inl rfl)), by decide⟩
      obtain ⟨htype, hvalue, blank, l, hblank, hl, -, hcases⟩ :=
        parseEntries_cases hentry (parseElement_skip _) hopening (.inl rfl) harray hentries
      have hv : IsValue lenient (limit - depth) (arrayText blank l) :=
        hn ▸ .array hblank (fun e he => (hl e he).1) fun e he => (hl e he).2
      rcases hcases with ⟨w, hw, hq, hlen⟩ | ⟨hq, hlen, hlast, k, hk, heq⟩
      · exact .whole hw hv (hlen ▸ hq) ⟨htype, hvalue, hlen⟩
      · exact .short hk (.inl rfl) hlast (heq ▸ hv) hq hvalue hlen
    · unfold parseObject at h
      split_ifs at h with hdepth
      have hn : limit - depth = limit - (depth + 1) + 1 := by omega
      have hentry := parseMember_entryCases htaken
      have hopening : IsSeparator 0x7b ∧ (0x7b : UInt8) ≠ 0x7d :=
        ⟨.inr (.inr (.inr rfl)), by decide⟩
      obtain ⟨htype, hvalue, blank, l, hblank, hl, -, hcases⟩ :=
        parseEntries_cases hentry (parseMember_skip _) hopening (.inr rfl) hobject h
      have hv : IsValue lenient (limit - depth) (objectText blank l) :=
        hn ▸ .object hblank (fun m hm => (hl m hm).1) fun m hm => (hl m hm).2
      rcases hcases with ⟨w, hw, hq, hlen⟩ | ⟨hq, hlen, hlast, k, hk, heq⟩
      · exact .whole hw hv (hlen ▸ hq) ⟨htype, hvalue, hlen⟩
      · exact .short hk (.inr rfl) hlast (heq ▸ hv) hq hvalue hlen

end Value

/-! ## The parser ends, and stays inside of the text -/

/-- A result, or the return value `-1`. -/
def Regular {α : Type*} (r : Except Stop α) : Prop := ∀ e, r = .error e → e = .error

theorem regular_ok {α : Type*} (a : α) : Regular (.ok a) := by
  intro e h
  cases h

theorem regular_error {α : Type*} : Regular (.error .error : Except Stop α) := by
  intro e h
  cases h
  rfl

theorem Regular.bind {α β : Type} {r : Except Stop α} {f : α → Except Stop β} (hr : Regular r)
    (hf : ∀ a, r = .ok a → Regular (f a)) : Regular (r >>= f) := by
  cases r with
  | error e =>
    obtain rfl := hr e rfl
    exact regular_error
  | ok a => exact hf a rfl

theorem Regular.ite {α : Type*} {c : Prop} [Decidable c] {r r' : Except Stop α}
    (h : c → Regular r) (h' : ¬c → Regular r') : Regular (if c then r else r') := by
  split_ifs with hc
  · exact h hc
  · exact h' hc

section Ends

variable {s : Bytes} {p : ℕ}

theorem bufferSkipWhitespace_lt (hs : s ≠ []) (hp : p ≤ s.length) :
    bufferSkipWhitespace s p < s.length := by
  have hpos := length_pos_of_ne_nil hs
  rcases exists_blanks s p with hblank | ⟨u, c, w, hu, hc, hdrop⟩
  · rw [bufferSkipWhitespace_end hp hblank]
    omega
  · rw [bufferSkipWhitespace_eq hu hc hdrop]
    exact lt_of_drop (drop_add hdrop)

theorem parseString_regular (hp : p < s.length) : Regular (parseString s p) := by
  unfold parseString
  refine Regular.bind ?_ fun c _ => Regular.ite (fun _ => regular_error) fun _ => ?_
  · unfold byteAt
    rw [List.getElem?_eq_getElem hp]
    exact regular_ok _
  · cases inputEnd (s.drop (p + 1)) with
    | none => exact regular_error
    | some n => exact regular_ok _

theorem parseNumber_regular : Regular (parseNumber s p) :=
  Regular.ite (fun _ => regular_error) fun _ => regular_ok _

variable {value : ℕ → Except Stop (Item × ℕ)}
  (hvalue : ∀ p, p < s.length → Regular (value p))

include hvalue

theorem parseElement_regular (hs : s ≠ []) (hp : p ≤ s.length) :
    Regular (parseElement value s p) :=
  Regular.bind (hvalue _ (bufferSkipWhitespace_lt hs hp)) fun _ _ => regular_ok _

theorem parseMember_regular (hs : s ≠ []) (hp : p ≤ s.length) :
    Regular (parseMember value s p) := by
  have hstring := parseString_regular (bufferSkipWhitespace_lt hs hp)
  refine Regular.bind hstring fun found _ => Regular.ite (fun _ => regular_error) fun hcolon => ?_
  have hle : bufferSkipWhitespace s found.2 + 1 ≤ s.length :=
    (List.getElem?_eq_some_iff.mp (not_not.mp hcolon)).1
  exact Regular.bind (parseElement_regular hvalue hs hle) fun _ _ => regular_ok _

omit hvalue

variable {α : Type} {β : Type*} {text : β → Bytes} {entry : ℕ → Except Stop (α × ℕ)}
  {Good : β → Prop}

theorem entryLoop_regular (hregular : ∀ p, p ≤ s.length → Regular (entry p))
    (hentry : EntryCases entry text Good s) {rounds : ℕ} (hbehind : Behind s p)
    (hrounds : s.length < p + rounds) : Regular (entryLoop entry s rounds p) := by
  induction rounds generalizing p with
  | zero =>
    have hle := hbehind.le.2
    omega
  | succ rounds ih =>
    refine Regular.bind (hregular p hbehind.le.2) fun found hrun => ?_
    obtain ⟨a, r⟩ := found
    refine Regular.ite (fun hcomma => ?_) fun _ => regular_ok _
    obtain ⟨b, -, htaken⟩ := hentry p a r 0x2c hbehind hrun hcomma (.inl rfl)
    have hle : p ≤ r := by
      cases htaken with
      | whole _ hr => omega
      | short hclosing _ _ _ =>
        rcases hclosing with hne | hne
        · exact absurd hne (by decide)
        · exact absurd hne (by decide)
    have hnext : Behind s (r + 1) := ⟨r, 0x2c, rfl, hcomma, .inl rfl⟩
    exact Regular.bind (ih hnext (by omega)) fun _ _ => regular_ok _

theorem parseEntries_regular (hregular : ∀ p, p ≤ s.length → Regular (entry p))
    (hentry : EntryCases entry text Good s)
    (hskip : ∀ p, entry (bufferSkipWhitespace s p) = entry p) {opening : UInt8}
    (hopening : IsSeparator opening) (hopen : s[p]? = some opening) (closing : UInt8)
    (type : ItemType) : Regular (parseEntries closing type entry s p) := by
  have hbehind : Behind s (p + 1) := ⟨p, opening, rfl, hopen, hopening⟩
  refine Regular.ite (fun _ => regular_ok _) fun _ => Regular.ite (fun _ => regular_error) fun _ =>
    Regular.bind ?_ fun _ _ => Regular.ite (fun _ => regular_error) fun _ => regular_ok _
  rw [entryLoop_first hskip]
  exact entryLoop_regular hregular hentry hbehind (by omega)

end Ends

/-- **The parser ends** before it has called itself more often than the limit allows, and it never
reads a byte outside of the text. -/
theorem parseValue_regular {limit : ℕ} {s : Bytes} {p rounds depth : ℕ} (hp : p < s.length)
    (hrounds : limit < depth + rounds) (hpos : 0 < rounds) :
    Regular (parseValue limit s rounds depth p) := by
  induction rounds generalizing depth p with
  | zero => exact absurd hpos (Nat.lt_irrefl 0)
  | succ rounds ih =>
    have hs : s ≠ [] := ne_nil_of_length_pos (Nat.zero_lt_of_lt hp)
    rw [parseValue]
    refine Regular.ite (fun _ => regular_ok _) fun _ => Regular.ite (fun _ => regular_ok _)
      fun _ => Regular.ite (fun _ => regular_ok _) fun _ => Regular.ite
      (fun _ => parseString_regular hp) fun _ => Regular.ite (fun _ => parseNumber_regular)
      fun _ => Regular.ite (fun harray => ?_) fun _ => Regular.ite (fun hobject => ?_)
      fun _ => regular_error
    · refine Regular.ite (fun _ => regular_error) fun hdepth => ?_
      rw [byteAt_of_drop (drop_of_getElem? harray)]
      have hvalue : ∀ p, p < s.length → Regular (parseValue limit s rounds (depth + 1) p) :=
        fun p hp => ih hp (by omega) (by omega)
      exact parseEntries_regular (fun p hp => parseElement_regular hvalue hs hp)
        (parseElement_entryCases fun _ _ _ hrun => parseValue_taken hrun) (parseElement_skip _)
        (.inr (.inr (.inl rfl))) harray 0x5d .cjsonArray
    · refine Regular.ite (fun _ => regular_error) fun hdepth =>
        Regular.ite (fun _ => regular_error) fun _ => ?_
      have hvalue : ∀ p, p < s.length → Regular (parseValue limit s rounds (depth + 1) p) :=
        fun p hp => ih hp (by omega) (by omega)
      exact parseEntries_regular (fun p hp => parseMember_regular hvalue hs hp)
        (parseMember_entryCases fun _ _ _ hrun => parseValue_taken hrun) (parseMember_skip _)
        (.inr (.inr (.inr rfl))) hobject 0x7d .cjsonObject

end Iotkit.Cjson
