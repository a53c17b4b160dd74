/-
# Paths to items

`lite_cjson_object_item` (`infra_cjson.c`) follows a key through nested objects and arrays.  The key
is cut at its points into segments, each of them a name, or a name with an index in brackets.
-/
import Iotkit.CjsonItems
import Iotkit.Levels

open JsonText LibC Levels

namespace Iotkit.Cjson

open List

/-! ## The lookup -/

/-- `deep`, `bracket_pre` and `bracket_suf`, the last two as offsets in the key. -/
structure Brackets where
  deep : ℕ
  pre : Option ℕ
  suf : Option ℕ

/-- The loop of `_lite_cjson_key_array_index` over what is left of the key, behind the character
`prev`.  There is no result where it returns. -/
def bracketLoop : Bytes → ℕ → UInt8 → Brackets → Option Brackets
  | [], _, _, b => some b
  | c :: key, index, prev, b =>
    if c = 0x5b then
      if b.deep ≠ 0 then none
      else bracketLoop key (index + 1) c ⟨b.deep + 1, b.pre.or (some index), b.suf⟩
    else if c = 0x5d then
      if b.deep ≠ 1 then none
      else if prev = 0x5b then none
      else bracketLoop key (index + 1) c ⟨b.deep - 1, b.pre, b.suf.or (some index)⟩
    else bracketLoop key (index + 1) c b

/-- What `atoi` does not read of a text. -/
def atoiRest (s : Bytes) : Bytes :=
  match s.dropWhile LibC.isSpace with
  | 45 :: rest => rest.dropWhile LibC.isDigit
  | 43 :: rest => rest.dropWhile LibC.isDigit
  | rest => rest.dropWhile LibC.isDigit

/-- A text that does not fit into the ten bytes of `array_index_str`: it is longer, or `atoi` reads
on behind the last of them. -/
def Overruns (index : Bytes) : Prop :=
  10 < index.length ∨ index.length = 10 ∧ atoiRest index = []

instance (index : Bytes) : Decidable (Overruns index) :=
  inferInstanceAs (Decidable (_ ∨ _))

/-- What `_lite_cjson_key_array_index` finds. -/
structure KeyArrayIndex where
  partialKeyLen : ℕ
  arrayKeyLen : ℕ
  arrayIndex : ℤ

def keyArrayIndex (key : Bytes) : Except Stop KeyArrayIndex :=
  match bracketLoop key 0 0 ⟨0, none, none⟩ with
  | some ⟨_, some pre, some suf⟩ =>
    if suf + 1 = key.length then
      let arrayIndexStr := (key.drop (pre + 1)).take (suf - pre - 1)
      if Overruns arrayIndexStr then .error .outside
      else .ok ⟨pre, suf + 1, atoi arrayIndexStr⟩
    else .error .error
  | _ => .error .error

/-- A round of the loop of `lite_cjson_object_item`: the item that `lite_iter` becomes, and how far
`key_iter` is moved on. -/
def segmentItem (limit : ℕ) (text : Bytes) (liteIter : Item) (segment : Bytes) :
    Except Stop (Item × ℕ) :=
  match keyArrayIndex segment with
  | .ok index => do
      let litePrev ← liteCjsonObjectItemOf limit text liteIter (segment.take index.partialKeyLen)
      if litePrev.type ≠ .cjsonArray then .error .error
      else
        let liteNext ← liteCjsonArrayItem limit text litePrev index.arrayIndex
        .ok (liteNext, index.arrayKeyLen + 1)
  | .error .error => do
      let litePrev ← liteCjsonObjectItemOf limit text liteIter segment
      .ok (litePrev, segment.length + 1)
  | .error stop => .error stop

/-- The loop of `lite_cjson_object_item`. -/
def objectItemLoop (limit : ℕ) (text : Bytes) : ℕ → Item → Bytes → Except Stop Item
  | 0, _, _ => .error .unfinished
  | rounds + 1, liteIter, keyIter =>
    match keyIter.findIdx? (· = 0x2e) with
    | some delim => do
        let (liteIter, moved) ← segmentItem limit text liteIter (keyIter.take delim)
        objectItemLoop limit text rounds liteIter (keyIter.drop moved)
    | none => do
        let (liteIter, _) ← segmentItem limit text liteIter keyIter
        .ok liteIter

/-- `lite_cjson_object_item`: what it returns, and what it leaves in `lite_item`. -/
def liteCjsonObjectItem (limit : ℕ) (text : Bytes) (lite : Item) (key : Bytes)
    (liteItem : Item) : Except Stop (ℤ × Item) :=
  if lite.type ≠ .cjsonObject ∨ lite.size = 0 ∨ key = [] then .ok (-1, liteItem)
  else
    match objectItemLoop limit text (key.length + 1) lite key with
    | .ok liteIter => .ok (0, liteIter)
    | .error .error => .ok (-1, liteItem)
    | .error stop => .error stop

/-! ## What a path denotes -/

def NoBracket (s : Bytes) : Prop := 0x5b ∉ s ∧ 0x5d ∉ s

/-- A segment is a name with an index text in brackets. -/
structure Bracketed (segment name index : Bytes) : Prop where
  eq : segment = name ++ 0x5b :: (index ++ [0x5d])
  nameFree : NoBracket name
  indexFree : NoBracket index
  nonempty : index ≠ []

def IsDigits (index : Bytes) : Prop := ∀ c ∈ index, LibC.isDigit c = true

/-- The shapes `name` and `name[digits]`. -/
def IsSegment (segment : Bytes) : Prop :=
  segment ≠ [] ∧ NoBracket segment ∨
    ∃ name index, name ≠ [] ∧ Bracketed segment name index ∧ IsDigits index

section Denotation

variable (limit : ℕ) (text : Bytes)

/-- The first member of an object that has the name. -/
def IsMember (item : Item) (name : Bytes) (value : Item) : Prop :=
  ∃ (i : ℕ) (key : Item), liteCjsonObjectItemByIndex limit text item i = .ok (key, value) ∧
    key.bytes text = name ∧ ∀ j < i, ∀ key' value', liteCjsonObjectItemByIndex limit text item
      (j : ℕ) = .ok (key', value') → key'.bytes text ≠ name

/-- An element of an array, at an index below its size. -/
def IsElement (item : Item) (i : ℕ) (value : Item) : Prop :=
  i < item.size ∧ liteCjsonArrayItem limit text item i = .ok value

/-- What a segment denotes: a name with digits in brackets the element of a member, and every other
segment the member that has it as its name. -/
inductive Denotes (item : Item) (segment : Bytes) (value : Item) : Prop
  | name (hother : ∀ name index, name ≠ [] → Bracketed segment name index → ¬IsDigits index)
      (hmember : IsMember limit text item segment value)
  | index {name index : Bytes} {array : Item} (hsegment : Bracketed segment name index)
      (hname : name ≠ []) (hdigits : IsDigits index) (hmember : IsMember limit text item name array)
      (helement : IsElement limit text array (digitsVal index) value)

/-- The same where every index text is read by `atoi`. -/
inductive ReadsAs (item : Item) (segment : Bytes) (value : Item) : Prop
  | name (hne : segment ≠ []) (hother : ∀ name index, ¬Bracketed segment name index)
      (hmember : IsMember limit text item segment value)
  | index {name index : Bytes} {array : Item} {i : ℕ}
      (hsegment : Bracketed segment name index) (hname : name ≠ []) (hindex : atoi index = i)
      (hmember : IsMember limit text item name array)
      (helement : IsElement limit text array i value)

/-- The items of a path, one segment after the other. -/
inductive Walk (step : Item → Bytes → Item → Prop) : Item → List Bytes → Item → Prop
  | nil {item : Item} : Walk step item [] item
  | cons {item next value : Item} {segment : Bytes} {path : List Bytes}
      (hstep : step item segment next) (hrest : Walk step next path value) :
      Walk step item (segment :: path) value

/-- On a path, an index text is got to that overruns. -/
inductive Overrun : Item → List Bytes → Prop
  | here {item : Item} {segment name index : Bytes} {path : List Bytes}
      (hsegment : Bracketed segment name index) (hindex : Overruns index) :
      Overrun item (segment :: path)
  | later {item next : Item} {segment : Bytes} {path : List Bytes}
      (hstep : ReadsAs limit text item segment next) (hrest : Overrun next path) :
      Overrun item (segment :: path)

/-- The items that are got by parsing a text, and from such items. -/
inductive Reached : Item → Prop
  | parse {item : Item} (h : liteCjsonParse limit text = .ok item) : Reached item
  | element {array item : Item} {index : ℤ} (harray : Reached array)
      (h : liteCjsonArrayItem limit text array index = .ok item) : Reached item
  | member {object key item : Item} {index : ℤ} (hobject : Reached object)
      (h : liteCjsonObjectItemByIndex limit text object index = .ok (key, item)) : Reached item

/-- What is wanted of a lookup, whatever `lite_item` holds before: what is found is denoted by the
key, what a key of segments denotes is found, and else `-1` is returned and nothing is changed. -/
structure PathLaw (lite : Item) (key : Bytes) : Prop where
  sound : ∀ liteItem value, liteCjsonObjectItem limit text lite key liteItem = .ok (0, value) →
    Walk (Denotes limit text) lite (levels 0x2e key) value
  complete : ∀ liteItem value, (∀ segment ∈ levels 0x2e key, IsSegment segment) →
    Walk (Denotes limit text) lite (levels 0x2e key) value →
    liteCjsonObjectItem limit text lite key liteItem = .ok (0, value)
  fails : ∀ liteItem, (∀ value, liteCjsonObjectItem limit text lite key liteItem ≠ .ok (0, value)) →
    liteCjsonObjectItem limit text lite key liteItem = .ok (-1, liteItem)

/-- The condition on a key: it gets to no index text that overruns, and if it leads to a value as
`atoi` reads its index texts, these are digits. -/
structure PathOk (lite : Item) (key : Bytes) : Prop where
  fits : lite.size ≠ 0 → ¬Overrun limit text lite (levels 0x2e key)
  digits : ∀ value, Walk (ReadsAs limit text) lite (levels 0x2e key) value →
    ∀ segment ∈ levels 0x2e key, ∀ name index, Bracketed segment name index → IsDigits index

end Denotation

/-! ## Segments -/

section Segments

variable {segment name index key : Bytes}

theorem bracketLoop_append (hname : NoBracket name) (rest : Bytes) (at' : ℕ) (prev : UInt8)
    (b : Brackets) : ∃ prev', (name ≠ [] → prev' ≠ 0x5b) ∧ (name = [] → prev' = prev) ∧
      bracketLoop (name ++ rest) at' prev b = bracketLoop rest (at' + name.length) prev' b := by
  induction name generalizing at' prev with
  | nil => exact ⟨prev, fun h => absurd rfl h, fun _ => rfl, rfl⟩
  | cons c name ih =>
    have hpre : c ≠ 0x5b := fun h => hname.1 (h ▸ mem_cons_self)
    have hsuf : c ≠ 0x5d := fun h => hname.2 (h ▸ mem_cons_self)
    have hrest : NoBracket name := ⟨fun h => hname.1 (mem_cons_of_mem c h),
      fun h => hname.2 (mem_cons_of_mem c h)⟩
    obtain ⟨prev', hne, hnil, heq⟩ := ih hrest (at' + 1) c
    refine ⟨prev', fun _ => ?_, fun h => absurd h (cons_ne_nil c name), ?_⟩
    · by_cases hempty : name = []
      · rw [hnil hempty]
        exact hpre
      · exact hne hempty
    · rw [cons_append, bracketLoop, if_neg hpre, if_neg hsuf, heq, length_cons,
        Nat.add_assoc, Nat.add_comm 1]

theorem bracketLoop_keeps {pre suf at' : ℕ} {prev : UInt8} {b b' : Brackets}
    (hpre : b.pre = some pre) (hsuf : b.suf = some suf)
    (h : bracketLoop key at' prev b = some b') : b'.pre = some pre ∧ b'.suf = some suf := by
  induction key generalizing at' prev b with
  | nil =>
    obtain rfl := Option.some.inj h
    exact ⟨hpre, hsuf⟩
  | cons c key ih =>
    rw [bracketLoop] at h
    split_ifs at h
    · refine ih ?_ ?_ h
      · show b.pre.or (some at') = some pre
        rw [hpre]
        rfl
      · exact hsuf
    · refine ih ?_ ?_ h
      · exact hpre
      · show b.suf.or (some at') = some suf
        rw [hsuf]
        rfl
    · exact ih hpre hsuf h

theorem first_bracket (s : Bytes) :
    NoBracket s ∨ ∃ u c w, s = u ++ c :: w ∧ NoBracket u ∧ (c = 0x5b ∨ c = 0x5d) := by
  have hnil : NoBracket [] := ⟨not_mem_nil, not_mem_nil⟩
  induction s with
  | nil => exact .inl hnil
  | cons c s ih =>
    by_cases hc : c = 0x5b ∨ c = 0x5d
    · exact .inr ⟨[], c, s, rfl, hnil, hc⟩
    obtain ⟨hpre, hsuf⟩ := not_or.mp hc
    have hcons : ∀ {u : Bytes}, NoBracket u → NoBracket (c :: u) := fun hu =>
      ⟨fun hmem => (mem_cons.mp hmem).elim (Ne.symm hpre) hu.1,
        fun hmem => (mem_cons.mp hmem).elim (Ne.symm hsuf) hu.2⟩
    rcases ih with hs | ⟨u, d, w, rfl, hu, hd⟩
    · exact .inl (hcons hs)
    · exact .inr ⟨c :: u, d, w, rfl, hcons hu, hd⟩

theorem bracketLoop_open (hname : NoBracket name) (rest : Bytes) :
    bracketLoop (name ++ 0x5b :: rest) 0 0 ⟨0, none, none⟩ =
      bracketLoop rest (name.length + 1) 0x5b ⟨1, some name.length, none⟩ := by
  obtain ⟨prev, -, -, heq⟩ := bracketLoop_append hname (0x5b :: rest) 0 0 ⟨0, none, none⟩
  rw [heq, bracketLoop, if_pos rfl, if_neg (not_not.mpr rfl), Nat.zero_add]
  rfl

theorem bracketLoop_close (hindex : NoBracket index) (hne : index ≠ []) (pre : ℕ)
    (rest : Bytes) (at' : ℕ) :
    bracketLoop (index ++ 0x5d :: rest) at' 0x5b ⟨1, some pre, none⟩ =
      bracketLoop rest (at' + index.length + 1) 0x5d ⟨0, some pre, some (at' + index.length)⟩ := by
  obtain ⟨prev, hprev, -, heq⟩ :=
    bracketLoop_append hindex (0x5d :: rest) at' 0x5b ⟨1, some pre, none⟩
  have hclose : ¬(0x5d : UInt8) = 0x5b := by decide
  rw [heq, bracketLoop, if_neg hclose, if_pos rfl, if_neg (not_not.mpr rfl), if_neg (hprev hne)]
  rfl

theorem keyArrayIndex_bracketed (h : Bracketed segment name index) :
    keyArrayIndex segment = if Overruns index then .error .outside
      else .ok ⟨name.length, segment.length, atoi index⟩ := by
  obtain ⟨rfl, hname, hindex, hne⟩ := h
  have hlength : (name ++ 0x5b :: (index ++ [0x5d])).length =
      name.length + 1 + index.length + 1 := by
    simp only [length_append, length_cons, length_nil]
    omega
  have hdrop : (name ++ 0x5b :: (index ++ [0x5d])).drop (name.length + 1) = index ++ [0x5d] := by
    rw [← drop_drop, drop_left]
    rfl
  have hsub : name.length + 1 + index.length - name.length - 1 = index.length := by omega
  unfold keyArrayIndex
  rw [bracketLoop_open hname, bracketLoop_close hindex hne, bracketLoop, hlength]
  simp only [if_true]
  rw [hdrop, hsub, take_left]

theorem keyArrayIndex_other (h : ∀ name index, ¬Bracketed segment name index) :
    keyArrayIndex segment = .error .error := by
  have herror : ∀ deep pre, bracketLoop segment 0 0 ⟨0, none, none⟩ = some ⟨deep, pre, none⟩ →
      keyArrayIndex segment = .error .error := by
    intro deep pre hloop
    rw [keyArrayIndex, hloop]
    cases pre <;> rfl
  have hreturn : bracketLoop segment 0 0 ⟨0, none, none⟩ = none →
      keyArrayIndex segment = .error .error := by
    intro hloop
    rw [keyArrayIndex, hloop]
  rcases first_bracket segment with hfree | ⟨name, c, rest, rfl, hname, rfl | rfl⟩
  · obtain ⟨prev, -, -, heq⟩ := bracketLoop_append hfree [] 0 0 ⟨0, none, none⟩
    rw [append_nil] at heq
    exact herror 0 none heq
  · rw [bracketLoop_open hname] at herror hreturn
    rcases first_bracket rest with hfree | ⟨index, c, tail, rfl, hindex, rfl | rfl⟩
    · obtain ⟨prev, -, -, heq⟩ :=
        bracketLoop_append hfree [] (name.length + 1) 0x5b ⟨1, some name.length, none⟩
      rw [append_nil] at heq
      exact herror 1 _ heq
    · obtain ⟨prev, -, -, heq⟩ := bracketLoop_append hindex (0x5b :: tail) (name.length + 1) 0x5b
        ⟨1, some name.length, none⟩
      apply hreturn
      rw [heq, bracketLoop, if_pos rfl, if_pos Nat.one_ne_zero]
    by_cases hne : index = []
    · apply hreturn
      rw [hne, nil_append, bracketLoop, if_neg (by decide), if_pos rfl,
        if_neg (not_not.mpr rfl), if_pos rfl]
    have hloop := bracketLoop_close hindex hne name.length tail (name.length + 1)
    cases hrest : bracketLoop tail (name.length + 1 + index.length + 1) 0x5d
        ⟨0, some name.length, some (name.length + 1 + index.length)⟩ with
    | none => exact hreturn (hloop.trans hrest)
    | some b =>
      obtain ⟨hpre, hsuf⟩ := bracketLoop_keeps rfl rfl hrest
      obtain ⟨deep, pre, suf⟩ := b
      cases hpre
      cases hsuf
      have htail : tail ≠ [] := by
        rintro rfl
        exact h name index ⟨rfl, hname, hindex, hne⟩
      rw [keyArrayIndex, bracketLoop_open hname, hloop, hrest]
      simp only
      rw [if_neg]
      have hpos := length_pos_of_ne_nil htail
      simp only [length_append, length_cons]
      omega
  · obtain ⟨prev, -, -, heq⟩ := bracketLoop_append hname (0x5d :: rest) 0 0 ⟨0, none, none⟩
    apply hreturn
    rw [heq, bracketLoop, if_neg (by decide), if_pos rfl, if_pos (by decide)]

theorem Bracketed.unique {name' index' : Bytes} (h : Bracketed segment name index)
    (h' : Bracketed segment name' index') : name = name' ∧ index = index' := by
  have heq := h.eq.symm.trans h'.eq
  have hfree : 0x5b ∉ index ++ [0x5d] := by
    intro hmem
    rcases mem_append.mp hmem with hindex | hclose
    · exact h.indexFree.1 hindex
    · exact absurd hclose (by decide)
  obtain ⟨hname, -, hindex⟩ := (append_cons_inj_of_notMem h.nameFree.1 hfree).mp heq
  exact ⟨hname, append_cancel_right hindex⟩

/-! ## Index texts -/

theorem atoi_of_fits (hs : IsDigits index) (hfits : ¬Overruns index) :
    atoi index = digitsVal index := by
  apply LibC.atoi_digits hs
  obtain ⟨hlong, hfull⟩ := not_or.mp hfits
  by_contra hlen
  have hten : index.length = 10 := by omega
  obtain ⟨c, s, rfl⟩ := exists_cons_of_length_pos (by omega : 0 < index.length)
  have hc := hs c mem_cons_self
  have hall : (c :: s).dropWhile LibC.isDigit = [] := dropWhile_eq_nil_iff.mpr hs
  have hspace : (c :: s).dropWhile LibC.isSpace = c :: s :=
    dropWhile_cons_of_neg (by simp [isSpace_of_isDigit hc])
  refine hfull ⟨hten, ?_⟩
  unfold atoiRest
  rw [hspace]
  split
  · next heq =>
      obtain ⟨rfl, -⟩ := List.cons.inj heq
      exact absurd hc (by decide)
  · next heq =>
      obtain ⟨rfl, -⟩ := List.cons.inj heq
      exact absurd hc (by decide)
  · exact hall

end Segments

/-! ## Members and elements -/

section Steps

variable {limit : ℕ} {text segment name index : Bytes} {item next value : Item}

theorem entryAt_nat {α : Type} (as : List α) (i : ℕ) (a : α) :
    entryAt as i = .ok a ↔ as[i]? = some a := by
  rw [entryAt, if_neg (by omega), Int.toNat_natCast]
  cases as[i]? with
  | none =>
    constructor
    · intro h
      cases h
    · intro h
      cases h
  | some b =>
    exact ⟨fun h => congrArg some (Except.ok.inj h),
      fun h => congrArg Except.ok (Option.some.inj h)⟩

theorem mem_of_entryAt {α : Type} {as : List α} {index : ℤ} {a : α}
    (h : entryAt as index = .ok a) : a ∈ as := by
  unfold entryAt at h
  split_ifs at h
  cases hget : as[index.toNat]? with
  | none =>
    rw [hget] at h
    cases h
  | some b =>
    rw [hget] at h
    obtain rfl := Except.ok.inj h
    exact mem_of_getElem? hget

theorem isMember_find {items : List (Item × Item)}
    (hget : ∀ index, liteCjsonObjectItemByIndex limit text item index = entryAt items index) :
    IsMember limit text item name value ↔
      ∃ key, items.find? (fun kv => kv.1.bytes text = name) = some (key, value) := by
  have hentry : ∀ (i : ℕ) (kv : Item × Item),
      liteCjsonObjectItemByIndex limit text item i = .ok kv ↔ items[i]? = some kv := by
    intro i kv
    rw [hget, entryAt_nat]
  constructor
  · rintro ⟨i, key, hi, hkey, hfirst⟩
    obtain ⟨hlt, heq⟩ := List.getElem?_eq_some_iff.mp ((hentry i _).mp hi)
    refine ⟨key, List.find?_eq_some_iff_getElem.mpr ⟨decide_eq_true hkey, i, hlt, heq, ?_⟩⟩
    intro j hj
    have hj' := (hentry j items[j]).mpr (List.getElem?_eq_getElem (hj.trans hlt))
    have hne := hfirst j hj _ _ hj'
    simpa using hne
  · rintro ⟨key, hfind⟩
    obtain ⟨hkey, i, hlt, heq, hfirst⟩ := List.find?_eq_some_iff_getElem.mp hfind
    refine ⟨i, key, (hentry i _).mpr ?_, of_decide_eq_true hkey, fun j hj key' value' hj' => ?_⟩
    · rw [List.getElem?_eq_getElem hlt, heq]
    · obtain ⟨hjlt, hjeq⟩ := List.getElem?_eq_some_iff.mp ((hentry j _).mp hj')
      have hne := hfirst j hj
      rw [hjeq] at hne
      simpa using hne

theorem IsMember.type (h : IsMember limit text item name value) : item.type = .cjsonObject := by
  obtain ⟨i, key, hi, -⟩ := h
  by_contra hne
  rw [liteCjsonObjectItemByIndex_error (Or.inl hne)] at hi
  cases hi

theorem IsElement.type {i : ℕ} (h : IsElement limit text item i value) :
    item.type = .cjsonArray := by
  by_contra hne
  have hi := h.2
  rw [liteCjsonArrayItem_error (Or.inl hne)] at hi
  cases hi

section

variable (h : IsParsed limit text item)
include h

/-- `_lite_cjson_object_item` finds the first member with the name. -/
theorem liteCjsonObjectItemOf_cases (hname : name ≠ []) :
    (∃ value, IsMember limit text item name value ∧
        liteCjsonObjectItemOf limit text item name = .ok value) ∨
      (∀ value, ¬IsMember limit text item name value) ∧
        liteCjsonObjectItemOf limit text item name = .error .error := by
  by_cases htype : item.type = .cjsonObject
  · obtain ⟨items, -, hget, hof, -⟩ := exists_object_items h htype
    rw [hof name hname]
    cases hfind : items.find? fun kv => kv.1.bytes text = name with
    | none =>
      refine .inr ⟨fun value hmember => ?_, rfl⟩
      obtain ⟨key, hkey⟩ := (isMember_find hget).mp hmember
      rw [hfind] at hkey
      cases hkey
    | some kv => exact .inl ⟨kv.2, (isMember_find hget).mpr ⟨kv.1, hfind⟩, rfl⟩
  · exact .inr ⟨fun value hmember => htype hmember.type, if_pos (.inl htype)⟩

theorem liteCjsonArrayItem_cases (index : ℤ) :
    (∃ (i : ℕ) (value : Item), index = i ∧ IsElement limit text item i value ∧
        liteCjsonArrayItem limit text item index = .ok value) ∨
      (∀ (i : ℕ) (value : Item), index = i → ¬IsElement limit text item i value) ∧
        liteCjsonArrayItem limit text item index = .error .error := by
  by_cases hin : item.type = .cjsonArray ∧ 0 ≤ index ∧ index < item.size
  · obtain ⟨htype, hpos, hlt⟩ := hin
    obtain ⟨i, rfl⟩ := Int.eq_ofNat_of_zero_le hpos
    obtain ⟨items, hlength, hget, -⟩ := exists_array_items h htype
    have hi : i < items.length := by omega
    have heq : liteCjsonArrayItem limit text item i = .ok items[i] := by
      rw [hget, entryAt_nat]
      exact List.getElem?_eq_getElem hi
    exact Or.inl ⟨i, items[i], rfl, ⟨by omega, heq⟩, heq⟩
  · have herror : liteCjsonArrayItem limit text item index = .error .error := by
      apply liteCjsonArrayItem_error
      by_cases htype : item.type = .cjsonArray
      · by_cases hpos : index < 0
        · exact .inr (.inl hpos)
        · exact .inr (.inr (not_lt.mp fun hlt => hin ⟨htype, not_lt.mp hpos, hlt⟩))
      · exact .inl htype
    refine .inr ⟨fun i value hi helement => ?_, herror⟩
    rw [hi, helement.2] at herror
    cases herror

theorem IsMember.inside (hmember : IsMember limit text item name value) :
    IsParsed limit text value ∧ Inside value item := by
  obtain ⟨items, -, hget, -, hall, -⟩ := exists_object_items h hmember.type
  obtain ⟨key, hfind⟩ := (isMember_find hget).mp hmember
  exact hall _ (mem_of_find?_eq_some hfind)

theorem IsElement.inside {i : ℕ} (helement : IsElement limit text item i value) :
    IsParsed limit text value ∧ Inside value item := by
  obtain ⟨items, -, hget, hall⟩ := exists_array_items h helement.type
  have hi := helement.2
  rw [hget, entryAt_nat] at hi
  exact hall _ (mem_of_getElem? hi)

end

variable {value' : Item}

section

variable (h : IsParsed limit text item)
include h

theorem IsMember.unique (hmember : IsMember limit text item name value)
    (hmember' : IsMember limit text item name value') : value = value' := by
  obtain ⟨items, -, hget, -⟩ := exists_object_items h hmember.type
  obtain ⟨key, hfind⟩ := (isMember_find hget).mp hmember
  obtain ⟨key', hfind'⟩ := (isMember_find hget).mp hmember'
  exact congrArg Prod.snd (Option.some.inj (hfind.symm.trans hfind'))

theorem IsMember.disjoint {name' : Bytes} (hmember : IsMember limit text item name value)
    (hmember' : IsMember limit text item name' value') (hne : name ≠ name') :
    value.value + value.valueLength < value'.value ∨
      value'.value + value'.valueLength < value.value := by
  obtain ⟨items, -, hget, -, -, hpairs⟩ := exists_object_items h hmember.type
  obtain ⟨key, hfind⟩ := (isMember_find hget).mp hmember
  obtain ⟨key', hfind'⟩ := (isMember_find hget).mp hmember'
  have hkeys : (key, value) ≠ (key', value') := by
    intro heq
    obtain ⟨hkey, -⟩ := List.find?_eq_some_iff_getElem.mp hfind
    obtain ⟨hkey', -⟩ := List.find?_eq_some_iff_getElem.mp hfind'
    have hsame : key = key' := congrArg Prod.fst heq
    rw [← of_decide_eq_true hkey, ← of_decide_eq_true hkey'] at hne
    exact hne (congrArg (Item.bytes text) hsame)
  have hsymm : Std.Symm fun a b : Item × Item => a.2.value + a.2.valueLength < b.2.value ∨
      b.2.value + b.2.valueLength < a.2.value := ⟨fun _ _ hor => hor.symm⟩
  have hor : items.Pairwise fun a b : Item × Item => a.2.value + a.2.valueLength < b.2.value ∨
      b.2.value + b.2.valueLength < a.2.value := hpairs.imp fun hlt => .inl hlt
  exact hor.forall (mem_of_find?_eq_some hfind) (mem_of_find?_eq_some hfind') hkeys

/-! ## One segment -/

theorem ReadsAs.inside (hreads : ReadsAs limit text item segment next) :
    IsParsed limit text next ∧ Inside next item := by
  cases hreads with
  | name _ _ hmember => exact hmember.inside h
  | index _ _ _ hmember helement =>
    obtain ⟨harray, hin⟩ := hmember.inside h
    obtain ⟨hnext, hin'⟩ := helement.inside harray
    exact ⟨hnext, hin'.trans hin⟩

theorem Denotes.inside (hdenotes : Denotes limit text item segment next) :
    IsParsed limit text next ∧ Inside next item := by
  cases hdenotes with
  | name _ hmember => exact hmember.inside h
  | index _ _ _ hmember helement =>
    obtain ⟨harray, hin⟩ := hmember.inside h
    obtain ⟨hnext, hin'⟩ := helement.inside harray
    exact ⟨hnext, hin'.trans hin⟩

end

theorem segmentItem_overruns (hsegment : Bracketed segment name index) (hindex : Overruns index) :
    segmentItem limit text item segment = .error .outside := by
  rw [segmentItem, keyArrayIndex_bracketed hsegment, if_pos hindex]

/-- A round finds what the segment stands for, or reports that there is nothing. -/
def Settled (limit : ℕ) (text : Bytes) (item : Item) (segment : Bytes) : Prop :=
  (∃ next, ReadsAs limit text item segment next ∧
      segmentItem limit text item segment = .ok (next, segment.length + 1)) ∨
    (∀ next, ¬ReadsAs limit text item segment next) ∧
      segmentItem limit text item segment = .error .error

section

variable (h : IsParsed limit text item)
include h

theorem segmentItem_bracketed (hsegment : Bracketed segment name index) (hfits : ¬Overruns index) :
    Settled limit text item segment := by
  have htake : segment.take name.length = name := by rw [hsegment.eq, take_left]
  have hrun : segmentItem limit text item segment =
      (liteCjsonObjectItemOf limit text item name).bind fun litePrev =>
        if litePrev.type ≠ .cjsonArray then .error .error
        else (liteCjsonArrayItem limit text litePrev (atoi index)).bind fun liteNext =>
          .ok (liteNext, segment.length + 1) := by
    rw [segmentItem, keyArrayIndex_bracketed hsegment, if_neg hfits]
    simp only [htake]
    rfl
  have hinv : ∀ next, ReadsAs limit text item segment next → name ≠ [] ∧
      ∃ (array : Item) (i : ℕ), atoi index = i ∧ IsMember limit text item name array ∧
        IsElement limit text array i next := by
    intro next hreads
    cases hreads with
    | name _ hother _ => exact absurd hsegment (hother name index)
    | index hsegment' hname hindex hmember helement =>
      obtain ⟨rfl, rfl⟩ := hsegment.unique hsegment'
      exact ⟨hname, _, _, hindex, hmember, helement⟩
  rw [Settled, hrun]
  by_cases hname : name = []
  · refine .inr ⟨fun next hreads => (hinv next hreads).1 hname, ?_⟩
    rw [hname, liteCjsonObjectItemOf, if_pos (Or.inr (Or.inr rfl))]
    rfl
  rcases liteCjsonObjectItemOf_cases h hname with ⟨array, hmember, heq⟩ | ⟨hnone, heq⟩
  · rw [heq, Except.bind]
    rcases liteCjsonArrayItem_cases (hmember.inside h).1 (atoi index) with
      ⟨i, next, hindex, helement, heq'⟩ | ⟨hnone, heq'⟩
    · rw [if_neg (not_not.mpr helement.type), heq']
      exact .inl ⟨next, .index hsegment hname hindex hmember helement, rfl⟩
    · rw [heq']
      refine .inr ⟨fun next hreads => ?_, ite_id _⟩
      obtain ⟨-, array', i, hindex, hmember', helement⟩ := hinv next hreads
      obtain rfl := hmember.unique h hmember'
      exact hnone i next hindex helement
  · rw [heq]
    refine .inr ⟨fun next hreads => ?_, rfl⟩
    obtain ⟨-, array, i, -, hmember, -⟩ := hinv next hreads
    exact hnone array hmember

theorem segmentItem_other (hother : ∀ name index, ¬Bracketed segment name index) :
    Settled limit text item segment := by
  have hrun : segmentItem limit text item segment =
      (liteCjsonObjectItemOf limit text item segment).bind fun litePrev =>
        .ok (litePrev, segment.length + 1) := by
    rw [segmentItem, keyArrayIndex_other hother]
    rfl
  have hinv : ∀ next, ReadsAs limit text item segment next → segment ≠ [] ∧
      IsMember limit text item segment next := by
    intro next hreads
    cases hreads with
    | name hne _ hmember => exact ⟨hne, hmember⟩
    | index hsegment _ _ _ _ => exact absurd hsegment (hother _ _)
  rw [Settled, hrun]
  by_cases hne : segment = []
  · refine .inr ⟨fun next hreads => (hinv next hreads).1 hne, ?_⟩
    rw [hne, liteCjsonObjectItemOf, if_pos (Or.inr (Or.inr rfl))]
    rfl
  · rcases liteCjsonObjectItemOf_cases h hne with ⟨next, hmember, heq⟩ | ⟨hnone, heq⟩
    · rw [heq]
      exact .inl ⟨next, .name hne hother hmember, rfl⟩
    · rw [heq]
      exact .inr ⟨fun next hreads => hnone next (hinv next hreads).2, rfl⟩

/-- **A round of the lookup** takes the segment as `atoi` reads it. -/
theorem segmentItem_cases (hfits : ∀ name index, Bracketed segment name index → ¬Overruns index) :
    Settled limit text item segment := by
  by_cases hshape : ∃ name index, Bracketed segment name index
  · obtain ⟨name, index, hsegment⟩ := hshape
    exact segmentItem_bracketed h hsegment (hfits name index hsegment)
  · exact segmentItem_other h fun name index hsegment => hshape ⟨name, index, hsegment⟩

theorem ReadsAs.unique {next' : Item} (hreads : ReadsAs limit text item segment next)
    (hreads' : ReadsAs limit text item segment next') : next = next' := by
  cases hreads with
  | name _ hother hmember =>
    cases hreads' with
    | name _ _ hmember' => exact hmember.unique h hmember'
    | index hsegment _ _ _ _ => exact absurd hsegment (hother _ _)
  | index hsegment _ hindex hmember helement =>
    cases hreads' with
    | name _ hother _ => exact absurd hsegment (hother _ _)
    | index hsegment' _ hindex' hmember' helement' =>
      obtain ⟨rfl, rfl⟩ := hsegment.unique hsegment'
      obtain rfl := hmember.unique h hmember'
      have hi := Int.ofNat_inj.mp (hindex.symm.trans hindex')
      rw [hi] at helement
      exact Except.ok.inj (helement.2.symm.trans helement'.2)

end

/-! ## The whole path -/

/-- What comes of following a path, segment by segment. -/
def Follows (limit : ℕ) (text : Bytes) (item : Item) (path : List Bytes)
    (r : Except Stop Item) : Prop :=
  Overrun limit text item path ∧ r = .error .outside ∨
    ¬Overrun limit text item path ∧
      ((∃ value, Walk (ReadsAs limit text) item path value ∧ r = .ok value) ∨
        (∀ value, ¬Walk (ReadsAs limit text) item path value) ∧ r = .error .error)

theorem follows_nil (item : Item) : Follows limit text item [] (.ok item) := by
  refine .inr ⟨fun h => ?_, .inl ⟨item, .nil, rfl⟩⟩
  cases h

theorem Follows.cons {path : List Bytes} {f : Item × ℕ → Except Stop Item}
    (h : IsParsed limit text item)
    (hrest : ∀ next, ReadsAs limit text item segment next →
      Follows limit text next path (f (next, segment.length + 1))) :
    Follows limit text item (segment :: path) (segmentItem limit text item segment >>= f) := by
  by_cases hover : ∃ name index, Bracketed segment name index ∧ Overruns index
  · obtain ⟨name, index, hsegment, hindex⟩ := hover
    rw [segmentItem_overruns hsegment hindex]
    exact .inl ⟨.here hsegment hindex, rfl⟩
  have hfits : ∀ name index, Bracketed segment name index → ¬Overruns index :=
    fun name index hsegment hindex => hover ⟨name, index, hsegment, hindex⟩
  rcases segmentItem_cases h hfits with ⟨next, hreads, heq⟩ | ⟨hnone, heq⟩
  · have hsame : ∀ next', ReadsAs limit text item segment next' → next' = next :=
      fun next' hreads' => hreads'.unique h hreads
    rw [heq]
    show Follows limit text item (segment :: path) (f (next, segment.length + 1))
    rcases hrest next hreads with ⟨hover', hrun⟩ | ⟨hover', hrun⟩
    · exact .inl ⟨.later hreads hover', hrun⟩
    refine .inr ⟨fun hover'' => ?_, ?_⟩
    · cases hover'' with
      | here hsegment hindex => exact hfits _ _ hsegment hindex
      | later hstep hlater => exact hover' (hsame _ hstep ▸ hlater)
    · rcases hrun with ⟨value, hwalk, hrun⟩ | ⟨hnone, hrun⟩
      · exact .inl ⟨value, .cons hreads hwalk, hrun⟩
      · refine .inr ⟨fun value hwalk => ?_, hrun⟩
        cases hwalk with
        | cons hstep hwalk => exact hnone value (hsame _ hstep ▸ hwalk)
  · rw [heq]
    refine .inr ⟨fun hover' => ?_, .inr ⟨fun value hwalk => ?_, rfl⟩⟩
    · cases hover' with
      | here hsegment hindex => exact hfits _ _ hsegment hindex
      | later hstep _ => exact hnone _ hstep
    · cases hwalk with
      | cons hstep _ => exact hnone _ hstep

theorem findIdx?_of_notMem {l : Bytes} (hl : 0x2e ∉ l) : l.findIdx? (· = 0x2e) = none :=
  List.findIdx?_eq_none_iff.mpr fun _ hc => decide_eq_false fun heq => hl (heq ▸ hc)

/-- **The loop follows the segments of the key.** -/
theorem objectItemLoop_follows {key : Bytes} {rounds : ℕ} (h : IsParsed limit text item)
    (hrounds : key.length < rounds) :
    Follows limit text item (levels 0x2e key) (objectItemLoop limit text rounds item key) := by
  obtain ⟨rounds, rfl⟩ := Nat.exists_eq_add_of_le' (Nat.one_le_of_lt hrounds)
  induction key using level_induction (0x2e : UInt8) generalizing item rounds with
  | last l hl =>
    rw [levels_of_notMem hl, objectItemLoop, findIdx?_of_notMem hl]
    exact Follows.cons h fun next _ => follows_nil next
  | cons l t hl ih =>
    have hdelim : (l ++ 0x2e :: t).findIdx? (· = 0x2e) = some l.length := by
      have hfirst : (0x2e :: t).findIdx? (· = 0x2e) = some 0 := rfl
      rw [List.findIdx?_append, findIdx?_of_notMem hl, hfirst, Option.none_or, Option.map_some,
        Nat.zero_add]
    have hlen : t.length < rounds := by
      rw [length_append, length_cons] at hrounds
      omega
    obtain ⟨rounds, rfl⟩ := Nat.exists_eq_add_of_le' (Nat.one_le_of_lt hlen)
    rw [levels_append_cons hl, objectItemLoop, hdelim]
    simp only [take_left]
    refine Follows.cons h fun next hreads => ?_
    have hdrop : (l ++ 0x2e :: t).drop (l.length + 1) = t := by
      rw [← drop_drop, drop_left]
      rfl
    simp only [hdrop]
    exact ih (hreads.inside h).1 rounds hlen

/-! ## The two readings of a path -/

theorem Walk.inside {step : Item → Bytes → Item → Prop}
    (hstep : ∀ item segment next, IsParsed limit text item → step item segment next →
      IsParsed limit text next ∧ Inside next item)
    (h : IsParsed limit text item) {path : List Bytes} (hwalk : Walk step item path value) :
    Inside value item := by
  induction hwalk with
  | nil => exact ⟨le_rfl, le_rfl⟩
  | cons hhead _ ih =>
    obtain ⟨hnext, hin⟩ := hstep _ _ _ h hhead
    exact (ih hnext).trans hin

variable {path : List Bytes}

/-- Where both readings lead to the same value, all index texts are digits. -/
theorem digits_of_walks (h : IsParsed limit text item) (hfits : ¬Overrun limit text item path)
    (hdenotes : Walk (Denotes limit text) item path value)
    (hreads : Walk (ReadsAs limit text) item path value) :
    ∀ segment ∈ path, ∀ name index, Bracketed segment name index → IsDigits index := by
  induction hreads with
  | nil =>
    intro segment hsegment
    cases hsegment
  | @cons item next value segment path hread hreads ih =>
    cases hdenotes with
    | @cons _ next' _ _ _ hdenote hdenotes =>
      have hrest : ¬Overrun limit text next path := fun hover => hfits (.later hread hover)
      have hnext := (hread.inside h).1
      cases hread with
      | name _ hother hmember =>
        cases hdenote with
        | name _ hmember' =>
          obtain rfl := hmember.unique h hmember'
          refine forall_mem_cons.mpr ⟨fun name index hsegment => ?_,
            ih hnext hrest hdenotes⟩
          exact absurd hsegment (hother name index)
        | index hsegment _ _ _ _ => exact absurd hsegment (hother _ _)
      | @index name index array i hsegment hname hindex hmember helement =>
        cases hdenote with
        | name hother hmember' =>
          -- two members with different names cannot hold the same value
          exfalso
          have hne : name ≠ segment := by
            intro heq
            have hlen := congrArg List.length (heq.trans hsegment.eq)
            rw [length_append, length_cons] at hlen
            omega
          have hdisjoint := hmember.disjoint h hmember' hne
          have hin := Walk.inside (fun _ _ _ => ReadsAs.inside) hnext hreads
          have hin' := Walk.inside (fun _ _ _ => Denotes.inside) (hmember'.inside h).1 hdenotes
          have harray := (helement.inside (hmember.inside h).1).2
          have hstart := hin.start
          have hstop := hin.stop
          have hstart' := hin'.start
          have hstop' := hin'.stop
          have hstart'' := harray.start
          have hstop'' := harray.stop
          omega
        | index hsegment' _ hdigits hmember' helement' =>
          obtain ⟨rfl, rfl⟩ := hsegment.unique hsegment'
          obtain rfl := hmember.unique h hmember'
          have hover : ¬Overruns index := fun hover => hfits (.here hsegment hover)
          rw [atoi_of_fits hdigits hover, Int.ofNat_inj] at hindex
          rw [hindex] at helement'
          obtain rfl := Except.ok.inj (helement.2.symm.trans helement'.2)
          refine forall_mem_cons.mpr ⟨fun name' index' hsegment' => ?_,
            ih hnext hrest hdenotes⟩
          rw [← (hsegment.unique hsegment').2]
          exact hdigits

/-- A path whose index texts are digits denotes what the lookup reads. -/
theorem denotes_of_reads (hfits : ¬Overrun limit text item path)
    (hreads : Walk (ReadsAs limit text) item path value)
    (hdigits : ∀ segment ∈ path, ∀ name index, Bracketed segment name index → IsDigits index) :
    Walk (Denotes limit text) item path value := by
  induction hreads with
  | nil => exact .nil
  | @cons item next value segment path hread hreads ih =>
    obtain ⟨hhead, htail⟩ := forall_mem_cons.mp hdigits
    refine .cons ?_ (ih (fun hover => hfits (.later hread hover)) htail)
    cases hread with
    | name _ hother hmember =>
      exact .name (fun name index _ hsegment => absurd hsegment (hother name index)) hmember
    | @index name index _ i hsegment hname hindex hmember helement =>
      have hover : ¬Overruns index := fun hover => hfits (.here hsegment hover)
      have hindigits := hhead name index hsegment
      rw [atoi_of_fits hindigits hover, Int.ofNat_inj] at hindex
      rw [← hindex] at helement
      exact .index hsegment hname hindigits hmember helement

theorem reads_of_denotes (hfits : ¬Overrun limit text item path)
    (hdenotes : Walk (Denotes limit text) item path value)
    (hsegments : ∀ segment ∈ path, IsSegment segment) :
    Walk (ReadsAs limit text) item path value := by
  induction hdenotes with
  | nil => exact .nil
  | @cons item next value segment path hdenote hdenotes ih =>
    obtain ⟨hhead, htail⟩ := forall_mem_cons.mp hsegments
    have hread : ReadsAs limit text item segment next := by
      cases hdenote with
      | name hother hmember =>
        rcases hhead with ⟨hne, hfree⟩ | ⟨name, index, hname, hsegment, hdigits⟩
        · refine .name hne (fun name index hsegment => hfree.1 ?_) hmember
          rw [hsegment.eq]
          exact mem_append_right name mem_cons_self
        · exact absurd hdigits (hother name index hname hsegment)
      | @index name index _ hsegment hname hdigits hmember helement =>
        have hover : ¬Overruns index := fun hover => hfits (.here hsegment hover)
        exact .index hsegment hname (atoi_of_fits hdigits hover) hmember helement
    exact .cons hread (ih (fun hover => hfits (.later hread hover)) htail)

theorem Reached.isParsed (h : Reached limit text item) : IsParsed limit text item := by
  induction h with
  | @parse item h =>
    unfold liteCjsonParse at h
    split_ifs at h
    cases hparse : parseTop limit text (bufferSkipWhitespace text (skipUtf8Bom text)) with
    | error e =>
      rw [hparse] at h
      cases h
    | ok found =>
      rw [hparse] at h
      obtain rfl := Except.ok.inj h
      exact ⟨0, _, found.2, text, found.1, prefix_refl _, hparse, (shift_zero _).symm⟩
  | @element array item index _ h harray =>
    rcases liteCjsonArrayItem_cases harray index with ⟨i, value, -, helement, heq⟩ | ⟨-, heq⟩
    · obtain rfl := Except.ok.inj (h.symm.trans heq)
      exact (helement.inside harray).1
    · rw [heq] at h
      cases h
  | @member object key item index _ h hobject =>
    have htype : object.type = .cjsonObject := by
      by_contra hne
      rw [liteCjsonObjectItemByIndex_error (Or.inl hne)] at h
      cases h
    obtain ⟨items, -, hget, -, hall, -⟩ := exists_object_items hobject htype
    rw [hget] at h
    exact (hall _ (mem_of_entryAt h)).1

theorem walk_of_size {step : Item → Bytes → Item → Prop}
    (hstep : ∀ segment next, step item segment next → item.size ≠ 0) (hpath : path ≠ [])
    (hwalk : Walk step item path value) : item.size ≠ 0 := by
  cases hwalk with
  | nil => exact absurd rfl hpath
  | cons hhead _ => exact hstep _ _ hhead

theorem IsMember.size (h : IsMember limit text item name value) : item.size ≠ 0 := by
  obtain ⟨i, key, hi, -⟩ := h
  intro hzero
  rw [liteCjsonObjectItemByIndex_error (Or.inr (Or.inl hzero))] at hi
  cases hi

theorem Denotes.size (h : Denotes limit text item segment next) : item.size ≠ 0 := by
  cases h with
  | name _ hmember => exact hmember.size
  | index _ _ _ hmember _ => exact hmember.size

theorem ReadsAs.size (h : ReadsAs limit text item segment next) : item.size ≠ 0 := by
  cases h with
  | name _ _ hmember => exact hmember.size
  | index _ _ _ hmember _ => exact hmember.size

theorem Walk.unique (h : IsParsed limit text item)
    (hwalk : Walk (ReadsAs limit text) item path value)
    (hwalk' : Walk (ReadsAs limit text) item path value') : value = value' := by
  induction hwalk with
  | nil =>
    cases hwalk'
    rfl
  | cons hread _ ih =>
    cases hwalk' with
    | cons hread' hrest' =>
      obtain rfl := hread.unique h hread'
      exact ih (hread.inside h).1 hrest'

theorem not_bracketed_nil : ¬Bracketed [] name index := fun h =>
  append_ne_nil_of_right_ne_nil name (cons_ne_nil _ _) h.eq.symm

theorem not_readsAs_nil : ¬ReadsAs limit text item [] next := by
  rintro (⟨hne, -, -⟩ | ⟨hsegment, -, -, -, -⟩)
  · exact hne rfl
  · exact not_bracketed_nil hsegment

theorem not_isSegment_nil : ¬IsSegment [] := by
  rintro (⟨hne, -⟩ | ⟨name, index, -, hsegment, -⟩)
  · exact hne rfl
  · exact not_bracketed_nil hsegment

/-- Parsed arrays and objects have as many entries as their sizes say. -/
theorem entries_of_size (h : IsParsed limit text item) {i : ℕ} (hi : i < item.size) :
    (item.type = .cjsonArray → ∃ value, IsElement limit text item i value) ∧
      (item.type = .cjsonObject →
        ∃ found, liteCjsonObjectItemByIndex limit text item i = .ok found) := by
  constructor
  · intro htype
    obtain ⟨items, hlength, hget, -⟩ := exists_array_items h htype
    have hlt : i < items.length := hlength ▸ hi
    refine ⟨items[i], hi, ?_⟩
    rw [hget, entryAt_nat]
    exact List.getElem?_eq_getElem hlt
  · intro htype
    obtain ⟨items, hlength, hget, -⟩ := exists_object_items h htype
    have hlt : i < items.length := hlength ▸ hi
    refine ⟨items[i], ?_⟩
    rw [hget, entryAt_nat]
    exact List.getElem?_eq_getElem hlt

variable {lite : Item} {key : Bytes}

theorem pathLaw_of_refused (hrefused : lite.size = 0 ∨ key = []) :
    PathLaw limit text lite key := by
  have hresult : ∀ out, liteCjsonObjectItem limit text lite key out = .ok (-1, out) :=
    fun out => if_pos (.inr hrefused)
  refine ⟨fun out value h => ?_, fun out value hsegments hwalk => ?_, fun out _ => hresult out⟩
  · rw [hresult] at h
    exact absurd (Prod.mk.inj (Except.ok.inj h)).1 (by decide)
  · rcases hrefused with hzero | rfl
    · exact absurd hzero (walk_of_size (fun _ _ => Denotes.size) (levels_ne_nil _ _) hwalk)
    · exact absurd (hsegments [] mem_cons_self) not_isSegment_nil

theorem pathOk_of_refused (hrefused : lite.size = 0 ∨ key = []) : PathOk limit text lite key := by
  refine ⟨fun hsize hover => ?_, fun value hwalk => ?_⟩
  · rcases hrefused with hzero | rfl
    · exact hsize hzero
    · cases hover with
      | here hsegment _ => exact not_bracketed_nil hsegment
      | later hread _ => exact not_readsAs_nil hread
  · rcases hrefused with hzero | rfl
    · exact absurd hzero (walk_of_size (fun _ _ => ReadsAs.size) (levels_ne_nil _ _) hwalk)
    · cases hwalk with
      | cons hread _ => exact absurd hread not_readsAs_nil

theorem pathLaw_iff (h : IsParsed limit text lite) (htype : lite.type = .cjsonObject)
    (hsize : lite.size ≠ 0) (hkey : key ≠ []) :
    PathLaw limit text lite key ↔ PathOk limit text lite key := by
  have hguard : ¬(lite.type ≠ .cjsonObject ∨ lite.size = 0 ∨ key = []) := by
    rintro (hne | hzero | hnil)
    · exact hne htype
    · exact hsize hzero
    · exact hkey hnil
  have hresult : ∀ out, liteCjsonObjectItem limit text lite key out = _ := fun out => if_neg hguard
  rcases objectItemLoop_follows h (Nat.lt_succ_self key.length) with
    ⟨hover, hrun⟩ | ⟨hfits, ⟨value, hwalk, hrun⟩ | ⟨hnone, hrun⟩⟩
  · rw [hrun] at hresult
    refine iff_of_false (fun hlaw => ?_) fun hok => hok.fits hsize hover
    have hfails := hlaw.fails lite fun value heq => by
      rw [hresult] at heq
      cases heq
    rw [hresult] at hfails
    cases hfails
  · rw [hrun] at hresult
    constructor
    · intro hlaw
      exact ⟨fun _ => hfits, fun _ _ =>
        digits_of_walks h hfits (hlaw.sound lite value (hresult lite)) hwalk⟩
    · intro hok
      refine ⟨fun out value' heq => ?_, fun out value' hsegments hdenotes => ?_, fun out hne => ?_⟩
      · obtain rfl := (Prod.mk.inj (Except.ok.inj ((hresult out).symm.trans heq))).2
        exact denotes_of_reads hfits hwalk (hok.digits value hwalk)
      · obtain rfl := Walk.unique h hwalk (reads_of_denotes hfits hdenotes hsegments)
        exact hresult out
      · exact absurd (hresult out) (hne value)
  · rw [hrun] at hresult
    refine iff_of_true ⟨fun out value heq => ?_, fun out value hsegments hdenotes => ?_,
      fun out _ => hresult out⟩ ⟨fun _ => hfits, fun value hwalk => absurd hwalk (hnone value)⟩
    · rw [hresult] at heq
      exact absurd (Prod.mk.inj (Except.ok.inj heq)).1 (by decide)
    · exact absurd (reads_of_denotes hfits hdenotes hsegments) (hnone value)

end Steps

/-- **Path lookup.**  In an object that has been got from a text, a key is looked up right if and
only if it meets the condition.  All entries that the sizes count are there. -/
theorem lite_cjson_object_item_iff (limit : ℕ) (text : Bytes) (lite : Item)
    (hlite : Reached limit text lite) (htype : lite.type = .cjsonObject) (key : Bytes) :
    (PathLaw limit text lite key ↔ PathOk limit text lite key) ∧
      ∀ item, Reached limit text item → ∀ i < item.size,
        (item.type = .cjsonArray → ∃ value, IsElement limit text item i value) ∧
        (item.type = .cjsonObject →
          ∃ found, liteCjsonObjectItemByIndex limit text item i = .ok found) := by
  constructor
  · by_cases hrefused : lite.size = 0 ∨ key = []
    · exact iff_of_true (pathLaw_of_refused hrefused) (pathOk_of_refused hrefused)
    · obtain ⟨hsize, hkey⟩ := not_or.mp hrefused
      exact pathLaw_iff hlite.isParsed htype hsize hkey
  · intro item hitem i hi
    exact entries_of_size hitem.isParsed hi

/-- The text `{"a":[1]}`. -/
def textA : Bytes := [0x7b, 0x22, 0x61, 0x22, 0x3a, 0x5b, 0x31, 0x5d, 0x7d]

/-- The item of `{"a":[1]}`. -/
def liteA : Item := ⟨.cjsonObject, 0, 9, 1⟩

theorem reached_liteA : Reached 1000 textA liteA := by
  apply Reached.parse
  decide +kernel

/-- The key `a[0]`. -/
theorem lite_cjson_object_item_textA :
    PathLaw 1000 textA liteA [0x61, 0x5b, 0x30, 0x5d] ↔
      PathOk 1000 textA liteA [0x61, 0x5b, 0x30, 0x5d] :=
  (lite_cjson_object_item_iff 1000 textA liteA reached_liteA rfl [0x61, 0x5b, 0x30, 0x5d]).1

/-- The keys `a[00000000000]` and `a[x]`. -/
theorem lite_cjson_object_item_overruns :
    ¬PathLaw 1000 textA liteA (0x61 :: 0x5b :: (List.replicate 11 0x30 ++ [0x5d])) ∧
      ¬PathLaw 1000 textA liteA [0x61, 0x5b, 0x78, 0x5d] := by
  constructor
  · intro hlaw
    have hrun : liteCjsonObjectItem 1000 textA liteA
        (0x61 :: 0x5b :: (List.replicate 11 0x30 ++ [0x5d])) liteA = .error .outside := by
      decide +kernel
    have hfails := hlaw.fails liteA fun value heq => by
      rw [hrun] at heq
      cases heq
    rw [hrun] at hfails
    cases hfails
  · intro hlaw
    have hrun : liteCjsonObjectItem 1000 textA liteA [0x61, 0x5b, 0x78, 0x5d] liteA =
        .ok (0, ⟨.cjsonNumber, 6, 1, 0⟩) := by
      decide +kernel
    have hsegment : Bracketed [0x61, 0x5b, 0x78, 0x5d] [0x61] [0x78] :=
      ⟨rfl, ⟨by decide, by decide⟩, ⟨by decide, by decide⟩, by decide⟩
    have hwalk := hlaw.sound liteA _ hrun
    have hpath : levels 0x2e ([0x61, 0x5b, 0x78, 0x5d] : Bytes) =
        [[0x61, 0x5b, 0x78, 0x5d]] := levels_of_notMem (by decide)
    rw [hpath] at hwalk
    cases hwalk with
    | cons hdenotes hrest =>
      cases hdenotes with
      | name _ hmember =>
        -- the only member is `a`
        obtain ⟨i, key, hi, hkey, -⟩ := hmember
        by_cases hzero : i = 0
        · rw [hzero] at hi
          have hget : liteCjsonObjectItemByIndex 1000 textA liteA ((0 : ℕ) : ℤ) =
              .ok (⟨.cjsonString, 2, 1, 0⟩, ⟨.cjsonArray, 5, 3, 1⟩) := by
            decide +kernel
          obtain ⟨rfl, -⟩ := Prod.mk.inj (Except.ok.inj (hget.symm.trans hi))
          exact absurd hkey (by decide)
        · have hout : liteCjsonObjectItemByIndex 1000 textA liteA i = .error .error :=
            liteCjsonObjectItemByIndex_error
              (Or.inr (Or.inr (Or.inr (by show ((1 : ℕ) : ℤ) ≤ i; omega))))
          rw [hout] at hi
          cases hi
      | index hsegment' _ hdigits _ _ =>
        have hindex := (hsegment.unique hsegment').2
        have hx := hdigits 0x78 (hindex ▸ mem_cons_self)
        exact absurd hx (by decide)

end Iotkit.Cjson
