/-
# The parts of a key (`dm_shadow.c`)

A search takes a key apart at the first delimiter that has something behind it.  What stands in
front of it is a name, or a name with an index text in brackets; an index text behind no name is
read and then not used.

A node is found by the name, and the rest of the key is looked for below it.
-/
import Iotkit.Shadow

namespace Iotkit.Shadow

open LibC List
open Cjson (NoBracket Bracketed IsDigits Overruns)

/-! ## Parts -/

/-- The first part of a key, and what stands behind the delimiter. -/
structure KeyPart where
  name : Bytes
  index : Option Bytes
  rest : Option Bytes

namespace KeyPart

def taken (p : KeyPart) : Option Bytes := if p.name = [] then none else p.index

def behind (p : KeyPart) : Bytes := p.rest.getD []

end KeyPart

def bracketText : Option Bytes → Bytes
  | none => []
  | some text => 0x5b :: (text ++ [0x5d])

def restText : Option Bytes → Bytes
  | none => []
  | some rest => keyDelimiter :: rest

/-- A key that is put together of its parts. -/
structure KeyPart.Cuts (p : KeyPart) (key : Bytes) : Prop where
  key : key = p.name ++ (bracketText p.index ++ restText p.rest)
  bracketed : ∀ text, p.index = some text → NoBracket text ∧ text ≠ [] ∧ ¬ Overruns text

/-- The parts of a key, unless its index text does not fit. -/
def keyPart (key : Bytes) : Option KeyPart :=
  (keyStart key).map fun start =>
    ⟨key.take start.partialOffset,
      if start.partialOffset = start.deliOffset then none
      else some ((key.take (start.deliOffset - 1)).drop (start.partialOffset + 1)),
      if start.deliOffset = key.length then none else some (key.drop (start.deliOffset + 1))⟩

/-! ## The first delimiter -/

theorem memtok_eq_some {delimiter : UInt8} {pos n : ℕ} {key : Bytes}
    (h : memtok delimiter 1 pos key = some n) :
    ∃ seg rest, key = seg ++ delimiter :: rest ∧ rest ≠ [] ∧ delimiter ∉ seg ∧
      n = pos + seg.length := by
  induction key generalizing pos with
  | nil => cases h
  | cons c key ih =>
    rw [memtok] at h
    by_cases hc : c = delimiter ∧ key ≠ []
    · rw [if_pos hc, if_pos rfl] at h
      obtain ⟨rfl, hne⟩ := hc
      exact ⟨[], key, rfl, hne, not_mem_nil, (Option.some.inj h).symm⟩
    rw [if_neg hc] at h
    obtain ⟨seg, rest, rfl, hne, hfree, rfl⟩ := ih h
    have hc' : delimiter ≠ c := fun heq => hc ⟨heq.symm, by simp⟩
    refine ⟨c :: seg, rest, rfl, hne, not_mem_cons_of_ne_of_not_mem hc' hfree, ?_⟩
    rw [length_cons]
    omega

theorem deliOffset_split (key : Bytes) :
    ∃ seg rest, key = seg ++ restText rest ∧ deliOffset key = seg.length ∧
      ∀ r, rest = some r → r ≠ [] ∧ keyDelimiter ∉ seg := by
  rw [deliOffset]
  cases hmem : memtok keyDelimiter 1 0 key with
  | none =>
    refine ⟨key, none, (append_nil key).symm, rfl, fun r hr => ?_⟩
    cases hr
  | some n =>
    obtain ⟨seg, rest, hkey, hne, hfree, hn⟩ := memtok_eq_some hmem
    rw [Nat.zero_add] at hn
    refine ⟨seg, some rest, hkey, hn, fun r hr => ?_⟩
    cases hr
    exact ⟨hne, hfree⟩

theorem deliOffset_of_notMem {seg : Bytes} (h : keyDelimiter ∉ seg) :
    deliOffset seg = seg.length := by
  rw [deliOffset]
  cases hmem : memtok keyDelimiter 1 0 seg with
  | none => rfl
  | some n =>
    obtain ⟨seg', rest, hseg, -⟩ := memtok_eq_some hmem
    rw [hseg] at h
    exact absurd (mem_append_right seg' mem_cons_self) h

theorem keyStart_deliOffset {key : Bytes} {start : KeyStart} (h : keyStart key = some start) :
    start.deliOffset = deliOffset key := by
  rw [keyStart] at h
  cases hindex : strarrIndex (key.take (deliOffset key)) with
  | fail | index =>
    rw [hindex] at h
    rw [← Option.some.inj h]
  | overflow =>
    rw [hindex] at h
    cases h

theorem deliOffset_le (key : Bytes) : deliOffset key ≤ key.length := by
  obtain ⟨seg, rest, hkey, hoffset, -⟩ := deliOffset_split key
  rw [hoffset, hkey, length_append]
  exact Nat.le_add_right _ _

section Split

variable (seg : Bytes) (rest : Option Bytes)

theorem length_restText_iff :
    seg.length = (seg ++ restText rest).length ↔ rest = none := by
  cases rest with
  | none => simp [restText]
  | some rest => simp [restText]

theorem drop_restText :
    (seg ++ restText rest).drop (seg.length + 1) = rest.getD [] := by
  rw [← drop_drop, drop_left]
  cases rest <;> rfl

end Split

/-! ## Brackets -/

theorem strarrScan_eq (key : Bytes) (prev : UInt8) (pos deep : ℕ) (pre suf : Option ℕ) :
    strarrScan prev pos deep pre suf key =
      (Cjson.bracketLoop key pos prev ⟨deep, pre, suf⟩).map fun b => (b.pre, b.suf) := by
  induction key generalizing prev pos deep pre suf with
  | nil => rfl
  | cons c key ih =>
    rw [strarrScan, Cjson.bracketLoop]
    by_cases hpre : c = 0x5b
    · rw [if_pos hpre, if_pos hpre]
      by_cases hdeep : deep ≠ 0
      · rw [if_pos hdeep, if_pos hdeep]
        rfl
      · rw [if_neg hdeep, if_neg hdeep, ih, not_not.mp hdeep]
        cases pre <;> rfl
    rw [if_neg hpre, if_neg hpre]
    by_cases hsuf : c = 0x5d
    · rw [if_pos hsuf, if_pos hsuf]
      by_cases hdeep : deep ≠ 1
      · rw [if_pos (Or.inl hdeep), if_pos hdeep]
        rfl
      rw [if_neg hdeep]
      by_cases hprev : prev = 0x5b
      · rw [if_pos (Or.inr hprev), if_pos hprev]
        rfl
      · rw [if_neg (not_or.mpr ⟨hdeep, hprev⟩), if_neg hprev, ih, not_not.mp hdeep]
        cases suf <;> rfl
    · rw [if_neg hsuf, if_neg hsuf]
      exact ih c (pos + 1) deep pre suf

theorem strarrIndex_eq (seg : Bytes) :
    strarrIndex seg = match Cjson.keyArrayIndex seg with
      | .ok found => .index found.partialKeyLen found.arrayIndex
      | .error .outside => .overflow
      | .error _ => .fail := by
  rw [strarrIndex]
  by_cases hshort : seg.length ≤ 1
  · have hother : Cjson.keyArrayIndex seg = .error .error := by
      apply Cjson.keyArrayIndex_other
      intro name index h
      rw [h.eq] at hshort
      simp only [length_append, length_cons, length_nil] at hshort
      omega
    rw [if_pos hshort, hother]
  rw [if_neg hshort, strarrScan_eq, Cjson.keyArrayIndex]
  rcases Cjson.bracketLoop seg 0 0 ⟨0, none, none⟩ with _ | ⟨deep, _ | pre, _ | suf⟩
  · rfl
  · rfl
  · rfl
  · rfl
  · dsimp only [Option.map_some]
    split_ifs <;> rfl

/-- How the start of a key is read: a name alone, or with an index text in brackets. -/
theorem strarrIndex_cases (seg : Bytes) :
    ((∀ name text, ¬ Bracketed seg name text) ∧ strarrIndex seg = .fail) ∨
      ∃ name text, Bracketed seg name text ∧
        strarrIndex seg = if Overruns text then .overflow else .index name.length (atoi text) := by
  rw [strarrIndex_eq]
  by_cases hshape : ∃ name text, Bracketed seg name text
  · obtain ⟨name, text, h⟩ := hshape
    refine .inr ⟨name, text, h, ?_⟩
    rw [Cjson.keyArrayIndex_bracketed h]
    split_ifs <;> rfl
  · have hother : ∀ name text, ¬ Bracketed seg name text := fun name text h =>
      hshape ⟨name, text, h⟩
    rw [Cjson.keyArrayIndex_other hother]
    exact .inl ⟨hother, rfl⟩

/-! ## What a search reads off a key -/

/-- The parts of a key that is read, and what the search goes by. -/
structure KeyStart.Reads (start : KeyStart) (key : Bytes) (p : KeyPart) : Prop where
  part : keyPart key = some p
  cuts : p.Cuts key
  name : key.take start.partialOffset = p.name
  tail : key.drop start.partialOffset = bracketText p.index ++ restText p.rest
  last : start.deliOffset = key.length ↔ p.rest = none
  behind : key.drop (start.deliOffset + 1) = p.behind
  plain : start.partialInputLen = 0 ↔ p.taken = none
  index : ∀ text, p.index = some text → start.arrayIndex = atoi text

theorem keyPart_eq_none {key : Bytes} (h : keyStart key = none) : keyPart key = none := by
  rw [keyPart, h, Option.map_none]

theorem keyStart_reads {key : Bytes} {start : KeyStart} (hstart : keyStart key = some start) :
    ∃ p, start.Reads key p := by
  obtain ⟨seg, rest, hkey, hoffset, -⟩ := deliOffset_split key
  have htake : key.take (deliOffset key) = seg := by rw [hoffset, hkey, take_left]
  have hlast : deliOffset key = key.length ↔ rest = none := by
    rw [hoffset, hkey]
    exact length_restText_iff seg rest
  have hbehind : key.drop (deliOffset key + 1) = rest.getD [] := by
    rw [hoffset, hkey]
    exact drop_restText seg rest
  have hrest :
      (if deliOffset key = key.length then none else some (key.drop (deliOffset key + 1))) =
        rest := by
    cases rest with
    | none => exact if_pos (hlast.mpr rfl)
    | some rest =>
      rw [if_neg (fun h => by cases hlast.mp h), hbehind]
      rfl
  rw [keyStart, htake] at hstart
  rcases strarrIndex_cases seg with ⟨hother, hscan⟩ | ⟨name, text, hbracketed, hscan⟩
  · rw [hscan] at hstart
    have heq := Option.some.inj hstart
    subst heq
    refine ⟨⟨seg, none, rest⟩, ?_, ⟨hkey, ?_⟩, htake, ?_, hlast, hbehind, ?_, ?_⟩
    · rw [keyPart, keyStart, htake, hscan, Option.map_some]
      dsimp only
      rw [htake, if_pos rfl, hrest]
    · intro text htext
      cases htext
    · show key.drop (deliOffset key) = restText rest
      rw [hoffset, hkey, drop_left]
    · simp [KeyPart.taken]
    · intro text htext
      cases htext
  · rw [hscan] at hstart
    by_cases hover : Overruns text
    · rw [if_pos hover] at hstart
      cases hstart
    rw [if_neg hover] at hstart
    have heq := Option.some.inj hstart
    subst heq
    have hcut : key = name ++ (bracketText (some text) ++ restText rest) := by
      rw [hkey, hbracketed.eq, bracketText, append_assoc]
    have hseg : deliOffset key = name.length + text.length + 2 := by
      rw [hoffset, hbracketed.eq]
      simp only [length_append, length_cons, length_nil]
      omega
    have hname : key.take name.length = name := by rw [hcut, take_left]
    have hindex : (key.take (deliOffset key - 1)).drop (name.length + 1) = text := by
      have hlen : deliOffset key - 1 = name.length + (1 + text.length) := by omega
      rw [hlen, hcut, take_length_add_append, ← drop_drop, drop_left, bracketText,
        cons_append, Nat.add_comm 1, take_succ_cons, append_assoc, take_left]
      rfl
    refine ⟨⟨name, some text, rest⟩, ?_, ⟨hcut, ?_⟩, hname, ?_, hlast, hbehind, ?_, ?_⟩
    · rw [keyPart, keyStart, htake, hscan, if_neg hover, Option.map_some]
      dsimp only
      rw [hname, if_neg (by omega), hindex, hrest]
    · intro text' htext
      cases htext
      exact ⟨hbracketed.indexFree, hbracketed.nonempty, hover⟩
    · show key.drop name.length = _
      rw [hcut, drop_left]
    · show name.length = 0 ↔ (if name = [] then none else some text) = none
      rw [length_eq_zero_iff]
      split_ifs with hnil
      · simp [hnil]
      · simp [hnil]
    · intro text' htext
      cases htext
      rfl

/-! ## Nodes of a search -/

/-- The type and the number of the elements of an array of values. -/
def ShwData.values : ShwData → Option (DataType × ℤ)
  | .cells _ elem size _ => some (elem, size)
  | .unallocated _ .array elem size => some (elem, size)
  | _ => none

theorem values_eq_some {item : ShwData} {elem : DataType} {size : ℤ}
    (h : item.values = some (elem, size)) :
    (∃ identifier block, item = .cells identifier elem size block) ∨
      ∃ identifier, item = .unallocated identifier .array elem size := by
  cases item with
  | scalar | null | datas => cases h
  | cells identifier _ _ block =>
    cases h
    exact .inl ⟨identifier, block, rfl⟩
  | unallocated identifier type _ _ =>
    cases type with
    | array =>
      cases h
      exact .inr ⟨identifier, rfl⟩
    | none | int | float | double | text | enum | date | bool | struct => cases h

theorem type_of_values {item : ShwData} {elem : DataType} {size : ℤ}
    (h : item.values = some (elem, size)) : item.type = .array := by
  rcases values_eq_some h with ⟨identifier, block, rfl⟩ | ⟨identifier, rfl⟩
  · rfl
  · rfl

/-- An array has values, or structs, or is not filled. -/
theorem array_cases {item : ShwData} (htype : item.type = .array) :
    (∃ elem size, item.values = some (elem, size)) ∨
      (∃ identifier elem size block, item = .datas identifier .array elem size block) ∨
        item.values = none ∧
          ∀ identifier elem size block, item ≠ .datas identifier .array elem size block := by
  cases item with
  | scalar | null =>
    refine .inr (.inr ⟨rfl, ?_⟩)
    intro identifier elem size block h
    cases h
  | cells identifier elem size block => exact .inl ⟨elem, size, rfl⟩
  | unallocated identifier type elem size =>
    rw [ShwData.type] at htype
    subst htype
    exact .inl ⟨elem, size, rfl⟩
  | datas identifier type elem size block =>
    rw [ShwData.type] at htype
    subst htype
    exact .inr (.inl ⟨identifier, elem, size, block, rfl⟩)

/-- What is looked for in an element: the first part of what stands behind the index. -/
def KeyPart.sought (p : KeyPart) : Bytes := p.behind.take (deliOffset p.behind)

section Nodes

variable {key : Bytes} {start : KeyStart} {p : KeyPart} {item : ShwData}

variable {text : Bytes}

theorem KeyStart.Reads.indexed (hp : start.Reads key p) (htaken : p.taken = some text) :
    p.name ≠ [] ∧ p.index = some text ∧ start.partialInputLen ≠ 0 ∧
      start.arrayIndex = atoi text := by
  have hname : p.name ≠ [] := by
    intro hnil
    rw [KeyPart.taken, if_pos hnil] at htaken
    cases htaken
  have hindex : p.index = some text := by rwa [KeyPart.taken, if_neg hname] at htaken
  refine ⟨hname, hindex, fun hzero => ?_, hp.index text hindex⟩
  have hnone := hp.plain.mp hzero
  rw [htaken] at hnone
  cases hnone

theorem itemSearch_of_none (hstart : keyStart key = some start) (htype : item.type = .none)
    (addr : Addr) : itemSearch item addr key = .fail := by
  unfold itemSearch
  split
  · next h =>
    rw [hstart] at h
    cases h
  · rw [htype]
    rfl

variable (hstart : keyStart key = some start) (hp : start.Reads key p)
include hstart hp

theorem itemSearch_of_scalar (htype : item.type.isScalar = true) (addr : Addr) :
    itemSearch item addr key =
      if p.taken = none ∧ p.rest = none then .found (addr, 0) else .fail := by
  have hiff : (start.partialInputLen ≠ 0 ∨ start.deliOffset ≠ key.length) ↔
      ¬ (p.taken = none ∧ p.rest = none) := by
    rw [← hp.plain, ← hp.last, not_and_or]
  unfold itemSearch
  rw [match_keyStart hstart]
  rw [if_pos htype]
  by_cases hplain : p.taken = none ∧ p.rest = none
  · rw [if_pos hplain, if_neg (fun h => hiff.mp h hplain)]
  · rw [if_neg hplain, if_pos (hiff.mpr hplain)]

theorem itemSearch_of_array (htype : item.type = .array) (htaken : p.taken = none) (addr : Addr) :
    itemSearch item addr key = if p.rest = none then .found (addr, 0) else .fail := by
  have hscalar : ¬ item.type.isScalar = true := by
    rw [htype]
    decide
  unfold itemSearch
  rw [match_keyStart hstart]
  rw [if_neg hscalar, if_pos htype, dif_pos (hp.plain.mpr htaken)]
  by_cases hlast : p.rest = none
  · rw [if_pos hlast, if_pos (hp.last.mpr hlast)]
  · rw [if_neg hlast, if_neg (mt hp.last.mp hlast)]

theorem itemSearch_of_struct (htype : item.type = .struct) (addr : Addr) :
    itemSearch item addr key = if p.rest = none then .found (addr, 0)
      else if p.taken ≠ none then .fail
      else structSearch item addr p.behind := by
  have hscalar : ¬ item.type.isScalar = true := by
    rw [htype]
    decide
  have harray : ¬ item.type = .array := by
    rw [htype]
    decide
  conv_lhs => unfold itemSearch
  rw [match_keyStart hstart]
  rw [if_neg hscalar, if_neg harray, if_pos htype, hp.behind]
  by_cases hlast : p.rest = none
  · rw [if_pos hlast, dif_pos (hp.last.mpr hlast)]
  · rw [if_neg hlast, dif_neg (mt hp.last.mp hlast)]
    by_cases hplain : p.taken = none
    · rw [if_neg (not_not.mpr hplain), if_neg (not_not.mpr (hp.plain.mpr hplain))]
    · rw [if_pos hplain, if_pos (mt hp.plain.mp hplain)]

theorem itemSearch_of_values {elem : DataType} {size : ℤ}
    (hvalues : item.values = some (elem, size)) (htaken : p.taken = some text) (addr : Addr) :
    itemSearch item addr key =
      if elem.isScalar = true ∧ p.sought = p.behind then .found (addr, atoi text) else .fail := by
  obtain ⟨-, -, hlen, hindex⟩ := hp.indexed htaken
  have hsought : deliOffset p.behind = p.behind.length ↔ p.sought = p.behind := by
    rw [KeyPart.sought, take_eq_self_iff]
    exact ⟨fun h => h.ge, (deliOffset_le p.behind).antisymm⟩
  have harray : item.type = .array := type_of_values hvalues
  have hscalar : ¬ item.type.isScalar = true := by
    rw [harray]
    decide
  unfold itemSearch
  rw [match_keyStart hstart]
  rw [if_neg hscalar, if_pos harray, dif_neg hlen, hp.behind, hindex]
  rcases values_eq_some hvalues with ⟨identifier, block, rfl⟩ | ⟨identifier, rfl⟩
  · simp only [hsought]
  · simp only [hsought]

theorem itemSearch_of_unfilled (htype : item.type = .array) (hvalues : item.values = none)
    (hdatas : ∀ identifier elem size block, item ≠ .datas identifier .array elem size block)
    (htaken : p.taken = some text) (addr : Addr) : itemSearch item addr key = .nullRead := by
  obtain ⟨-, -, hlen, -⟩ := hp.indexed htaken
  have hscalar : ¬ item.type.isScalar = true := by
    rw [htype]
    decide
  unfold itemSearch
  rw [match_keyStart hstart]
  rw [if_neg hscalar, if_pos htype, dif_neg hlen]
  cases item with
  | scalar | null => rfl
  | cells => cases hvalues
  | unallocated identifier type =>
    rw [ShwData.type] at htype
    subst htype
    cases hvalues
  | datas identifier type elem size block =>
    rw [ShwData.type] at htype
    subst htype
    exact absurd rfl (hdatas identifier elem size block)

theorem itemSearch_of_structs (identifier : Option Bytes) (elem : DataType) (size : ℤ)
    (block : List ShwData) (htaken : p.taken = some text) (addr : Addr) :
    itemSearch (.datas identifier .array elem size block) addr key = if atoi text < 0 then .outside
      else
        match block[(atoi text).toNat]? with
        | none => .outside
        | some data => structSearch data (addr ++ [(atoi text).toNat]) p.sought := by
  obtain ⟨-, -, hlen, hindex⟩ := hp.indexed htaken
  rw [itemSearch_structs hstart, if_neg hlen, hindex, hp.behind]
  rfl

end Nodes

end Iotkit.Shadow
