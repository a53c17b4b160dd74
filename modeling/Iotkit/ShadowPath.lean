/-
# Paths in a thing model (`dm_shadow.c`)

A path names a node by identifiers with a delimiter between them, an element of an array by its
index in brackets.  The search of an element is given the first part of what is left of the key
alone, its index is not compared with the size, an index behind a struct that ends the key is not
looked at, and the lookups of events and services return success when nothing is found.
-/
import Iotkit.ShadowKey
import Iotkit.ShadowTree

namespace Iotkit.Shadow

open LibC List
open Cjson (NoBracket IsDigits Overruns)

/-! ## What a path denotes -/

/-- The identifier of a node is the name. -/
def ShwData.HasName (d : ShwData) (name : Bytes) : Prop :=
  ∃ identifier, d.identifier = some identifier ∧ identifierIs identifier name = true

theorem ShwData.HasName.unique {d : ShwData} {name name' : Bytes} (h : d.HasName name)
    (h' : d.HasName name') : name = name' := by
  obtain ⟨identifier, hid, his⟩ := h
  obtain ⟨identifier', hid', his'⟩ := h'
  obtain rfl := Option.some.inj (hid.symm.trans hid')
  rw [identifierIs, decide_eq_true_eq] at his his'
  exact his.symm.trans his'

/-- What stands behind the name of a node denotes the node itself, an element of an array with a
name, or a field of a struct, and so on below it: where that is, and the index of a value. -/
inductive Denotes : ShwData → Bytes → Addr × ℤ → Prop
  | self (d : ShwData) : Denotes d [] ([], 0)
  | value {d : ShwData} {elem : DataType} {size : ℤ} {text : Bytes}
      (hname : ¬ d.HasName []) (hvalues : d.values = some (elem, size))
      (helem : elem.isScalar = true) (hne : text ≠ []) (hdigits : IsDigits text)
      (hlt : (digitsVal text : ℤ) < size) :
      Denotes d (bracketText (some text)) ([], digitsVal text)
  | element {identifier : Option Bytes} {elem : DataType} {size : ℤ} {block : List ShwData}
      {text rest : Bytes} {data : ShwData} {x : Addr × ℤ}
      (hname : ¬ (ShwData.datas identifier .array elem size block).HasName []) (hne : text ≠ [])
      (hdigits : IsDigits text) (hlt : (digitsVal text : ℤ) < size)
      (hdata : block[digitsVal text]? = some data) (hrest : Denotes data rest x) :
      Denotes (.datas identifier .array elem size block) (bracketText (some text) ++ rest)
        (digitsVal text :: x.1, x.2)
  | field {identifier : Option Bytes} {elem : DataType} {size : ℤ} {block : List ShwData}
      {name rest : Bytes} {i : ℕ} {item : ShwData} {x : Addr × ℤ}
      (hitem : (block.take size.toNat)[i]? = some item) (hname : item.HasName name)
      (hrest : Denotes item rest x) :
      Denotes (.datas identifier .struct elem size block) (keyDelimiter :: (name ++ rest))
        (i :: x.1, x.2)

section Denotation

variable {d : ShwData} {x : Addr × ℤ}

theorem denotes_nil_iff : Denotes d [] x ↔ x = ([], 0) := by
  constructor
  · intro h
    generalize hkey : ([] : Bytes) = key at h
    cases h with
    | self => rfl
    | value | element | field => cases hkey
  · rintro rfl
    exact .self d

/-- What stands behind a delimiter is looked for among the fields of a struct. -/
theorem Denotes.dot {key : Bytes} (h : Denotes d (keyDelimiter :: key) x) :
    ∃ identifier elem size block, d = .datas identifier .struct elem size block ∧
      ∃ name rest i item x', (block.take size.toNat)[i]? = some item ∧ item.HasName name ∧
        key = name ++ rest ∧ Denotes item rest x' ∧ x = (i :: x'.1, x'.2) := by
  generalize hkey : keyDelimiter :: key = whole at h
  cases h with
  | self => cases hkey
  | value => exact absurd (List.cons.inj hkey).1 (by decide)
  | element => exact absurd (List.cons.inj hkey).1 (by decide)
  | field hitem hname hrest =>
    obtain ⟨-, rfl⟩ := List.cons.inj hkey
    exact ⟨_, _, _, _, rfl, _, _, _, _, _, hitem, hname, rfl, hrest, rfl⟩

variable {text rest : Bytes}

theorem bracketText_append_inj {text' rest' : Bytes} (htext : 0x5d ∉ text)
    (htext' : 0x5d ∉ text')
    (h : bracketText (some text) ++ rest = bracketText (some text') ++ rest') :
    text = text' ∧ rest = rest' := by
  have hsplit : ∀ t r : Bytes, 0x5d ∉ t →
      (t ++ 0x5d :: r).takeWhile (· ≠ 0x5d) = t := by
    intro t r ht
    have hall : ∀ c ∈ t, decide (c ≠ 0x5d) = true := fun c hc =>
      decide_eq_true fun heq => ht (heq ▸ hc)
    rw [takeWhile_append_of_pos hall]
    exact append_nil t
  have h' : text ++ 0x5d :: rest = text' ++ 0x5d :: rest' := by
    simpa [bracketText] using h
  have heq : text = text' := by rw [← hsplit text rest htext, h', hsplit text' rest' htext']
  subst heq
  exact ⟨rfl, (List.cons.inj (append_cancel_left h')).2⟩

theorem notMem_of_isDigits (h : IsDigits text) : (0x5d : UInt8) ∉ text :=
  fun hmem => absurd (h _ hmem) (by decide)

/-- The index text of an element: digits behind a name, and a number below the size. -/
structure IndexOf (d : ShwData) (text : Bytes) (size : ℤ) : Prop where
  name : ¬ d.HasName []
  nonempty : text ≠ []
  digits : IsDigits text
  lt : (digitsVal text : ℤ) < size

/-- What stands behind the index of an array of values. -/
theorem denotes_values_iff {elem : DataType} {size : ℤ} (hvalues : d.values = some (elem, size))
    (htext : NoBracket text) :
    Denotes d (bracketText (some text) ++ rest) x ↔
      IndexOf d text size ∧ elem.isScalar = true ∧ rest = [] ∧
        x = (([], (digitsVal text : ℤ)) : Addr × ℤ) := by
  constructor
  · intro h
    generalize hkey : bracketText (some text) ++ rest = key at h
    cases h with
    | self => cases hkey
    | value hname hvalues' helem hne hdigits hlt =>
      obtain ⟨rfl, rfl⟩ := bracketText_append_inj htext.2 (notMem_of_isDigits hdigits)
        (hkey.trans (append_nil _).symm)
      obtain ⟨rfl, rfl⟩ := Prod.mk.inj (Option.some.inj (hvalues.symm.trans hvalues'))
      exact ⟨⟨hname, hne, hdigits, hlt⟩, helem, rfl, rfl⟩
    | element => cases hvalues
    | field => exact absurd (List.cons.inj hkey).1 (by decide)
  · rintro ⟨⟨hname, hne, hdigits, hlt⟩, helem, rfl, rfl⟩
    rw [append_nil]
    exact .value hname hvalues helem hne hdigits hlt

/-- What stands behind the index of an array of structs. -/
theorem denotes_structs_iff {identifier : Option Bytes} {elem : DataType} {size : ℤ}
    {block : List ShwData} (htext : NoBracket text) :
    Denotes (.datas identifier .array elem size block) (bracketText (some text) ++ rest) x ↔
      IndexOf (.datas identifier .array elem size block) text size ∧
        ∃ data x', block[digitsVal text]? = some data ∧ Denotes data rest x' ∧
          x = (digitsVal text :: x'.1, x'.2) := by
  constructor
  · intro h
    generalize hkey : bracketText (some text) ++ rest = key at h
    generalize hd : ShwData.datas identifier .array elem size block = d at h
    cases h with
    | self => cases hkey
    | value hname hvalues =>
      rw [← hd] at hvalues
      cases hvalues
    | element hname hne hdigits hlt hdata hrest =>
      obtain ⟨rfl, rfl⟩ := bracketText_append_inj htext.2 (notMem_of_isDigits hdigits) hkey
      cases hd
      exact ⟨⟨hname, hne, hdigits, hlt⟩, _, _, hdata, hrest, rfl⟩
    | field => exact absurd (List.cons.inj hkey).1 (by decide)
  · rintro ⟨⟨hname, hne, hdigits, hlt⟩, data, x', hdata, hrest, rfl⟩
    exact .element hname hne hdigits hlt hdata hrest

theorem Denotes.bracket (h : Denotes d (bracketText (some text) ++ rest) x) :
    d.type = .array ∧ ¬ d.HasName [] := by
  generalize hkey : bracketText (some text) ++ rest = key at h
  cases h with
  | self => cases hkey
  | value hname hvalues => exact ⟨type_of_values hvalues, hname⟩
  | element hname => exact ⟨rfl, hname⟩
  | field => exact absurd (List.cons.inj hkey).1 (by decide)

end Denotation

/-! ## The law of a lookup -/

/-- What is wanted of a search that starts at a place: it finds what is denoted, and else it is an
error, with nothing read outside. -/
structure Law (r : Search (Addr × ℤ)) (addr : Addr) (denotes : Addr × ℤ → Prop) : Prop where
  found : ∀ y, r = .found y ↔ ∃ x, denotes x ∧ y = (addr ++ x.1, x.2)
  nullRead : r ≠ .nullRead
  outside : r ≠ .outside

section Laws

variable {addr : Addr} {denotes : Addr × ℤ → Prop}

theorem law_fail_iff : Law .fail addr denotes ↔ ∀ x, ¬ denotes x := by
  constructor
  · intro h x hx
    cases (h.found _).mpr ⟨x, hx, rfl⟩
  · intro h
    refine ⟨fun y => ⟨fun hy => ?_, ?_⟩, ?_, ?_⟩
    · cases hy
    · rintro ⟨x, hx, -⟩
      exact absurd hx (h x)
    · intro hc
      cases hc
    · intro hc
      cases hc

theorem law_found_iff (x : Addr × ℤ) :
    Law (.found (addr ++ x.1, x.2)) addr denotes ↔ ∀ x', denotes x' ↔ x' = x := by
  have hinj (x' : Addr × ℤ) (h : (addr ++ x.1, x.2) = (addr ++ x'.1, x'.2)) : x' = x := by
    obtain ⟨h1, h2⟩ := Prod.mk.inj h
    exact Prod.ext (append_cancel_left h1).symm h2.symm
  constructor
  · intro h x'
    constructor
    · intro hx'
      have heq := (h.found _).mpr ⟨x', hx', rfl⟩
      exact hinj x' (Search.found.inj heq)
    · rintro rfl
      obtain ⟨y, hy, heq⟩ := (h.found _).mp rfl
      rw [← hinj y heq]
      exact hy
  · intro h
    refine ⟨fun y => ⟨fun hy => ?_, ?_⟩, ?_, ?_⟩
    · exact ⟨x, (h x).mpr rfl, (Search.found.inj hy).symm⟩
    · rintro ⟨x', hx', rfl⟩
      rw [(h x').mp hx']
    · intro hc
      cases hc
    · intro hc
      cases hc

theorem law_here_iff (n : ℤ) :
    Law (.found (addr, n)) addr denotes ↔ ∀ x, denotes x ↔ x = ([], n) := by
  have h : Law (.found (addr ++ [], n)) addr denotes ↔ ∀ x, denotes x ↔ x = ([], n) :=
    law_found_iff ([], n)
  rwa [append_nil] at h

theorem law_none_iff {r : Search (Addr × ℤ)} (hnone : ∀ x, ¬ denotes x) :
    Law r addr denotes ↔ r = .fail := by
  constructor
  · intro h
    cases r with
    | fail => rfl
    | found y =>
      obtain ⟨x, hx, -⟩ := (h.found y).mp rfl
      exact absurd hx (hnone x)
    | nullRead => exact absurd rfl h.nullRead
    | outside => exact absurd rfl h.outside
  · rintro rfl
    exact law_fail_iff.mpr hnone

theorem not_law_nullRead : ¬ Law .nullRead addr denotes := fun h => h.nullRead rfl

theorem not_law_outside : ¬ Law .outside addr denotes := fun h => h.outside rfl

/-- A search that goes on at a node below: nothing else is denoted. -/
theorem law_child_iff {r : Search (Addr × ℤ)} {i : ℕ} {below : Addr × ℤ → Prop}
    (hbelow : ∀ x, denotes (i :: x.1, x.2) ↔ below x)
    (hfound : ∀ y, r = .found y → ∃ rest, y.1 = addr ++ [i] ++ rest) :
    Law r addr denotes ↔ (∀ x, denotes x → x.1.head? = some i) ∧ Law r (addr ++ [i]) below := by
  have happend (rest : Addr) : addr ++ [i] ++ rest = addr ++ i :: rest := by
    rw [append_assoc, singleton_append]
  constructor
  · intro h
    have hhead (x : Addr × ℤ) (hx : denotes x) : ∃ rest, x.1 = i :: rest := by
      obtain ⟨rest, hrest⟩ := hfound _ ((h.found _).mpr ⟨x, hx, rfl⟩)
      exact ⟨rest, append_cancel_left (hrest.trans (happend rest))⟩
    refine ⟨fun x hx => ?_, fun y => ⟨fun hy => ?_, ?_⟩, h.nullRead, h.outside⟩
    · obtain ⟨rest, hrest⟩ := hhead x hx
      rw [hrest]
      rfl
    · obtain ⟨x, hx, rfl⟩ := (h.found y).mp hy
      obtain ⟨rest, hrest⟩ := hhead x hx
      refine ⟨(rest, x.2), (hbelow (rest, x.2)).mp ?_, ?_⟩
      · rw [← hrest]
        exact hx
      · rw [happend, hrest]
    · rintro ⟨x, hx, rfl⟩
      refine (h.found _).mpr ⟨(i :: x.1, x.2), (hbelow x).mpr hx, ?_⟩
      rw [happend]
  · rintro ⟨honly, h⟩
    refine ⟨fun y => ⟨fun hy => ?_, ?_⟩, h.nullRead, h.outside⟩
    · obtain ⟨x, hx, rfl⟩ := (h.found y).mp hy
      refine ⟨(i :: x.1, x.2), (hbelow x).mpr hx, ?_⟩
      rw [happend]
    · rintro ⟨x, hx, rfl⟩
      obtain ⟨addr', n⟩ := x
      obtain ⟨rest, rfl⟩ : ∃ rest, addr' = i :: rest := by
        cases addr' with
        | nil => cases honly _ hx
        | cons j rest =>
          cases honly _ hx
          exact ⟨rest, rfl⟩
      refine (h.found _).mpr ⟨(rest, n), (hbelow (rest, n)).mp hx, ?_⟩
      rw [happend]

end Laws

/-! ## What the search goes by -/

/-- The loop of `_dm_shw_data_struct_search`. -/
def ShwData.find (name : Bytes) : ShwData → Search (ℕ × ShwData)
  | .datas _ _ _ size block =>
    match findItem name 0 (block.take size.toNat) with
    | .fail => if size ≤ block.length then .fail else .outside
    | result => result
  | .unallocated _ _ _ size => if size ≤ 0 then .fail else .nullRead
  | _ => .nullRead

/-- The search of a struct comes to an item for the first part of a key. -/
structure Finds (d : ShwData) (key : Bytes) (p : KeyPart) (i : ℕ) (item : ShwData) : Prop where
  part : keyPart key = some p
  found : d.find p.name = .found (i, item)

/-- How the search of a struct ends in an error. -/
inductive Misses : ShwData → Bytes → Prop
  | absent {d : ShwData} {key : Bytes} {p : KeyPart} (hpart : keyPart key = some p)
      (hfind : d.find p.name = .fail) : Misses d key
  | scalar {d item : ShwData} {key : Bytes} {p : KeyPart} {i : ℕ} (h : Finds d key p i item)
      (htype : item.type.isScalar = true) (hmore : ¬ (p.taken = none ∧ p.rest = none)) :
      Misses d key
  | array {d item : ShwData} {key : Bytes} {p : KeyPart} {i : ℕ} (h : Finds d key p i item)
      (htype : item.type = .array) (htaken : p.taken = none) (hmore : p.rest ≠ none) : Misses d key
  | value {d item : ShwData} {key text : Bytes} {p : KeyPart} {i : ℕ} {elem : DataType}
      {size : ℤ} (h : Finds d key p i item) (hvalues : item.values = some (elem, size))
      (htaken : p.taken = some text) (hmore : ¬ (elem.isScalar = true ∧ p.sought = p.behind)) :
      Misses d key
  | element {d data : ShwData} {key text : Bytes} {p : KeyPart} {i : ℕ}
      {identifier : Option Bytes} {elem : DataType} {size : ℤ} {block : List ShwData}
      (h : Finds d key p i (.datas identifier .array elem size block))
      (htaken : p.taken = some text) (hpos : 0 ≤ atoi text)
      (hdata : block[(atoi text).toNat]? = some data) (hrest : Misses data p.sought) : Misses d key
  | index {d item : ShwData} {key : Bytes} {p : KeyPart} {i : ℕ} (h : Finds d key p i item)
      (htype : item.type = .struct) (hmore : p.rest ≠ none) (htaken : p.taken ≠ none) : Misses d key
  | field {d item : ShwData} {key : Bytes} {p : KeyPart} {i : ℕ} (h : Finds d key p i item)
      (htype : item.type = .struct) (hmore : p.rest ≠ none) (htaken : p.taken = none)
      (hrest : Misses item p.behind) : Misses d key

section Search

variable {key : Bytes} {start : KeyStart} {p : KeyPart} {d item : ShwData} {addr : Addr}

theorem keyPart_eq_some (h : keyPart key = some p) :
    ∃ start, keyStart key = some start ∧ start.Reads key p := by
  cases hstart : keyStart key with
  | none =>
    rw [keyPart_eq_none hstart] at h
    cases h
  | some start =>
    obtain ⟨p', hp⟩ := keyStart_reads hstart
    obtain rfl := Option.some.inj (hp.part.symm.trans h)
    exact ⟨start, rfl, hp⟩

theorem structSearch_eq (hstart : keyStart key = some start) (hp : start.Reads key p) (d : ShwData)
    (addr : Addr) :
    structSearch d addr key = match d.find p.name with
      | .found found => itemSearch found.2 (addr ++ [found.1]) key
      | .fail => .fail
      | .nullRead => .nullRead
      | .outside => .outside := by
  cases d with
  | datas identifier type elem size block =>
    rw [structSearch_datas hstart, hp.name, ShwData.find]
    cases findItem p.name 0 (block.take size.toNat) with
    | found found => rfl
    | fail =>
      dsimp only
      split_ifs <;> rfl
    | nullRead => rfl
    | outside => rfl
  | unallocated identifier type elem size =>
    rw [structSearch, hstart, ShwData.find]
    dsimp only
    split_ifs <;> rfl
  | scalar | null | cells =>
    rw [structSearch, hstart]
    rfl

theorem Finds.structSearch (h : Finds d key p i item) (addr : Addr) :
    structSearch d addr key = itemSearch item (addr ++ [i]) key := by
  obtain ⟨start, hstart, hp⟩ := keyPart_eq_some h.part
  rw [structSearch_eq hstart hp, h.found]

theorem find_eq_found {name : Bytes} {i : ℕ} (h : d.find name = .found (i, item)) :
    (∃ identifier type elem size block, d = .datas identifier type elem size block ∧
      (block.take size.toNat)[i]? = some item) ∧ item.HasName name ∧ item.type ≠ .none := by
  cases d with
  | datas identifier type elem size block =>
    have hitem : findItem name 0 (block.take size.toNat) = .found (i, item) := by
      rw [ShwData.find] at h
      cases hfind : findItem name 0 (block.take size.toNat) with
      | fail =>
        rw [hfind] at h
        dsimp only at h
        split_ifs at h
      | found | nullRead | outside =>
        rw [hfind] at h
        exact h
    obtain ⟨⟨-, hget⟩, hnamed⟩ := findItem_found hitem
    exact ⟨⟨identifier, type, elem, size, block, rfl, hget⟩, hnamed⟩
  | unallocated identifier type elem size =>
    rw [ShwData.find] at h
    split_ifs at h
  | scalar | null | cells => cases h

theorem Misses.structSearch (h : Misses d key) (addr : Addr) :
    structSearch d addr key = .fail := by
  induction h generalizing addr with
  | absent hpart hfind =>
    obtain ⟨start, hstart, hp⟩ := keyPart_eq_some hpart
    rw [structSearch_eq hstart hp, hfind]
  | scalar h htype hmore =>
    obtain ⟨start, hstart, hp⟩ := keyPart_eq_some h.part
    rw [h.structSearch, itemSearch_of_scalar hstart hp htype, if_neg hmore]
  | array h htype htaken hmore =>
    obtain ⟨start, hstart, hp⟩ := keyPart_eq_some h.part
    rw [h.structSearch, itemSearch_of_array hstart hp htype htaken, if_neg hmore]
  | value h hvalues htaken hmore =>
    obtain ⟨start, hstart, hp⟩ := keyPart_eq_some h.part
    rw [h.structSearch, itemSearch_of_values hstart hp hvalues htaken, if_neg hmore]
  | element h htaken hpos hdata _ ih =>
    obtain ⟨start, hstart, hp⟩ := keyPart_eq_some h.part
    rw [h.structSearch, itemSearch_of_structs hstart hp _ _ _ _ htaken, if_neg (not_lt.mpr hpos),
      hdata]
    exact ih _
  | index h htype hmore htaken =>
    obtain ⟨start, hstart, hp⟩ := keyPart_eq_some h.part
    rw [h.structSearch, itemSearch_of_struct hstart hp htype, if_neg hmore, if_pos htaken]
  | field h htype hmore htaken _ ih =>
    obtain ⟨start, hstart, hp⟩ := keyPart_eq_some h.part
    rw [h.structSearch, itemSearch_of_struct hstart hp htype, if_neg hmore,
      if_neg (not_not.mpr htaken)]
    exact ih _

theorem KeyPart.Cuts.length_behind (h : p.Cuts key) (hrest : p.taken ≠ none ∨ p.rest ≠ none) :
    p.behind.length < key.length := by
  have hlen := congrArg List.length h.key
  rw [length_append, length_append] at hlen
  cases hp : p.rest with
  | some rest =>
    rw [KeyPart.behind, hp]
    rw [hp, restText, length_cons] at hlen
    show rest.length < key.length
    omega
  | none =>
    rw [KeyPart.behind, hp]
    show 0 < key.length
    have htaken := hrest.resolve_right (not_not.mpr hp)
    have hname : p.name ≠ [] := by
      intro hnil
      exact htaken (if_pos hnil)
    have hpos := length_pos_of_ne_nil hname
    omega

theorem KeyPart.length_sought (p : KeyPart) : p.sought.length ≤ p.behind.length :=
  length_take_le' _ _

theorem misses_of_structSearch (key : Bytes) :
    ∀ (d : ShwData) (addr : Addr), structSearch d addr key = .fail → Misses d key := by
  induction hn : key.length using Nat.strong_induction_on generalizing key with
  | _ n ih =>
    subst hn
    intro d addr hfail
    cases hstart : keyStart key with
    | none =>
      rw [structSearch_overflow hstart] at hfail
      cases hfail
    | some start =>
      obtain ⟨p, hp⟩ := keyStart_reads hstart
      have hsearch := hfail
      rw [structSearch_eq hstart hp] at hsearch
      cases hfind : d.find p.name with
      | nullRead | outside =>
        rw [hfind] at hsearch
        cases hsearch
      | fail => exact .absent hp.part hfind
      | found found =>
        obtain ⟨i, item⟩ := found
        have h : Finds d key p i item := ⟨hp.part, hfind⟩
        rw [hfind] at hsearch
        dsimp only at hsearch
        have hshort := hp.cuts.length_behind
        cases htype : item.type with
        | none => exact absurd htype (find_eq_found hfind).2.2
        | int | float | double | text | enum | date | bool =>
          have hscalar : item.type.isScalar = true := by
            rw [htype]
            rfl
          refine .scalar h hscalar fun hplain => ?_
          rw [itemSearch_of_scalar hstart hp hscalar, if_pos hplain] at hsearch
          cases hsearch
        | struct =>
          rw [itemSearch_of_struct hstart hp htype] at hsearch
          split_ifs at hsearch with hlast htaken
          · exact .index h htype hlast htaken
          · exact .field h htype hlast (not_not.mp htaken)
              (ih _ (hshort (.inr hlast)) _ rfl _ _ hsearch)
        | array =>
          cases htaken : p.taken with
          | none =>
            rw [itemSearch_of_array hstart hp htype htaken] at hsearch
            split_ifs at hsearch with hlast
            exact .array h htype htaken hlast
          | some text =>
            rcases array_cases htype with ⟨elem, size, hvalues⟩ |
              ⟨identifier, elem, size, block, rfl⟩ | ⟨hvalues, hdatas⟩
            · rw [itemSearch_of_values hstart hp hvalues htaken] at hsearch
              split_ifs at hsearch with hmore
              exact .value h hvalues htaken hmore
            · rw [itemSearch_of_structs hstart hp _ _ _ _ htaken] at hsearch
              split_ifs at hsearch with hneg
              split at hsearch
              · cases hsearch
              · next data hdata =>
                have hsome : p.taken ≠ none := Option.ne_none_iff_exists'.mpr ⟨text, htaken⟩
                have hlt : p.sought.length < key.length :=
                  p.length_sought.trans_lt (hshort (.inl hsome))
                exact .element h htaken (not_lt.mp hneg) hdata (ih _ hlt _ rfl _ _ hsearch)
            · rw [itemSearch_of_unfilled hstart hp htype hvalues hdatas htaken] at hsearch
              cases hsearch

/-- **The search of a struct ends in an error** exactly as said. -/
theorem structSearch_eq_fail_iff (d : ShwData) (addr : Addr) (key : Bytes) :
    structSearch d addr key = .fail ↔ Misses d key :=
  ⟨misses_of_structSearch key d addr, fun h => h.structSearch addr⟩

end Search

/-! ## The condition -/

/-- What stands behind the name of a key. -/
def KeyPart.tail (p : KeyPart) : Bytes := bracketText p.index ++ restText p.rest

/-- The index is that of an element, and one part of the key is left for it. -/
structure OneMore (p : KeyPart) (text : Bytes) (size : ℤ) (data : ShwData) : Prop where
  digits : IsDigits text
  lt : (digitsVal text : ℤ) < size
  struct : data.type = .struct
  rest : p.rest = some p.sought

mutual

/-- A struct in which a search is right about a key: the search comes to no item and none is
denoted, or all that is denoted is at the item or below it and the search is right there. -/
inductive StructRight : ShwData → Bytes → Prop
  | absent {d : ShwData} {key : Bytes} {p : KeyPart} (hpart : keyPart key = some p)
      (hfind : d.find p.name = .fail) (hnone : ∀ x, ¬ Denotes d (keyDelimiter :: key) x) :
      StructRight d key
  | found {d item : ShwData} {key : Bytes} {p : KeyPart} {i : ℕ} (h : Finds d key p i item)
      (honly : ∀ x, Denotes d (keyDelimiter :: key) x → x.1.head? = some i)
      (hitem : ItemRight item p) : StructRight d key

/-- A node at which a search is right about what stands behind its name. -/
inductive ItemRight : ShwData → KeyPart → Prop
  -- an index behind no name is not looked at
  | scalar {item : ShwData} {p : KeyPart} (htype : item.type.isScalar = true)
      (hindex : p.index ≠ p.taken → p.rest ≠ none) : ItemRight item p
  | array {item : ShwData} {p : KeyPart} (htype : item.type = .array) (htaken : p.taken = none)
      (hindex : p.index ≠ none → p.rest ≠ none) : ItemRight item p
  -- an index is not compared with the size, and one more part behind it is not looked at
  | value {item : ShwData} {p : KeyPart} {elem : DataType} {size : ℤ} {text : Bytes}
      (hvalues : item.values = some (elem, size)) (htaken : p.taken = some text)
      (helement : elem.isScalar = true → p.sought = p.behind →
        p.rest = none ∧ IsDigits text ∧ (digitsVal text : ℤ) < size) : ItemRight item p
  | element {identifier : Option Bytes} {elem : DataType} {size : ℤ} {block : List ShwData}
      {p : KeyPart} {text : Bytes} {data : ShwData} (htaken : p.taken = some text)
      (hdata : block[digitsVal text]? = some data) (hone : OneMore p text size data)
      (hrest : StructRight data p.sought) : ItemRight (.datas identifier .array elem size block) p
  -- only the first part of what is left is looked for in an element
  | lost {identifier : Option Bytes} {elem : DataType} {size : ℤ} {block : List ShwData}
      {p : KeyPart} {text : Bytes} {data : ShwData} (htaken : p.taken = some text)
      (hpos : 0 ≤ atoi text) (hdata : block[(atoi text).toNat]? = some data)
      (hone : ¬ OneMore p text size data) (hmisses : Misses data p.sought)
      (hnone : ∀ x, ¬ Denotes (.datas identifier .array elem size block) p.tail x) :
      ItemRight (.datas identifier .array elem size block) p
  -- an index behind a struct that ends the key is not looked at
  | last {item : ShwData} {p : KeyPart} (htype : item.type = .struct) (hrest : p.rest = none)
      (hindex : p.index = none) : ItemRight item p
  | index {item : ShwData} {p : KeyPart} (htype : item.type = .struct) (hrest : p.rest ≠ none)
      (htaken : p.taken ≠ none) : ItemRight item p
  | field {item : ShwData} {p : KeyPart} (htype : item.type = .struct) (hrest : p.rest ≠ none)
      (hindex : p.index = none) (hfield : StructRight item p.behind) : ItemRight item p
  | dropped {item : ShwData} {p : KeyPart} (htype : item.type = .struct) (hrest : p.rest ≠ none)
      (htaken : p.taken = none) (hindex : p.index ≠ none) (hmisses : Misses item p.behind) :
      ItemRight item p

end

end Iotkit.Shadow
