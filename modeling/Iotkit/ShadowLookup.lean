/-
# Lookups in a thing model (`dm_shadow.c`)

A lookup is right about a key exactly under the condition: node by node, what it finds behind the
name is compared with what is denoted there.
-/
import Iotkit.ShadowPath

namespace Iotkit.Shadow

open LibC List
open Cjson (NoBracket IsDigits Overruns)

/-! ## Nodes -/

section Nodes

variable {d item : ShwData} {key : Bytes} {start : KeyStart} {p : KeyPart} {addr : Addr}
  {x : Addr × ℤ}

theorem law_self (d : ShwData) (addr : Addr) : Law (.found (addr, 0)) addr (Denotes d []) :=
  (law_here_iff 0).mpr fun _ => denotes_nil_iff

theorem not_denotes_dropped (hname : item.HasName p.name) (htaken : p.taken = none)
    (hindex : p.index ≠ none) : ¬ Denotes item p.tail x := by
  intro h
  obtain ⟨text, htext⟩ := Option.ne_none_iff_exists'.mp hindex
  have hnil : p.name = [] := by
    by_contra hne
    rw [KeyPart.taken, if_neg hne] at htaken
    exact hindex htaken
  rw [KeyPart.tail, htext] at h
  rw [hnil] at hname
  exact h.bracket.2 hname

theorem not_denotes_rest (htype : item.type ≠ .struct) (hindex : p.index = none)
    (hrest : p.rest ≠ none) : ¬ Denotes item p.tail x := by
  intro h
  obtain ⟨rest, hsome⟩ := Option.ne_none_iff_exists'.mp hrest
  rw [KeyPart.tail, hindex, hsome] at h
  obtain ⟨_, _, _, _, rfl, -⟩ := h.dot
  exact htype rfl

theorem tail_of_last (hindex : p.index = none) (hrest : p.rest = none) : p.tail = [] := by
  rw [KeyPart.tail, hindex, hrest]
  rfl

theorem taken_of_index (hindex : p.index = none) : p.taken = none := by
  rw [KeyPart.taken, hindex]
  exact ite_self none

/-- A node that is no struct, behind whose name no index is used. -/
theorem law_plain_iff (hname : item.HasName p.name) (htype : item.type ≠ .struct)
    (htaken : p.taken = none) (addr : Addr) :
    Law (if p.rest = none then .found (addr, 0) else .fail) addr (Denotes item p.tail) ↔
      (p.index ≠ none → p.rest ≠ none) := by
  by_cases hindex : p.index = none
  · refine iff_of_true ?_ (absurd hindex)
    by_cases hrest : p.rest = none
    · rw [if_pos hrest, tail_of_last hindex hrest]
      exact law_self item addr
    · rw [if_neg hrest, law_fail_iff]
      exact fun x => not_denotes_rest htype hindex hrest
  rw [law_none_iff fun x => not_denotes_dropped hname htaken hindex]
  by_cases hrest : p.rest = none
  · rw [if_pos hrest]
    refine iff_of_false (fun h => by cases h) (fun h => h hindex hrest)
  · rw [if_neg hrest]
    exact iff_of_true rfl fun _ => hrest

variable {text : Bytes}

theorem KeyPart.Cuts.taken (h : p.Cuts key) (htaken : p.taken = some text) :
    p.name ≠ [] ∧ NoBracket text ∧ text ≠ [] ∧ ¬ Overruns text ∧
      p.tail = bracketText (some text) ++ restText p.rest := by
  have hname : p.name ≠ [] := by
    intro hnil
    rw [KeyPart.taken, if_pos hnil] at htaken
    cases htaken
  have hindex : p.index = some text := by rwa [KeyPart.taken, if_neg hname] at htaken
  obtain ⟨hfree, hne, hover⟩ := h.bracketed text hindex
  refine ⟨hname, hfree, hne, hover, ?_⟩
  rw [KeyPart.tail, hindex]

variable {elem : DataType}

theorem law_value_iff (hcuts : p.Cuts key) (hname : item.HasName p.name) {size : ℤ}
    (hvalues : item.values = some (elem, size)) (htaken : p.taken = some text) (addr : Addr) :
    Law (if elem.isScalar = true ∧ p.sought = p.behind then .found (addr, atoi text) else .fail)
        addr (Denotes item p.tail) ↔
      (elem.isScalar = true → p.sought = p.behind →
        p.rest = none ∧ IsDigits text ∧ (digitsVal text : ℤ) < size) := by
  obtain ⟨hne, hfree, htext, hover, htail⟩ := hcuts.taken htaken
  have hunnamed : ¬ item.HasName [] := fun h => hne (hname.unique h)
  have hiff (x : Addr × ℤ) : Denotes item p.tail x ↔
      IndexOf item text size ∧ elem.isScalar = true ∧ restText p.rest = [] ∧
        x = (([], (digitsVal text : ℤ)) : Addr × ℤ) := by
    rw [htail]
    exact denotes_values_iff hvalues hfree
  have hrest : restText p.rest = [] ↔ p.rest = none := by
    cases p.rest <;> simp [restText]
  by_cases hfound : elem.isScalar = true ∧ p.sought = p.behind
  · rw [if_pos hfound, law_here_iff]
    constructor
    · intro h _ _
      obtain ⟨hindex, -, hnone, -⟩ := (hiff _).mp ((h _).mpr rfl)
      exact ⟨hrest.mp hnone, hindex.digits, hindex.lt⟩
    · intro h x'
      obtain ⟨hnone, hdigits, hlt⟩ := h hfound.1 hfound.2
      rw [hiff, Cjson.atoi_of_fits hdigits hover]
      exact ⟨fun h => h.2.2.2, fun heq =>
        ⟨⟨hunnamed, htext, hdigits, hlt⟩, hfound.1, hrest.mpr hnone, heq⟩⟩
  · rw [if_neg hfound, law_fail_iff]
    refine iff_of_true (fun x hx => ?_) fun hscalar hsought => absurd ⟨hscalar, hsought⟩ hfound
    obtain ⟨-, hscalar, hnone, -⟩ := (hiff x).mp hx
    refine hfound ⟨hscalar, ?_⟩
    rw [KeyPart.sought, KeyPart.behind, hrest.mp hnone]
    rfl

/-! ### A key that is cut -/

theorem Denotes.here {rest : Bytes} {n : ℤ} (h : Denotes d rest ([], n)) :
    rest = [] ∨ ∃ text, rest = bracketText (some text) ∧ IsDigits text ∧ ¬ d.HasName [] := by
  generalize hx : (([], n) : Addr × ℤ) = x at h
  cases h with
  | self => exact .inl rfl
  | value hname _ _ _ hdigits => exact .inr ⟨_, rfl, hdigits, hname⟩
  | element => cases hx
  | field => cases hx

variable {more : Bytes}

theorem Finds.denotes {i : ℕ} (h : Finds d key p i item) (hcuts : p.Cuts key) {x' : Addr × ℤ}
    (hx : Denotes d (keyDelimiter :: (key ++ more)) (i :: x'.1, x'.2)) :
    Denotes item (p.tail ++ more) x' := by
  obtain ⟨⟨_, _, _, _, _, rfl, hget⟩, hname, -⟩ := find_eq_found h.found
  obtain ⟨_, _, _, _, heq, name, rest, j, item', x'', hget', hname', hkey, hrest, hx''⟩ := hx.dot
  cases heq
  obtain ⟨haddr, hindex⟩ := Prod.mk.inj hx''
  obtain ⟨rfl, haddr'⟩ := List.cons.inj haddr
  obtain rfl := Option.some.inj (hget.symm.trans hget')
  obtain rfl := hname.unique hname'
  rw [hcuts.key, append_assoc] at hkey
  rw [KeyPart.tail, append_cancel_left hkey]
  obtain rfl : x' = x'' := Prod.ext haddr' hindex
  exact hrest

variable {y : Addr × ℤ}

theorem Finds.below {i : ℕ} (h : Finds d key p i item)
    (hfound : Shadow.structSearch d addr key = .found y) : FoundBelow item (addr ++ [i]) y := by
  rw [h.structSearch] at hfound
  exact itemSearch_found (fun key' _ => structSearch_found key') hfound

theorem finds_of_found (hfound : structSearch d addr key = .found y) :
    ∃ start p i item, keyStart key = some start ∧ start.Reads key p ∧ Finds d key p i item := by
  cases hstart : keyStart key with
  | none =>
    rw [structSearch_overflow hstart] at hfound
    cases hfound
  | some start =>
    obtain ⟨p, hp⟩ := keyStart_reads hstart
    cases hfind : d.find p.name with
    | found found => exact ⟨start, p, found.1, found.2, rfl, hp, hp.part, hfind⟩
    | fail | nullRead | outside =>
      rw [structSearch_eq hstart hp, hfind] at hfound
      cases hfound

theorem structSearch_nil_found (hfound : structSearch d addr [] = .found y) :
    ∃ i item, Finds d [] ⟨[], none, none⟩ i item ∧ y = (addr ++ [i], 0) := by
  obtain ⟨start, p, i, item, hstart, hp, h⟩ := finds_of_found hfound
  obtain rfl : p = ⟨[], none, none⟩ := Option.some.inj (hp.part.symm.trans rfl)
  refine ⟨i, item, h, ?_⟩
  rw [h.structSearch] at hfound
  have htype := (find_eq_found h.found).2.2
  cases hitem : item.type with
  | none => exact absurd hitem htype
  | int | float | double | text | enum | date | bool =>
    have hscalar : item.type.isScalar = true := by
      rw [hitem]
      rfl
    rw [itemSearch_of_scalar hstart hp hscalar, if_pos ⟨rfl, rfl⟩] at hfound
    exact (Search.found.inj hfound).symm
  | array =>
    rw [itemSearch_of_array hstart hp hitem rfl, if_pos rfl] at hfound
    exact (Search.found.inj hfound).symm
  | struct =>
    rw [itemSearch_of_struct hstart hp hitem, if_pos rfl] at hfound
    exact (Search.found.inj hfound).symm

theorem not_denotes_nil (hmore : more ≠ [])
    (hfound : structSearch d addr [] = .found (addr ++ x.1, x.2)) :
    ¬ Denotes d (keyDelimiter :: more) x := by
  intro hx
  obtain ⟨i, item, h, hy⟩ := structSearch_nil_found hfound
  obtain ⟨haddr, hindex⟩ := Prod.mk.inj hy
  obtain rfl : x = (i :: [], 0) := Prod.ext (append_cancel_left haddr) hindex
  have hname : item.HasName [] := (find_eq_found h.found).2.1
  have hcuts : KeyPart.Cuts ⟨[], none, none⟩ [] := ⟨rfl, fun text htext => by cases htext⟩
  have hitem : Denotes item more ([], 0) := h.denotes hcuts hx
  rcases hitem.here with hnil | ⟨_, -, -, hunnamed⟩
  · exact hmore hnil
  · exact hunnamed hname

theorem not_denotes_cut {index : Option Bytes} {n : ℤ}
    (hfree : ∀ text, index = some text → NoBracket text) :
    ¬ Denotes item (bracketText index ++ keyDelimiter :: more) ([], n) := by
  intro h
  rcases h.here with hnil | ⟨text, htext, hdigits, -⟩
  · exact absurd hnil (append_ne_nil_of_right_ne_nil _ (cons_ne_nil _ _))
  cases index with
  | none => exact absurd (List.cons.inj htext).1 (by decide)
  | some text' =>
    obtain ⟨-, hnil⟩ := bracketText_append_inj (hfree text' rfl).2 (notMem_of_isDigits hdigits)
      (htext.trans (append_nil _).symm)
    cases hnil

theorem not_denotes_longer (hpart : keyDelimiter ∉ key) (hmore : more ≠ [])
    (hfound : structSearch d addr key = .found (addr ++ x.1, x.2)) :
    ¬ Denotes d (keyDelimiter :: (key ++ keyDelimiter :: more)) x := by
  intro hx
  obtain ⟨start, p, i, item, hstart, hp, h⟩ := finds_of_found hfound
  have hrest : p.rest = none := by
    rw [← hp.last, keyStart_deliOffset hstart]
    exact deliOffset_of_notMem hpart
  have htail : p.tail = bracketText p.index := by
    rw [KeyPart.tail, hrest]
    exact append_nil _
  -- what is denoted is at the item that is found
  obtain ⟨below, -, haddr, -⟩ := h.below hfound
  rw [append_assoc, singleton_append] at haddr
  have hbelow : x.1 = i :: below := append_cancel_left haddr
  have hitem : Denotes item (bracketText p.index ++ keyDelimiter :: more) (below, x.2) := by
    rw [← htail]
    apply h.denotes hp.cuts
    rw [← hbelow]
    exact hx
  have hfree : ∀ text, p.index = some text → NoBracket text := fun text htext =>
    (hp.cuts.bracketed text htext).1
  have hself (y : Addr × ℤ) (hy : y.1 = addr ++ [i]) :
      Search.found y ≠ .found (addr ++ x.1, x.2) := by
    intro heq
    have hy' := congrArg Prod.fst (Search.found.inj heq)
    rw [hy, hbelow] at hy'
    have hnil : ([] : Addr) = below := (List.cons.inj (append_cancel_left hy')).2
    subst hnil
    exact not_denotes_cut hfree hitem
  rw [h.structSearch] at hfound
  cases htype : item.type with
  | none => exact absurd htype (find_eq_found h.found).2.2
  | int | float | double | text | enum | date | bool =>
    have hscalar : item.type.isScalar = true := by
      rw [htype]
      rfl
    rw [itemSearch_of_scalar hstart hp hscalar] at hfound
    split_ifs at hfound
    exact hself _ rfl hfound
  | struct =>
    rw [itemSearch_of_struct hstart hp htype, if_pos hrest] at hfound
    exact hself _ rfl hfound
  | array =>
    cases htaken : p.taken with
    | none =>
      rw [itemSearch_of_array hstart hp htype htaken, if_pos hrest] at hfound
      exact hself _ rfl hfound
    | some text =>
      rcases array_cases htype with ⟨elem, size, hvalues⟩ | ⟨identifier, elem, size, block, rfl⟩ |
        ⟨hvalues, hdatas⟩
      · rw [itemSearch_of_values hstart hp hvalues htaken] at hfound
        split_ifs at hfound
        exact hself _ rfl hfound
      · -- the field without a name of an element
        obtain ⟨-, hindex, -⟩ := hp.indexed htaken
        rw [hindex, denotes_structs_iff (hfree text hindex)] at hitem
        obtain ⟨hindexOf, data, x', hdata, hx', hxeq⟩ := hitem
        obtain ⟨-, -, hover⟩ := hp.cuts.bracketed text hindex
        obtain ⟨haddr', hindex'⟩ := Prod.mk.inj hxeq
        rw [itemSearch_of_structs hstart hp _ _ _ _ htaken,
          Cjson.atoi_of_fits hindexOf.digits hover, if_neg (by omega), Int.toNat_natCast, hdata]
          at hfound
        have hsought : p.sought = [] := by
          rw [KeyPart.sought, KeyPart.behind, hrest]
          rfl
        have haddr'' : addr ++ x.1 = addr ++ [i] ++ [digitsVal text] ++ x'.1 := by
          rw [hbelow, haddr', append_assoc, append_assoc]
          rfl
        rw [hsought, haddr'', hindex'] at hfound
        exact not_denotes_nil hmore hfound hx'
      · rw [itemSearch_of_unfilled hstart hp htype hvalues hdatas htaken] at hfound
        cases hfound

/-! ### The law at a node -/

theorem structSearch_below (hfound : structSearch d addr key = .found y) :
    ∃ i below, y.1 = addr ++ i :: below := by
  obtain ⟨start, p, i, item, hstart, hp, h⟩ := finds_of_found hfound
  obtain ⟨below, -, haddr, -⟩ := h.below hfound
  exact ⟨i, below, by rw [haddr, append_assoc, singleton_append]⟩

theorem KeyPart.sought_cases (p : KeyPart) :
    p.rest = none ∨ p.rest = some p.sought ∨
      ∃ more, p.rest = some (p.sought ++ keyDelimiter :: more) ∧ keyDelimiter ∉ p.sought ∧
        more ≠ [] := by
  cases hrest : p.rest with
  | none => exact .inl rfl
  | some key =>
    obtain ⟨seg, rest, hkey, hoffset, hfree⟩ := deliOffset_split key
    have hsought : p.sought = seg := by
      rw [KeyPart.sought, KeyPart.behind, hrest]
      show key.take (deliOffset key) = seg
      rw [hoffset, hkey, take_left]
    rw [hsought]
    cases rest with
    | none => exact Or.inr (Or.inl (by rw [hkey, restText, append_nil]))
    | some more =>
      obtain ⟨hmore, hseg⟩ := hfree more rfl
      exact Or.inr (Or.inr ⟨more, by rw [hkey, restText], hseg, hmore⟩)

theorem itemRight_scalar_iff (htype : item.type.isScalar = true) :
    ItemRight item p ↔ (p.index ≠ p.taken → p.rest ≠ none) := by
  constructor
  · intro h
    cases h with
    | scalar _ hindex => exact hindex
    | array harray =>
      rw [harray] at htype
      cases htype
    | value hvalues =>
      rw [type_of_values hvalues] at htype
      cases htype
    | element => cases htype
    | lost => cases htype
    | last hstruct | index hstruct | field hstruct | dropped hstruct =>
      rw [hstruct] at htype
      cases htype
  · exact fun h => .scalar htype h

theorem itemRight_array_iff (htype : item.type = .array) (htaken : p.taken = none) :
    ItemRight item p ↔ (p.index ≠ none → p.rest ≠ none) := by
  constructor
  · intro h
    cases h with
    | scalar hscalar =>
      rw [htype] at hscalar
      cases hscalar
    | array _ _ hindex => exact hindex
    | value _ htaken' | element htaken' | lost htaken' => cases htaken.symm.trans htaken'
    | last hstruct | index hstruct | field hstruct | dropped hstruct =>
      cases htype.symm.trans hstruct
  · exact fun h => .array htype htaken h

theorem itemRight_values_iff {size : ℤ} (hvalues : item.values = some (elem, size))
    (htaken : p.taken = some text) :
    ItemRight item p ↔ (elem.isScalar = true → p.sought = p.behind →
      p.rest = none ∧ IsDigits text ∧ (digitsVal text : ℤ) < size) := by
  have htype := type_of_values hvalues
  constructor
  · intro h
    cases h with
    | scalar hscalar =>
      rw [htype] at hscalar
      cases hscalar
    | array _ hplain => cases htaken.symm.trans hplain
    | value hvalues' htaken' helement =>
      cases htaken.symm.trans htaken'
      cases hvalues.symm.trans hvalues'
      exact helement
    | element => cases hvalues
    | lost => cases hvalues
    | last hstruct | index hstruct | field hstruct | dropped hstruct =>
      cases htype.symm.trans hstruct
  · exact fun h => .value hvalues htaken h

theorem not_itemRight_unfilled (htype : item.type = .array) (hvalues : item.values = none)
    (hdatas : ∀ identifier elem size block, item ≠ .datas identifier .array elem size block)
    (htaken : p.taken = some text) : ¬ ItemRight item p := by
  intro h
  cases h with
  | scalar hscalar =>
    rw [htype] at hscalar
    cases hscalar
  | array _ hplain => cases htaken.symm.trans hplain
  | value hvalues' => cases hvalues.symm.trans hvalues'
  | element => exact hdatas _ _ _ _ rfl
  | lost => exact hdatas _ _ _ _ rfl
  | last hstruct | index hstruct | field hstruct | dropped hstruct =>
    cases htype.symm.trans hstruct

theorem itemRight_struct_iff (htype : item.type = .struct) :
    ItemRight item p ↔
      if p.rest = none then p.index = none
      else if p.taken ≠ none then True
      else if p.index = none then StructRight item p.behind
      else Misses item p.behind := by
  constructor
  · intro h
    cases h with
    | scalar hscalar =>
      rw [htype] at hscalar
      cases hscalar
    | array harray => cases htype.symm.trans harray
    | value hvalues => cases htype.symm.trans (type_of_values hvalues)
    | element => cases htype
    | lost => cases htype
    | last _ hrest hindex => rwa [if_pos hrest]
    | index _ hrest htaken => rw [if_neg hrest, if_pos htaken]; trivial
    | field _ hrest hindex hfield =>
      rw [if_neg hrest, if_neg (not_not.mpr (taken_of_index hindex)), if_pos hindex]
      exact hfield
    | dropped _ hrest htaken hindex hmisses =>
      rw [if_neg hrest, if_neg (not_not.mpr htaken), if_neg hindex]
      exact hmisses
  · split_ifs with hrest htaken hindex
    · exact fun h => .last htype hrest h
    · exact fun _ => .index htype hrest htaken
    · exact fun h => .field htype hrest hindex h
    · exact fun h => .dropped htype hrest (not_not.mp htaken) hindex h

theorem itemRight_structs_iff {identifier : Option Bytes} {size : ℤ} {block : List ShwData}
    (htaken : p.taken = some text) :
    ItemRight (.datas identifier .array elem size block) p ↔
      (∃ data, block[digitsVal text]? = some data ∧ OneMore p text size data ∧
        StructRight data p.sought) ∨
      (0 ≤ atoi text ∧ ∃ data, block[(atoi text).toNat]? = some data ∧ ¬ OneMore p text size data ∧
        Misses data p.sought ∧
        ∀ x, ¬ Denotes (.datas identifier .array elem size block) p.tail x) := by
  constructor
  · intro h
    cases h with
    | scalar htype => cases htype
    | array _ hplain => cases htaken.symm.trans hplain
    | value hvalues => cases hvalues
    | element htaken' hdata hone hrest =>
      obtain rfl := Option.some.inj (htaken.symm.trans htaken')
      exact .inl ⟨_, hdata, hone, hrest⟩
    | lost htaken' hpos hdata hone hmisses hnone =>
      obtain rfl := Option.some.inj (htaken.symm.trans htaken')
      exact .inr ⟨hpos, _, hdata, hone, hmisses, hnone⟩
    | last htype => cases htype
    | index htype => cases htype
    | field htype => cases htype
    | dropped htype => cases htype
  · rintro (⟨data, hdata, hone, hrest⟩ | ⟨hpos, data, hdata, hone, hmisses, hnone⟩)
    · exact .element htaken hdata hone hrest
    · exact .lost htaken hpos hdata hone hmisses hnone

section Item

variable
  (ih : ∀ key' : Bytes, key'.length < key.length → ∀ (d : ShwData) (addr : Addr),
    d.type = .struct →
      (Law (structSearch d addr key') addr (Denotes d (keyDelimiter :: key')) ↔ StructRight d key'))
include ih

/-- What the search of an array of structs is right about. -/
theorem law_structs_iff (hcuts : p.Cuts key) {identifier : Option Bytes} {elem : DataType}
    {size : ℤ} {block : List ShwData} {text : Bytes} (htaken : p.taken = some text)
    (hname : (ShwData.datas identifier .array elem size block).HasName p.name) (addr : Addr) :
    Law (if atoi text < 0 then .outside else
          match block[(atoi text).toNat]? with
          | none => .outside
          | some data => structSearch data (addr ++ [(atoi text).toNat]) p.sought)
        addr (Denotes (.datas identifier .array elem size block) p.tail) ↔
      ItemRight (.datas identifier .array elem size block) p := by
  obtain ⟨hne, hfree, htext, hover, htail⟩ := hcuts.taken htaken
  have hunnamed : ¬ (ShwData.datas identifier .array elem size block).HasName [] := fun h =>
    hne (hname.unique h)
  have hiff (x : Addr × ℤ) : Denotes (.datas identifier .array elem size block) p.tail x ↔
      IndexOf (.datas identifier .array elem size block) text size ∧
        ∃ data x', block[digitsVal text]? = some data ∧ Denotes data (restText p.rest) x' ∧
          x = (digitsVal text :: x'.1, x'.2) := by
    rw [htail]
    exact denotes_structs_iff hfree
  have hatoi (h : IsDigits text) : atoi text = digitsVal text := Cjson.atoi_of_fits h hover
  rw [itemRight_structs_iff htaken]
  by_cases hneg : atoi text < 0
  · rw [if_pos hneg]
    refine iff_of_false not_law_outside ?_
    rintro (⟨data, -, hone, -⟩ | ⟨hpos, -⟩)
    · have heq := hatoi hone.digits
      omega
    · omega
  rw [if_neg hneg]
  cases hdata : block[(atoi text).toNat]? with
  | none =>
    refine iff_of_false not_law_outside ?_
    rintro (⟨data, hdata', hone, -⟩ | ⟨-, data, hdata', -⟩)
    · rw [hatoi hone.digits, Int.toNat_natCast, hdata'] at hdata
      cases hdata
    · cases hdata'
  | some data =>
    dsimp only
    by_cases hone : OneMore p text size data
    · -- the search goes on in the element that is meant
      have hat := hatoi hone.digits
      rw [hat, Int.toNat_natCast] at hdata ⊢
      have hshort : p.sought.length < key.length :=
        p.length_sought.trans_lt (hcuts.length_behind (.inr fun h => by
          cases h.symm.trans hone.rest))
      have hbelow (x : Addr × ℤ) :
          Denotes (.datas identifier .array elem size block) p.tail (digitsVal text :: x.1, x.2) ↔
            Denotes data (keyDelimiter :: p.sought) x := by
        rw [hiff, hone.rest, restText]
        constructor
        · rintro ⟨-, data', x', hdata', hx', heq⟩
          obtain rfl := Option.some.inj (hdata.symm.trans hdata')
          obtain ⟨haddr, hindex⟩ := Prod.mk.inj heq
          obtain rfl : x = x' := Prod.ext (List.cons.inj haddr).2 hindex
          exact hx'
        · intro hx
          exact ⟨⟨hunnamed, htext, hone.digits, hone.lt⟩, data, x, hdata, hx, rfl⟩
      have hfound (y : Addr × ℤ)
          (hy : structSearch data (addr ++ [digitsVal text]) p.sought = .found y) :
          ∃ rest, y.1 = addr ++ [digitsVal text] ++ rest := by
        obtain ⟨i, below, haddr⟩ := structSearch_below hy
        exact ⟨i :: below, haddr⟩
      rw [law_child_iff hbelow hfound, ih _ hshort data _ hone.struct]
      constructor
      · rintro ⟨-, hok⟩
        exact .inl ⟨data, hdata, hone, hok⟩
      · rintro (⟨data', hdata', -, hok⟩ | ⟨-, data', hdata', hone', -⟩)
        · obtain rfl := Option.some.inj (hdata.symm.trans hdata')
          refine ⟨fun x hx => ?_, hok⟩
          obtain ⟨-, _, _, -, -, rfl⟩ := (hiff x).mp hx
          rfl
        · obtain rfl := Option.some.inj hdata'
          exact absurd hone hone'
    · -- what the search comes to is not what is meant
      constructor
      · intro h
        have hnone (x : Addr × ℤ) :
            ¬ Denotes (.datas identifier .array elem size block) p.tail x := by
          intro hx
          have hfound := (h.found _).mpr ⟨x, hx, rfl⟩
          obtain ⟨hindexOf, data', x', hdata', hx', rfl⟩ := (hiff x).mp hx
          rw [hatoi hindexOf.digits, Int.toNat_natCast] at hdata hfound
          obtain rfl := Option.some.inj (hdata.symm.trans hdata')
          have haddr : addr ++ digitsVal text :: x'.1 = addr ++ [digitsVal text] ++ x'.1 := by
            rw [append_assoc, singleton_append]
          dsimp only at hfound
          rw [haddr] at hfound
          rcases p.sought_cases with hrest | hrest | ⟨more, hrest, hfree', hmore⟩
          · rw [hrest] at hx'
            rw [denotes_nil_iff.mp hx'] at hfound
            obtain ⟨i, below, heq⟩ := structSearch_below hfound
            cases append_cancel_left heq
          · rw [hrest] at hx'
            obtain ⟨_, _, _, _, rfl, -⟩ := hx'.dot
            exact hone ⟨hindexOf.digits, hindexOf.lt, rfl, hrest⟩
          · rw [hrest] at hx'
            exact not_denotes_longer hfree' hmore hfound hx'
        have hfail := (law_none_iff hnone).mp h
        exact .inr ⟨not_lt.mp hneg, data, rfl, hone,
          (structSearch_eq_fail_iff data _ _).mp hfail, hnone⟩
      · rintro (⟨data', hdata', hone', -⟩ | ⟨-, data', hdata', -, hmisses, hnone⟩)
        · rw [← Int.toNat_natCast (digitsVal text), ← hatoi hone'.digits, hdata] at hdata'
          obtain rfl := Option.some.inj hdata'
          exact absurd hone' hone
        · obtain rfl := Option.some.inj hdata'
          rw [hmisses.structSearch]
          exact law_fail_iff.mpr hnone

/-- What the search of a struct is right about behind the name of the struct. -/
theorem law_struct_iff (hcuts : p.Cuts key) (htype : item.type = .struct) (addr : Addr) :
    Law (if p.rest = none then .found (addr, 0) else if p.taken ≠ none then .fail
        else structSearch item addr p.behind) addr (Denotes item p.tail) ↔ ItemRight item p := by
  have hbracket (hindex : p.index ≠ none) (x : Addr × ℤ) : ¬ Denotes item p.tail x := by
    intro hx
    obtain ⟨text, htext⟩ := Option.ne_none_iff_exists'.mp hindex
    rw [KeyPart.tail, htext] at hx
    exact absurd (htype.symm.trans hx.bracket.1) (by decide)
  rw [itemRight_struct_iff htype]
  by_cases hrest : p.rest = none
  · rw [if_pos hrest, if_pos hrest]
    by_cases hindex : p.index = none
    · refine iff_of_true ?_ hindex
      rw [tail_of_last hindex hrest]
      exact law_self item addr
    · rw [law_none_iff (hbracket hindex)]
      exact iff_of_false (fun h => by cases h) hindex
  rw [if_neg hrest, if_neg hrest]
  by_cases htaken : p.taken = none
  · rw [if_neg (not_not.mpr htaken), if_neg (not_not.mpr htaken)]
    by_cases hindex : p.index = none
    · have htail : p.tail = keyDelimiter :: p.behind := by
        obtain ⟨rest, hsome⟩ := Option.ne_none_iff_exists'.mp hrest
        rw [KeyPart.tail, KeyPart.behind, hindex, hsome]
        rfl
      rw [if_pos hindex, htail]
      exact ih _ (hcuts.length_behind (.inr hrest)) item addr htype
    · rw [if_neg hindex, law_none_iff (hbracket hindex)]
      exact structSearch_eq_fail_iff item addr p.behind
  · rw [if_pos htaken, if_pos htaken, law_fail_iff]
    exact iff_of_true (hbracket fun hindex => htaken (taken_of_index hindex)) trivial

/-- **The search at a node is right** about what stands behind the name of the node exactly when the
node is. -/
theorem itemLaw_iff (hstart : keyStart key = some start) (hp : start.Reads key p)
    (hname : item.HasName p.name) (hnone : item.type ≠ .none) (addr : Addr) :
    Law (itemSearch item addr key) addr (Denotes item p.tail) ↔ ItemRight item p := by
  cases htype : item.type with
  | none => exact absurd htype hnone
  | int | float | double | text | enum | date | bool =>
    have hscalar : item.type.isScalar = true := by
      rw [htype]
      rfl
    rw [itemSearch_of_scalar hstart hp hscalar, itemRight_scalar_iff hscalar]
    by_cases htaken : p.taken = none
    · simp only [htaken, true_and]
      apply law_plain_iff hname _ htaken
      rw [htype]
      decide
    rw [if_neg fun h => htaken h.1, law_fail_iff]
    obtain ⟨text, htext⟩ := Option.ne_none_iff_exists'.mp htaken
    obtain ⟨-, hindex, -⟩ := hp.indexed htext
    refine iff_of_true (fun x hx => ?_) fun h => absurd (hindex.trans htext.symm) h
    rw [KeyPart.tail, hindex] at hx
    exact absurd (htype.symm.trans hx.bracket.1) (by decide)
  | struct =>
    rw [itemSearch_of_struct hstart hp htype]
    exact law_struct_iff ih hp.cuts htype addr
  | array =>
    cases htaken : p.taken with
    | none =>
      rw [itemSearch_of_array hstart hp htype htaken, itemRight_array_iff htype htaken]
      apply law_plain_iff hname _ htaken
      rw [htype]
      decide
    | some text =>
      rcases array_cases htype with ⟨elem, size, hvalues⟩ | ⟨identifier, elem, size, block, rfl⟩ |
        ⟨hvalues, hdatas⟩
      · rw [itemSearch_of_values hstart hp hvalues htaken, itemRight_values_iff hvalues htaken]
        exact law_value_iff hp.cuts hname hvalues htaken addr
      · rw [itemSearch_of_structs hstart hp _ _ _ _ htaken]
        exact law_structs_iff ih hp.cuts htaken hname addr
      · rw [itemSearch_of_unfilled hstart hp htype hvalues hdatas htaken]
        exact iff_of_false not_law_nullRead (not_itemRight_unfilled htype hvalues hdatas htaken)

end Item

theorem structRight_iff (hpart : keyPart key = some p) :
    StructRight d key ↔
      (d.find p.name = .fail ∧ ∀ x, ¬ Denotes d (keyDelimiter :: key) x) ∨
      ∃ i item, d.find p.name = .found (i, item) ∧
        (∀ x, Denotes d (keyDelimiter :: key) x → x.1.head? = some i) ∧ ItemRight item p := by
  have hsame {p' : KeyPart} (h : keyPart key = some p') : p' = p :=
    Option.some.inj (h.symm.trans hpart)
  constructor
  · intro h
    cases h with
    | absent hpart' hfind hnone =>
      rw [hsame hpart'] at hfind
      exact .inl ⟨hfind, hnone⟩
    | found h honly hitem =>
      have hfind := h.found
      rw [hsame h.part] at hfind hitem
      exact .inr ⟨_, _, hfind, honly, hitem⟩
  · rintro (⟨hfind, hnone⟩ | ⟨i, item, hfind, honly, hitem⟩)
    · exact .absent hpart hfind hnone
    · exact .found ⟨hpart, hfind⟩ honly hitem

/-- **The search of a struct is right** about a key exactly when the struct is. -/
theorem structLaw_iff (key : Bytes) :
    ∀ (d : ShwData) (addr : Addr), d.type = .struct →
      (Law (structSearch d addr key) addr (Denotes d (keyDelimiter :: key)) ↔
        StructRight d key) := by
  induction hn : key.length using Nat.strong_induction_on generalizing key with
  | _ n ih =>
    subst hn
    intro d addr htype
    cases hstart : keyStart key with
    | none =>
      rw [structSearch_overflow hstart]
      refine iff_of_false not_law_outside fun h => ?_
      have hpart := keyPart_eq_none hstart
      cases h with
      | absent hpart' => cases hpart.symm.trans hpart'
      | found h => cases hpart.symm.trans h.part
    | some start =>
      obtain ⟨p, hp⟩ := keyStart_reads hstart
      rw [structRight_iff hp.part]
      cases hfind : d.find p.name with
      | nullRead =>
        rw [structSearch_eq hstart hp, hfind]
        refine iff_of_false not_law_nullRead ?_
        rintro (⟨h, -⟩ | ⟨_, _, h, -⟩) <;> cases h
      | outside =>
        rw [structSearch_eq hstart hp, hfind]
        refine iff_of_false not_law_outside ?_
        rintro (⟨h, -⟩ | ⟨_, _, h, -⟩) <;> cases h
      | fail =>
        rw [structSearch_eq hstart hp, hfind, law_fail_iff]
        constructor
        · exact fun hnone => .inl ⟨rfl, hnone⟩
        · rintro (⟨-, hnone⟩ | ⟨_, _, h, -⟩)
          · exact hnone
          · cases h
      | found found =>
        obtain ⟨i, item⟩ := found
        have hfinds : Finds d key p i item := ⟨hp.part, hfind⟩
        obtain ⟨⟨identifier, type, elem, size, block, rfl, hget⟩, hname, hnone⟩ :=
          find_eq_found hfind
        rw [ShwData.type] at htype
        subst htype
        have hbelow (x : Addr × ℤ) :
            Denotes (.datas identifier .struct elem size block) (keyDelimiter :: key)
              (i :: x.1, x.2) ↔ Denotes item p.tail x := by
          constructor
          · intro hx
            rw [← append_nil key] at hx
            have hx' := hfinds.denotes hp.cuts hx
            rwa [append_nil] at hx'
          · intro hx
            rw [hp.cuts.key]
            exact .field hget hname hx
        have hfound (y : Addr × ℤ) (hy : itemSearch item (addr ++ [i]) key = .found y) :
            ∃ rest, y.1 = addr ++ [i] ++ rest := by
          obtain ⟨below, -, haddr, -⟩ :=
            itemSearch_found (fun key' _ => structSearch_found key') hy
          exact ⟨below, haddr⟩
        rw [hfinds.structSearch, law_child_iff hbelow hfound,
          itemLaw_iff (fun key' hkey' => ih _ hkey' key' rfl) hstart hp hname hnone]
        constructor
        · rintro ⟨honly, hitem⟩
          exact .inr ⟨i, item, rfl, honly, hitem⟩
        · rintro (⟨h, -⟩ | ⟨_, _, h, honly, hitem⟩)
          · cases h
          · cases h
            exact ⟨honly, hitem⟩

end Nodes

end Iotkit.Shadow
