/-
# What a loaded thing model holds (`dm_tsl_alink.c`)

A shadow is well formed when what it counts is there: identifiers, types, and blocks with as many
elements as they say.  No search of a well-formed shadow reads a pointer that is zero.

The loader keeps what a parser has left in a place when it fails, so that it makes a well-formed
shadow exactly of the texts whose lists hold nothing else than well-formed members.
-/
import Iotkit.TslAlink

namespace Iotkit.Shadow

open List

/-! ## Well-formed shadows -/

/-- A node with what is below it; the elements of an array of structs have no identifier. -/
inductive ShwData.Ok : Bool → ShwData → Prop where
  | scalar {named : Bool} {identifier : Option Bytes} {type : DataType} {value : Cell}
      (hid : named = true → identifier ≠ none) (htype : type.isScalar = true)
      (hfits : value.fits type = true) : Ok named (.scalar identifier type value)
  | cells {named : Bool} {identifier : Option Bytes} {elem : DataType} {size : ℤ}
      {block : List Cell} (hid : named = true → identifier ≠ none) (helem : elem.isScalar = true)
      (hpos : 0 < size) (hlen : size = block.length) (hfits : ∀ c ∈ block, c.fits elem = true) :
      Ok named (.cells identifier elem size block)
  | struct {named : Bool} {identifier : Option Bytes} {elem : DataType} {size : ℤ}
      {block : List ShwData} (hid : named = true → identifier ≠ none) (hpos : 0 < size)
      (hlen : size = block.length) (hitems : ∀ d ∈ block, Ok true d) :
      Ok named (.datas identifier .struct elem size block)
  | structs {named : Bool} {identifier : Option Bytes} {size : ℤ} {block : List ShwData}
      (hid : named = true → identifier ≠ none) (hpos : 0 < size) (hlen : size = block.length)
      (htype : ∀ d ∈ block, d.type = .struct) (hitems : ∀ d ∈ block, Ok false d) :
      Ok named (.datas identifier .array .struct size block)

/-- The elements that are counted are in their block, and are well formed. -/
def Counted {α : Type} (ok : α → Prop) (number : ℕ) (block : Option (List α)) : Prop :=
  number = 0 ∨ ∃ elements, block = some elements ∧ elements.length = number ∧ ∀ e ∈ elements, ok e

structure ShwEvent.Ok (event : ShwEvent) : Prop where
  identifier : event.identifier ≠ none
  outputs : Counted (ShwData.Ok true) event.outputDataNumber event.outputDatas

structure ShwService.Ok (service : ShwService) : Prop where
  identifier : service.identifier ≠ none
  inputs : Counted (ShwData.Ok true) service.inputDataNumber service.inputDatas
  outputs : Counted (ShwData.Ok true) service.outputDataNumber service.outputDatas

structure Shw.Ok (shadow : Shw) : Prop where
  properties : Counted (ShwData.Ok true) shadow.propertyNumber shadow.properties
  events : Counted ShwEvent.Ok shadow.eventNumber shadow.events
  services : Counted ShwService.Ok shadow.serviceNumber shadow.services

variable {named : Bool}

theorem ShwData.Ok.identifier_ne {d : ShwData} (h : d.Ok named) (hnamed : named = true) :
    d.identifier ≠ none := by
  cases h with
  | scalar hid => exact hid hnamed
  | cells hid => exact hid hnamed
  | struct hid => exact hid hnamed
  | structs hid => exact hid hnamed

theorem ShwData.Ok.not_zero (named : Bool) : ¬ ShwData.zero.Ok named := by
  intro h
  cases h

theorem ShwData.Ok.not_null {identifier : Option Bytes} {type : DataType} :
    ¬ (ShwData.null identifier type).Ok named := by
  intro h
  cases h

theorem ShwData.Ok.not_unallocated {identifier : Option Bytes} {type elem : DataType}
    {size : ℤ} : ¬ (ShwData.unallocated identifier type elem size).Ok named := by
  intro h
  cases h

/-! ## Searches of a well-formed shadow -/

theorem findItem_ne_nullRead {name : Bytes} {items : List ShwData}
    (h : ∀ d ∈ items, d.Ok true) (i : ℕ) : findItem name i items ≠ .nullRead := by
  induction items generalizing i with
  | nil => simp [findItem]
  | cons d items ih =>
    obtain ⟨identifier, hid⟩ :=
      Option.ne_none_iff_exists'.mp ((h d mem_cons_self).identifier_ne rfl)
    simp only [findItem, hid]
    split_ifs
    · intro hc
      cases hc
    · exact ih (fun d' hd' => h d' (mem_cons_of_mem d hd')) _

theorem itemSearch_ne_nullRead {item : ShwData} {named : Bool} (hok : item.Ok named)
    {key : Bytes}
    (ih : ∀ key' : Bytes, key'.length < key.length → ∀ (d : ShwData) (named : Bool) (addr : Addr),
      d.Ok named → d.type = .struct → structSearch d addr key' ≠ .nullRead) (addr : Addr) :
    itemSearch item addr key ≠ .nullRead := by
  cases hstart : keyStart key with
  | none =>
    rw [itemSearch_overflow hstart]
    intro hc
    cases hc
  | some start =>
    cases hok with
    | scalar hid htype hfits =>
      rw [itemSearch_scalar hstart _ _ _ htype]
      split_ifs <;> simp
    | cells hid helem hpos hlen hfits =>
      rw [itemSearch_cells hstart]
      split_ifs <;> simp
    | struct hid hpos hlen hitems =>
      rw [itemSearch_struct hstart]
      split_ifs with hlast hpartial
      · intro hc
        cases hc
      · intro hc
        cases hc
      · -- the search goes on with the key behind the first delimiter
        apply ih
        · exact length_drop_lt (key_ne_nil hstart (.inl hlast))
        · exact .struct hid hpos hlen hitems
        · rfl
    | structs hid hpos hlen htype hitems =>
      rw [itemSearch_structs hstart]
      split_ifs with hplain hdeli hneg
      · intro hc
        cases hc
      · intro hc
        cases hc
      · intro hc
        cases hc
      · split
        · intro hc
          cases hc
        · -- an element that is there is a structure, and the rest of the key is shorter
          next data hdata =>
          have hmem := mem_of_getElem? hdata
          refine ih _ ?_ data false _ (hitems data hmem) (htype data hmem)
          have hlen := length_drop_lt (n := start.deliOffset) (key_ne_nil hstart (.inr hplain))
          rw [length_take]
          omega

theorem structSearch_ne_nullRead (key : Bytes) :
    ∀ (d : ShwData) (named : Bool) (addr : Addr), d.Ok named → d.type = .struct →
      structSearch d addr key ≠ .nullRead := by
  induction hn : key.length using Nat.strong_induction_on generalizing key with
  | _ n ih =>
    subst hn
    intro d named addr hok htype
    cases hstart : keyStart key with
    | none =>
      rw [structSearch_overflow hstart]
      intro hc
      cases hc
    | some start =>
      cases hok with
      | scalar hid hscalar hfits =>
        rw [ShwData.type] at htype
        rw [htype] at hscalar
        cases hscalar
      | cells hid helem hpos hlen hfits => cases htype
      | structs hid hpos hlen hdatas hitems => cases htype
      | struct hid hpos hlen hitems =>
        rw [structSearch_datas hstart]
        split
        · next i item hfound =>
          have hitem : item.Ok true :=
            hitems item (mem_of_mem_take (mem_of_getElem? (findItem_found hfound).1.2))
          exact itemSearch_ne_nullRead hitem (fun key' hkey' => ih key'.length hkey' key' rfl) _
        · split_ifs <;> simp
        · next hnull =>
          exact absurd hnull (findItem_ne_nullRead (fun d hd => hitems d (mem_of_mem_take hd)) 0)
        · intro hc
          cases hc

theorem dataSearch_ne_nullRead {d : ShwData} (hok : d.Ok true) (addr : Addr) (key : Bytes) :
    dataSearch d addr key ≠ .nullRead := by
  obtain ⟨identifier, hid⟩ := Option.ne_none_iff_exists'.mp (hok.identifier_ne rfl)
  unfold dataSearch
  split
  · intro hc
    cases hc
  · simp only [hid]
    split_ifs
    · exact itemSearch_ne_nullRead hok (fun key' _ => structSearch_ne_nullRead key') addr
    · intro hc
      cases hc

variable {key : Bytes}

theorem propertyLoop_ne_nullRead {properties : List ShwData} (h : ∀ d ∈ properties, d.Ok true)
    (i : ℕ) : propertyLoop key i properties ≠ .nullRead := by
  induction properties generalizing i with
  | nil => exact fun hc => nomatch hc
  | cons d properties ih =>
    rw [propertyLoop]
    split
    · exact ih (fun d' hd' => h d' (mem_cons_of_mem d hd')) _
    · exact dataSearch_ne_nullRead (h d mem_cons_self) _ key

theorem identifierSearch_ne_nullRead {identifiers : List (Option Bytes)}
    (h : ∀ identifier ∈ identifiers, identifier ≠ none) (i number : ℕ) :
    identifierSearch key i number identifiers ≠ .nullRead := by
  induction identifiers generalizing i number with
  | nil => cases number <;> exact fun hc => nomatch hc
  | cons identifier identifiers ih =>
    cases number with
    | zero => exact fun hc => nomatch hc
    | succ number =>
      obtain ⟨name, rfl⟩ := Option.ne_none_iff_exists'.mp (h identifier mem_cons_self)
      rw [identifierSearch]
      split_ifs
      · exact fun hc => nomatch hc
      · exact ih (fun identifier' hi => h identifier' (mem_cons_of_mem _ hi)) _ _

/-- The searches of the properties, the events and the services meet no pointer that is zero. -/
structure Shw.NoNullRead (shadow : Shw) : Prop where
  property : ∀ key, propertySearch shadow key ≠ .nullRead
  event : ∀ key, eventSearch shadow key ≠ .nullRead
  service : ∀ key, serviceSearch shadow key ≠ .nullRead

theorem Shw.Ok.noNullRead {shadow : Shw} (h : shadow.Ok) : shadow.NoNullRead where
  property := by
    intro key
    unfold propertySearch
    split_ifs with hnone
    · exact fun hc => nomatch hc
    · rcases h.properties with hzero | ⟨block, hblock, hlen, hok⟩
      · exact absurd (.inr hzero) hnone
      · simp only [hblock]
        split
        · split_ifs <;> exact fun hc => nomatch hc
        · exact propertyLoop_ne_nullRead (fun d hd => hok d (mem_of_mem_take hd)) 0
  event := by
    intro key
    unfold eventSearch
    split_ifs
    · exact fun hc => nomatch hc
    · rcases h.events with hzero | ⟨block, hblock, hlen, hok⟩
      · rw [hzero]
        exact fun hc => nomatch hc
      rw [hblock]
      -- every event has an identifier
      apply identifierSearch_ne_nullRead
      intro identifier hi
      obtain ⟨e, he, rfl⟩ := mem_map.mp hi
      exact (hok e he).identifier
  service := by
    intro key
    unfold serviceSearch
    split_ifs
    · exact fun hc => nomatch hc
    · rcases h.services with hzero | ⟨block, hblock, hlen, hok⟩
      · rw [hzero]
        exact fun hc => nomatch hc
      · rw [hblock]
        apply identifierSearch_ne_nullRead
        intro identifier hi
        obtain ⟨s, hs, rfl⟩ := mem_map.mp hi
        exact (hok s hs).identifier

/-! ## Well-formed texts -/

/-- There is memory for so many elements, and their bytes are counted in 32 bits. -/
structure Room (env : LoadEnv) (count : ℤ) (size : ℕ) : Prop where
  pos : 0 < count
  lt : count * size < 2 ^ 32
  memory : env.malloc (count * size).toNat = true

mutual

/-- A member of a list of properties or data: it has an identifier and a type. -/
inductive PropertyOk (env : LoadEnv) : Json → Prop where
  | mk {root data : Json} {identifier : Bytes}
      (hid : root.member identifierKey = some (.string identifier))
      (hmem : env.malloc (identifier.length + 1) = true)
      (hdata : root.member dataTypeKey = some data) (hobj : data.isObject = true)
      (hok : DataOk env data) : PropertyOk env root

/-- The type is known, and the specification of an array or a struct is there. -/
inductive DataOk (env : LoadEnv) : Json → Prop where
  | scalar {root : Json} {name : Bytes} {type : DataType}
      (htype : root.member typeKey = some (.string name)) (hname : getType name = some type)
      (hscalar : type.isScalar = true) : DataOk env root
  | array {root specs : Json} {name : Bytes}
      (htype : root.member typeKey = some (.string name)) (hname : getType name = some .array)
      (hspecs : root.member specsKey = some specs) (hok : ArrayOk env specs) : DataOk env root
  | struct {root specs : Json} {name : Bytes}
      (htype : root.member typeKey = some (.string name)) (hname : getType name = some .struct)
      (hspecs : root.member specsKey = some specs) (hok : StructOk env specs) : DataOk env root

/-- An array has a size of at most ten characters for which there is memory, and values or structs
as elements. -/
inductive ArrayOk (env : LoadEnv) : Json → Prop where
  | scalar {root size item type : Json} {elem : DataType} (hobj : root.isObject = true)
      (hmem : env.malloc sizeofComplex = true) (hsize : root.member sizeKey = some size)
      (hlen : size.text.length ≤ uint32Strlen) (hitem : root.member itemKey = some item)
      (htype : item.member typeKey = some type) (hname : getType type.text = some elem)
      (hscalar : elem.isScalar = true) (hroom : Room env (env.arraySize size.text) (sizeofElem elem)) :
      ArrayOk env root
  | struct {root size item type specs : Json} (hobj : root.isObject = true)
      (hmem : env.malloc sizeofComplex = true) (hsize : root.member sizeKey = some size)
      (hlen : size.text.length ≤ uint32Strlen) (hitem : root.member itemKey = some item)
      (htype : item.member typeKey = some type) (hname : getType type.text = some .struct)
      (hspecs : item.member specsKey = some specs) (hok : StructOk env specs)
      (hroom : Room env (env.arraySize size.text) sizeofData) : ArrayOk env root

/-- A struct has members, and each is well formed. -/
inductive StructOk (env : LoadEnv) : Json → Prop where
  | mk {root : Json} (hmem : env.malloc sizeofComplex = true)
      (hroom : Room env root.items.length sizeofData)
      (hok : ∀ item ∈ root.items, PropertyOk env item) : StructOk env root

end

variable {env : LoadEnv} {root : Json}

theorem PropertyOk.isObject (h : PropertyOk env root) : root.isObject = true := by
  cases h with
  | mk hid hmem hdata hobj hok =>
    cases root with
    | object text members => rfl
    | plain text => exact nomatch hid
    | string text => exact nomatch hid
    | array text items => exact nomatch hid

/-! ## Memory -/

variable {size : ℕ}

theorem Room.allocate {count : ℤ} (h : Room env count size) (hsize : 0 < size) :
    env.allocate count size = some count.toNat := by
  have hpos : 0 < count := h.pos
  have hmod : count * size % 2 ^ 32 = count * size :=
    Int.emod_eq_of_lt (by positivity) h.lt
  simp only [LoadEnv.allocate, hmod, h.memory, if_true]
  congr 1
  obtain ⟨n, rfl⟩ := Int.eq_ofNat_of_zero_le hpos.le
  rw [← Nat.cast_mul, Int.toNat_natCast, Int.toNat_natCast, Nat.mul_div_cancel n hsize]

theorem room_of_allocate {count : ℤ} {n : ℕ} (hpos : 0 < count)
    (h : env.allocate count size = some n) (hle : count ≤ n) : Room env count size := by
  simp only [LoadEnv.allocate] at h
  split_ifs at h with hmem
  have hn : (count * size % 2 ^ 32).toNat / size = n := Option.some.inj h
  have hlow := Int.emod_nonneg (count * size) (show (2 ^ 32 : ℤ) ≠ 0 by norm_num)
  have hhigh := Int.emod_lt_of_pos (count * size) (show (0 : ℤ) < 2 ^ 32 by norm_num)
  have hmul : n * size ≤ (count * size % 2 ^ 32).toNat := by
    rw [← hn]
    exact Nat.div_mul_le_self _ _
  -- the bytes that were counted are all the bytes
  have hbytes : count * size ≤ count * size % 2 ^ 32 := by
    calc count * size ≤ n * size := mul_le_mul_of_nonneg_right hle (by positivity)
      _ = ((n * size : ℕ) : ℤ) := by push_cast; rfl
      _ ≤ ((count * size % 2 ^ 32).toNat : ℤ) := by exact_mod_cast hmul
      _ = count * size % 2 ^ 32 := Int.toNat_of_nonneg hlow
  have hlt : count * size < 2 ^ 32 := lt_of_le_of_lt hbytes hhigh
  have hmod : count * size % 2 ^ 32 = count * size := Int.emod_eq_of_lt (by positivity) hlt
  refine ⟨hpos, hlt, ?_⟩
  rw [hmod] at hmem
  exact hmem

/-! ## The parsers -/

variable {type : DataType}

theorem isScalar_of_ne (hnone : type ≠ .none) (harray : type ≠ .array) (hstruct : type ≠ .struct) :
    type.isScalar = true := by
  cases type <;> first | rfl | contradiction

theorem Cell.zero_fits (h : type.isScalar = true) : (Cell.zero type).fits type = true := by
  cases type <;> first | rfl | exact nomatch h

theorem sizeofElem_pos (type : DataType) : 0 < sizeofElem type := by
  cases type <;> decide

/-- A parser leaves a well-formed node exactly of a well-formed text, and then it succeeds. -/
def Parses (result : Bool × ShwData) (named : Bool) (ok : Prop) : Prop :=
  (result.2.Ok named ↔ ok) ∧ (ok → result.1 = true)

variable {named : Bool} {identifier : Option Bytes}

theorem parses_null {ok : Bool} {P : Prop} (h : ¬ P) : Parses (ok, .null identifier type) named P :=
  ⟨⟨fun hc => absurd hc ShwData.Ok.not_null, fun hc => absurd hc h⟩, fun hc => absurd hc h⟩

theorem parses_unallocated {ok : Bool} {elem : DataType} {size : ℤ} {P : Prop} (h : ¬ P) :
    Parses (ok, .unallocated identifier type elem size) named P :=
  ⟨⟨fun hc => absurd hc ShwData.Ok.not_unallocated, fun hc => absurd hc h⟩, fun hc => absurd hc h⟩

theorem length_itemsParse (env : LoadEnv) (items : List Json) :
    (itemsParse env items).2.length = items.length := by
  induction items with
  | nil => rw [itemsParse]; rfl
  | cons item items ih =>
    rw [itemsParse]
    split_ifs
    · exact congrArg (· + 1) ih
    · simp
    · simp

variable {items : List Json}

/-- The loop over the members of a struct: an item that cannot be parsed leaves a place that is not
well formed. -/
theorem itemsParse_parses
    (ih : ∀ item ∈ items, Parses (propertyParse env item) true (PropertyOk env item)) :
    ((∀ d ∈ (itemsParse env items).2, d.Ok true) ↔ ∀ item ∈ items, PropertyOk env item) ∧
      ((∀ item ∈ items, PropertyOk env item) → (itemsParse env items).1 = true) := by
  induction items with
  | nil => rw [itemsParse]; simp
  | cons item items ihitems =>
    obtain ⟨hiff, hflag⟩ := ih item mem_cons_self
    obtain ⟨hrest, hrestflag⟩ := ihitems fun item' h => ih item' (mem_cons_of_mem item h)
    rw [itemsParse]
    split_ifs with hobj hfirst
    · rw [forall_mem_cons, forall_mem_cons, hiff, hrest]
      exact ⟨Iff.rfl, fun h => hrestflag h.2⟩
    · have hnot : ¬ PropertyOk env item := fun hc => hfirst (hflag hc)
      rw [forall_mem_cons, forall_mem_cons, hiff]
      exact ⟨⟨fun h => absurd h.1 hnot, fun h => absurd h.1 hnot⟩, fun h => absurd h.1 hnot⟩
    · have hnot : ¬ PropertyOk env item := fun hc => hobj hc.isObject
      rw [replicate_succ, forall_mem_cons, forall_mem_cons]
      exact ⟨⟨fun h => absurd h.1 (ShwData.Ok.not_zero true), fun h => absurd h.1 hnot⟩,
        fun h => absurd h.1 hnot⟩

theorem structParse_type (env : LoadEnv) (identifier : Option Bytes) (root : Json) :
    (structParse env identifier root).2.type = .struct := by
  rw [structParse]
  split_ifs
  · rfl
  · split <;> rfl

theorem structParse_parses
    (ih : ∀ item ∈ root.items, Parses (propertyParse env item) true (PropertyOk env item))
    (hid : named = true → identifier ≠ none) :
    Parses (structParse env identifier root) named (StructOk env root) := by
  rw [structParse]
  split_ifs with hfail
  · apply parses_null
    rintro ⟨hmem, hroom, -⟩
    rcases hfail with hnil | hmem'
    · rw [hnil] at hroom
      exact absurd hroom.pos (by simp)
    · rw [hmem] at hmem'
      cases hmem'
  · obtain ⟨hnil, hmem⟩ := not_or.mp hfail
    have hpos : (0 : ℤ) < root.items.length := by
      exact_mod_cast length_pos_iff.mpr hnil
    split
    · next halloc =>
      apply parses_unallocated
      rintro ⟨-, hroom, -⟩
      rw [hroom.allocate (by decide)] at halloc
      cases halloc
    · next n halloc =>
      obtain ⟨hiff, hflag⟩ := itemsParse_parses ih
      have hlength := length_itemsParse env root.items
      constructor
      · constructor
        · intro hok
          cases hok with
          -- as many items as the text has, or as there was room for
          | struct hid hpos' hlen hitems =>
            rw [length_take, hlength] at hlen
            have hn : root.items.length ≤ n := by omega
            rw [take_of_length_le (hlength.trans_le hn)] at hitems
            exact .mk (by simpa using hmem)
              (room_of_allocate hpos halloc (by exact_mod_cast hn)) (hiff.mp hitems)
        · rintro ⟨-, hroom, hok⟩
          have hn := (hroom.allocate (by decide)).symm.trans halloc
          rw [Option.some.injEq, Int.toNat_natCast] at hn
          rw [take_of_length_le (hlength.trans_le hn.le)]
          exact .struct hid hpos (by rw [hlength]) (hiff.mpr hok)
      · rintro ⟨-, -, hok⟩
        exact hflag hok

theorem arrayOk_iff (env : LoadEnv) (root : Json) :
    ArrayOk env root ↔ root.isObject = true ∧ env.malloc sizeofComplex = true ∧
      ∃ size item elem, root.member sizeKey = some size ∧ size.text.length ≤ uint32Strlen ∧
        root.member itemKey = some item ∧
        ((item.member typeKey).bind fun type => getType type.text) = some elem ∧
        ((elem.isScalar = true ∧ Room env (env.arraySize size.text) (sizeofElem elem)) ∨
          (elem = .struct ∧ (∃ specs, item.member specsKey = some specs ∧ StructOk env specs) ∧
            Room env (env.arraySize size.text) sizeofData)) := by
  constructor
  · intro h
    cases h with
    | scalar hobj hmem hsize hlen hitem htype hname hscalar hroom =>
      refine ⟨hobj, hmem, _, _, _, hsize, hlen, hitem, ?_, .inl ⟨hscalar, hroom⟩⟩
      rw [htype, Option.bind_some, hname]
    | struct hobj hmem hsize hlen hitem htype hname hspecs hok hroom =>
      refine ⟨hobj, hmem, _, _, _, hsize, hlen, hitem, ?_, .inr ⟨rfl, ⟨_, hspecs, hok⟩, hroom⟩⟩
      rw [htype, Option.bind_some, hname]
  · rintro ⟨hobj, hmem, size, item, elem, hsize, hlen, hitem, htype, helem⟩
    obtain ⟨type, hmember, hname⟩ := Option.bind_eq_some_iff.mp htype
    rcases helem with ⟨hscalar, hroom⟩ | ⟨rfl, ⟨specs, hspecs, hok⟩, hroom⟩
    · exact .scalar hobj hmem hsize hlen hitem hmember hname hscalar hroom
    · exact .struct hobj hmem hsize hlen hitem hmember hname hspecs hok hroom

/-- An array of values, or none. -/
theorem parses_cells {env : LoadEnv} {identifier : Option Bytes} {named : Bool}
    (hid : named = true → identifier ≠ none) {elem : DataType} (hscalar : elem.isScalar = true)
    (n : ℤ) {P : Prop} (hP : P ↔ Room env n (sizeofElem elem)) :
    Parses (match env.allocate n (sizeofElem elem) with
        | none => (false, .unallocated identifier .array elem n)
        | some k => (true, .cells identifier elem n (List.replicate k (Cell.zero elem)))) named P := by
  split
  · next halloc =>
    apply parses_unallocated
    rw [hP]
    intro hroom
    rw [hroom.allocate (sizeofElem_pos elem)] at halloc
    cases halloc
  · next k halloc =>
    refine ⟨⟨?_, ?_⟩, fun _ => rfl⟩
    · intro hok
      cases hok with
      | cells hid helem hpos hlen hfits =>
        rw [length_replicate] at hlen
        exact hP.mpr (room_of_allocate hpos halloc hlen.le)
    · intro h
      have hroom := hP.mp h
      have hk := (hroom.allocate (sizeofElem_pos elem)).symm.trans halloc
      have hpos := hroom.pos
      refine .cells hid hscalar hpos ?_ ?_
      · rw [length_replicate, ← Option.some.inj hk, Int.toNat_of_nonneg hpos.le]
      · intro c hc
        rw [eq_of_mem_replicate hc]
        exact Cell.zero_fits hscalar

/-- An array of structs: all elements are parsed from one specification. -/
theorem parses_structs (hid : named = true → identifier ≠ none) {specs : Json} (n : ℤ)
    (hspecs : Parses (structParse env none specs) false (StructOk env specs)) {P : Prop}
    (hP : P ↔ StructOk env specs ∧ Room env n sizeofData) :
    Parses (match env.allocate n sizeofData with
        | none => (false, .unallocated identifier .array .struct n)
        | some k => (true, .datas identifier .array .struct n (List.replicate k
            (if 0 < n then (structParse env none specs).2 else .zero)))) named P := by
  split
  · next halloc =>
    apply parses_unallocated
    rw [hP]
    rintro ⟨-, hroom⟩
    rw [hroom.allocate (by decide)] at halloc
    cases halloc
  · next k halloc =>
    refine ⟨⟨?_, ?_⟩, fun _ => rfl⟩
    · intro hok
      cases hok with
      | structs hid hpos hlen htype hitems =>
        -- there is a first element to look at
        rw [if_pos hpos] at hitems
        rw [length_replicate] at hlen
        refine hP.mpr ⟨hspecs.1.mp (hitems _ ?_), room_of_allocate hpos halloc hlen.le⟩
        rw [mem_replicate]
        exact ⟨by omega, rfl⟩
    · intro h
      obtain ⟨hok, hroom⟩ := hP.mp h
      have hk := (hroom.allocate (by decide)).symm.trans halloc
      have hpos := hroom.pos
      rw [if_pos hpos]
      refine .structs hid hpos ?_ ?_ ?_
      · rw [length_replicate, ← Option.some.inj hk, Int.toNat_of_nonneg hpos.le]
      · intro d hd
        rw [eq_of_mem_replicate hd]
        exact structParse_type env none specs
      · intro d hd
        rw [eq_of_mem_replicate hd]
        exact hspecs.1.mpr hok

theorem arrayParse_parses {env : LoadEnv} {root : Json}
    (ih : ∀ specs : Json, sizeOf specs < sizeOf root →
      Parses (structParse env none specs) false (StructOk env specs))
    {identifier : Option Bytes} {named : Bool} (hid : named = true → identifier ≠ none) :
    Parses (arrayParse env identifier root) named (ArrayOk env root) := by
  rw [arrayParse]
  split_ifs with hfail
  · apply parses_null
    rw [arrayOk_iff]
    rintro ⟨hobj, hmem, -⟩
    simp [hobj, hmem] at hfail
  obtain ⟨hobj, hmem⟩ := not_or.mp hfail
  simp only [Bool.not_eq_false] at hobj hmem
  split
  · next hsize =>
    apply parses_unallocated
    simp [arrayOk_iff, hsize]
  next size hsize =>
  split_ifs with hlen
  · apply parses_unallocated
    rw [arrayOk_iff]
    rintro ⟨-, -, size', item, elem, hsize', hlen', -⟩
    obtain rfl := Option.some.inj (hsize.symm.trans hsize')
    omega
  dsimp only
  split
  · next hitem =>
    apply parses_unallocated
    simp [arrayOk_iff, hitem]
  next item hitem =>
  have hlen' : size.text.length ≤ uint32Strlen := by omega
  -- what has been read so far
  have hread : ArrayOk env root ↔ ∃ elem,
      ((item.member typeKey).bind fun type => getType type.text) = some elem ∧
        ((elem.isScalar = true ∧ Room env (env.arraySize size.text) (sizeofElem elem)) ∨
          (elem = .struct ∧ (∃ specs, item.member specsKey = some specs ∧ StructOk env specs) ∧
            Room env (env.arraySize size.text) sizeofData)) := by
    rw [arrayOk_iff]
    simp [hobj, hmem, hsize, hlen', hitem]
  split
  · next htype =>
    apply parses_unallocated
    simp [hread, htype]
  · next htype =>
    apply parses_unallocated
    simp [hread, htype, DataType.isScalar]
  · next htype =>
    apply parses_unallocated
    simp [hread, htype, DataType.isScalar]
  · next htype =>
    split
    · next hspecs =>
      apply parses_unallocated
      simp [hread, htype, hspecs, DataType.isScalar]
    · next specs hspecs =>
      have hsub : sizeOf specs < sizeOf root :=
        (Json.sizeOf_member_lt hspecs).trans (Json.sizeOf_member_lt hitem)
      have hiff : ArrayOk env root ↔
          StructOk env specs ∧ Room env (env.arraySize size.text) sizeofData := by
        simp [hread, htype, hspecs, DataType.isScalar]
      by_cases hempty : specs.items = []
      · rw [if_pos hempty]
        apply parses_unallocated
        rw [hiff]
        rintro ⟨⟨-, hroom, -⟩, -⟩
        rw [hempty] at hroom
        exact absurd hroom.pos (by simp)
      · rw [if_neg hempty]
        exact parses_structs hid _ (ih specs hsub) hiff
  · next elem hnone harray hstruct htype =>
    have hscalar : elem.isScalar = true := isScalar_of_ne hnone harray hstruct
    apply parses_cells hid hscalar
    rw [hread, htype]
    have hne : elem ≠ .struct := hstruct
    simp [hscalar, hne]

theorem dataOk_iff (env : LoadEnv) (root : Json) :
    DataOk env root ↔ ∃ name type, root.member typeKey = some (.string name) ∧
      getType name = some type ∧
      (type.isScalar = true ∨
        (type = .array ∧ ∃ specs, root.member specsKey = some specs ∧ ArrayOk env specs) ∨
        (type = .struct ∧ ∃ specs, root.member specsKey = some specs ∧ StructOk env specs)) := by
  constructor
  · intro h
    cases h with
    | scalar htype hname hscalar => exact ⟨_, _, htype, hname, .inl hscalar⟩
    | array htype hname hspecs hok => exact ⟨_, _, htype, hname, .inr (.inl ⟨rfl, _, hspecs, hok⟩)⟩
    | struct htype hname hspecs hok => exact ⟨_, _, htype, hname, .inr (.inr ⟨rfl, _, hspecs, hok⟩)⟩
  · rintro ⟨name, type, htype, hname, hscalar | ⟨rfl, specs, hspecs, hok⟩ | ⟨rfl, specs, hspecs, hok⟩⟩
    · exact .scalar htype hname hscalar
    · exact .array htype hname hspecs hok
    · exact .struct htype hname hspecs hok

theorem dataParse_parses {env : LoadEnv} {root : Json}
    (iharray : ∀ specs : Json, sizeOf specs < sizeOf root → ∀ (identifier : Option Bytes)
      (named : Bool), (named = true → identifier ≠ none) →
      Parses (arrayParse env identifier specs) named (ArrayOk env specs))
    (ihstruct : ∀ specs : Json, sizeOf specs < sizeOf root → ∀ (identifier : Option Bytes)
      (named : Bool), (named = true → identifier ≠ none) →
      Parses (structParse env identifier specs) named (StructOk env specs))
    {identifier : Option Bytes} {named : Bool} (hid : named = true → identifier ≠ none) :
    Parses (dataParse env identifier root) named (DataOk env root) := by
  rw [dataParse]
  split
  · next name hname =>
    -- what has been read so far
    have hread : DataOk env root ↔ ∃ type, getType name = some type ∧
        (type.isScalar = true ∨
          (type = .array ∧ ∃ specs, root.member specsKey = some specs ∧ ArrayOk env specs) ∨
          (type = .struct ∧ ∃ specs, root.member specsKey = some specs ∧ StructOk env specs)) := by
      rw [dataOk_iff]
      simp [hname]
    split
    · next htype =>
      apply parses_null
      simp [hread, htype]
    · next htype =>
      apply parses_null
      simp [hread, htype, DataType.isScalar]
    · next htype =>
      split
      · next hspecs =>
        apply parses_null
        simp [hread, htype, hspecs, DataType.isScalar]
      · next specs hspecs =>
        have hiff : DataOk env root ↔ ArrayOk env specs := by
          simp [hread, htype, hspecs, DataType.isScalar]
        rw [hiff]
        exact iharray specs (Json.sizeOf_member_lt hspecs) identifier named hid
    · next htype =>
      split
      · next hspecs =>
        apply parses_null
        simp [hread, htype, hspecs, DataType.isScalar]
      · next specs hspecs =>
        have hiff : DataOk env root ↔ StructOk env specs := by
          simp [hread, htype, hspecs, DataType.isScalar]
        rw [hiff]
        exact ihstruct specs (Json.sizeOf_member_lt hspecs) identifier named hid
    · next type hnone harray hstruct htype =>
      have hscalar : type.isScalar = true := isScalar_of_ne hnone harray hstruct
      have hok : DataOk env root := hread.mpr ⟨type, htype, .inl hscalar⟩
      exact ⟨⟨fun _ => hok, fun _ => .scalar hid hscalar (Cell.zero_fits hscalar)⟩, fun _ => rfl⟩
  · next hname =>
    apply parses_null
    rw [dataOk_iff]
    rintro ⟨name, type, hstring, -⟩
    exact hname name hstring

theorem propertyParse_of_dataParse {env : LoadEnv} {root : Json}
    (ih : ∀ data : Json, sizeOf data < sizeOf root → ∀ identifier : Bytes,
      Parses (dataParse env (some identifier) data) true (DataOk env data)) :
    Parses (propertyParse env root) true (PropertyOk env root) := by
  rw [propertyParse]
  split
  · next identifier hid =>
    split_ifs with hmem
    · split
      · next hdata =>
        apply parses_null
        rintro ⟨-, -, hdata', -, -⟩
        rw [hdata] at hdata'
        cases hdata'
      · next data hdata =>
        split_ifs with hobj
        · obtain ⟨hiff, hflag⟩ := ih data (Json.sizeOf_member_lt hdata) identifier
          -- the text of the data is the only one that a well-formed property can have
          have hprop : PropertyOk env root ↔ DataOk env data := by
            constructor
            · rintro ⟨-, -, hdata', -, hok⟩
              rw [Option.some.inj (hdata.symm.trans hdata')]
              exact hok
            · exact .mk hid hmem hdata hobj
          rw [hprop]
          exact ⟨hiff, hflag⟩
        · apply parses_null
          rintro ⟨-, -, hdata', hobj', -⟩
          rw [← Option.some.inj (hdata.symm.trans hdata')] at hobj'
          exact hobj hobj'
    · apply parses_null
      rintro ⟨hid', hmem', -, -, -⟩
      obtain rfl := Json.string.inj (Option.some.inj (hid.symm.trans hid'))
      exact hmem hmem'
  · next hid =>
    apply parses_null
    rintro ⟨hid', -, -, -, -⟩
    exact hid _ hid'

/-- **The parsers.**  A text is parsed into a well-formed node exactly when it is well formed. -/
theorem propertyParse_parses (env : LoadEnv) (root : Json) :
    Parses (propertyParse env root) true (PropertyOk env root) := by
  induction hn : sizeOf root using Nat.strong_induction_on generalizing root with
  | _ n ih =>
    subst hn
    have hstruct : ∀ specs : Json, sizeOf specs < sizeOf root →
        ∀ (identifier : Option Bytes) (named : Bool), (named = true → identifier ≠ none) →
          Parses (structParse env identifier specs) named (StructOk env specs) := by
      intro specs hspecs identifier named hid
      refine structParse_parses (fun item hitem => ?_) hid
      have hlt := (sizeOf_lt_of_mem hitem).trans (specs.sizeOf_items_lt.trans hspecs)
      exact ih (sizeOf item) hlt item rfl
    apply propertyParse_of_dataParse
    intro data hdata identifier
    apply dataParse_parses
    · intro specs hspecs identifier named hid
      refine arrayParse_parses (fun specs' hspecs' => ?_) hid
      exact hstruct specs' (hspecs'.trans (hspecs.trans hdata)) none false (fun hc => nomatch hc)
    · intro specs hspecs
      exact hstruct specs (hspecs.trans hdata)
    · exact fun _ => Option.some_ne_none identifier

/-! ## Lists -/

/-- The data of an event or a service: there is room for them, and each is well formed. -/
def DatasOk (env : LoadEnv) (items : List Json) : Prop :=
  items = [] ∨ Room env items.length sizeofData ∧ ∀ item ∈ items, PropertyOk env item

/-- An event has an identifier, and its output data are well formed if they are looked at. -/
def EventOk (env : LoadEnv) (root : Json) : Prop :=
  ∃ identifier, root.member identifierKey = some (.string identifier) ∧
    env.malloc (identifier.length + 1) = true ∧
    (identifierIs identifier specialEventPostIdentifier = true ∨
      ∀ text items, root.member outputDataKey = some (.array text items) → DatasOk env items)

/-- A service has an identifier, and its data are well formed if they are looked at. -/
def ServiceOk (env : LoadEnv) (root : Json) : Prop :=
  ∃ identifier, root.member identifierKey = some (.string identifier) ∧
    env.malloc (identifier.length + 1) = true ∧
    ((identifierIs identifier specialServiceSetIdentifier = true ∨
        identifierIs identifier specialServiceGetIdentifier = true) ∨
      (∀ text items, root.member outputDataKey = some (.array text items) → DatasOk env items) ∧
        ∀ text items, root.member inputDataKey = some (.array text items) → DatasOk env items)

/-- A list that is there is an array of objects, and there is memory for it. -/
def ListLoads (env : LoadEnv) (root : Json) (key : Bytes) (size : ℕ) : Prop :=
  ∀ item, root.member key = some item → ∃ text items, item = .array text items ∧
    (items = [] ∨ env.allocate items.length size ≠ none ∧ ∀ i ∈ items, i.isObject = true)

/-- A list has room for its elements, and each is well formed. -/
def ListOk (env : LoadEnv) (root : Json) (key : Bytes) (size : ℕ) (ok : Json → Prop) : Prop :=
  ∀ text items, root.member key = some (.array text items) →
    items = [] ∨ Room env items.length size ∧ ∀ item ∈ items, ok item

/-- The loader gets to the end of a text. -/
structure Loads (env : LoadEnv) (root : Json) : Prop where
  memory : env.malloc sizeofShw = true
  isObject : root.isObject = true
  properties : ListLoads env root propertiesKey sizeofData
  events : ListLoads env root eventsKey sizeofEvent
  services : ListLoads env root servicesKey sizeofService

/-- All members of the lists of a text are well formed. -/
structure TslOk (env : LoadEnv) (root : Json) : Prop where
  properties : ListOk env root propertiesKey sizeofData (PropertyOk env)
  events : ListOk env root eventsKey sizeofEvent (EventOk env)
  services : ListOk env root servicesKey sizeofService (ServiceOk env)

/-- A block of elements that were parsed one by one. -/
theorem counted_take_iff {α : Type} {ok : α → Prop} {P : Json → Prop} {elements : List α} {n : ℕ}
    (hitems : items ≠ []) (hsize : 0 < size) (halloc : env.allocate items.length size = some n)
    (hlength : elements.length = items.length)
    (hok : (∀ e ∈ elements, ok e) ↔ ∀ item ∈ items, P item) :
    Counted ok items.length (some (elements.take n)) ↔
      Room env items.length size ∧ ∀ item ∈ items, P item := by
  have hpos : 0 < items.length := length_pos_iff.mpr hitems
  constructor
  · rintro (hzero | ⟨block, hblock, hlen, helements⟩)
    · omega
    · obtain rfl := Option.some.inj hblock
      rw [length_take, hlength] at hlen
      have hn : items.length ≤ n := by omega
      rw [take_of_length_le (hlength.trans_le hn)] at helements
      exact ⟨room_of_allocate (by exact_mod_cast hpos) halloc (by exact_mod_cast hn),
        hok.mp helements⟩
  · rintro ⟨hroom, hP⟩
    have hn := (hroom.allocate hsize).symm.trans halloc
    rw [Option.some.injEq, Int.toNat_natCast] at hn
    rw [take_of_length_le (hlength.trans_le hn.le)]
    exact .inr ⟨elements, rfl, hlength, hok.mpr hP⟩

theorem listParse_isSome {α : Type} (env : LoadEnv) (root : Json) (key : Bytes) (size : ℕ)
    (parse : Json → α) :
    (listParse env root key size parse).isSome = true ↔ ListLoads env root key size := by
  unfold listParse ListLoads
  split
  · next hmember => simp [hmember]
  · next text items hmember =>
    have hlist : (∀ item, root.member key = some item → ∃ text items, item = .array text items ∧
        (items = [] ∨ env.allocate items.length size ≠ none ∧ ∀ i ∈ items, i.isObject = true)) ↔
        items = [] ∨ env.allocate items.length size ≠ none ∧ ∀ i ∈ items, i.isObject = true := by
      constructor
      · intro h
        obtain ⟨text', items', heq, hok⟩ := h _ hmember
        obtain ⟨rfl, rfl⟩ := Json.array.inj heq
        exact hok
      · intro h item hitem
        obtain rfl := Option.some.inj (hmember.symm.trans hitem)
        exact ⟨text, items, rfl, h⟩
    rw [hlist]
    by_cases hempty : items = []
    · rw [if_pos hempty]
      exact ⟨fun _ => .inl hempty, fun _ => rfl⟩
    · rw [if_neg hempty]
      cases halloc : env.allocate items.length size with
      | none => simp [hempty]
      | some n => simp [hempty, all_eq_true]
  · next item hitem hmember =>
    refine ⟨fun h => absurd h Bool.false_ne_true, fun h => ?_⟩
    obtain ⟨text, items, rfl, -⟩ := h item hmember
    exact absurd rfl (hitem text items)

theorem forall_array_iff {key text : Bytes}
    (hmember : root.member key = some (.array text items)) (P : List Json → Prop) :
    (∀ text items, root.member key = some (.array text items) → P items) ↔ P items := by
  constructor
  · exact fun h => h text items hmember
  · intro h text' items' hmember'
    obtain ⟨rfl, rfl⟩ := Json.array.inj (Option.some.inj (hmember.symm.trans hmember'))
    exact h

/-- A list that was parsed counts what is there exactly when its elements are well formed. -/
theorem listParse_counted_iff {α : Type} {key : Bytes} {parse : Json → α} {ok : α → Prop}
    {P : Json → Prop} (hsize : 0 < size) (hok : ∀ item, ok (parse item) ↔ P item)
    {result : ℕ × Option (List α)} (h : listParse env root key size parse = some result) :
    Counted ok result.1 result.2 ↔ ListOk env root key size P := by
  unfold listParse at h
  unfold ListOk
  split at h
  · next hmember =>
    obtain rfl := Option.some.inj h
    exact ⟨fun _ text items hc => absurd (hmember.symm.trans hc) nofun, fun _ => .inl rfl⟩
  · next text items hmember =>
    rw [forall_array_iff hmember fun items =>
      items = [] ∨ Room env items.length size ∧ ∀ item ∈ items, P item]
    by_cases hempty : items = []
    · rw [if_pos hempty] at h
      obtain rfl := Option.some.inj h
      exact ⟨fun _ => .inl hempty, fun _ => .inl rfl⟩
    rw [if_neg hempty] at h
    obtain ⟨n, halloc, h⟩ := Option.bind_eq_some_iff.mp h
    split_ifs at h
    obtain rfl := Option.some.inj h
    rw [or_iff_right hempty]
    -- as many items are parsed as there is room for
    refine counted_take_iff hempty hsize halloc (length_map _) ?_
    rw [forall_mem_map]
    exact forall₂_congr fun item _ => hok item
  · exact nomatch h

theorem outputdataLoop_spec (env : LoadEnv) (items : List Json) :
    (outputdataLoop (propertyParse env) items).2.length = items.length ∧
      ((∀ d ∈ (outputdataLoop (propertyParse env) items).2, d.Ok true) ↔
        ∀ item ∈ items, PropertyOk env item) ∧
      ((∀ item ∈ items, PropertyOk env item) →
        (outputdataLoop (propertyParse env) items).1 = true) := by
  induction items with
  | nil => simp [outputdataLoop]
  | cons item items ih =>
    obtain ⟨hlength, hiff, hflag⟩ := ih
    rw [outputdataLoop]
    split_ifs with hobj
    · rw [forall_mem_cons, forall_mem_cons, hiff, (propertyParse_parses env item).1]
      exact ⟨congrArg (· + 1) hlength, Iff.rfl, fun h => hflag h.2⟩
    · have hnot : ¬ PropertyOk env item := fun hc => hobj hc.isObject
      refine ⟨by simp, ?_, fun h => absurd (h item mem_cons_self) hnot⟩
      rw [replicate_succ, forall_mem_cons, forall_mem_cons]
      exact ⟨fun h => absurd h.1 (ShwData.Ok.not_zero true), fun h => absurd h.1 hnot⟩

/-- The data of an event or a service are counted exactly when they are well formed, and then the
parser succeeds. -/
theorem datasParse_spec (loop : List Json → Bool × List ShwData) (items : List Json)
    (hlength : (loop items).2.length = items.length)
    (hiff : (∀ d ∈ (loop items).2, d.Ok true) ↔ ∀ item ∈ items, PropertyOk env item)
    (hflag : (∀ item ∈ items, PropertyOk env item) → (loop items).1 = true) :
    (Counted (ShwData.Ok true) items.length (datasParse env loop items).2 ↔ DatasOk env items) ∧
      (DatasOk env items → (datasParse env loop items).1 = true) := by
  unfold datasParse DatasOk
  by_cases hempty : items = []
  · rw [if_pos hempty]
    exact ⟨⟨fun _ => .inl hempty, fun _ => .inl (by rw [hempty]; rfl)⟩, fun _ => rfl⟩
  rw [if_neg hempty, or_iff_right hempty]
  split
  · next halloc =>
    have hnot : ¬ (Room env items.length sizeofData ∧ ∀ item ∈ items, PropertyOk env item) := by
      rintro ⟨hroom, -⟩
      rw [hroom.allocate (by decide)] at halloc
      cases halloc
    refine ⟨⟨?_, fun h => absurd h hnot⟩, fun h => absurd h hnot⟩
    rintro (hzero | ⟨block, hblock, -⟩)
    · exact absurd (length_eq_zero_iff.mp hzero) hempty
    · cases hblock
  · next n halloc =>
    exact ⟨counted_take_iff hempty (by decide) halloc hlength hiff, fun h => hflag h.2⟩

theorem eventParse_ok_iff (env : LoadEnv) (root : Json) :
    (eventParse env root).Ok ↔ EventOk env root := by
  unfold eventParse EventOk
  split
  · next identifier hid =>
    simp only [hid, Option.some.injEq, Json.string.injEq, exists_eq_left']
    split_ifs with hmem hpost
    · exact ⟨fun _ => ⟨hmem, .inl hpost⟩, fun _ => ⟨Option.some_ne_none _, .inl rfl⟩⟩
    · split
      · next text items hmember =>
        obtain ⟨hlength, hiff, hflag⟩ := outputdataLoop_spec env items
        have hdatas := (datasParse_spec _ items hlength hiff hflag).1
        rw [or_iff_right hpost, forall_array_iff hmember (DatasOk env)]
        constructor
        · rintro ⟨-, houtputs⟩
          exact ⟨hmem, hdatas.mp houtputs⟩
        · rintro ⟨-, hok⟩
          exact ⟨Option.some_ne_none _, hdatas.mpr hok⟩
      · next hmember =>
        exact ⟨fun _ => ⟨hmem, .inr fun text items hc => absurd hc (hmember text items)⟩,
          fun _ => ⟨Option.some_ne_none _, .inl rfl⟩⟩
    · exact ⟨fun h => absurd rfl h.identifier, fun h => absurd h.1 hmem⟩
  · next hid =>
    refine ⟨fun h => absurd rfl h.identifier, ?_⟩
    rintro ⟨identifier, hc, -⟩
    exact absurd hc (hid identifier)

theorem serviceInputs_iff (env : LoadEnv) (root : Json) :
    Counted (ShwData.Ok true) (serviceInputs env root true).1 (serviceInputs env root true).2 ↔
      ∀ text items, root.member inputDataKey = some (.array text items) → DatasOk env items := by
  unfold serviceInputs
  split
  · next text items htrue hmember =>
    rw [forall_array_iff hmember (DatasOk env)]
    exact (datasParse_spec
      (fun items => (true, items.map fun item => (serviceInputdataParse env item).2)) items
      (length_map _)
      (by
        rw [forall_mem_map]
        exact forall₂_congr fun item _ => (propertyParse_parses env item).1)
      (fun _ => rfl)).1
  · next hmember =>
    exact ⟨fun _ text items hc => absurd hc (hmember text items rfl), fun _ => .inl rfl⟩

theorem serviceParse_ok_iff (env : LoadEnv) (root : Json) :
    (serviceParse env root).Ok ↔ ServiceOk env root := by
  unfold serviceParse ServiceOk
  split
  · next identifier hid =>
    simp only [hid, Option.some.injEq, Json.string.injEq, exists_eq_left']
    split_ifs with hmem hspecial
    · exact ⟨fun _ => ⟨hmem, .inl hspecial⟩,
        fun _ => ⟨Option.some_ne_none _, .inl rfl, .inl rfl⟩⟩
    · rw [or_iff_right hspecial]
      split
      · next text items hmember =>
        obtain ⟨hlength, hiff, hflag⟩ := outputdataLoop_spec env items
        obtain ⟨hdatas, hsuccess⟩ := datasParse_spec _ items hlength hiff hflag
        rw [forall_array_iff hmember (DatasOk env)]
        -- the input data are parsed after the output data have been
        constructor
        · rintro ⟨-, hinputs, houtputs⟩
          have hok := hdatas.mp houtputs
          dsimp only at hinputs
          rw [show (serviceOutputdatasParse env items).1 = true from hsuccess hok] at hinputs
          exact ⟨hmem, hok, (serviceInputs_iff env root).mp hinputs⟩
        · rintro ⟨-, hok, hinputs⟩
          refine ⟨Option.some_ne_none _, ?_, hdatas.mpr hok⟩
          dsimp only
          rw [show (serviceOutputdatasParse env items).1 = true from hsuccess hok]
          exact (serviceInputs_iff env root).mpr hinputs
      · next hmember =>
        constructor
        · rintro ⟨-, hinputs, -⟩
          exact ⟨hmem, fun text items hc => absurd hc (hmember text items),
            (serviceInputs_iff env root).mp hinputs⟩
        · rintro ⟨-, -, hinputs⟩
          exact ⟨Option.some_ne_none _, (serviceInputs_iff env root).mpr hinputs, .inl rfl⟩
    · exact ⟨fun h => absurd rfl h.identifier, fun h => absurd h.1 hmem⟩
  · next hid =>
    refine ⟨fun h => absurd rfl h.identifier, ?_⟩
    rintro ⟨identifier, hc, -⟩
    exact absurd hc (hid identifier)

/-! ## Loading -/

theorem dmTslAlinkCreate_eq_some {shadow : Shw} (h : dmTslAlinkCreate env root = some shadow) :
    propertiesParse env root = some (shadow.propertyNumber, shadow.properties) ∧
      eventsParse env root = some (shadow.eventNumber, shadow.events) ∧
      servicesParse env root = some (shadow.serviceNumber, shadow.services) := by
  unfold dmTslAlinkCreate at h
  split_ifs at h
  obtain ⟨properties, hproperties, h⟩ := Option.bind_eq_some_iff.mp h
  obtain ⟨events, hevents, h⟩ := Option.bind_eq_some_iff.mp h
  obtain ⟨services, hservices, h⟩ := Option.bind_eq_some_iff.mp h
  obtain rfl := Option.some.inj h
  exact ⟨hproperties, hevents, hservices⟩

theorem dmTslAlinkCreate_isSome (env : LoadEnv) (root : Json) :
    (dmTslAlinkCreate env root).isSome = true ↔ Loads env root := by
  have hproperties := listParse_isSome env root propertiesKey sizeofData
    fun item => (propertyParse env item).2
  have hevents := listParse_isSome env root eventsKey sizeofEvent (eventParse env)
  have hservices := listParse_isSome env root servicesKey sizeofService (serviceParse env)
  unfold dmTslAlinkCreate
  constructor
  · intro h
    split_ifs at h with hfail
    · exact absurd h Bool.false_ne_true
    obtain ⟨hmem, hobj⟩ := not_or.mp hfail
    obtain ⟨shadow, hshadow⟩ := Option.isSome_iff_exists.mp h
    obtain ⟨properties, hp, hshadow⟩ := Option.bind_eq_some_iff.mp hshadow
    obtain ⟨events, he, hshadow⟩ := Option.bind_eq_some_iff.mp hshadow
    obtain ⟨services, hs, hshadow⟩ := Option.bind_eq_some_iff.mp hshadow
    exact ⟨by simpa using hmem, by simpa using hobj,
      hproperties.mp (Option.isSome_iff_exists.mpr ⟨_, hp⟩),
      hevents.mp (Option.isSome_iff_exists.mpr ⟨_, he⟩),
      hservices.mp (Option.isSome_iff_exists.mpr ⟨_, hs⟩)⟩
  · rintro ⟨hmem, hobj, hp, he, hs⟩
    obtain ⟨properties, hp⟩ := Option.isSome_iff_exists.mp (hproperties.mpr hp)
    obtain ⟨events, he⟩ := Option.isSome_iff_exists.mp (hevents.mpr he)
    obtain ⟨services, hs⟩ := Option.isSome_iff_exists.mp (hservices.mpr hs)
    rw [if_neg (by simp [hmem, hobj]), propertiesParse, hp, eventsParse, he, servicesParse, hs]
    rfl

theorem shadow_ok_iff {shadow : Shw} (h : dmTslAlinkCreate env root = some shadow) :
    shadow.Ok ↔ TslOk env root := by
  obtain ⟨hproperties, hevents, hservices⟩ := dmTslAlinkCreate_eq_some h
  have hp := listParse_counted_iff (by decide)
    (fun item => (propertyParse_parses env item).1) hproperties
  have he := listParse_counted_iff (by decide) (eventParse_ok_iff env) hevents
  have hs := listParse_counted_iff (by decide) (serviceParse_ok_iff env) hservices
  constructor
  · intro hok
    exact ⟨hp.mp hok.properties, he.mp hok.events, hs.mp hok.services⟩
  · intro hok
    exact ⟨hp.mpr hok.properties, he.mpr hok.events, hs.mpr hok.services⟩

/-- **Loading.**  A shadow that is loaded is well formed, and no search of it reads a pointer that is
zero, exactly of the texts that do not load or have well-formed members only. -/
theorem tsl_load_ok_iff (env : LoadEnv) (root : Json) :
    (∀ shadow, dmTslAlinkCreate env root = some shadow → shadow.Ok ∧ shadow.NoNullRead) ↔
      (Loads env root → TslOk env root) := by
  constructor
  · intro h hloads
    obtain ⟨shadow, hshadow⟩ :=
      Option.isSome_iff_exists.mp ((dmTslAlinkCreate_isSome env root).mpr hloads)
    exact (shadow_ok_iff hshadow).mp (h shadow hshadow).1
  · intro h shadow hshadow
    have hloads := (dmTslAlinkCreate_isSome env root).mp
      (Option.isSome_iff_exists.mpr ⟨shadow, hshadow⟩)
    have hok := (shadow_ok_iff hshadow).mpr (h hloads)
    exact ⟨hok, hok.noNullRead⟩

/-- The text of a list of properties with an empty object is loaded; the search for a property `a`
then reads the identifier that is not there. -/
theorem tsl_load_broken :
    let env : LoadEnv := ⟨fun _ => true, []⟩
    let root : Json := .object
      [0x7B, 0x22, 0x70, 0x72, 0x6F, 0x70, 0x65, 0x72, 0x74, 0x69, 0x65, 0x73, 0x22, 0x3A, 0x5B,
        0x7B, 0x7D, 0x5D, 0x7D]
      [(propertiesKey, .array [0x5B, 0x7B, 0x7D, 0x5D] [.object [0x7B, 0x7D] []])]
    ¬ ∀ shadow, dmTslAlinkCreate env root = some shadow → shadow.Ok ∧ shadow.NoNullRead := by
  intro env root h
  have hempty : propertyParse env (.object [0x7B, 0x7D] []) = (false, .zero) := by
    rw [propertyParse]
    rfl
  have hshadow : dmTslAlinkCreate env root = some ⟨1, some [.zero], 0, none, 0, none⟩ := by
    have hproperties : propertiesParse env root = some (1, some [.zero]) := by
      show some (1, some ([(propertyParse env (.object [0x7B, 0x7D] [])).2].take 1)) = _
      rw [hempty]
      rfl
    simp only [dmTslAlinkCreate, hproperties]
    rfl
  exact (h _ hshadow).2.property [0x61] rfl

end Iotkit.Shadow
