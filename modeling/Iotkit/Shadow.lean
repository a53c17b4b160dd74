/-
# The shadow of a thing model (`dm_shadow.c`)

A thing model is a tree of data: values, arrays of values, structs, and arrays of structs.  A key
names a node by the identifiers on the way to it, with a `.` between them and the index of an array
in brackets.

A block of elements may be missing or have fewer elements than it says, and an identifier may be
missing; a search that comes across one of them, or that leaves a block, has no result.
-/
import Iotkit.CjsonPath

namespace Iotkit.Shadow

open LibC

/-! ## Data -/

/-- `dm_shw_data_type_e`. -/
inductive DataType where
  | none
  | int
  | float
  | double
  | text
  | enum
  | date
  | bool
  | array
  | struct
  deriving DecidableEq

/-- The types of the values that are no blocks. -/
def DataType.isScalar : DataType → Bool
  | .none | .array | .struct => false
  | _ => true

/-- What a value holds: a text is a pointer, and a number with a fraction is its bits. -/
inductive Cell where
  | int (v : Int32)
  | float (bits : UInt32)
  | double (bits : UInt64)
  | text (p : Option Bytes)
  deriving DecidableEq

/-- Memory that is zero, read as a value of a type. -/
def Cell.zero : DataType → Cell
  | .float => .float 0
  | .double => .double 0
  | .text | .date => .text none
  | _ => .int 0

/-- A value has the form of its type. -/
def Cell.fits : Cell → DataType → Bool
  | .int _, .int | .int _, .enum | .int _, .bool => true
  | .float _, .float => true
  | .double _, .double => true
  | .text _, .text | .text _, .date => true
  | _, _ => false

/-- A `dm_shw_data_t`.  The pointer of an array or a struct may be zero, and so may be the one of
its block, which else has so many elements as were allocated, whatever `size` says. -/
inductive ShwData where
  | scalar (identifier : Option Bytes) (type : DataType) (value : Cell)
  | null (identifier : Option Bytes) (type : DataType)
  | unallocated (identifier : Option Bytes) (type elem : DataType) (size : ℤ)
  | cells (identifier : Option Bytes) (elem : DataType) (size : ℤ) (block : List Cell)
  | datas (identifier : Option Bytes) (type elem : DataType) (size : ℤ)
      (block : List ShwData)

namespace ShwData

def identifier : ShwData → Option Bytes
  | scalar identifier _ _ | null identifier _ | unallocated identifier _ _ _
  | cells identifier _ _ _ | datas identifier _ _ _ _ => identifier

def type : ShwData → DataType
  | scalar _ type _ | null _ type | unallocated _ type _ _ | datas _ type _ _ _ => type
  | cells _ _ _ _ => .array

end ShwData

/-- A `dm_shw_event_t`. -/
structure ShwEvent where
  identifier : Option Bytes
  outputDataNumber : ℕ
  outputDatas : Option (List ShwData)

/-- A `dm_shw_service_t`. -/
structure ShwService where
  identifier : Option Bytes
  inputDataNumber : ℕ
  inputDatas : Option (List ShwData)
  outputDataNumber : ℕ
  outputDatas : Option (List ShwData)

/-- A `dm_shw_t`. -/
structure Shw where
  propertyNumber : ℕ
  properties : Option (List ShwData)
  eventNumber : ℕ
  events : Option (List ShwEvent)
  serviceNumber : ℕ
  services : Option (List ShwService)

/-! ## Keys -/

def keyDelimiter : UInt8 := 0x2E

/-- `dm_utils_memtok`: where the delimiter stands for the `index`-th time, with something behind
it. -/
def memtok (delimiter : UInt8) : ℕ → ℕ → Bytes → Option ℕ
  | _, _, [] => none
  | index, pos, c :: input =>
    if c = delimiter ∧ input ≠ [] then
      if index = 1 then some pos else memtok delimiter (index - 1) (pos + 1) input
    else memtok delimiter index (pos + 1) input

/-- The loop of `dm_utils_strarr_index`: the first bracket of either kind. -/
def strarrScan : UInt8 → ℕ → ℕ → Option ℕ → Option ℕ → Bytes → Option (Option ℕ × Option ℕ)
  | _, _, _, pre, suf, [] => some (pre, suf)
  | prev, pos, deep, pre, suf, c :: input =>
    if c = 0x5B then
      if deep ≠ 0 then none else strarrScan c (pos + 1) 1 (pre <|> some pos) suf input
    else if c = 0x5D then
      if deep ≠ 1 ∨ prev = 0x5B then none
      else strarrScan c (pos + 1) 0 pre (suf <|> some pos) input
    else strarrScan c (pos + 1) deep pre suf input

/-- What stands in front of an index, or that there is none, or that its text does not fit
`array_index_str`. -/
inductive StrarrIndex where
  | fail
  | index (partialInputLen : ℕ) (arrayIndex : ℤ)
  | overflow
  deriving DecidableEq

def strarrIndex (input : Bytes) : StrarrIndex :=
  if input.length ≤ 1 then .fail
  else
    match strarrScan 0 0 0 none none input with
    | some (some pre, some suf) =>
      if suf + 1 = input.length then
        let arrayIndexStr := (input.drop (pre + 1)).take (suf - pre - 1)
        if Cjson.Overruns arrayIndexStr then .overflow else .index pre (atoi arrayIndexStr)
      else .fail
    | _ => .fail

/-- `deli_offset`: where the first delimiter stands, or the end of the key. -/
def deliOffset (key : Bytes) : ℕ := (memtok keyDelimiter 1 0 key).getD key.length

/-- The start of a key: up to the delimiter, up to the index, and the index. -/
structure KeyStart where
  deliOffset : ℕ
  partialOffset : ℕ
  partialInputLen : ℕ
  arrayIndex : ℤ
  deriving DecidableEq

/-- The start of a key, unless its index does not fit. -/
def keyStart (key : Bytes) : Option KeyStart :=
  match strarrIndex (key.take (deliOffset key)) with
  | .fail => some ⟨deliOffset key, deliOffset key, 0, 0⟩
  | .index partialInputLen arrayIndex =>
    some ⟨deliOffset key, partialInputLen, partialInputLen, arrayIndex⟩
  | .overflow => none

/-! ## Search -/

/-- A search fails or finds something, or it reads a pointer that is zero or leaves a block. -/
inductive Search (α : Type) where
  | found (a : α)
  | fail
  | nullRead
  | outside
  deriving DecidableEq

/-- Where a node is: its index among the properties, and the index of each step below. -/
abbrev Addr := List ℕ

/-- The identifier is the key: `strlen` and `memcmp`. -/
def identifierIs (identifier key : Bytes) : Bool := identifier.takeWhile (· ≠ 0) = key

/-- The loop of `_dm_shw_data_struct_search`: the first item with a name and a known type. -/
def findItem (name : Bytes) : ℕ → List ShwData → Search (ℕ × ShwData)
  | _, [] => .fail
  | i, item :: items =>
    match item.identifier with
    | none => .nullRead
    | some identifier =>
      if identifierIs identifier name ∧ item.type ≠ .none then .found (i, item)
      else findItem name (i + 1) items

theorem findItem_found {name : Bytes} {items : List ShwData} {i j : ℕ} {d : ShwData}
    (h : findItem name i items = .found (j, d)) : (i ≤ j ∧ items[j - i]? = some d) ∧
      (∃ identifier, d.identifier = some identifier ∧ identifierIs identifier name = true) ∧
      d.type ≠ .none := by
  induction items generalizing i with
  | nil => cases h
  | cons d' items ih =>
    rw [findItem] at h
    cases hid : d'.identifier with
    | none =>
      rw [hid] at h
      cases h
    | some identifier =>
      rw [hid] at h
      dsimp only at h
      split_ifs at h with hnamed
      · cases h
        exact ⟨by simp, ⟨identifier, hid, hnamed.1⟩, hnamed.2⟩
      · obtain ⟨⟨hle, hget⟩, hfound⟩ := ih h
        obtain ⟨k, rfl⟩ := Nat.exists_eq_add_of_le hle
        rw [Nat.add_sub_cancel_left] at hget
        rw [show i + 1 + k - i = k + 1 by omega, List.getElem?_cons_succ]
        exact ⟨⟨by omega, hget⟩, hfound⟩

theorem keyStart_nil : keyStart [] = some ⟨0, 0, 0, 0⟩ := rfl

theorem length_drop_lt {key : Bytes} {n : ℕ} (h : key ≠ []) :
    (key.drop (n + 1)).length < key.length := by
  have hpos := List.length_pos_iff.mpr h
  rw [List.length_drop]
  omega

mutual

/-- What is done with a node whose identifier is the start of the key: the `switch` of
`_dm_shw_data_search` and of `_dm_shw_data_struct_search`, with `_dm_shw_data_array_search`. -/
def itemSearch (item : ShwData) (addr : Addr) (key : Bytes) : Search (Addr × ℤ) :=
  match hstart : keyStart key with
  | none => .outside
  | some start =>
    if item.type.isScalar then
      if start.partialInputLen ≠ 0 ∨ start.deliOffset ≠ key.length then .fail
      else .found (addr, 0)
    else if item.type = .array then
      if _hplain : start.partialInputLen = 0 then
        if start.deliOffset = key.length then .found (addr, 0) else .fail
      else
        let rest := key.drop (start.deliOffset + 1)
        match item with
        | .cells _ elem _ _ | .unallocated _ _ elem _ =>
          if elem.isScalar ∧ deliOffset rest = rest.length then .found (addr, start.arrayIndex)
          else .fail
        | .datas _ _ _ _ block =>
          -- the index is not compared with the size
          if start.arrayIndex < 0 then .outside
          else
            match block[start.arrayIndex.toNat]? with
            | none => .outside
            | some data =>
              structSearch data (addr ++ [start.arrayIndex.toNat]) (rest.take (deliOffset rest))
        | _ => .nullRead
    else if item.type = .struct then
      if hlast : start.deliOffset = key.length then .found (addr, 0)
      else if start.partialInputLen ≠ 0 then .fail
      else structSearch item addr (key.drop (start.deliOffset + 1))
    else .fail
termination_by (key.length, 0)
decreasing_by
  · apply Prod.Lex.left
    have hkey : key ≠ [] := by
      rintro rfl
      rw [keyStart_nil, Option.some.injEq] at hstart
      exact _hplain (by rw [← hstart])
    have hlen := length_drop_lt (n := start.deliOffset) hkey
    simp only [List.length_take]
    omega
  · apply Prod.Lex.left
    apply length_drop_lt
    rintro rfl
    rw [keyStart_nil, Option.some.injEq] at hstart
    exact hlast (by rw [← hstart]; rfl)

def structSearch (input : ShwData) (addr : Addr) (key : Bytes) : Search (Addr × ℤ) :=
  match keyStart key with
  | none => .outside
  | some start =>
    match input with
    | .datas _ _ _ size block =>
      match findItem (key.take start.partialOffset) 0 (block.take size.toNat) with
      | .found (i, item) => itemSearch item (addr ++ [i]) key
      | .fail => if size ≤ block.length then .fail else .outside
      | .nullRead => .nullRead
      | .outside => .outside
    | .unallocated _ _ _ size => if size ≤ 0 then .fail else .nullRead
    | _ => .nullRead
termination_by (key.length, 1)
decreasing_by
  apply Prod.Lex.right
  exact Nat.zero_lt_one

end

section

variable {key : Bytes} {start : KeyStart} (hstart : keyStart key = some start)
include hstart

theorem match_keyStart {α : Sort*} (a : keyStart key = none → α)
    (f : ∀ start, keyStart key = some start → α) :
    (match h : keyStart key with | none => a h | some start => f start h) = f start hstart := by
  split
  · next h => cases hstart.symm.trans h
  · next start' h =>
    obtain rfl : start = start' := Option.some.inj (hstart.symm.trans h)
    rfl

theorem key_ne_nil (h : start.deliOffset ≠ key.length ∨ start.partialInputLen ≠ 0) : key ≠ [] := by
  rintro rfl
  rw [keyStart_nil, Option.some.injEq] at hstart
  subst hstart
  simp at h

variable (identifier : Option Bytes)

theorem itemSearch_scalar {type : DataType} (value : Cell) (addr : Addr)
    (htype : type.isScalar = true) :
    itemSearch (.scalar identifier type value) addr key =
      if start.partialInputLen ≠ 0 ∨ start.deliOffset ≠ key.length then .fail
      else .found (addr, 0) := by
  unfold itemSearch
  rw [match_keyStart hstart]
  exact if_pos htype

variable (elem : DataType)

theorem itemSearch_cells (size : ℤ) (block : List Cell) (addr : Addr) :
    itemSearch (.cells identifier elem size block) addr key = if start.partialInputLen = 0 then
        if start.deliOffset = key.length then .found (addr, 0) else .fail
      else if elem.isScalar = true ∧ deliOffset (key.drop (start.deliOffset + 1)) =
          (key.drop (start.deliOffset + 1)).length then .found (addr, start.arrayIndex)
      else .fail := by
  unfold itemSearch
  rw [match_keyStart hstart]
  rfl

theorem itemSearch_structs (size : ℤ) (block : List ShwData) (addr : Addr) :
    itemSearch (.datas identifier .array elem size block) addr key =
      if start.partialInputLen = 0 then
        if start.deliOffset = key.length then .found (addr, 0) else .fail
      else if start.arrayIndex < 0 then .outside
      else
        match block[start.arrayIndex.toNat]? with
        | none => .outside
        | some data =>
          structSearch data (addr ++ [start.arrayIndex.toNat])
            ((key.drop (start.deliOffset + 1)).take
              (deliOffset (key.drop (start.deliOffset + 1)))) := by
  conv_lhs => unfold itemSearch
  rw [match_keyStart hstart]
  rfl

theorem itemSearch_struct (size : ℤ) (block : List ShwData) (addr : Addr) :
    itemSearch (.datas identifier .struct elem size block) addr key =
      if start.deliOffset = key.length then .found (addr, 0)
      else if start.partialInputLen ≠ 0 then .fail
      else structSearch (.datas identifier .struct elem size block) addr
        (key.drop (start.deliOffset + 1)) := by
  conv_lhs => unfold itemSearch
  rw [match_keyStart hstart]
  rfl

theorem structSearch_datas (type elem : DataType) (size : ℤ) (block : List ShwData) (addr : Addr) :
    structSearch (.datas identifier type elem size block) addr key =
      match findItem (key.take start.partialOffset) 0 (block.take size.toNat) with
      | .found (i, item) => itemSearch item (addr ++ [i]) key
      | .fail => if size ≤ block.length then .fail else .outside
      | .nullRead => .nullRead
      | .outside => .outside := by
  rw [structSearch, hstart]

end

theorem structSearch_overflow {key : Bytes} (hstart : keyStart key = none) (input : ShwData)
    (addr : Addr) : structSearch input addr key = .outside := by
  rw [structSearch, hstart]

theorem itemSearch_overflow {key : Bytes} (hstart : keyStart key = none) (item : ShwData)
    (addr : Addr) : itemSearch item addr key = .outside := by
  unfold itemSearch
  split
  · rfl
  · next h => rw [hstart] at h; exact nomatch h

def dataSearch (input : ShwData) (addr : Addr) (key : Bytes) : Search (Addr × ℤ) :=
  match keyStart key with
  | none => .outside
  | some start =>
    match input.identifier with
    | none => .nullRead
    | some identifier =>
      if identifierIs identifier (key.take start.partialOffset) then itemSearch input addr key
      else .fail

/-- The loop of `_dm_shw_property_search`. -/
def propertyLoop (key : Bytes) : ℕ → List ShwData → Search (Addr × ℤ)
  | _, [] => .fail
  | i, property :: properties =>
    match dataSearch property [i] key with
    | .fail => propertyLoop key (i + 1) properties
    | result => result

/-- `_dm_shw_property_search`: the node and the index. -/
def propertySearch (shadow : Shw) (key : Bytes) : Search (Addr × ℤ) :=
  if key = [] ∨ shadow.propertyNumber = 0 then .fail
  else
    match shadow.properties with
    | none => .fail
    | some properties =>
      match propertyLoop key 0 (properties.take shadow.propertyNumber) with
      | .fail => if shadow.propertyNumber ≤ properties.length then .fail else .outside
      | result => result

/-- The loops of `_dm_shw_event_output_search` and `_dm_shw_service_input_output_search`, which are
the one over the properties: they succeed, with a node or with none. -/
def datasSearch (datas : List ShwData) (number : ℕ) (key : Bytes) :
    Search (Option (Addr × ℤ)) :=
  match propertyLoop key 0 (datas.take number) with
  | .found found => .found (some found)
  | .fail => if number ≤ datas.length then .found none else .outside
  | .nullRead => .nullRead
  | .outside => .outside

/-- `_dm_shw_event_output_search`: success may leave the node unset. -/
def eventOutputSearch (outputdatas : Option (List ShwData)) (number : ℕ) (key : Bytes) :
    Search (Option (Addr × ℤ)) :=
  match outputdatas with
  | none => .fail
  | some datas => if number = 0 ∨ key = [] then .fail else datasSearch datas number key

/-- `dm_shw_data_target_e`. -/
inductive DataTarget where
  | serviceInputData
  | serviceOutputData
  deriving DecidableEq

/-- The datas of a service that are searched, and how many there are. -/
def DataTarget.datas : DataTarget → ShwService → Option (List ShwData) × ℕ
  | .serviceInputData, service => (service.inputDatas, service.inputDataNumber)
  | .serviceOutputData, service => (service.outputDatas, service.outputDataNumber)

def serviceInputOutputSearch (type : DataTarget) (service : ShwService) (key : Bytes) :
    Search (Option (Addr × ℤ)) :=
  -- without a key every element is refused, and so is the first of a block that is not there
  if key = [] then .found none
  else
    match type.datas service with
    | (none, datasNumber) => if datasNumber ≤ 1 then .found none else .nullRead
    | (some datas, datasNumber) => datasSearch datas datasNumber key

/-- The loops over the events and the services: the first of `number` whose identifier is the
key. -/
def identifierSearch (key : Bytes) : ℕ → ℕ → List (Option Bytes) → Search ℕ
  | _, 0, _ => .fail
  | _, _ + 1, [] => .outside
  | i, number + 1, identifier :: identifiers =>
    match identifier with
    | none => .nullRead
    | some identifier =>
      if identifierIs identifier key then .found i
      else identifierSearch key (i + 1) number identifiers

/-- The identifiers of a block; an element that is read from a block that is not there has none. -/
def identifiersOf (number : ℕ) : Option (List (Option Bytes)) → List (Option Bytes)
  | none => List.replicate number none
  | some identifiers => identifiers

def eventSearch (shadow : Shw) (key : Bytes) : Search ℕ :=
  if key = [] then .fail
  else
    identifierSearch key 0 shadow.eventNumber
      (identifiersOf shadow.eventNumber (shadow.events.map (·.map (·.identifier))))

def serviceSearch (shadow : Shw) (key : Bytes) : Search ℕ :=
  if key = [] then .fail
  else
    identifierSearch key 0 shadow.serviceNumber
      (identifiersOf shadow.serviceNumber (shadow.services.map (·.map (·.identifier))))

end Iotkit.Shadow
