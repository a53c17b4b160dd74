/-
# Loading a thing model (`dm_tsl_alink.c`)

The text of a thing model is an object with lists of properties, events and services.  The loader
allocates a list by the number of its elements and then parses each element into its place, where
what was not parsed stays zero.

A text is what the JSON reader makes of it.  Whether there is memory is asked by the number of
bytes, of which `HAL_Malloc` takes 32 bits; the sizes are those of a machine with 64 bits.
-/
import Iotkit.Shadow

namespace Iotkit.Shadow

open LibC

/-! ## The text -/

/-- An item of the JSON reader with its text: a number, a truth value or null is plain. -/
inductive Json where
  | plain (text : Bytes)
  | string (text : Bytes)
  | array (text : Bytes) (items : List Json)
  | object (text : Bytes) (members : List (Bytes × Json))

namespace Json

/-- The text of a value. -/
def text : Json → Bytes
  | plain text | string text | array text _ | object text _ => text

def isObject : Json → Bool
  | object _ _ => true
  | _ => false

/-- `lite_cjson_object_item`: the first member with a name. -/
def member (key : Bytes) : Json → Option Json
  | object _ members => (members.find? fun m => m.1 = key).map (·.2)
  | _ => none

/-- The items of an array. -/
def items : Json → List Json
  | array _ items => items
  | _ => []

theorem sizeOf_items_lt (root : Json) : sizeOf root.items < sizeOf root := by
  have hpos : ∀ text : Bytes, 0 < sizeOf text := by
    intro text
    cases text <;> simp
  cases root with
  | array text items =>
    simp only [Json.items, array.sizeOf_spec]
    omega
  | plain text | string text | object text members =>
    have := hpos text
    simp only [items, List.nil.sizeOf_spec, plain.sizeOf_spec, string.sizeOf_spec,
      object.sizeOf_spec]
    omega

theorem sizeOf_member_lt {key : Bytes} {root item : Json} (h : root.member key = some item) :
    sizeOf item < sizeOf root := by
  cases root with
  | object text members =>
    obtain ⟨m, hm, rfl⟩ := Option.map_eq_some_iff.mp h
    have hlt := List.sizeOf_lt_of_mem (List.mem_of_find?_eq_some hm)
    obtain ⟨name, item⟩ := m
    simp only [Prod.mk.sizeOf_spec, object.sizeOf_spec] at hlt ⊢
    omega
  | plain text => exact nomatch h
  | string text => exact nomatch h
  | array text items => exact nomatch h

end Json

def propertiesKey : Bytes := [0x70, 0x72, 0x6F, 0x70, 0x65, 0x72, 0x74, 0x69, 0x65, 0x73]
def eventsKey : Bytes := [0x65, 0x76, 0x65, 0x6E, 0x74, 0x73]
def servicesKey : Bytes := [0x73, 0x65, 0x72, 0x76, 0x69, 0x63, 0x65, 0x73]
def identifierKey : Bytes := [0x69, 0x64, 0x65, 0x6E, 0x74, 0x69, 0x66, 0x69, 0x65, 0x72]
def outputDataKey : Bytes := [0x6F, 0x75, 0x74, 0x70, 0x75, 0x74, 0x44, 0x61, 0x74, 0x61]
def inputDataKey : Bytes := [0x69, 0x6E, 0x70, 0x75, 0x74, 0x44, 0x61, 0x74, 0x61]
def dataTypeKey : Bytes := [0x64, 0x61, 0x74, 0x61, 0x54, 0x79, 0x70, 0x65]
def typeKey : Bytes := [0x74, 0x79, 0x70, 0x65]
def specsKey : Bytes := [0x73, 0x70, 0x65, 0x63, 0x73]
def sizeKey : Bytes := [0x73, 0x69, 0x7A, 0x65]
def itemKey : Bytes := [0x69, 0x74, 0x65, 0x6D]
def specialServiceSetIdentifier : Bytes := [0x73, 0x65, 0x74]
def specialServiceGetIdentifier : Bytes := [0x67, 0x65, 0x74]
def specialEventPostIdentifier : Bytes := [0x70, 0x6F, 0x73, 0x74]

def uint32Strlen : ℕ := 10

/-- The names of `g_dm_tsl_alink_mapping`. -/
def typeNames : List (Bytes × DataType) :=
  [([0x6E, 0x6F, 0x6E, 0x65], .none), ([0x69, 0x6E, 0x74], .int),
    ([0x66, 0x6C, 0x6F, 0x61, 0x74], .float), ([0x64, 0x6F, 0x75, 0x62, 0x6C, 0x65], .double),
    ([0x74, 0x65, 0x78, 0x74], .text), ([0x65, 0x6E, 0x75, 0x6D], .enum),
    ([0x64, 0x61, 0x74, 0x65], .date), ([0x62, 0x6F, 0x6F, 0x6C], .bool),
    ([0x61, 0x72, 0x72, 0x61, 0x79], .array), ([0x73, 0x74, 0x72, 0x75, 0x63, 0x74], .struct)]

/-- The data type of a name. -/
def getType (name : Bytes) : Option DataType :=
  (typeNames.find? fun entry => entry.1 = name).map (·.2)

/-! ## Memory -/

/-- Which requests for memory succeed, by the number of bytes (two requests for the same number
get the same answer), and what stands behind `size_str` on the stack. -/
structure LoadEnv where
  malloc : ℕ → Bool
  tail : Bytes

def sizeofShw : ℕ := 48
def sizeofEvent : ℕ := 40
def sizeofService : ℕ := 40
def sizeofData : ℕ := 24
def sizeofComplex : ℕ := 16

def sizeofElem : DataType → ℕ
  | .double | .text | .date => 8
  | .struct => sizeofData
  | _ => 4

variable (env : LoadEnv)

/-- How many elements a request for `count` elements gives: the bytes are counted in 32 bits. -/
def LoadEnv.allocate (count : ℤ) (size : ℕ) : Option ℕ :=
  let bytes := (count * size % 2 ^ 32).toNat
  if env.malloc bytes then some (bytes / size) else none

/-- The size of an array; a text of ten bytes has no end in `size_str`. -/
def LoadEnv.arraySize (text : Bytes) : ℤ :=
  atoi (if text.length < uint32Strlen then text else text ++ env.tail)

/-- A `dm_shw_data_t` that is zero. -/
def ShwData.zero : ShwData := .null none .none

/-! ## Data

A parser says whether it succeeds, and what is in the place that it was given. -/

mutual

variable (identifier : Option Bytes)

/-- The items of a struct. -/
def structParse (env : LoadEnv) (identifier : Option Bytes) (root : Json) :
    Bool × ShwData :=
  if root.items = [] ∨ env.malloc sizeofComplex = false then (false, .null identifier .struct)
  else
    match env.allocate root.items.length sizeofData with
    | none => (false, .unallocated identifier .struct .none root.items.length)
    | some n =>
      ((itemsParse env root.items).1,
        .datas identifier .struct .none root.items.length ((itemsParse env root.items).2.take n))
termination_by sizeOf root
decreasing_by all_goals exact root.sizeOf_items_lt

/-- The loop of `_dm_shw_struct_parse`, which ends where an item cannot be parsed. -/
def itemsParse (env : LoadEnv) : List Json → Bool × List ShwData
  | [] => (true, [])
  | item :: items =>
    if item.isObject then
      if (propertyParse env item).1 then
        ((itemsParse env items).1, (propertyParse env item).2 :: (itemsParse env items).2)
      else (false, (propertyParse env item).2 :: List.replicate items.length .zero)
    else (false, List.replicate (items.length + 1) .zero)
termination_by items => sizeOf items

/-- `_dm_shw_array_parse` with the `func_array_parse` of its type. -/
def arrayParse (env : LoadEnv) (identifier : Option Bytes) (root : Json) : Bool × ShwData :=
  if root.isObject = false ∨ env.malloc sizeofComplex = false then (false, .null identifier .array)
  else
    match root.member sizeKey with
    | none => (false, .unallocated identifier .array .none 0)
    | some size =>
      if uint32Strlen < size.text.length then (false, .unallocated identifier .array .none 0)
      else
        let n := env.arraySize size.text
        match _hitem : root.member itemKey with
        | none => (false, .unallocated identifier .array .none n)
        | some item =>
          match (item.member typeKey).bind fun type => getType type.text with
          | none => (false, .unallocated identifier .array .none n)
          | some .none => (false, .unallocated identifier .array .none n)
          | some .array =>
            -- `_dm_shw_array_array_parse` has no body and succeeds
            ((item.member specsKey).isSome, .unallocated identifier .array .array n)
          | some .struct =>
            match _hspecs : item.member specsKey with
            | none => (false, .unallocated identifier .array .struct n)
            | some specs =>
              if specs.items = [] then (false, .unallocated identifier .array .struct n)
              else
                match env.allocate n sizeofData with
                | none => (false, .unallocated identifier .array .struct n)
                | some k =>
                  -- what `_dm_shw_struct_parse` returns for an element is dropped
                  (true, .datas identifier .array .struct n (List.replicate k
                    (if 0 < n then (structParse env none specs).2 else .zero)))
          | some elem =>
            match env.allocate n (sizeofElem elem) with
            | none => (false, .unallocated identifier .array elem n)
            | some k => (true, .cells identifier elem n (List.replicate k (Cell.zero elem)))
termination_by sizeOf root
decreasing_by
  exact (Json.sizeOf_member_lt _hspecs).trans (Json.sizeOf_member_lt _hitem)

/-- The data type and its specification. -/
def dataParse (env : LoadEnv) (identifier : Option Bytes) (root : Json) : Bool × ShwData :=
  match root.member typeKey with
  | some (.string name) =>
    match getType name with
    | none => (false, .null identifier .none)
    | some .none => (false, .null identifier .none)
    | some .array =>
      match _hspecs : root.member specsKey with
      | none => (false, .null identifier .array)
      | some specs => arrayParse env identifier specs
    | some .struct =>
      match _hspecs : root.member specsKey with
      | none => (false, .null identifier .struct)
      | some specs => structParse env identifier specs
    | some type => (true, .scalar identifier type (Cell.zero type))
  | _ => (false, .null identifier .none)
termination_by sizeOf root
decreasing_by
  all_goals exact Json.sizeOf_member_lt _hspecs

/-- A property with its identifier and its data type. -/
def propertyParse (env : LoadEnv) (root : Json) : Bool × ShwData :=
  match root.member identifierKey with
  | some (.string identifier) =>
    if env.malloc (identifier.length + 1) then
      match _hdata : root.member dataTypeKey with
      | none => (false, .null (some identifier) .none)
      | some data =>
        if data.isObject then dataParse env (some identifier) data
        else (false, .null (some identifier) .none)
    else (false, .zero)
  | _ => (false, .zero)
termination_by sizeOf root
decreasing_by
  exact Json.sizeOf_member_lt _hdata

end

/-- `_dm_shw_event_outputdata_parse`, `_dm_shw_service_outputdata_parse` and
`_dm_shw_service_inputdata_parse`. -/
abbrev eventOutputdataParse := propertyParse
abbrev serviceOutputdataParse := propertyParse
abbrev serviceInputdataParse := propertyParse

/-! ## Lists -/

variable (root : Json)

/-- The parsers of the lists of the text, unless they fail: the number and the block.  What the
parser of an element returns is dropped. -/
def listParse {α : Type} (env : LoadEnv) (root : Json) (key : Bytes) (size : ℕ)
    (parse : Json → α) : Option (ℕ × Option (List α)) :=
  match root.member key with
  | none => some (0, none)
  | some (.array _ items) =>
    if items = [] then some (0, none)
    else
      (env.allocate items.length size).bind fun n =>
        if items.all Json.isObject then
          some (items.length, some ((items.map parse).take n))
        else none
  | some _ => none

/-- The properties of a model. -/
def propertiesParse : Option (ℕ × Option (List ShwData)) :=
  listParse env root propertiesKey sizeofData fun item => (propertyParse env item).2

/-- The loop of the parsers of output data, which ends where an item is no object: whether it
succeeds, and the block. -/
def outputdataLoop (parse : Json → Bool × ShwData) : List Json → Bool × List ShwData
  | [] => (true, [])
  | item :: items =>
    if item.isObject then
      ((outputdataLoop parse items).1, (parse item).2 :: (outputdataLoop parse items).2)
    else (false, List.replicate (items.length + 1) .zero)

/-- The data of an event or a service that a loop puts into a block. -/
def datasParse (loop : List Json → Bool × List ShwData) (items : List Json) :
    Bool × Option (List ShwData) :=
  if items = [] then (true, none)
  else
    match env.allocate items.length sizeofData with
    | none => (false, none)
    | some n => ((loop items).1, some ((loop items).2.take n))

def eventOutputdatasParse (items : List Json) : Bool × Option (List ShwData) :=
  datasParse env (outputdataLoop (eventOutputdataParse env)) items

def serviceOutputdatasParse (items : List Json) : Bool × Option (List ShwData) :=
  datasParse env (outputdataLoop (serviceOutputdataParse env)) items

/-- `_dm_shw_service_inputdatas_parse`, whose loop does not look at the type of an item. -/
def serviceInputdatasParse (items : List Json) : Bool × Option (List ShwData) :=
  datasParse env (fun items => (true, items.map fun item => (serviceInputdataParse env item).2)) items

/-- `_dm_shw_event_parse`: what is in the place of an event. -/
def eventParse : ShwEvent :=
  match root.member identifierKey with
  | some (.string identifier) =>
    if env.malloc (identifier.length + 1) then
      if identifierIs identifier specialEventPostIdentifier then ⟨some identifier, 0, none⟩
      else
        match root.member outputDataKey with
        | some (.array _ items) =>
          ⟨some identifier, items.length, (eventOutputdatasParse env items).2⟩
        | _ => ⟨some identifier, 0, none⟩
    else ⟨none, 0, none⟩
  | _ => ⟨none, 0, none⟩

/-- The events of a model. -/
def eventsParse : Option (ℕ × Option (List ShwEvent)) :=
  listParse env root eventsKey sizeofEvent (eventParse env)

/-- The number and the block of the input data; they are not looked at when the output data could
not be parsed. -/
def serviceInputs (outputs : Bool) : ℕ × Option (List ShwData) :=
  match outputs, root.member inputDataKey with
  | true, some (.array _ items) => (items.length, (serviceInputdatasParse env items).2)
  | _, _ => (0, none)

/-- `_dm_shw_service_parse`: what is in the place of a service. -/
def serviceParse : ShwService :=
  match root.member identifierKey with
  | some (.string identifier) =>
    if env.malloc (identifier.length + 1) then
      if identifierIs identifier specialServiceSetIdentifier ∨
          identifierIs identifier specialServiceGetIdentifier then
        ⟨some identifier, 0, none, 0, none⟩
      else
        match root.member outputDataKey with
        | some (.array _ items) =>
          let outputs := serviceOutputdatasParse env items
          let inputs := serviceInputs env root outputs.1
          ⟨some identifier, inputs.1, inputs.2, items.length, outputs.2⟩
        | _ =>
          let inputs := serviceInputs env root true
          ⟨some identifier, inputs.1, inputs.2, 0, none⟩
    else ⟨none, 0, none, 0, none⟩
  | _ => ⟨none, 0, none, 0, none⟩

/-- The services of a model. -/
def servicesParse : Option (ℕ × Option (List ShwService)) :=
  listParse env root servicesKey sizeofService (serviceParse env)

/-- `dm_tsl_alink_create`, unless it fails. -/
def dmTslAlinkCreate : Option Shw :=
  if env.malloc sizeofShw = false ∨ root.isObject = false then none
  else do
    let properties ← propertiesParse env root
    let events ← eventsParse env root
    let services ← servicesParse env root
    return ⟨properties.1, properties.2, events.1, events.2, services.1, services.2⟩

end Iotkit.Shadow
