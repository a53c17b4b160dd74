/-
# Values of a shadow (`dm_shadow.c`)

A value is set and read at a node of the tree, or at an element of an array, by the function of the
type that a table names; there is one for a value and one for an element.  A text is a pointer: the
old one is released before the new one is allocated, and a text that is read is copied.
-/
import Iotkit.Shadow

namespace Iotkit.Shadow

/-! ## Nodes of the tree -/

namespace ShwData

/-- The nodes right below. -/
def children : ShwData → List ShwData
  | datas _ _ _ _ block => block
  | _ => []

def withChildren (d : ShwData) (block : List ShwData) : ShwData :=
  match d with
  | datas identifier type elem size _ => datas identifier type elem size block
  | d => d

/-- The node at an address. -/
def at? (d : ShwData) : Addr → Option ShwData
  | [] => some d
  | i :: addr => d.children[i]?.bind fun child => child.at? addr

/-- The tree with `f` applied to the node at an address. -/
def modify (f : ShwData → ShwData) : ShwData → Addr → ShwData
  | d, [] => f d
  | d, i :: addr => d.withChildren (d.children.modify i fun child => child.modify f addr)

/-- The type of a value or of the elements of an array. -/
def valueType : ShwData → DataType
  | cells _ elem _ _ | unallocated _ _ elem _ => elem
  | d => d.type

end ShwData

/-- The properties of a store as the items of one struct. -/
def Shw.root (shadow : Shw) : ShwData :=
  .datas none .struct .none shadow.propertyNumber (shadow.properties.getD [])

def Shw.modify (shadow : Shw) (f : ShwData → ShwData) : Addr → Shw
  | [] => shadow
  | i :: addr =>
    { shadow with
      properties := shadow.properties.map fun ps => ps.modify i fun d => d.modify f addr }

/-! ## Setting a value -/

/-- What stands where the pointer `value` leads, read by its type; a text has `value_len` bytes. -/
structure ValueMem where
  asInt : Int32
  asFloat : UInt32
  asDouble : UInt64
  bytes : Bytes

/-- A value is set: the new one, and whether that succeeds. -/
abbrev CellSet := Option ValueMem → Bool → Cell → Bool × Cell

/-- The text `NULL`. -/
def nullText : Bytes := [0x4E, 0x55, 0x4C, 0x4C]

/-- The number that a value points to. -/
def intOf (value : Option ValueMem) : Int32 := value.elim 0 (·.asInt)

/-- The text that a value points to. -/
def textOf (value : Option ValueMem) : Bytes := value.elim nullText (·.bytes)

def intSet : CellSet := fun value _ _ => (true, .int (intOf value))

def floatSet : CellSet := fun value _ _ => (true, .float (value.elim 0 (·.asFloat)))

def doubleSet : CellSet := fun value _ _ => (true, .double (value.elim 0 (·.asDouble)))

/-- `_dm_shw_text_set`: the old text is gone when there is no memory for the new one. -/
def textSet : CellSet := fun value memory _ =>
  if memory then (true, .text (some (textOf value))) else (false, .text none)

def enumSet : CellSet := fun value _ _ =>
  (true, .int (if intOf value < 0 then 0 else intOf value))

def dateSet : CellSet := textSet

def boolSet : CellSet := fun value _ _ =>
  (true, .int (if intOf value = 0 then intOf value else if intOf value = 1 then intOf value else 0))

/-- The setters of the elements of arrays. -/
def arrayIntSet : CellSet := fun value _ _ => (true, .int (intOf value))
def arrayFloatSet : CellSet := floatSet
def arrayDoubleSet : CellSet := doubleSet
def arrayTextSet : CellSet := textSet
def arrayEnumSet : CellSet := arrayIntSet
def arrayDateSet : CellSet := arrayTextSet
def arrayBoolSet : CellSet := arrayIntSet

/-- `func_set` of `g_iotx_data_type_mapping`. -/
def funcSet : DataType → Option CellSet
  | .none => none
  | .int => some intSet
  | .float => some floatSet
  | .double => some doubleSet
  | .text => some textSet
  | .enum => some enumSet
  | .date => some dateSet
  | .bool => some boolSet
  | .array => none
  | .struct => none

/-- `func_array_set` of `g_iotx_data_type_mapping`. -/
def funcArraySet : DataType → Option CellSet
  | .none => none
  | .int => some arrayIntSet
  | .float => some arrayFloatSet
  | .double => some arrayDoubleSet
  | .text => some arrayTextSet
  | .enum => some arrayEnumSet
  | .date => some arrayDateSet
  | .bool => some arrayBoolSet
  | .array => none
  | .struct => none

/-- `_dm_shw_data_array_set`: whether it succeeds, and the node; there is no result when it writes
outside a block. -/
def dataArraySet (d : ShwData) (index : ℤ) (value : Option ValueMem) (memory : Bool) :
    Option (Bool × ShwData) :=
  match d with
  | .cells identifier elem size block =>
    if index < 0 ∨ size ≤ index then some (false, d)
    else
      match funcArraySet elem with
      | none => some (false, d)
      | some set =>
        block[index.toNat]?.map fun cell =>
          ((set value memory cell).1,
            .cells identifier elem size (block.set index.toNat (set value memory cell).2))
  | .unallocated _ _ elem size =>
    if index < 0 ∨ size ≤ index ∨ funcArraySet elem = none then some (false, d) else none
  | _ => some (false, d)

/-- `dm_shw_data_set` of a scalar. -/
def dataSet (d : ShwData) (value : Option ValueMem) (memory : Bool) : Bool × ShwData :=
  match d with
  | .scalar identifier type cell =>
    match funcSet type with
    | none => (false, d)
    | some set => ((set value memory cell).1, .scalar identifier type (set value memory cell).2)
  | _ => (false, d)

/-- The set of a node, with its index if it is an array. -/
def nodeSet (d : ShwData) (index : ℤ) (value : Option ValueMem) (memory : Bool) :
    Option (Bool × ShwData) :=
  if d.type = .array then dataArraySet d index value memory else some (dataSet d value memory)

/-- `dm_shw_set_property_value`: whether it succeeds, and the shadow.  There is no result when it
reads a pointer that is zero or leaves a block. -/
def dmShwSetPropertyValue (shadow : Shw) (key : Bytes) (value : Option ValueMem)
    (memory : Bool) : Option (Bool × Shw) :=
  match propertySearch shadow key with
  | .found (addr, index) =>
    (shadow.root.at? addr).bind fun d =>
      (nodeSet d index value memory).map fun (success, d') =>
        (success, shadow.modify (fun _ => d') addr)
  | .fail => some (false, shadow)
  | .nullRead => none
  | .outside => none

/-! ## Reading a value -/

/-- A value that is handed out. -/
inductive ShwValue where
  | int (v : Int32)
  | float (bits : UInt32)
  | double (bits : UInt64)
  | text (s : Bytes)
  deriving DecidableEq

/-- A value is read, unless that fails. -/
abbrev CellGet := Bool → Cell → Option ShwValue

def intGet : CellGet
  | _, .int v => some (.int v)
  | _, _ => none

def floatGet : CellGet
  | _, .float bits => some (.float bits)
  | _, _ => none

def doubleGet : CellGet
  | _, .double bits => some (.double bits)
  | _, _ => none

/-- `_dm_shw_text_get`: a copy of the text up to its end, if there is memory for it. -/
def textGet : CellGet
  | true, .text (some s) => some (.text (s.takeWhile (· ≠ 0)))
  | _, _ => none

/-- The getters of the other types and of the elements of arrays. -/
def enumGet : CellGet := intGet
def dateGet : CellGet := textGet
def boolGet : CellGet := intGet
def arrayIntGet : CellGet := intGet
def arrayFloatGet : CellGet := floatGet
def arrayDoubleGet : CellGet := doubleGet
def arrayTextGet : CellGet := textGet
def arrayEnumGet : CellGet := intGet
def arrayDateGet : CellGet := textGet
def arrayBoolGet : CellGet := intGet

/-- `func_get` of `g_iotx_data_type_mapping`. -/
def funcGet : DataType → Option CellGet
  | .none => none
  | .int => some intGet
  | .float => some floatGet
  | .double => some doubleGet
  | .text => some textGet
  | .enum => some enumGet
  | .date => some dateGet
  | .bool => some boolGet
  | .array => none
  | .struct => none

/-- `func_array_get` of `g_iotx_data_type_mapping`. -/
def funcArrayGet : DataType → Option CellGet
  | .none => none
  | .int => some arrayIntGet
  | .float => some arrayFloatGet
  | .double => some arrayDoubleGet
  | .text => some arrayTextGet
  | .enum => some arrayEnumGet
  | .date => some arrayDateGet
  | .bool => some arrayBoolGet
  | .array => none
  | .struct => none

def dataArrayGet (d : ShwData) (index : ℤ) (memory : Bool) : Option (Option ShwValue) :=
  match d with
  | .cells _ elem size block =>
    if index < 0 ∨ size ≤ index then some none
    else
      match funcArrayGet elem with
      | none => some none
      | some get => block[index.toNat]?.map (get memory)
  | _ => some none

/-- `dm_shw_data_get` of a scalar. -/
def dataGet (d : ShwData) (memory : Bool) : Option ShwValue :=
  match d with
  | .scalar _ type cell => (funcGet type).bind fun get => get memory cell
  | _ => none

/-- The get of a node, with its index if it is an array. -/
def nodeGet (d : ShwData) (index : ℤ) (memory : Bool) : Option (Option ShwValue) :=
  if d.type = .array then dataArrayGet d index memory else some (dataGet d memory)

/-- `dm_shw_get_property_value`: the value, unless it fails; there is no result as for a set. -/
def dmShwGetPropertyValue (shadow : Shw) (key : Bytes) (memory : Bool) :
    Option (Option ShwValue) :=
  match propertySearch shadow key with
  | .found (addr, index) => (shadow.root.at? addr).bind fun d => nodeGet d index memory
  | .fail => some none
  | .nullRead => none
  | .outside => none

/-! ## Events and services -/

/-- `dm_shw_get_event`. -/
def dmShwGetEvent (shadow : Shw) (key : Bytes) : Search ℕ :=
  if key = [] then .fail
  else
    identifierSearch key 0 shadow.eventNumber
      (identifiersOf shadow.eventNumber (shadow.events.map (·.map (·.identifier))))

/-- `dm_shw_get_service`, whose loop ends at the number of the events. -/
def dmShwGetService (shadow : Shw) (key : Bytes) : Search ℕ :=
  if key = [] then .fail
  else
    identifierSearch key 0 shadow.eventNumber
      (identifiersOf shadow.eventNumber (shadow.services.map (·.map (·.identifier))))

end Iotkit.Shadow
