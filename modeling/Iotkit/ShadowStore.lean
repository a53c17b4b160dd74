/-
# A shadow as a store (`dm_shadow.c`)

After a value was set, it is read in the normal form of its type, and what is read elsewhere is as
before.  A truth value or an enumeration is set in normal form at a node and as it is at an element
of an array; a text is lost when there is no memory for the new one.

The services are looked up in a loop of its own, which ends at the number of the events.
-/
import Iotkit.GuardedRun
import Iotkit.ShadowTree
import Iotkit.TslLoaded

namespace Iotkit.Shadow

open GuardedRun List

/-! ## Calls -/

/-- A call of `dm_shw_set_property_value`; `memory` is what it finds for a text, and `copied` what a
get that follows finds for its copy. -/
structure SetCall where
  key : Bytes
  value : Option ValueMem
  memory : Bool
  copied : Bool

/-- The normal form of a value of a type. -/
def normalForm (value : Option ValueMem) : DataType → ShwValue
  | .float => .float (value.elim 0 (·.asFloat))
  | .double => .double (value.elim 0 (·.asDouble))
  | .text | .date => .text (textOf value)
  | .enum => .int (if intOf value < 0 then 0 else intOf value)
  | .bool => .int (if intOf value = 0 ∨ intOf value = 1 then intOf value else 0)
  | _ => .int (intOf value)

/-- The state after a call; one that leaves a block has none. -/
def setStep (s : Shw) (call : SetCall) : Shw :=
  match dmShwSetPropertyValue s call.key call.value call.memory with
  | some (_, s') => s'
  | none => s

/-- The law of a call: a value that was set is read back in normal form, and nothing else is read
otherwise than before; nothing at all when the call fails. -/
def SetLaw (s : Shw) (call : SetCall) : Prop :=
  ∃ success s', dmShwSetPropertyValue s call.key call.value call.memory = some (success, s') ∧
    (success = true →
      (∃ addr index d, propertySearch s call.key = .found (addr, index) ∧
        s.root.at? addr = some d ∧
        dmShwGetPropertyValue s' call.key call.copied =
          some (some (normalForm call.value d.valueType))) ∧
      ∀ key, propertySearch s key ≠ propertySearch s call.key → ∀ memory,
        dmShwGetPropertyValue s' key memory = dmShwGetPropertyValue s key memory) ∧
    (success = false → ∀ key memory,
      dmShwGetPropertyValue s' key memory = dmShwGetPropertyValue s key memory)

/-- A value can be set and read back: a text has no zero and there is memory, or there is none and
no text to lose; an element of an array is in normal form. -/
def CellOk (element : Bool) (type : DataType) (cell : Cell) (call : SetCall) : Prop :=
  match type with
  | .text | .date =>
    (call.memory = true ∧ 0 ∉ textOf call.value ∧ call.copied = true) ∨
      (call.memory = false ∧ cell = .text none)
  | .enum => element = true → 0 ≤ intOf call.value
  | .bool => element = true → intOf call.value = 0 ∨ intOf call.value = 1
  | _ => True

/-- A node can be set: an index inside the size is inside the block. -/
def NodeOk (d : ShwData) (index : ℤ) (call : SetCall) : Prop :=
  match d with
  | .scalar _ type cell => CellOk false type cell call
  | .cells _ elem size block =>
    0 ≤ index → index < size →
      ∃ cell, block[index.toNat]? = some cell ∧ CellOk true elem cell call
  | .unallocated _ .array elem size => elem.isScalar = true → 0 ≤ index → ¬ index < size
  | _ => True

/-- The condition of a call: the search stays inside the shadow, and the node can be set. -/
def SetOk (s : Shw) (call : SetCall) : Prop :=
  match propertySearch s call.key with
  | .found (addr, index) => ∀ d, s.root.at? addr = some d → NodeOk d index call
  | .fail => True
  | .nullRead => False
  | .outside => False

/-! ## Values -/

/-- The setter of a value or of an element. -/
def setterOf (element : Bool) : DataType → Option CellSet :=
  if element then funcArraySet else funcSet

/-- The getter of a value or of an element. -/
def getterOf (element : Bool) : DataType → Option CellGet :=
  if element then funcArrayGet else funcGet

theorem setterOf_isSome (element : Bool) (type : DataType) :
    (setterOf element type).isSome = type.isScalar := by
  cases element <;> cases type <;> rfl

theorem getterOf_isSome (element : Bool) (type : DataType) :
    (getterOf element type).isSome = type.isScalar := by
  cases element <;> cases type <;> rfl

/-- What is set, by the type: an element of an array is not brought into normal form. -/
def cellSetOf (element : Bool) (value : Option ValueMem) (memory : Bool) : DataType → Bool × Cell
  | .float => (true, .float (value.elim 0 (·.asFloat)))
  | .double => (true, .double (value.elim 0 (·.asDouble)))
  | .text | .date => if memory then (true, .text (some (textOf value))) else (false, .text none)
  | .enum => (true, .int (if element = false ∧ intOf value < 0 then 0 else intOf value))
  | .bool =>
    (true, .int (if element = false ∧ intOf value ≠ 0 ∧ intOf value ≠ 1 then 0
      else intOf value))
  | _ => (true, .int (intOf value))

variable {element : Bool} {type : DataType}

theorem setter_eq {set : CellSet} (hset : setterOf element type = some set)
    (value : Option ValueMem) (memory : Bool) (cell : Cell) :
    set value memory cell = cellSetOf element value memory type := by
  cases element <;> cases type <;>
    simp only [setterOf, funcSet, funcArraySet, if_true, if_false, Bool.false_eq_true,
      Option.some.injEq, reduceCtorEq] at hset <;>
    subst hset
  all_goals first
    | rfl
    | (simp only [boolSet, enumSet, cellSetOf]
       split_ifs <;> simp_all)

/-- What is read of a value that has the form of its type. -/
def cellGetOf (memory : Bool) : Cell → Option ShwValue
  | .int v => some (.int v)
  | .float bits => some (.float bits)
  | .double bits => some (.double bits)
  | .text p => if memory then p.map fun s => .text (s.takeWhile (· ≠ 0)) else none

variable {cell : Cell}

theorem getter_eq {get : CellGet} (hget : getterOf element type = some get)
    (hfits : cell.fits type = true) (memory : Bool) : get memory cell = cellGetOf memory cell := by
  cases element <;> cases type <;>
    simp only [getterOf, funcGet, funcArrayGet, if_true, if_false, Bool.false_eq_true,
      Option.some.injEq, reduceCtorEq] at hget <;>
    subst hget <;> cases cell <;> simp only [Cell.fits, Bool.false_eq_true] at hfits
  all_goals first
    | rfl
    | (next p => cases memory <;> cases p <;> rfl)

theorem cellSetOf_fits (element : Bool) (hscalar : type.isScalar = true) (value : Option ValueMem)
    (memory : Bool) : (cellSetOf element value memory type).2.fits type = true := by
  cases type <;> cases memory <;> first | rfl | exact absurd hscalar (by decide)

theorem takeWhile_text (s : Bytes) : s.takeWhile (· ≠ 0) = s ↔ 0 ∉ s := by
  rw [takeWhile_eq_self_iff]
  constructor
  · intro h hmem
    exact absurd (h 0 hmem) (by decide)
  · intro h c hc
    apply decide_eq_true
    rintro rfl
    exact h hc

/-- What is read of a place where a value of a type was put. -/
def CellLaw (element : Bool) (type : DataType) (cell : Cell) (call : SetCall) : Prop :=
  let result := cellSetOf element call.value call.memory type
  (result.1 = true → cellGetOf call.copied result.2 = some (normalForm call.value type)) ∧
    (result.1 = false → ∀ memory, cellGetOf memory result.2 = cellGetOf memory cell)

/-- A text is read back without a zero in it; the old one is lost when there is no memory. -/
theorem textLaw_iff (htype : type = .text ∨ type = .date) (element : Bool)
    (hfits : cell.fits type = true) (call : SetCall) :
    CellLaw element type cell call ↔
      (call.memory = true ∧ 0 ∉ textOf call.value ∧ call.copied = true) ∨
        (call.memory = false ∧ cell = .text none) := by
  obtain ⟨p, rfl⟩ : ∃ p, cell = .text p := by
    rcases htype with rfl | rfl <;> cases cell <;> first | exact ⟨_, rfl⟩ | exact nomatch hfits
  have hset : cellSetOf element call.value call.memory type =
      if call.memory then (true, .text (some (textOf call.value))) else (false, .text none) := by
    rcases htype with rfl | rfl <;> rfl
  have hnormal : normalForm call.value type = .text (textOf call.value) := by
    rcases htype with rfl | rfl <;> rfl
  unfold CellLaw
  rw [hset, hnormal]
  cases hmemory : call.memory with
  | true =>
    rw [if_pos rfl]
    rw [← takeWhile_text]
    cases call.copied with
    | true => simp [cellGetOf]
    | false => simp [cellGetOf]
  | false =>
    rw [if_neg (by decide)]
    constructor
    · rintro ⟨-, hkept⟩
      right
      refine ⟨rfl, ?_⟩
      cases p with
      | none => rfl
      | some s => exact absurd (hkept rfl true) (by simp [cellGetOf])
    · rintro (⟨hc, -⟩ | ⟨-, hcell⟩)
      · exact absurd hc (by decide)
      · rw [hcell]
        exact ⟨fun hc => absurd hc (by decide), fun _ _ => rfl⟩

theorem cellLaw_iff (hscalar : type.isScalar = true) (hfits : cell.fits type = true)
    (call : SetCall) : CellLaw element type cell call ↔ CellOk element type cell call := by
  cases type with
  | none => exact nomatch hscalar
  | array => exact nomatch hscalar
  | struct => exact nomatch hscalar
  | int => simp [CellLaw, CellOk, cellSetOf, cellGetOf, normalForm]
  | float => simp [CellLaw, CellOk, cellSetOf, cellGetOf, normalForm]
  | double => simp [CellLaw, CellOk, cellSetOf, cellGetOf, normalForm]
  | text => exact textLaw_iff (.inl rfl) element hfits call
  | date => exact textLaw_iff (.inr rfl) element hfits call
  | enum =>
    -- an element keeps a negative number
    cases element with
    | false => simp [CellLaw, CellOk, cellSetOf, cellGetOf, normalForm]
    | true =>
      simp only [CellLaw, CellOk, cellSetOf, cellGetOf, normalForm]
      by_cases hneg : intOf call.value < 0
      · have hnot : ¬ (0 : Int32) ≤ intOf call.value := Int32.not_le.mpr hneg
        have hne : intOf call.value ≠ 0 := fun hc => hnot (hc ▸ Int32.le_refl 0)
        simp [hneg, hnot, hne]
      · simp [hneg, Int32.not_lt.mp hneg]
  | bool =>
    cases element with
    | false =>
      simp only [CellLaw, CellOk, cellSetOf, cellGetOf, normalForm]
      by_cases hbool : intOf call.value = 0 ∨ intOf call.value = 1
      · rcases hbool with h | h <;> simp [h]
      · obtain ⟨h0, h1⟩ := not_or.mp hbool
        simp [h0, h1]
    | true =>
      simp only [CellLaw, CellOk, cellSetOf, cellGetOf, normalForm]
      by_cases hbool : intOf call.value = 0 ∨ intOf call.value = 1
      · simp [hbool]
      · obtain ⟨h0, h1⟩ := not_or.mp hbool
        simp [h0, h1]

/-! ## Nodes -/

/-- Every value of a tree has the form of its type. -/
inductive ShwData.Typed : ShwData → Prop where
  | scalar {identifier : Option Bytes} {type : DataType} {value : Cell}
      (htype : type.isScalar = true) (hfits : value.fits type = true) :
      Typed (.scalar identifier type value)
  | null {identifier : Option Bytes} {type : DataType} : Typed (.null identifier type)
  | unallocated {identifier : Option Bytes} {type elem : DataType} {size : ℤ} :
      Typed (.unallocated identifier type elem size)
  | cells {identifier : Option Bytes} {elem : DataType} {size : ℤ} {block : List Cell}
      (helem : elem.isScalar = true) (hfits : ∀ c ∈ block, c.fits elem = true) :
      Typed (.cells identifier elem size block)
  | datas {identifier : Option Bytes} {type elem : DataType} {size : ℤ}
      {block : List ShwData} (hitems : ∀ d ∈ block, Typed d) :
      Typed (.datas identifier type elem size block)

variable {d node : ShwData} {addr : Addr}

theorem ShwData.Typed.at? (h : d.Typed) (hnode : d.at? addr = some node) : node.Typed := by
  induction addr generalizing d with
  | nil =>
    obtain rfl := Option.some.inj hnode
    exact h
  | cons i addr ih =>
    obtain ⟨child, hchild, hat⟩ := Option.bind_eq_some_iff.mp hnode
    cases h with
    | datas hitems => exact ih (hitems child (mem_of_getElem? hchild)) hat
    | scalar htype hfits => exact nomatch hchild
    | null => exact nomatch hchild
    | unallocated => exact nomatch hchild
    | cells helem hfits => exact nomatch hchild

theorem mem_modify {α : Type} {f : α → α} {l : List α} {i : ℕ} {a : α} (h : a ∈ l.modify i f) :
    a ∈ l ∨ ∃ b, l[i]? = some b ∧ a = f b := by
  obtain ⟨j, hj⟩ := mem_iff_getElem?.mp h
  by_cases hij : i = j
  · subst hij
    rw [List.getElem?_modify_eq] at hj
    obtain ⟨b, hb, rfl⟩ := Option.map_eq_some_iff.mp hj
    exact .inr ⟨b, hb, rfl⟩
  · rw [List.getElem?_modify_ne _ _ hij] at hj
    exact .inl (mem_of_getElem? hj)

variable {f : ShwData → ShwData}

theorem ShwData.Typed.modify (h : d.Typed) (hnode : d.at? addr = some node) (hf : (f node).Typed) :
    (d.modify f addr).Typed := by
  induction addr generalizing d with
  | nil =>
    obtain rfl := Option.some.inj hnode
    exact hf
  | cons i addr ih =>
    obtain ⟨child, hchild, hat⟩ := Option.bind_eq_some_iff.mp hnode
    cases h with
    | datas hitems =>
      apply Typed.datas
      intro e he
      rcases mem_modify he with hmem | ⟨c, hc, rfl⟩
      · exact hitems e hmem
      · obtain rfl := Option.some.inj (hchild.symm.trans hc)
        exact ih (hitems child (mem_of_getElem? hchild)) hat
    | scalar htype hfits => exact nomatch hchild
    | null => exact nomatch hchild
    | unallocated => exact nomatch hchild
    | cells helem hfits => exact nomatch hchild

/-- What a set leaves of a node: its shape, and what is read at other indexes; a node with children
is not changed. -/
structure NodeKept (d d' : ShwData) (index : ℤ) : Prop where
  shape : d'.shape = d.shape
  typed : d'.Typed
  other : d.type = .array → ∀ j, j ≠ index → ∀ memory, nodeGet d' j memory = nodeGet d j memory
  leaf : d' = d ∨ (d.children = [] ∧ d'.children = [])

theorem nodeKept_self (h : d.Typed) (index : ℤ) : NodeKept d d index :=
  ⟨rfl, h, fun _ _ _ _ => rfl, .inl rfl⟩

/-- What is read at a node that was set. -/
def NodeLaw (d : ShwData) (index : ℤ) (call : SetCall) (success : Bool) (d' : ShwData) : Prop :=
  (success = true →
      nodeGet d' index call.copied = some (some (normalForm call.value d.valueType))) ∧
    (success = false → ∀ memory, nodeGet d' index memory = nodeGet d index memory)

theorem nodeLaw_self (d : ShwData) (index : ℤ) (call : SetCall) :
    NodeLaw d index call false d :=
  ⟨fun hc => absurd hc (by decide), fun _ _ => rfl⟩

theorem nodeGet_scalar (htype : type.isScalar = true) (hfits : cell.fits type = true)
    (identifier : Option Bytes) (index : ℤ) (memory : Bool) :
    nodeGet (.scalar identifier type cell) index memory = some (cellGetOf memory cell) := by
  have hsome : (getterOf false type).isSome = true := by rw [getterOf_isSome, htype]
  obtain ⟨get, hget⟩ := Option.isSome_iff_exists.mp hsome
  have harray : type ≠ .array := by
    rintro rfl
    exact nomatch htype
  have hfunc : funcGet type = some get := hget
  rw [nodeGet, if_neg (show (ShwData.scalar identifier type cell).type ≠ .array from harray), dataGet,
    hfunc]
  exact congrArg some (getter_eq hget hfits memory)

theorem nodeGet_cells {elem : DataType} {block : List Cell} (helem : elem.isScalar = true)
    (hfits : ∀ c ∈ block, c.fits elem = true) (identifier : Option Bytes) (size index : ℤ)
    (memory : Bool) :
    nodeGet (.cells identifier elem size block) index memory =
      if index < 0 ∨ size ≤ index then some none
      else block[index.toNat]?.map (cellGetOf memory) := by
  have hsome : (getterOf true elem).isSome = true := by rw [getterOf_isSome, helem]
  obtain ⟨get, hget⟩ := Option.isSome_iff_exists.mp hsome
  have hfunc : funcArrayGet elem = some get := hget
  rw [nodeGet, if_pos (show (ShwData.cells identifier elem size block).type = .array from rfl),
    dataArrayGet, hfunc]
  split_ifs with hrange
  · rfl
  · cases hcell : block[index.toNat]? with
    | none => rfl
    | some cell =>
      exact congrArg some (getter_eq hget (hfits cell (mem_of_getElem? hcell)) memory)

theorem nodeGet_datas (identifier : Option Bytes) (type elem : DataType) (size : ℤ)
    (block : List ShwData) (index : ℤ) (memory : Bool) :
    nodeGet (.datas identifier type elem size block) index memory = some none := by
  rw [nodeGet]
  split_ifs <;> rfl

/-- What a set makes of a node, unless it leaves the block. -/
def NodeSpec (d : ShwData) (index : ℤ) (call : SetCall) : Prop :=
  (nodeSet d index call.value call.memory = none ∧ ¬ NodeOk d index call) ∨
    ∃ success d', nodeSet d index call.value call.memory = some (success, d') ∧
      NodeKept d d' index ∧ (NodeLaw d index call success d' ↔ NodeOk d index call)

variable {index : ℤ}

theorem nodeSpec_self {call : SetCall} (h : d.Typed)
    (hset : nodeSet d index call.value call.memory = some (false, d)) (hok : NodeOk d index call) :
    NodeSpec d index call :=
  .inr ⟨false, d, hset, nodeKept_self h index,
    ⟨fun _ => hok, fun _ => nodeLaw_self d index call⟩⟩

theorem nodeSpec_scalar (htype : type.isScalar = true) (hfits : cell.fits type = true)
    (identifier : Option Bytes) (index : ℤ) (call : SetCall) :
    NodeSpec (.scalar identifier type cell) index call := by
  have hsome : (setterOf false type).isSome = true := by rw [setterOf_isSome, htype]
  obtain ⟨set, hset⟩ := Option.isSome_iff_exists.mp hsome
  have hfunc : funcSet type = some set := hset
  have harray : (ShwData.scalar identifier type cell).type ≠ .array := by
    rintro rfl
    exact nomatch htype
  have heq := setter_eq hset call.value call.memory cell
  have hfits' := cellSetOf_fits false htype call.value call.memory
  right
  refine ⟨(cellSetOf false call.value call.memory type).1,
    .scalar identifier type (cellSetOf false call.value call.memory type).2, ?_, ?_, ?_⟩
  · rw [nodeSet, if_neg harray, dataSet, hfunc]
    dsimp only
    rw [heq]
  · exact ⟨rfl, .scalar htype hfits', fun hc => absurd hc harray, .inr ⟨rfl, rfl⟩⟩
  · show _ ↔ CellOk false type cell call
    rw [← cellLaw_iff htype hfits call]
    unfold NodeLaw CellLaw
    simp only [nodeGet_scalar htype hfits, nodeGet_scalar htype hfits', Option.some.injEq]
    rfl

theorem nodeSpec_cells {elem : DataType} {block : List Cell} (helem : elem.isScalar = true)
    (hfits : ∀ c ∈ block, c.fits elem = true) (identifier : Option Bytes) (size index : ℤ)
    (call : SetCall) : NodeSpec (.cells identifier elem size block) index call := by
  have hsome : (setterOf true elem).isSome = true := by rw [setterOf_isSome, helem]
  obtain ⟨set, hset⟩ := Option.isSome_iff_exists.mp hsome
  have hfunc : funcArraySet elem = some set := hset
  have harray : (ShwData.cells identifier elem size block).type = .array := rfl
  have hnode : nodeSet (.cells identifier elem size block) index call.value call.memory =
      if index < 0 ∨ size ≤ index then some (false, .cells identifier elem size block)
      else
        block[index.toNat]?.map fun cell =>
          ((set call.value call.memory cell).1,
            .cells identifier elem size
              (block.set index.toNat (set call.value call.memory cell).2)) := by
    rw [nodeSet, if_pos harray, dataArraySet, hfunc]
  by_cases hrange : index < 0 ∨ size ≤ index
  · rw [if_pos hrange] at hnode
    apply nodeSpec_self (.cells helem hfits) hnode
    intro hlow hhigh
    omega
  rw [if_neg hrange] at hnode
  obtain ⟨hlow, hhigh⟩ := not_or.mp hrange
  cases hcell : block[index.toNat]? with
  | none =>
    rw [hcell] at hnode
    left
    refine ⟨hnode, fun hok => ?_⟩
    obtain ⟨cell, hc, -⟩ := hok (by omega) (by omega)
    rw [hcell] at hc
    exact nomatch hc
  | some cell =>
    rw [hcell, Option.map_some, setter_eq hset] at hnode
    have hcellfits : cell.fits elem = true := hfits cell (mem_of_getElem? hcell)
    have hlt : index.toNat < block.length := (List.getElem?_eq_some_iff.mp hcell).1
    -- the block after the set
    have hfits' : ∀ c ∈ block.set index.toNat (cellSetOf true call.value call.memory elem).2,
        c.fits elem = true := by
      intro c hc
      rcases mem_or_eq_of_mem_set hc with hmem | rfl
      · exact hfits c hmem
      · exact cellSetOf_fits true helem call.value call.memory
    right
    refine ⟨_, _, hnode, ⟨rfl, .cells helem hfits', ?_, .inr ⟨rfl, rfl⟩⟩, ?_⟩
    · intro _ j hj memory
      rw [nodeGet_cells helem hfits', nodeGet_cells helem hfits]
      split_ifs with hjrange
      · rfl
      · rw [List.getElem?_set_ne (by omega)]
    · have hok : NodeOk (.cells identifier elem size block) index call ↔
          CellOk true elem cell call := by
        constructor
        · intro h
          obtain ⟨cell', hc, hcellok⟩ := h (by omega) (by omega)
          obtain rfl := Option.some.inj (hcell.symm.trans hc)
          exact hcellok
        · exact fun h _ _ => ⟨cell, hcell, h⟩
      rw [hok, ← cellLaw_iff helem hcellfits call]
      unfold NodeLaw CellLaw
      simp only [nodeGet_cells helem hfits, nodeGet_cells helem hfits', if_neg hrange, hcell,
        List.getElem?_set_self hlt, Option.map_some, Option.some.injEq]
      rfl

theorem nodeSpec (h : d.Typed) (index : ℤ) (call : SetCall) : NodeSpec d index call := by
  cases h with
  | scalar htype hfits => exact nodeSpec_scalar htype hfits _ index call
  | cells helem hfits => exact nodeSpec_cells helem hfits _ _ index call
  | null =>
    refine nodeSpec_self .null ?_ trivial
    rw [nodeSet]
    split_ifs <;> rfl
  | datas hitems =>
    refine nodeSpec_self (.datas hitems) ?_ trivial
    rw [nodeSet]
    split_ifs <;> rfl
  | @unallocated identifier type elem size =>
    -- only an array can have elements that have not been allocated
    by_cases harray : type = .array
    · subst harray
      have hnode : nodeSet (.unallocated identifier .array elem size) index call.value
          call.memory = if index < 0 ∨ size ≤ index ∨ funcArraySet elem = none then
            some (false, .unallocated identifier .array elem size) else none := rfl
      have hnone : funcArraySet elem = none ↔ ¬ elem.isScalar = true := by
        rw [← setterOf_isSome true elem]
        simp [setterOf]
      -- nothing is written outside the array, or without a setter for its elements
      by_cases hrange : index < 0 ∨ size ≤ index ∨ funcArraySet elem = none
      · rw [if_pos hrange] at hnode
        apply nodeSpec_self .unallocated hnode
        intro hscalar hlow hhigh
        rcases hrange with h | h | h
        · omega
        · omega
        · exact hnone.mp h hscalar
      · rw [if_neg hrange] at hnode
        left
        refine ⟨hnode, fun hok => ?_⟩
        rw [not_or, not_or, hnone, not_not] at hrange
        exact hok hrange.2.2 (by omega) (by omega)
    · refine nodeSpec_self .unallocated ?_ ?_
      · rw [nodeSet, if_neg (show (ShwData.unallocated identifier type elem size).type ≠ .array
          from harray)]
        rfl
      · unfold NodeOk
        split <;> simp_all

/-! ## The store -/

theorem root_modify (haddr : addr ≠ []) (s : Shw) :
    (s.modify f addr).root = s.root.modify f addr := by
  cases addr with
  | nil => exact absurd rfl haddr
  | cons i addr =>
    simp only [Shw.root, Shw.modify, ShwData.modify, ShwData.children, ShwData.withChildren]
    cases s.properties with
    | none => rw [Option.map_none, Option.getD_none, modify_nil]
    | some ps => rfl

theorem modify_id (hnode : d.at? addr = some node) : d.modify (fun _ => node) addr = d := by
  induction addr generalizing d with
  | nil =>
    obtain rfl := Option.some.inj hnode
    rfl
  | cons i addr ih =>
    obtain ⟨child, hchild, hat⟩ := Option.bind_eq_some_iff.mp hnode
    obtain ⟨identifier, type, elem, size, hd⟩ := datas_of_children hchild
    have hsame : d.children.modify i (fun c => c.modify (fun _ => node) addr) = d.children := by
      have hmap := map_modify_eq (h := id) (g := fun c => c.modify (fun _ => node) addr)
        (l := d.children) (i := i) fun c hc => by
          obtain rfl := Option.some.inj (hchild.symm.trans hc)
          exact ih hat
      rwa [map_id, map_id] at hmap
    rw [ShwData.modify, hsame]
    rw [hd]
    rfl

variable {s : Shw}

theorem root_at?_ne_nil {i : ℕ} (hnode : s.root.at? (i :: addr) = some node) :
    ∃ ps child, s.properties = some ps ∧ ps[i]? = some child ∧ child.at? addr = some node := by
  obtain ⟨child, hchild, hat⟩ := Option.bind_eq_some_iff.mp hnode
  cases hps : s.properties with
  | none =>
    have hnone : s.root.children = [] := by
      unfold Shw.root
      rw [hps]
      rfl
    rw [hnone] at hchild
    exact nomatch hchild
  | some ps =>
    have hsome : s.root.children = ps := by
      unfold Shw.root
      rw [hps]
      rfl
    rw [hsome] at hchild
    exact ⟨ps, child, rfl, hchild, hat⟩

theorem shw_modify_id (hnode : s.root.at? addr = some node) :
    s.modify (fun _ => node) addr = s := by
  cases addr with
  | nil => rfl
  | cons i addr =>
    obtain ⟨ps, child, hps, hchild, hat⟩ := root_at?_ne_nil hnode
    have hsame : ps.modify i (fun d => d.modify (fun _ => node) addr) = ps := by
      have hmap := map_modify_eq (h := id) (g := fun c => c.modify (fun _ => node) addr)
        (l := ps) (i := i) fun c hc => by
          obtain rfl := Option.some.inj (hchild.symm.trans hc)
          exact modify_id hat
      rwa [map_id, map_id] at hmap
    show Shw.mk s.propertyNumber (s.properties.map fun qs =>
        qs.modify i fun d => d.modify (fun _ => node) addr)
      s.eventNumber s.events s.serviceNumber s.services = s
    rw [hps, Option.map_some, hsame, ← hps]

theorem propertySearch_modify (hnode : s.root.at? addr = some node)
    (hf : (f node).shape = node.shape) (key : Bytes) :
    propertySearch (s.modify f addr) key = propertySearch s key := by
  cases addr with
  | nil => rfl
  | cons i addr =>
    obtain ⟨ps, child, hps, hchild, hat⟩ := root_at?_ne_nil hnode
    apply propertySearch_congr
    · rfl
    · show (s.properties.map _).map shapes = s.properties.map shapes
      rw [hps, Option.map_some, Option.map_some, Option.map_some, shapes_eq_map, shapes_eq_map]
      congr 1
      apply map_modify_eq
      intro c hc
      obtain rfl := Option.some.inj (hchild.symm.trans hc)
      exact shape_modify hat hf

variable {key : Bytes}

section

variable (hfound : propertySearch s key = .found (addr, index)) (hnode : s.root.at? addr = some d)
include hfound hnode

/-- What is read in a shadow with another node, at a key that finds another node or another
index. -/
theorem get_modify_other {d' : ShwData} {key' : Bytes} (hkept : NodeKept d d' index)
    (hkey : propertySearch s key' ≠ propertySearch s key) (memory : Bool) :
    dmShwGetPropertyValue (s.modify (fun _ => d') addr) key' memory =
      dmShwGetPropertyValue s key' memory := by
  -- a call that changes a node changes a leaf
  rcases hkept.leaf with rfl | ⟨hleaf, hleaf'⟩
  · rw [shw_modify_id hnode]
  obtain ⟨haddr, d₀, hnode₀, hindex⟩ := propertySearch_found hfound
  obtain rfl := Option.some.inj (hnode.symm.trans hnode₀)
  unfold dmShwGetPropertyValue
  rw [propertySearch_modify hnode hkept.shape, root_modify haddr]
  cases hfound' : propertySearch s key' with
  | fail => rfl
  | nullRead => rfl
  | outside => rfl
  | found found =>
    obtain ⟨addr', index'⟩ := found
    dsimp only
    -- the other key leads to another element of the same array, or to another node
    by_cases hsame : addr' = addr
    · subst hsame
      rw [at?_modify_self hnode, hnode, Option.bind_some, Option.bind_some]
      have hne : index' ≠ index := by
        rintro rfl
        exact hkey (hfound'.trans hfound.symm)
      obtain ⟨-, d₁, hnode₁, hindex'⟩ := propertySearch_found hfound'
      obtain rfl := Option.some.inj (hnode.symm.trans hnode₁)
      by_cases harray : d.type = .array
      · exact hkept.other harray index' hne memory
      · exact absurd ((hindex' harray).trans (hindex harray).symm) hne
    · rcases at?_modify_ne (f := fun _ => d') hnode hleaf hleaf' hsame with heq | hblock
      · rw [heq]
      · obtain ⟨identifier, type, elem, size, block, block', hold, hnew⟩ := hblock
        rw [hold, hnew, Option.bind_some, Option.bind_some, nodeGet_datas, nodeGet_datas]

theorem get_modify_self {d' : ShwData} (hkept : NodeKept d d' index) (memory : Bool) :
    dmShwGetPropertyValue (s.modify (fun _ => d') addr) key memory = nodeGet d' index memory := by
  unfold dmShwGetPropertyValue
  rw [propertySearch_modify hnode hkept.shape, hfound]
  dsimp only
  rw [root_modify (propertySearch_found hfound).1, at?_modify_self hnode, Option.bind_some]

theorem get_found (memory : Bool) :
    dmShwGetPropertyValue s key memory = nodeGet d index memory := by
  unfold dmShwGetPropertyValue
  rw [hfound]
  dsimp only
  rw [hnode, Option.bind_some]

end

theorem setLaw_found {s : Shw} {call : SetCall} {addr : Addr} {index : ℤ} {d d' : ShwData}
    {success : Bool} (hfound : propertySearch s call.key = .found (addr, index))
    (hnode : s.root.at? addr = some d) (hkept : NodeKept d d' index)
    (hset : dmShwSetPropertyValue s call.key call.value call.memory =
      some (success, s.modify (fun _ => d') addr)) :
    SetLaw s call ↔ NodeLaw d index call success d' := by
  have hself := get_modify_self hfound hnode hkept
  constructor
  · rintro ⟨success', s', hset', hok, hfail⟩
    rw [hset, Option.some.injEq, Prod.mk.injEq] at hset'
    obtain ⟨rfl, rfl⟩ := hset'
    constructor
    · intro hs
      obtain ⟨⟨addr', index', node, hfound', hnode', hget⟩, -⟩ := hok hs
      rw [hfound, Search.found.injEq, Prod.mk.injEq] at hfound'
      obtain ⟨rfl, rfl⟩ := hfound'
      obtain rfl := Option.some.inj (hnode.symm.trans hnode')
      rwa [hself] at hget
    · intro hs memory
      rw [← hself, ← get_found hfound hnode]
      exact hfail hs call.key memory
  · rintro ⟨hok, hfail⟩
    refine ⟨success, _, hset, fun hs => ⟨⟨addr, index, d, hfound, hnode, ?_⟩, ?_⟩, ?_⟩
    · rw [hself]
      exact hok hs
    · exact fun key hkey memory => get_modify_other hfound hnode hkept hkey memory
    · intro hs key memory
      by_cases hkey : propertySearch s key = propertySearch s call.key
      · have hfound' := hkey.trans hfound
        rw [get_modify_self hfound' hnode hkept, get_found hfound' hnode]
        exact hfail hs memory
      · exact get_modify_other hfound hnode hkept hkey memory

/-- **Read your writes and frame.**  A call meets the law exactly when it can. -/
theorem setLaw_iff (h : s.root.Typed) (call : SetCall) : SetLaw s call ↔ SetOk s call := by
  unfold SetOk
  cases hfound : propertySearch s call.key with
  | fail =>
    refine ⟨fun _ => trivial, fun _ => ⟨false, s, ?_, fun hc => absurd hc (by decide),
      fun _ _ _ => rfl⟩⟩
    rw [dmShwSetPropertyValue, hfound]
  | nullRead =>
    refine ⟨?_, fun hc => absurd hc id⟩
    rintro ⟨success, s', hset, -⟩
    rw [dmShwSetPropertyValue, hfound] at hset
    cases hset
  | outside =>
    refine ⟨?_, fun hc => absurd hc id⟩
    rintro ⟨success, s', hset, -⟩
    rw [dmShwSetPropertyValue, hfound] at hset
    cases hset
  | found found =>
    obtain ⟨addr, index⟩ := found
    obtain ⟨-, d, hnode, -⟩ := propertySearch_found hfound
    -- the key leads to one node
    have hall : (∀ d, s.root.at? addr = some d → NodeOk d index call) ↔ NodeOk d index call := by
      rw [hnode]
      simp
    dsimp only
    rw [hall]
    have hset : dmShwSetPropertyValue s call.key call.value call.memory =
        (nodeSet d index call.value call.memory).map fun result =>
          (result.1, s.modify (fun _ => result.2) addr) := by
      rw [dmShwSetPropertyValue, hfound]
      dsimp only
      rw [hnode, Option.bind_some]
    rcases nodeSpec (h.at? hnode) index call with ⟨hnone, hnot⟩ | ⟨success, d', hsome, hkept, hiff⟩
    · refine ⟨?_, fun hc => absurd hc hnot⟩
      rintro ⟨success, s', hset', -⟩
      rw [hset, hnone] at hset'
      cases hset'
    · rw [hsome, Option.map_some] at hset
      rw [← hiff]
      exact setLaw_found hfound hnode hkept hset

/-- What a call leaves of a shadow. -/
structure Kept (s₀ s : Shw) : Prop where
  typed : s.root.Typed
  eventNumber : s.eventNumber = s₀.eventNumber
  events : s.events = s₀.events
  serviceNumber : s.serviceNumber = s₀.serviceNumber
  services : s.services = s₀.services

theorem Kept.setStep {s₀ : Shw} (h : Kept s₀ s) (call : SetCall) : Kept s₀ (setStep s call) := by
  unfold Shadow.setStep dmShwSetPropertyValue
  cases hfound : propertySearch s call.key with
  | fail => exact h
  | nullRead => exact h
  | outside => exact h
  | found found =>
    obtain ⟨addr, index⟩ := found
    obtain ⟨haddr, d, hnode, -⟩ := propertySearch_found hfound
    dsimp only
    rw [hnode, Option.bind_some]
    rcases nodeSpec (h.typed.at? hnode) index call with ⟨hnone, -⟩ | ⟨success, d', hsome, hkept, -⟩
    · rw [hnone]
      exact h
    rw [hsome, Option.map_some]
    cases addr with
    | nil => exact absurd rfl haddr
    | cons i addr =>
      refine ⟨?_, h.eventNumber, h.events, h.serviceNumber, h.services⟩
      rw [root_modify haddr]
      exact h.typed.modify hnode hkept.typed

/-! ## Loaded shadows -/

theorem itemsParse_typed {env : LoadEnv} {items : List Json}
    (ih : ∀ item ∈ items, (propertyParse env item).2.Typed) :
    ∀ d ∈ (itemsParse env items).2, d.Typed := by
  induction items with
  | nil =>
    intro d hd
    rw [itemsParse] at hd
    exact absurd hd not_mem_nil
  | cons item items ihitems =>
    have hfirst := ih item mem_cons_self
    have hrest := ihitems fun item' h => ih item' (mem_cons_of_mem item h)
    rw [itemsParse]
    split_ifs
    · rw [forall_mem_cons]
      exact ⟨hfirst, hrest⟩
    · rw [forall_mem_cons]
      refine ⟨hfirst, fun d hd => ?_⟩
      rw [eq_of_mem_replicate hd]
      exact .null
    · intro d hd
      rw [eq_of_mem_replicate hd]
      exact .null

variable {env : LoadEnv} {root : Json}

theorem structParse_typed (ih : ∀ item ∈ root.items, (propertyParse env item).2.Typed)
    (identifier : Option Bytes) : (structParse env identifier root).2.Typed := by
  rw [structParse]
  split_ifs
  · exact .null
  · split
    · exact .unallocated
    · exact .datas fun d hd => itemsParse_typed ih d (mem_of_mem_take hd)

theorem arrayParse_typed
    (ih : ∀ specs : Json, sizeOf specs < sizeOf root → (structParse env none specs).2.Typed)
    (identifier : Option Bytes) : (arrayParse env identifier root).2.Typed := by
  rw [arrayParse]
  split_ifs
  · exact .null
  split
  · exact .unallocated
  split_ifs
  · exact .unallocated
  dsimp only
  split
  · exact .unallocated
  next item hitem =>
  split
  · exact .unallocated
  · exact .unallocated
  · exact .unallocated
  · split
    · exact .unallocated
    · next specs hspecs =>
      by_cases hempty : specs.items = []
      · rw [if_pos hempty]
        exact .unallocated
      rw [if_neg hempty]
      split
      · exact .unallocated
      · next k halloc =>
        -- the elements are copies of the first one
        refine .datas fun d hd => ?_
        rw [eq_of_mem_replicate hd]
        split_ifs
        · exact ih specs ((Json.sizeOf_member_lt hspecs).trans (Json.sizeOf_member_lt hitem))
        · exact .null
  · next elem hnone harray hstruct htype =>
    have hscalar : elem.isScalar = true := isScalar_of_ne hnone harray hstruct
    split
    · exact .unallocated
    · refine .cells hscalar fun c hc => ?_
      rw [eq_of_mem_replicate hc]
      exact Cell.zero_fits hscalar

theorem dataParse_typed {env : LoadEnv} {root : Json}
    (iharray : ∀ specs : Json, sizeOf specs < sizeOf root → ∀ identifier,
      (arrayParse env identifier specs).2.Typed)
    (ihstruct : ∀ specs : Json, sizeOf specs < sizeOf root → ∀ identifier,
      (structParse env identifier specs).2.Typed)
    (identifier : Option Bytes) : (dataParse env identifier root).2.Typed := by
  rw [dataParse]
  split
  · split
    · exact .null
    · exact .null
    · split
      · exact .null
      · next specs hspecs => exact iharray specs (Json.sizeOf_member_lt hspecs) identifier
    · split
      · exact .null
      · next specs hspecs => exact ihstruct specs (Json.sizeOf_member_lt hspecs) identifier
    · next type hnone harray hstruct htype =>
      have hscalar : type.isScalar = true := isScalar_of_ne hnone harray hstruct
      exact .scalar hscalar (Cell.zero_fits hscalar)
  · exact .null

theorem propertyParse_typed (env : LoadEnv) (root : Json) : (propertyParse env root).2.Typed := by
  induction hn : sizeOf root using Nat.strong_induction_on generalizing root with
  | _ n ih =>
    subst hn
    have hstruct : ∀ specs : Json, sizeOf specs < sizeOf root →
        ∀ identifier, (structParse env identifier specs).2.Typed := by
      intro specs hspecs
      apply structParse_typed
      intro item hitem
      have hlt := (sizeOf_lt_of_mem hitem).trans (specs.sizeOf_items_lt.trans hspecs)
      exact ih (sizeOf item) hlt item rfl
    rw [propertyParse]
    split
    · split_ifs
      · split
        · exact .null
        · next data hdata =>
          have hlt := Json.sizeOf_member_lt hdata
          split_ifs
          · apply dataParse_typed
            · intro specs hspecs
              apply arrayParse_typed
              intro specs' hspecs'
              exact hstruct specs' (hspecs'.trans (hspecs.trans hlt)) none
            · intro specs hspecs
              exact hstruct specs (hspecs.trans hlt)
          · exact .null
      · exact .null
    · exact .null

/-- A list that was parsed has no more elements than it says. -/
theorem listParse_eq_some {α : Type} {size : ℕ} {parse : Json → α} {number : ℕ}
    {block : Option (List α)} (h : listParse env root key size parse = some (number, block)) :
    (number = 0 ∧ block = none) ∨ ∃ (items : List Json) (n : ℕ), number = items.length ∧
      block = some ((items.map parse).take n) := by
  unfold listParse at h
  split at h
  · cases h
    exact .inl ⟨rfl, rfl⟩
  · next text items hmember =>
    split_ifs at h with hempty hall
    · cases h
      exact .inl ⟨rfl, rfl⟩
    · obtain ⟨n, -, h⟩ := Option.bind_eq_some_iff.mp h
      cases h
      exact .inr ⟨items, n, rfl, rfl⟩
    · obtain ⟨n, -, h⟩ := Option.bind_eq_some_iff.mp h
      exact nomatch h
  · exact nomatch h

theorem typed_of_load (h : dmTslAlinkCreate env root = some s) : s.root.Typed := by
  obtain ⟨hproperties, -, -⟩ := dmTslAlinkCreate_eq_some h
  apply ShwData.Typed.datas
  intro d hd
  rcases listParse_eq_some hproperties with ⟨-, hnone⟩ | ⟨items, n, -, hsome⟩
  · rw [hnone] at hd
    exact absurd hd not_mem_nil
  · rw [hsome] at hd
    obtain ⟨item, -, rfl⟩ := mem_map.mp (mem_of_mem_take hd)
    exact propertyParse_typed env item

/-! ## Looking up events and services -/

/-- Two searches find alike, and the first meets nothing that the second does not meet. -/
structure FindsAlike (a b : Search ℕ) : Prop where
  found : (∃ i, a = .found i) ↔ ∃ i, b = .found i
  nullRead : a = .nullRead → b = .nullRead
  outside : a = .outside → b = .outside

theorem FindsAlike.refl (a : Search ℕ) : FindsAlike a a := ⟨Iff.rfl, id, id⟩

/-- Events and services are found exactly when the search of their lists finds them. -/
def LookupLaw (s : Shw) : Prop :=
  ∀ key, FindsAlike (dmShwGetEvent s key) (eventSearch s key) ∧
    FindsAlike (dmShwGetService s key) (serviceSearch s key)

/-- The names up to the first that is missing. -/
def namesOf : List (Option Bytes) → List Bytes
  | some identifier :: identifiers => identifier.takeWhile (· ≠ 0) :: namesOf identifiers
  | _ => []

/-- The names of the services. -/
def Shw.serviceNames (s : Shw) : List Bytes :=
  namesOf ((s.services.getD []).map (·.identifier))

/-- There are as many services as events at least, and a service behind that number has the name of
one before it; or there are fewer, and one of them is missing. -/
def LookupOk (s : Shw) : Prop :=
  (s.eventNumber ≤ s.serviceNumber →
    ∀ name ∈ s.serviceNames.take s.serviceNumber, name ≠ [] →
      name ∈ s.serviceNames.take s.eventNumber) ∧
  (s.serviceNumber < s.eventNumber → s.serviceNames.length < s.serviceNumber)

theorem length_namesOf_le (identifiers : List (Option Bytes)) :
    (namesOf identifiers).length ≤ identifiers.length := by
  induction identifiers with
  | nil => exact le_refl 0
  | cons identifier identifiers ih =>
    cases identifier with
    | none => exact Nat.zero_le _
    | some name => exact Nat.succ_le_succ ih

/-- What a search gives, by the names that can be read. -/
theorem identifierSearch_cases (key : Bytes) (i number : ℕ)
    (identifiers : List (Option Bytes)) :
    (key ∈ (namesOf identifiers).take number ∧
      ∃ j, identifierSearch key i number identifiers = .found j) ∨
    (key ∉ (namesOf identifiers).take number ∧ identifierSearch key i number identifiers =
      if number ≤ (namesOf identifiers).length then .fail
      else if (namesOf identifiers).length = identifiers.length then .outside else .nullRead) := by
  induction identifiers generalizing i number with
  | nil =>
    right
    cases number with
    | zero => exact ⟨not_mem_nil, rfl⟩
    | succ number => exact ⟨not_mem_nil, rfl⟩
  | cons identifier identifiers ih =>
    cases number with
    | zero => exact .inr ⟨not_mem_nil, rfl⟩
    | succ number =>
      cases identifier with
      | none => exact .inr ⟨not_mem_nil, rfl⟩
      | some name =>
        rw [identifierSearch, namesOf, take_succ_cons]
        -- the first entry has the name, or the scan goes on behind it
        by_cases hname : identifierIs name key = true
        · left
          rw [if_pos hname]
          refine ⟨?_, i, rfl⟩
          rw [← of_decide_eq_true hname]
          exact mem_cons_self
        rw [if_neg hname]
        have hne : key ≠ name.takeWhile (· ≠ 0) := fun hc =>
          hname (decide_eq_true hc.symm)
        -- the number counts down with the entries
        rcases ih (i + 1) number with ⟨hmem, hfound⟩ | ⟨hnot, hresult⟩
        · exact .inl ⟨mem_cons_of_mem _ hmem, hfound⟩
        · right
          refine ⟨fun hc => (mem_cons.mp hc).elim hne hnot, ?_⟩
          rw [hresult, length_cons, length_cons]
          simp only [Nat.add_le_add_iff_right, Nat.add_right_cancel_iff]

theorem exists_new_name (names : List Bytes) : ∃ key, key ≠ [] ∧ key ∉ names := by
  obtain ⟨key, hkey⟩ := Infinite.exists_notMem_finset (insert [] names.toFinset)
  rw [Finset.mem_insert, mem_toFinset, not_or] at hkey
  exact ⟨key, hkey.1, hkey.2⟩

/-- Searches of the same identifiers with different numbers. -/
theorem findsAlike_iff {number number' : ℕ} {identifiers : List (Option Bytes)}
    (hlen : identifiers.length ≤ number') :
    (∀ key ≠ [], FindsAlike (identifierSearch key 0 number identifiers)
      (identifierSearch key 0 number' identifiers)) ↔
    (number ≤ number' → ∀ name ∈ (namesOf identifiers).take number', name ≠ [] →
      name ∈ (namesOf identifiers).take number) ∧
    (number' < number → (namesOf identifiers).length < number') := by
  have hnames := length_namesOf_le identifiers
  constructor
  · intro h
    constructor
    · intro hle name hname hne
      rcases identifierSearch_cases name 0 number identifiers with ⟨hmem, -⟩ | ⟨hnot, hresult⟩
      · exact hmem
      · rcases identifierSearch_cases name 0 number' identifiers with ⟨-, hfound'⟩ | ⟨hnot', -⟩
        · obtain ⟨i, hi⟩ := (h name hne).found.mpr hfound'
          rw [hresult] at hi
          split_ifs at hi
        · exact absurd hname hnot'
    · -- a name that is not there is searched beyond the block
      intro hlt
      by_contra hge
      obtain ⟨key, hne, hnew⟩ := exists_new_name (namesOf identifiers)
      rcases identifierSearch_cases key 0 number identifiers with ⟨hmem, -⟩ | ⟨-, hresult⟩
      · exact hnew (mem_of_mem_take hmem)
      rcases identifierSearch_cases key 0 number' identifiers with ⟨hmem, -⟩ | ⟨-, hresult'⟩
      · exact hnew (mem_of_mem_take hmem)
      · rw [if_neg (by omega), if_pos (by omega)] at hresult
        rw [if_pos (by omega)] at hresult'
        have hout := (h key hne).outside hresult
        rw [hresult'] at hout
        exact nomatch hout
  · rintro ⟨hsmall, hlarge⟩ key hne
    rcases identifierSearch_cases key 0 number identifiers with ⟨hmem, i, hi⟩ | ⟨hnot, hresult⟩
    · rcases identifierSearch_cases key 0 number' identifiers with ⟨-, j, hj⟩ | ⟨hnot', -⟩
      · rw [hi, hj]
        exact ⟨⟨fun _ => ⟨j, rfl⟩, fun _ => ⟨i, rfl⟩⟩, fun hc => (nomatch hc), fun hc => (nomatch hc)⟩
      · refine absurd ?_ hnot'
        rcases Nat.lt_or_ge number' number with hlt | hge
        · rw [take_of_length_le (by have := hlarge hlt; omega)]
          exact mem_of_mem_take hmem
        · exact (take_subset_take_left _ hge) hmem
    · have hnot' : key ∉ (namesOf identifiers).take number' := by
        intro hmem'
        rcases Nat.lt_or_ge number' number with hlt | hge
        · refine hnot ?_
          rw [take_of_length_le (by have := hlarge hlt; omega)]
          exact mem_of_mem_take hmem'
        · exact hnot (hsmall hge key hmem' hne)
      rcases identifierSearch_cases key 0 number' identifiers with ⟨hmem', -⟩ | ⟨-, hresult'⟩
      · exact absurd hmem' hnot'
      rw [hresult, hresult']
      -- a search that meets the end of the block, or a missing name, has read all names
      have hbeyond : ¬ number ≤ (namesOf identifiers).length →
          ¬ number' ≤ (namesOf identifiers).length := by
        intro hle hle'
        have := hlarge (by omega)
        omega
      refine ⟨⟨?_, ?_⟩, ?_, ?_⟩
      · rintro ⟨i, hi⟩
        split_ifs at hi
      · rintro ⟨i, hi⟩
        split_ifs at hi
      · intro hc
        split_ifs at hc with hle heq
        rw [if_neg (hbeyond hle), if_neg heq]
      · intro hc
        split_ifs at hc with hle heq
        rw [if_neg (hbeyond hle), if_pos heq]

theorem lookupLaw_iff (hnone : s.services = none → s.serviceNumber = 0)
    (hsome : ∀ block, s.services = some block → block.length ≤ s.serviceNumber) :
    LookupLaw s ↔ LookupOk s := by
  -- the search that is named after the services goes by the number of the events
  have hservices : LookupLaw s ↔ ∀ key ≠ [], FindsAlike
      (identifierSearch key 0 s.eventNumber
        (identifiersOf s.eventNumber (s.services.map (·.map (·.identifier)))))
      (identifierSearch key 0 s.serviceNumber
        (identifiersOf s.serviceNumber (s.services.map (·.map (·.identifier))))) := by
    constructor
    · intro h key hne
      have hkey := (h key).2
      rwa [dmShwGetService, serviceSearch, if_neg hne, if_neg hne] at hkey
    · intro h key
      refine ⟨.refl _, ?_⟩
      rw [dmShwGetService, serviceSearch]
      by_cases hne : key = []
      · rw [if_pos hne, if_pos hne]
        exact .refl _
      · rw [if_neg hne, if_neg hne]
        exact h key hne
  rw [hservices]
  unfold LookupOk Shw.serviceNames
  cases hblock : s.services with
  | some block =>
    have hlen : (block.map (·.identifier)).length ≤ s.serviceNumber := by
      rw [length_map]
      exact hsome block hblock
    exact findsAlike_iff hlen
  | none =>
    rw [hnone hblock]
    constructor
    · intro h
      refine ⟨fun _ name hname _ => absurd hname not_mem_nil, fun hlt => ?_⟩
      obtain ⟨n, hn⟩ : ∃ n, s.eventNumber = n + 1 := ⟨s.eventNumber - 1, by omega⟩
      have hnull := (h [1] (cons_ne_nil _ _)).nullRead
      rw [hn] at hnull
      -- the search finds no block to look in
      exact nomatch hnull rfl
    · rintro ⟨-, hlarge⟩ key -
      have hzero : s.eventNumber = 0 := by
        by_contra hne
        exact absurd (hlarge (by omega)) (Nat.not_lt_zero _)
      rw [hzero]
      exact .refl _

/-- **The store.**  In a run of calls on a loaded thing model, every call meets the law and every
lookup finds what the search finds, exactly when every call can meet it and the services are
within the number of the events. -/
theorem tslStore_ok_iff {env : LoadEnv} {root : Json} {s₀ : Shw}
    (hload : dmTslAlinkCreate env root = some s₀) (calls : List SetCall) :
    (AllSteps setStep SetLaw s₀ calls ∧
      ∀ pre, pre <+: calls → LookupLaw (pre.foldl setStep s₀)) ↔
    AllSteps setStep SetOk s₀ calls ∧ LookupOk s₀ := by
  have hkept₀ : Kept s₀ s₀ := ⟨typed_of_load hload, rfl, rfl, rfl, rfl⟩
  -- what the parser has made stays typed, whatever is set
  have hcalls : AllSteps setStep SetLaw s₀ calls ↔ AllSteps setStep SetOk s₀ calls :=
    allSteps_congr (fun s call (h : Kept s₀ s) => setLaw_iff h.typed call)
      (fun s call h _ => h.setStep call) hkept₀ calls
  have hlookup : LookupLaw s₀ ↔ LookupOk s₀ := by
    obtain ⟨-, -, hservices⟩ := dmTslAlinkCreate_eq_some hload
    apply lookupLaw_iff
    · intro hnone
      rcases listParse_eq_some hservices with ⟨hzero, -⟩ | ⟨items, n, -, hblock⟩
      · exact hzero
      · rw [hnone] at hblock
        exact nomatch hblock
    · intro block hsome
      rcases listParse_eq_some hservices with ⟨-, hnone⟩ | ⟨items, n, hnumber, hblock⟩
      · rw [hsome] at hnone
        exact nomatch hnone
      · obtain rfl := Option.some.inj (hsome.symm.trans hblock)
        rw [hnumber, length_take, length_map]
        exact min_le_right _ _
  rw [hcalls]
  refine and_congr_right fun _ => ?_
  rw [← hlookup]
  constructor
  · intro h
    exact h [] nil_prefix
  · intro h pre hpre key
    -- no call changes the events and the services
    have hkept := inv_foldl (Kept s₀) (fun s call hs => hs.setStep call) hkept₀ pre
    obtain ⟨hevent, hservice⟩ := h key
    unfold dmShwGetEvent eventSearch dmShwGetService serviceSearch at *
    rw [hkept.eventNumber, hkept.events, hkept.serviceNumber, hkept.services]
    exact ⟨hevent, hservice⟩

theorem propertySearch_single {found : Addr × ℤ} (hnumber : s.propertyNumber = 1)
    (hproperties : s.properties = some [d]) (hkey : key ≠ [])
    (hfound : dataSearch d [0] key = .found found) : propertySearch s key = .found found := by
  rw [propertySearch, hnumber, hproperties, if_neg (by simpa using hkey)]
  simp only [take_succ_cons, propertyLoop, hfound]

theorem load_single {property : Json} (hobject : property.isObject = true)
    (hparse : (propertyParse ⟨fun _ => true, []⟩ property).2 = d) :
    dmTslAlinkCreate ⟨fun _ => true, []⟩ (.object [] [(propertiesKey, .array [] [property])]) =
      some ⟨1, some [d], 0, none, 0, none⟩ := by
  let env : LoadEnv := ⟨fun _ => true, []⟩
  let root : Json := .object [] [(propertiesKey, .array [] [property])]
  have hmember : root.member propertiesKey = some (.array [] [property]) := rfl
  have halloc : env.allocate ((1 : ℕ) : ℤ) sizeofData = some 1 := by decide +kernel
  have hproperties : propertiesParse env root = some (1, some [d]) := by
    rw [propertiesParse, listParse, hmember]
    dsimp only
    rw [if_neg (cons_ne_nil property []), length_singleton, halloc, Option.bind_some,
      if_pos (by rw [all_cons, hobject]; rfl), map_singleton, hparse]
    rfl
  show dmTslAlinkCreate env root = _
  simp only [dmTslAlinkCreate, hproperties]
  rfl

/-- A property `a` that is an integer is set to 5. -/
theorem tslStore_ok_int :
    let env : LoadEnv := ⟨fun _ => true, []⟩
    let root : Json := .object [] [(propertiesKey, .array [] [.object []
      [(identifierKey, .string [0x61]),
        (dataTypeKey, .object [] [(typeKey, .string [0x69, 0x6E, 0x74])])]])]
    let s₀ : Shw := ⟨1, some [.scalar (some [0x61]) .int (.int 0)], 0, none, 0, none⟩
    let call : SetCall := ⟨[0x61], some ⟨5, 0, 0, []⟩, true, true⟩
    dmTslAlinkCreate env root = some s₀ ∧ AllSteps setStep SetLaw s₀ [call] ∧
      ∀ pre, pre <+: [call] → LookupLaw (pre.foldl setStep s₀) := by
  intro env root s₀ call
  have hload : dmTslAlinkCreate env root = some s₀ := by
    apply load_single rfl
    rw [propertyParse]
    show (dataParse env (some [0x61]) (.object [] [(typeKey, .string [0x69, 0x6E, 0x74])])).2 = _
    rw [dataParse]
    rfl
  have hsearch : propertySearch s₀ [0x61] = .found ([0], 0) := by
    have hstart : keyStart [0x61] = some ⟨1, 1, 0, 0⟩ := by decide
    apply propertySearch_single rfl rfl (by decide)
    rw [dataSearch, hstart]
    exact itemSearch_scalar hstart (some [0x61]) (.int 0) [0]
      (show DataType.int.isScalar = true from rfl)
  refine ⟨hload, (tslStore_ok_iff hload [call]).mpr ⟨⟨?_, trivial⟩, ?_, ?_⟩⟩
  · unfold SetOk
    rw [show propertySearch s₀ call.key = .found ([0], 0) from hsearch]
    intro d hd
    cases hd
    trivial
  · exact fun _ name hname => absurd hname not_mem_nil
  · exact fun h => absurd h (by decide)

theorem propertyParse_bools :
    (propertyParse ⟨fun _ => true, []⟩ (.object [] [(identifierKey, .string [0x61]),
      (dataTypeKey, .object [] [(typeKey, .string [0x61, 0x72, 0x72, 0x61, 0x79]),
        (specsKey, .object [] [(sizeKey, .string [0x31]),
          (itemKey, .object [] [(typeKey, .string [0x62, 0x6F, 0x6F, 0x6C])])])])])).2 =
      .cells (some [0x61]) .bool 1 [.int 0] := by
  let env : LoadEnv := ⟨fun _ => true, []⟩
  rw [propertyParse]
  show (dataParse env (some [0x61]) (.object [] [(typeKey, .string [0x61, 0x72, 0x72, 0x61, 0x79]),
    (specsKey, .object [] [(sizeKey, .string [0x31]),
      (itemKey, .object [] [(typeKey, .string [0x62, 0x6F, 0x6F, 0x6C])])])])).2 = _
  rw [dataParse]
  show (arrayParse env (some [0x61]) (.object [] [(sizeKey, .string [0x31]),
    (itemKey, .object [] [(typeKey, .string [0x62, 0x6F, 0x6F, 0x6C])])])).2 = _
  rw [arrayParse]
  -- the size `1` is room for one element
  have hsize : env.arraySize [0x31] = 1 := by decide +kernel
  have halloc : env.allocate 1 (sizeofElem .bool) = some 1 := by decide +kernel
  show ((env.allocate (env.arraySize [0x31]) (sizeofElem .bool)).elim
    (false, ShwData.unallocated (some [0x61]) .array .bool (env.arraySize [0x31]))
    (fun k => (true, ShwData.cells (some [0x61]) .bool (env.arraySize [0x31])
      (List.replicate k (Cell.zero .bool))))).2 = _
  rw [hsize, halloc]
  rfl

/-- The element of an array of truth values is set to 2 and read back as 2; and a service of a model
without events is not found. -/
theorem tslStore_broken :
    let env : LoadEnv := ⟨fun _ => true, []⟩
    let bools : Json := .object [] [(propertiesKey, .array [] [.object []
      [(identifierKey, .string [0x61]),
        (dataTypeKey, .object [] [(typeKey, .string [0x61, 0x72, 0x72, 0x61, 0x79]),
          (specsKey, .object [] [(sizeKey, .string [0x31]),
            (itemKey, .object [] [(typeKey, .string [0x62, 0x6F, 0x6F, 0x6C])])])])]])]
    let service : Json := .object [] [(servicesKey, .array [] [.object []
      [(identifierKey, .string [0x61])]])]
    let call : SetCall := ⟨[0x61, 0x5B, 0x30, 0x5D], some ⟨2, 0, 0, []⟩, true, true⟩
    ¬ (∀ s₀, dmTslAlinkCreate env bools = some s₀ → AllSteps setStep SetLaw s₀ [call]) ∧
      ¬ (∀ s₀, dmTslAlinkCreate env service = some s₀ → LookupLaw s₀) := by
  intro env bools service call
  constructor
  · intro h
    let s₀ : Shw := ⟨1, some [.cells (some [0x61]) .bool 1 [.int 0]], 0, none, 0, none⟩
    have hload : dmTslAlinkCreate env bools = some s₀ := load_single rfl propertyParse_bools
    -- the key leads to the element
    have hsearch : propertySearch s₀ call.key = .found ([0], 0) := by
      have hstart : keyStart call.key = some ⟨4, 1, 1, 0⟩ := by decide +kernel
      apply propertySearch_single rfl rfl (by decide)
      rw [dataSearch, hstart]
      exact itemSearch_cells hstart (some [0x61]) .bool 1 [.int 0] [0]
    have hlaw := (setLaw_iff (typed_of_load hload) call).mp (h s₀ hload).1
    unfold SetOk at hlaw
    rw [hsearch] at hlaw
    obtain ⟨cell, hcell, hok⟩ := hlaw _ rfl (by decide) (by decide)
    -- 2 is no truth value
    exact absurd (hok rfl) (by decide)
  · intro h
    let s₀ : Shw := ⟨0, none, 0, none, 1, some [⟨some [0x61], 0, none, 0, none⟩]⟩
    have hload : dmTslAlinkCreate env service = some s₀ := rfl
    obtain ⟨i, hi⟩ := (h s₀ hload [0x61]).2.found.mpr ⟨0, rfl⟩
    cases hi

end Iotkit.Shadow
