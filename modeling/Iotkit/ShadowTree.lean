/-
# The tree of a shadow (`dm_shadow.c`)

A search looks at the shape of the tree only: at the identifiers, the types and the sizes, not at
the values.  What it finds is a node of the tree, and an edit of one node that keeps its shape is
seen at no other node.
-/
import Iotkit.ShadowValue

namespace Iotkit.Shadow

open List Option

/-! ## Shapes -/

mutual

/-- A node without its values. -/
def ShwData.shape : ShwData → ShwData
  | .scalar identifier type _ => .scalar identifier type (.int 0)
  | .null identifier type => .null identifier type
  | .unallocated identifier type elem size => .unallocated identifier type elem size
  | .cells identifier elem size _ => .cells identifier elem size []
  | .datas identifier type elem size block => .datas identifier type elem size (shapes block)

def shapes : List ShwData → List ShwData
  | [] => []
  | d :: ds => d.shape :: shapes ds

end

theorem shapes_eq_map (ds : List ShwData) : shapes ds = ds.map ShwData.shape := by
  induction ds with
  | nil => rfl
  | cons d ds ih => rw [shapes, ih, map_cons]

@[simp] theorem shape_identifier (d : ShwData) : d.shape.identifier = d.identifier := by
  cases d <;> rfl

@[simp] theorem shape_type (d : ShwData) : d.shape.type = d.type := by
  cases d <;> rfl

/-- What is found, in another list of items. -/
def Search.map {α β : Type} (f : α → β) : Search α → Search β
  | .found a => .found (f a)
  | .fail => .fail
  | .nullRead => .nullRead
  | .outside => .outside

theorem findItem_shapes (name : Bytes) (i : ℕ) (items : List ShwData) :
    findItem name i (items.map ShwData.shape) =
      (findItem name i items).map fun found => (found.1, found.2.shape) := by
  induction items generalizing i with
  | nil => rfl
  | cons d items ih =>
    simp only [map_cons, findItem, shape_identifier, shape_type]
    cases d.identifier with
    | none => rfl
    | some identifier =>
      dsimp only
      split_ifs
      · rfl
      · exact ih (i + 1)

/-- A node is searched by its shape, when the structs below it are. -/
theorem itemSearch_shape {key : Bytes}
    (ih : ∀ key' : Bytes, key'.length < key.length → ∀ (d : ShwData) (addr : Addr),
      structSearch d.shape addr key' = structSearch d addr key') (item : ShwData) (addr : Addr) :
    itemSearch item.shape addr key = itemSearch item addr key := by
  unfold itemSearch
  simp only [shape_type]
  split
  · rfl
  · next start hstart =>
    split_ifs with hscalar hpartial harray hplain hdeli hstruct hlast
    all_goals try rfl
    · cases item <;> rfl
    · cases item with
      | datas identifier type elem size block =>
        rw [ShwData.shape, shapes_eq_map]
        dsimp only
        rw [List.getElem?_map]
        cases block[start.arrayIndex.toNat]? with
        | none => rfl
        | some data =>
          apply ih
          have hlen := length_drop_lt (n := start.deliOffset) (key_ne_nil hstart (.inr hplain))
          rw [length_take]
          omega
      | scalar identifier type value => rfl
      | null identifier type => rfl
      | unallocated identifier type elem size => rfl
      | cells identifier elem size block => rfl
    · next hdeli' _ =>
      exact ih _ (length_drop_lt (key_ne_nil hstart (.inl hdeli'))) item addr

theorem structSearch_shape (key : Bytes) :
    ∀ (d : ShwData) (addr : Addr), structSearch d.shape addr key = structSearch d addr key := by
  induction hn : key.length using Nat.strong_induction_on generalizing key with
  | _ n ih =>
    subst hn
    intro d addr
    cases hstart : keyStart key with
    | none => rw [structSearch_overflow hstart, structSearch_overflow hstart]
    | some start =>
      cases d with
      | datas identifier type elem size block =>
        rw [ShwData.shape, structSearch_datas hstart, structSearch_datas hstart, shapes_eq_map,
          ← map_take, findItem_shapes, length_map]
        cases findItem (key.take start.partialOffset) 0 (block.take size.toNat) with
        | found found =>
          exact itemSearch_shape (fun key' hkey' => ih key'.length hkey' key' rfl) found.2 _
        | fail => rfl
        | nullRead => rfl
        | outside => rfl
      | scalar identifier type value => simp only [structSearch, ShwData.shape]
      | null identifier type => rfl
      | unallocated identifier type elem size => rfl
      | cells identifier elem size block => simp only [structSearch, ShwData.shape]

theorem dataSearch_shape (d : ShwData) (addr : Addr) (key : Bytes) :
    dataSearch d.shape addr key = dataSearch d addr key := by
  unfold dataSearch
  rw [shape_identifier, itemSearch_shape fun key' _ => structSearch_shape key']

theorem propertyLoop_shapes (key : Bytes) (i : ℕ) (properties : List ShwData) :
    propertyLoop key i (shapes properties) = propertyLoop key i properties := by
  induction properties generalizing i with
  | nil => rfl
  | cons d properties ih => rw [shapes, propertyLoop, propertyLoop, dataSearch_shape, ih]

theorem propertySearch_congr {s s' : Shw} (hnumber : s'.propertyNumber = s.propertyNumber)
    (hshapes : s'.properties.map shapes = s.properties.map shapes) (key : Bytes) :
    propertySearch s' key = propertySearch s key := by
  unfold propertySearch
  rw [hnumber]
  cases hp : s.properties with
  | none =>
    rw [hp, map_none, map_eq_none_iff] at hshapes
    rw [hshapes]
  | some ps =>
    rw [hp, map_some, map_eq_some_iff] at hshapes
    obtain ⟨ps', hps', heq⟩ := hshapes
    rw [hps']
    have hlen : ps'.length = ps.length := by
      have := congrArg List.length heq
      rwa [shapes_eq_map, shapes_eq_map, length_map, length_map] at this
    have htake : shapes (ps'.take s.propertyNumber) = shapes (ps.take s.propertyNumber) := by
      rw [shapes_eq_map, shapes_eq_map, map_take, map_take, ← shapes_eq_map,
        ← shapes_eq_map, heq]
    dsimp only
    rw [← propertyLoop_shapes, htake, propertyLoop_shapes, hlen]

/-! ## What is found -/

/-- A search that starts at a node finds a node below it, and an index other than zero only for an
array. -/
def FoundBelow (d : ShwData) (addr : Addr) (found : Addr × ℤ) : Prop :=
  ∃ rest node, found.1 = addr ++ rest ∧ d.at? rest = some node ∧
    (node.type ≠ .array → found.2 = 0)

theorem foundBelow_self (d : ShwData) (addr : Addr) {index : ℤ} (h : d.type ≠ .array → index = 0) :
    FoundBelow d addr (addr, index) :=
  ⟨[], d, (append_nil addr).symm, rfl, h⟩

variable {d : ShwData} {addr : Addr} {i : ℕ} {found : Addr × ℤ}

theorem FoundBelow.child {child : ShwData} (hchild : d.children[i]? = some child)
    (h : FoundBelow child (addr ++ [i]) found) : FoundBelow d addr found := by
  obtain ⟨rest, node, haddr, hnode, hindex⟩ := h
  refine ⟨i :: rest, node, ?_, ?_, hindex⟩
  · rw [haddr, append_assoc, singleton_append]
  · rw [ShwData.at?, hchild, bind_some, hnode]

theorem getElem?_of_take {ds : List ShwData} {n : ℕ} (h : (ds.take n)[i]? = some d) :
    ds[i]? = some d := by
  rw [List.getElem?_take] at h
  split_ifs at h
  exact h

theorem itemSearch_found {key : Bytes}
    (ih : ∀ key' : Bytes, key'.length < key.length → ∀ (d : ShwData) (addr : Addr)
      (found : Addr × ℤ), structSearch d addr key' = .found found → FoundBelow d addr found)
    {item : ShwData} {addr : Addr} {found : Addr × ℤ} (h : itemSearch item addr key = .found found) :
    FoundBelow item addr found := by
  unfold itemSearch at h
  split at h
  · cases h
  · next start hstart =>
    -- a scalar ends the path
    by_cases hscalar : item.type.isScalar = true
    · rw [if_pos hscalar] at h
      split_ifs at h
      cases h
      exact foundBelow_self item addr fun _ => rfl
    rw [if_neg hscalar] at h
    by_cases harray : item.type = .array
    · rw [if_pos harray] at h
      -- a path through an array goes on behind the index, with a shorter key
      by_cases hplain : start.partialInputLen = 0
      · rw [dif_pos hplain] at h
        split_ifs at h
        cases h
        exact foundBelow_self item addr fun _ => rfl
      rw [dif_neg hplain] at h
      cases item with
      | cells identifier elem size block =>
        dsimp only at h
        split_ifs at h
        cases h
        exact foundBelow_self _ addr fun hc => absurd harray hc
      | unallocated identifier type elem size =>
        dsimp only at h
        split_ifs at h
        cases h
        exact foundBelow_self _ addr fun hc => absurd harray hc
      | scalar identifier type value => cases h
      | null identifier type => cases h
      | datas identifier type elem size block =>
        dsimp only at h
        split_ifs at h
        split at h
        · cases h
        · next data hdata =>
          refine FoundBelow.child hdata (ih _ ?_ data _ found h)
          have hlen := length_drop_lt (n := start.deliOffset) (key_ne_nil hstart (.inr hplain))
          rw [length_take]
          omega
    rw [if_neg harray] at h
    -- a path through a structure goes on in it
    split_ifs at h with hstruct hlast
    · cases h
      exact foundBelow_self item addr fun _ => rfl
    · exact ih _ (length_drop_lt (key_ne_nil hstart (.inl hlast))) item addr found h

theorem structSearch_found (key : Bytes) :
    ∀ (d : ShwData) (addr : Addr) (found : Addr × ℤ),
      structSearch d addr key = .found found → FoundBelow d addr found := by
  induction hn : key.length using Nat.strong_induction_on generalizing key with
  | _ n ih =>
    subst hn
    intro d addr found h
    cases hstart : keyStart key with
    | none =>
      rw [structSearch_overflow hstart] at h
      cases h
    | some start =>
      cases d with
      | datas identifier type elem size block =>
        rw [structSearch_datas hstart] at h
        split at h
        · next i item hitem =>
          have hchild : (ShwData.datas identifier type elem size block).children[i]? =
              some item := getElem?_of_take (findItem_found hitem).1.2
          exact FoundBelow.child hchild
            (itemSearch_found (fun key' hkey' => ih key'.length hkey' key' rfl) h)
        · split_ifs at h
        · cases h
        · cases h
      | scalar identifier type value =>
        rw [structSearch, hstart] at h
        cases h
      | null identifier type =>
        rw [structSearch, hstart] at h
        cases h
      | unallocated identifier type elem size =>
        rw [structSearch, hstart] at h
        dsimp only at h
        split_ifs at h
      | cells identifier elem size block =>
        rw [structSearch, hstart] at h
        cases h

variable {key : Bytes}

theorem propertyLoop_found {properties : List ShwData}
    (h : propertyLoop key i properties = .found found) :
    ∃ j d, properties[j]? = some d ∧ FoundBelow d [i + j] found := by
  induction properties generalizing i with
  | nil => cases h
  | cons d properties ih =>
    rw [propertyLoop] at h
    cases hd : dataSearch d [i] key with
    | found found' =>
      rw [hd] at h
      cases h
      refine ⟨0, d, rfl, ?_⟩
      unfold dataSearch at hd
      split at hd
      · cases hd
      · split at hd
        · cases hd
        · split_ifs at hd
          exact itemSearch_found (fun key' _ => structSearch_found key') hd
    | fail =>
      rw [hd] at h
      obtain ⟨j, d', hget, hfound⟩ := ih h
      refine ⟨j + 1, d', by rwa [List.getElem?_cons_succ], ?_⟩
      rw [show i + (j + 1) = i + 1 + j by omega]
      exact hfound
    | nullRead =>
      rw [hd] at h
      cases h
    | outside =>
      rw [hd] at h
      cases h

theorem propertySearch_found {s : Shw} {key : Bytes} {addr : Addr} {index : ℤ}
    (h : propertySearch s key = .found (addr, index)) :
    addr ≠ [] ∧ ∃ d, s.root.at? addr = some d ∧ (d.type ≠ .array → index = 0) := by
  unfold propertySearch at h
  split_ifs at h
  split at h
  · exact nomatch h
  · next ps hps =>
    cases hloop : propertyLoop key 0 (ps.take s.propertyNumber) with
    | found found =>
      rw [hloop] at h
      cases h
      obtain ⟨j, d, hget, rest, node, haddr, hnode, hindex⟩ := propertyLoop_found hloop
      rw [Nat.zero_add] at haddr
      subst haddr
      refine ⟨cons_ne_nil _ _, node, ?_, hindex⟩
      have hchild : s.root.children[j]? = some d := by
        show (s.properties.getD [])[j]? = some d
        rw [hps]
        exact getElem?_of_take hget
      show (s.root.children[j]?.bind fun child => child.at? rest) = some node
      rw [hchild, bind_some, hnode]
    | fail =>
      rw [hloop] at h
      split_ifs at h
    | nullRead =>
      rw [hloop] at h
      exact nomatch h
    | outside =>
      rw [hloop] at h
      exact nomatch h

/-! ## Edits -/

theorem datas_of_children {child : ShwData} (h : d.children[i]? = some child) :
    ∃ identifier type elem size, d = .datas identifier type elem size d.children := by
  cases d with
  | datas identifier type elem size block => exact ⟨identifier, type, elem, size, rfl⟩
  | scalar identifier type value => exact nomatch h
  | null identifier type => exact nomatch h
  | unallocated identifier type elem size => exact nomatch h
  | cells identifier elem size block => exact nomatch h

theorem map_modify_eq {α β : Type} {h : α → β} {g : α → α} {l : List α}
    (heq : ∀ a, l[i]? = some a → h (g a) = h a) : (l.modify i g).map h = l.map h := by
  apply ext_getElem?
  intro j
  rw [List.getElem?_map, List.getElem?_map]
  by_cases hij : i = j
  · subst hij
    rw [List.getElem?_modify_eq]
    cases hget : l[i]? with
    | none => rfl
    | some a => exact congrArg some (heq a hget)
  · rw [List.getElem?_modify_ne _ _ hij]

theorem modify_cons {child : ShwData} (f : ShwData → ShwData) (addr : Addr)
    (h : d.children[i]? = some child) :
    (d.modify f (i :: addr)).children = d.children.modify i fun c => c.modify f addr := by
  obtain ⟨identifier, type, elem, size, hd⟩ := datas_of_children h
  rw [ShwData.modify]
  rw [hd]
  rfl

variable {f : ShwData → ShwData} {node : ShwData}

theorem shape_modify (hnode : d.at? addr = some node) (hf : (f node).shape = node.shape) :
    (d.modify f addr).shape = d.shape := by
  induction addr generalizing d with
  | nil =>
    obtain rfl := Option.some.inj hnode
    exact hf
  | cons i addr ih =>
    obtain ⟨child, hchild, hat⟩ := bind_eq_some_iff.mp hnode
    obtain ⟨identifier, type, elem, size, hd⟩ := datas_of_children hchild
    rw [hd] at hchild ⊢
    rw [ShwData.modify, ShwData.withChildren, ShwData.shape, ShwData.shape, shapes_eq_map,
      shapes_eq_map]
    congr 1
    apply map_modify_eq
    intro c hc
    obtain rfl := Option.some.inj (hchild.symm.trans hc)
    exact ih hat

theorem at?_modify_self (hnode : d.at? addr = some node) :
    (d.modify f addr).at? addr = some (f node) := by
  induction addr generalizing d with
  | nil =>
    obtain rfl := Option.some.inj hnode
    rfl
  | cons i addr ih =>
    obtain ⟨child, hchild, hat⟩ := bind_eq_some_iff.mp hnode
    rw [ShwData.at?, modify_cons f addr hchild, List.getElem?_modify_eq, hchild]
    exact ih hat

/-- Two nodes with the same data that differ in what is below them. -/
def SameBlock (a b : Option ShwData) : Prop :=
  ∃ identifier type elem size block block', a = some (.datas identifier type elem size block) ∧
    b = some (.datas identifier type elem size block')

/-- **Frame.**  An edit of a node without children is seen elsewhere only below a node. -/
theorem at?_modify_ne {addr' : Addr} (hnode : d.at? addr = some node) (hleaf : node.children = [])
    (hleaf' : (f node).children = []) (hne : addr' ≠ addr) :
    (d.modify f addr).at? addr' = d.at? addr' ∨
      SameBlock (d.at? addr') ((d.modify f addr).at? addr') := by
  induction addr generalizing d addr' with
  | nil =>
    obtain rfl := Option.some.inj hnode
    left
    cases addr' with
    | nil => exact absurd rfl hne
    | cons j rest =>
      show ((f d).children[j]?.bind _) = (d.children[j]?.bind _)
      rw [hleaf, hleaf']
  | cons i addr ih =>
    obtain ⟨child, hchild, hat⟩ := bind_eq_some_iff.mp hnode
    obtain ⟨identifier, type, elem, size, hd⟩ := datas_of_children hchild
    cases addr' with
    | nil =>
      right
      refine ⟨identifier, type, elem, size, d.children, d.children.modify i
        (fun c => c.modify f addr), congrArg some hd, ?_⟩
      rw [ShwData.at?, ShwData.modify]
      conv_lhs => rw [hd]
      rfl
    | cons j rest =>
      rw [ShwData.at?, ShwData.at?, modify_cons f addr hchild]
      by_cases hij : i = j
      · subst hij
        rw [List.getElem?_modify_eq, hchild]
        exact ih hat fun hc => hne (congrArg _ hc)
      · left
        rw [List.getElem?_modify_ne _ _ hij]

end Iotkit.Shadow
