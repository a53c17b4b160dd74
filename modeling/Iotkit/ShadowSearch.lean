/-
# The lookups of a thing model (`dm_shadow.c`)

The properties of a model, the outputs of an event and the datas of a service are lists of nodes,
and a key is looked for in one after the other.  A lookup of a property is right under a condition
on the nodes of the list; those of events and services are right only when a node is denoted, since
they succeed without a node otherwise.
-/
import Iotkit.ShadowLookup
import Iotkit.ShadowStore

namespace Iotkit.Shadow

open LibC
open Cjson (IsDigits)

/-! ## Nodes with a name -/

/-- What a key denotes at a node or below it. -/
def Named (d : ShwData) (key : Bytes) (x : Addr × ℤ) : Prop :=
  ∃ name rest, d.HasName name ∧ key = name ++ rest ∧ Denotes d rest x

/-- A node at which the lookup of a key is right: it has the name in front of the key and the search
is right there, or it is passed over and the key denotes nothing at it. -/
inductive DataRight (d : ShwData) (key : Bytes) : Prop
  | passed {p : KeyPart} {identifier : Bytes} (hpart : keyPart key = some p)
      (hid : d.identifier = some identifier) (hother : d.HasName p.name → d.type = .none)
      (hnone : ∀ x, ¬ Named d key x)
  | named {p : KeyPart} (hpart : keyPart key = some p) (hname : d.HasName p.name)
      (htype : d.type ≠ .none) (hitem : ItemRight d p)

section Data

variable {d : ShwData} {key : Bytes} {start : KeyStart} {p : KeyPart}

theorem named_iff (hcuts : p.Cuts key) (hname : d.HasName p.name) (x : Addr × ℤ) :
    Named d key x ↔ Denotes d p.tail x := by
  constructor
  · rintro ⟨name, rest, hname', hkey, hx⟩
    obtain rfl := hname.unique hname'
    rw [hcuts.key] at hkey
    rw [KeyPart.tail, List.append_cancel_left hkey]
    exact hx
  · intro hx
    exact ⟨p.name, p.tail, hname, hcuts.key, hx⟩

theorem dataSearch_eq (hstart : keyStart key = some start) (hp : start.Reads key p)
    {identifier : Bytes} (hid : d.identifier = some identifier) (addr : Addr) :
    dataSearch d addr key =
      if identifierIs identifier p.name then itemSearch d addr key else .fail := by
  rw [dataSearch, hstart, hid]
  dsimp only
  rw [hp.name]

theorem hasName_iff {identifier : Bytes} (hid : d.identifier = some identifier)
    (name : Bytes) : d.HasName name ↔ identifierIs identifier name = true := by
  constructor
  · rintro ⟨identifier', hid', h⟩
    obtain rfl := Option.some.inj (hid.symm.trans hid')
    exact h
  · intro h
    exact ⟨identifier, hid, h⟩

theorem dataRight_iff (hpart : keyPart key = some p) :
    DataRight d key ↔
      ((∃ identifier, d.identifier = some identifier) ∧ (d.HasName p.name → d.type = .none) ∧
        ∀ x, ¬ Named d key x) ∨
      (d.HasName p.name ∧ d.type ≠ .none ∧ ItemRight d p) := by
  have hsame {p' : KeyPart} (h : keyPart key = some p') : p' = p :=
    Option.some.inj (h.symm.trans hpart)
  constructor
  · intro h
    cases h with
    | passed hpart' hid hother hnone =>
      rw [hsame hpart'] at hother
      exact .inl ⟨⟨_, hid⟩, hother, hnone⟩
    | named hpart' hname htype hitem =>
      rw [hsame hpart'] at hname hitem
      exact .inr ⟨hname, htype, hitem⟩
  · rintro (⟨⟨identifier, hid⟩, hother, hnone⟩ | ⟨hname, htype, hitem⟩)
    · exact .passed hpart hid hother hnone
    · exact .named hpart hname htype hitem

theorem dataSearch_below {addr : Addr} {y : Addr × ℤ} (h : dataSearch d addr key = .found y) :
    ∃ rest, y.1 = addr ++ rest := by
  unfold dataSearch at h
  split at h
  · cases h
  · split at h
    · cases h
    · split_ifs at h
      obtain ⟨rest, -, haddr, -⟩ := itemSearch_found (fun key' _ => structSearch_found key') h
      exact ⟨rest, haddr⟩

theorem dataLaw_iff (d : ShwData) (addr : Addr) (key : Bytes) :
    Law (dataSearch d addr key) addr (Named d key) ↔ DataRight d key := by
  cases hstart : keyStart key with
  | none =>
    rw [dataSearch, hstart]
    refine iff_of_false not_law_outside fun h => ?_
    have hpart := keyPart_eq_none hstart
    cases h with
    | passed hpart' | named hpart' => cases hpart.symm.trans hpart'
  | some start =>
    obtain ⟨p, hp⟩ := keyStart_reads hstart
    rw [dataRight_iff hp.part]
    cases hid : d.identifier with
    | none =>
      have hunnamed : ¬ d.HasName p.name := by
        rintro ⟨identifier, hid', -⟩
        cases hid.symm.trans hid'
      rw [dataSearch, hstart, hid]
      refine iff_of_false not_law_nullRead ?_
      rintro (⟨⟨identifier, h⟩, -⟩ | ⟨hname, -⟩)
      · cases h
      · exact hunnamed hname
    | some identifier =>
      rw [dataSearch_eq hstart hp hid]
      by_cases hname : d.HasName p.name
      · rw [if_pos ((hasName_iff hid _).mp hname)]
        by_cases htype : d.type = .none
        · rw [itemSearch_of_none hstart htype, law_fail_iff]
          constructor
          · exact fun hnone => .inl ⟨⟨identifier, rfl⟩, fun _ => htype, hnone⟩
          · rintro (⟨-, -, hnone⟩ | ⟨-, htype', -⟩)
            · exact hnone
            · exact absurd htype htype'
        have hlaw := itemLaw_iff (fun key' _ => structLaw_iff key') hstart hp hname htype addr
        have hdenotes : Named d key = Denotes d p.tail := by
          funext x
          exact propext (named_iff hp.cuts hname x)
        rw [hdenotes, hlaw]
        constructor
        · exact fun hitem => .inr ⟨hname, htype, hitem⟩
        · rintro (⟨-, hother, -⟩ | ⟨-, -, hitem⟩)
          · exact absurd (hother hname) htype
          · exact hitem
      · rw [if_neg (mt (hasName_iff hid _).mpr hname), law_fail_iff]
        constructor
        · exact fun hnone => .inl ⟨⟨identifier, rfl⟩, fun h => absurd h hname, hnone⟩
        · rintro (⟨-, -, hnone⟩ | ⟨hname', -⟩)
          · exact hnone
          · exact absurd hname' hname

end Data

/-! ## Lists of nodes -/

/-- What a key denotes at one of the nodes, which are counted from a number on. -/
def NamedIn (i : ℕ) (ds : List ShwData) (key : Bytes) (x : Addr × ℤ) : Prop :=
  ∃ j d x', ds[j]? = some d ∧ Named d key x' ∧ x = ((i + j) :: x'.1, x'.2)

/-- A list at which the lookup of a key is right: it is right at the nodes up to the one at which
something is denoted, and nothing is denoted behind it. -/
def ListRight (key : Bytes) : List ShwData → Prop
  | [] => True
  | d :: ds =>
    DataRight d key ∧ ((∃ x, Named d key x) → ∀ d' ∈ ds, ∀ x, ¬ Named d' key x) ∧
      ((∀ x, ¬ Named d key x) → ListRight key ds)

section Lists

variable {i : ℕ} {d : ShwData} {ds : List ShwData} {key : Bytes} {x : Addr × ℤ}

theorem not_namedIn_nil : ¬ NamedIn i [] key x := by
  rintro ⟨j, d, x', hget, -⟩
  cases hget

theorem namedIn_cons : NamedIn i (d :: ds) key x ↔
    (∃ x', Named d key x' ∧ x = (i :: x'.1, x'.2)) ∨ NamedIn (i + 1) ds key x := by
  have hadd (j : ℕ) : i + 1 + j = i + (j + 1) := by omega
  constructor
  · rintro ⟨j, d', x', hget, hx', rfl⟩
    cases j with
    | zero =>
      obtain rfl := Option.some.inj hget
      exact .inl ⟨x', hx', rfl⟩
    | succ j => exact Or.inr ⟨j, d', x', hget, hx', by rw [hadd]⟩
  · rintro (⟨x', hx', rfl⟩ | ⟨j, d', x', hget, hx', rfl⟩)
    · exact ⟨0, d, x', rfl, hx', rfl⟩
    · exact ⟨j + 1, d', x', hget, hx', by rw [hadd]⟩

theorem namedIn_head (h : NamedIn (i + 1) ds key x) : x.1.head? ≠ some i := by
  obtain ⟨j, d, x', -, -, rfl⟩ := h
  intro heq
  have hadd := Option.some.inj heq
  omega

theorem forall_not_namedIn : (∀ x, ¬ NamedIn i ds key x) ↔ ∀ d ∈ ds, ∀ x, ¬ Named d key x := by
  constructor
  · intro h d hd x hx
    obtain ⟨j, hget⟩ := List.mem_iff_getElem?.mp hd
    exact h _ ⟨j, d, x, hget, hx, rfl⟩
  · rintro h x ⟨j, d, x', hget, hx', -⟩
    exact h d (List.mem_of_getElem? hget) x' hx'

/-- **The loop over a list is right** exactly when the list is. -/
theorem listLaw_iff (key : Bytes) (ds : List ShwData) (i : ℕ) :
    Law (propertyLoop key i ds) [] (NamedIn i ds key) ↔ ListRight key ds := by
  induction ds generalizing i with
  | nil => exact iff_of_true (law_fail_iff.mpr fun _ => not_namedIn_nil) trivial
  | cons d ds ih =>
    have hdata := dataLaw_iff d [i] key
    rw [propertyLoop, ListRight, ← hdata]
    cases hsearch : dataSearch d [i] key with
    | found y =>
      have hbelow (x : Addr × ℤ) : NamedIn i (d :: ds) key (i :: x.1, x.2) ↔ Named d key x := by
        rw [namedIn_cons]
        constructor
        · rintro (⟨x', hx', heq⟩ | hx)
          · obtain ⟨haddr, hindex⟩ := Prod.mk.inj heq
            obtain rfl : x = x' := Prod.ext (List.cons.inj haddr).2 hindex
            exact hx'
          · exact absurd rfl (namedIn_head hx)
        · exact fun hx => .inl ⟨x, hx, rfl⟩
      have hfound (y' : Addr × ℤ) (hy' : Search.found y = .found y') :
          ∃ rest, y'.1 = [] ++ [i] ++ rest := by
        rw [← hsearch] at hy'
        obtain ⟨rest, haddr⟩ := dataSearch_below hy'
        exact ⟨rest, haddr⟩
      rw [law_child_iff hbelow hfound]
      constructor
      · rintro ⟨honly, hlaw⟩
        obtain ⟨x, hx, -⟩ := (hlaw.found y).mp rfl
        refine ⟨hlaw, fun _ => ?_, fun hnone => absurd hx (hnone x)⟩
        rw [← forall_not_namedIn (i := i + 1)]
        intro x' hx'
        exact namedIn_head hx' (honly x' (namedIn_cons.mpr (.inr hx')))
      · rintro ⟨hlaw, hbehind, -⟩
        obtain ⟨x, hx, -⟩ := (hlaw.found y).mp rfl
        refine ⟨fun x' hx' => ?_, hlaw⟩
        rcases namedIn_cons.mp hx' with ⟨x'', -, rfl⟩ | hx'
        · rfl
        · exact absurd hx' (forall_not_namedIn.mpr (hbehind ⟨x, hx⟩) x')
    | fail =>
      rw [law_fail_iff]
      by_cases hnone : ∀ x, ¬ Named d key x
      · have heq : NamedIn i (d :: ds) key = NamedIn (i + 1) ds key := by
          funext x
          rw [namedIn_cons, or_iff_right]
          rintro ⟨x', hx', -⟩
          exact hnone x' hx'
        show Law (propertyLoop key (i + 1) ds) [] (NamedIn i (d :: ds) key) ↔ _
        rw [heq, ih (i + 1)]
        constructor
        · intro h
          refine ⟨hnone, ?_, fun _ => h⟩
          rintro ⟨x, hx⟩
          exact absurd hx (hnone x)
        · exact fun h => h.2.2 hnone
      · refine iff_of_false (fun h => ?_) (fun h => hnone h.1)
        obtain ⟨x, hx⟩ := not_forall_not.mp hnone
        have hfound := (h.found _).mpr ⟨_, namedIn_cons.mpr (.inl ⟨x, hx, rfl⟩), rfl⟩
        obtain ⟨j, d', -, rest, -, haddr, -⟩ := propertyLoop_found hfound
        have hadd := (List.cons.inj haddr).1
        omega
    | nullRead => exact iff_of_false not_law_nullRead fun h => not_law_nullRead h.1
    | outside => exact iff_of_false not_law_outside fun h => not_law_outside h.1

end Lists

/-! ## Lookups -/

/-- What a key denotes among the nodes of a model, an event or a service. -/
def NodeOf (datas : Option (List ShwData)) (number : ℕ) (key : Bytes) (x : Addr × ℤ) : Prop :=
  ∃ ds, datas = some ds ∧ NamedIn 0 (ds.take number) key x

/-- What is wanted of a lookup: success with a node that is denoted, else an error, and nothing read
outside. -/
structure SearchLaw (r : Search (Option (Addr × ℤ))) (denotes : Addr × ℤ → Prop) : Prop where
  node : ∀ y, r = .found (some y) ↔ denotes y
  error : r ≠ .found none
  nullRead : r ≠ .nullRead
  outside : r ≠ .outside

/-- A list of nodes at which lookups are right. -/
def DatasRight (datas : Option (List ShwData)) (number : ℕ) (key : Bytes) : Prop :=
  ∀ ds, datas = some ds → ListRight key (ds.take number)

/-- A model at which the lookup of a property is right. -/
def PropertyRight (s : Shw) (key : Bytes) : Prop :=
  if key = [] then ∀ x, ¬ NodeOf s.properties s.propertyNumber key x
  else
    DatasRight s.properties s.propertyNumber key ∧
      ∀ ds, s.properties = some ds → s.propertyNumber ≤ ds.length ∨
        ∃ x, NodeOf s.properties s.propertyNumber key x

/-- Outputs at which the lookup of an event is right: there are none, or a node is denoted. -/
def EventRight (outputdatas : Option (List ShwData)) (number : ℕ) (key : Bytes) : Prop :=
  if outputdatas = none ∨ number = 0 then True
  else if key = [] then ∀ x, ¬ NodeOf outputdatas number key x
  else DatasRight outputdatas number key ∧ ∃ x, NodeOf outputdatas number key x

/-- A service at which the lookup of its datas is right: a node is denoted. -/
def ServiceRight (datas : Option (List ShwData)) (number : ℕ) (key : Bytes) : Prop :=
  key ≠ [] ∧ DatasRight datas number key ∧ ∃ x, NodeOf datas number key x

section Lookups

variable {denotes : Addr × ℤ → Prop} {datas : List ShwData} {number : ℕ} {key : Bytes}

theorem map_some_eq_found {r : Search (Addr × ℤ)} {found : Option (Addr × ℤ)} :
    r.map some = .found found ↔ ∃ y, found = some y ∧ r = .found y := by
  cases r <;> simp [Search.map, eq_comm]

theorem searchLaw_map_iff (r : Search (Addr × ℤ)) :
    SearchLaw (r.map some) denotes ↔ Law r [] denotes := by
  have hfound (y : Addr × ℤ) : (∃ x, denotes x ∧ y = ([] ++ x.1, x.2)) ↔ denotes y := by
    constructor
    · rintro ⟨x, hx, rfl⟩
      exact hx
    · exact fun hy => ⟨y, hy, rfl⟩
  have hmap (y : Addr × ℤ) : r.map some = .found (some y) ↔ r = .found y := by
    rw [map_some_eq_found]
    constructor
    · rintro ⟨y', heq, hr⟩
      cases heq
      exact hr
    · exact fun hr => ⟨y, rfl, hr⟩
  constructor
  · intro h
    refine ⟨fun y => ?_, fun hr => ?_, fun hr => ?_⟩
    · rw [hfound, ← hmap]
      exact h.node y
    · subst hr
      exact h.nullRead rfl
    · subst hr
      exact h.outside rfl
  · intro h
    refine ⟨fun y => ?_, fun hr => ?_, fun hr => ?_, fun hr => ?_⟩
    · rw [hmap, h.found, hfound]
    · obtain ⟨y, hy, -⟩ := map_some_eq_found.mp hr
      cases hy
    · cases r with
      | nullRead => exact h.nullRead rfl
      | found | fail | outside => cases hr
    · cases r with
      | outside => exact h.outside rfl
      | found | fail | nullRead => cases hr

theorem nodeOf_some_iff {x : Addr × ℤ} :
    NodeOf (some datas) number key x ↔ NamedIn 0 (datas.take number) key x := by
  constructor
  · rintro ⟨ds, hds, hx⟩
    cases hds
    exact hx
  · exact fun hx => ⟨datas, rfl, hx⟩

theorem datasRight_some_iff :
    DatasRight (some datas) number key ↔ ListRight key (datas.take number) := by
  constructor
  · exact fun h => h datas rfl
  · intro h ds hds
    cases hds
    exact h

/-- The loop of a lookup is right exactly when the list is. -/
theorem loopLaw_iff (datas : List ShwData) (number : ℕ) (key : Bytes) :
    Law (propertyLoop key 0 (datas.take number)) [] (NodeOf (some datas) number key) ↔
      DatasRight (some datas) number key := by
  have heq : NodeOf (some datas) number key = NamedIn 0 (datas.take number) key := by
    funext x
    exact propext nodeOf_some_iff
  rw [heq, datasRight_some_iff]
  exact listLaw_iff key (datas.take number) 0

/-- A lookup that succeeds when it finds nothing is right when there is something to find. -/
theorem datasSearch_iff (datas : List ShwData) (number : ℕ) (key : Bytes) :
    SearchLaw (datasSearch datas number key) (NodeOf (some datas) number key) ↔
      DatasRight (some datas) number key ∧ ∃ x, NodeOf (some datas) number key x := by
  rw [datasSearch, ← loopLaw_iff]
  cases propertyLoop key 0 (datas.take number) with
  | found y =>
    rw [← searchLaw_map_iff]
    refine (and_iff_left_of_imp fun h => ?_).symm
    exact ⟨y, (h.node y).mp rfl⟩
  | fail =>
    refine iff_of_false (fun h => ?_) ?_
    · dsimp only at h
      split_ifs at h
      · exact h.error rfl
      · exact h.outside rfl
    · rintro ⟨h, x, hx⟩
      exact law_fail_iff.mp h x hx
  | nullRead => exact iff_of_false (fun h => h.nullRead rfl) fun h => not_law_nullRead h.1
  | outside => exact iff_of_false (fun h => h.outside rfl) fun h => not_law_outside h.1

theorem not_nodeOf_none {x : Addr × ℤ} : ¬ NodeOf none number key x := by
  rintro ⟨ds, hds, -⟩
  cases hds

theorem not_nodeOf_zero {datas : Option (List ShwData)} {x : Addr × ℤ} :
    ¬ NodeOf datas 0 key x := by
  rintro ⟨ds, -, hx⟩
  exact not_namedIn_nil hx

theorem propertySearch_iff (s : Shw) (key : Bytes) :
    SearchLaw ((propertySearch s key).map some) (NodeOf s.properties s.propertyNumber key) ↔
      PropertyRight s key := by
  rw [searchLaw_map_iff, propertySearch, PropertyRight]
  by_cases hkey : key = []
  · rw [if_pos (Or.inl hkey), if_pos hkey]
    exact law_fail_iff
  rw [if_neg hkey]
  by_cases hnumber : s.propertyNumber = 0
  · rw [if_pos (Or.inr hnumber), hnumber]
    refine iff_of_true (law_fail_iff.mpr fun _ => not_nodeOf_zero) ⟨fun ds _ => trivial, ?_⟩
    exact fun ds _ => .inl (Nat.zero_le _)
  rw [if_neg (not_or.mpr ⟨hkey, hnumber⟩)]
  cases s.properties with
  | none =>
    refine iff_of_true (law_fail_iff.mpr fun _ => not_nodeOf_none) ⟨?_, ?_⟩
    · intro ds hds
      cases hds
    · intro ds hds
      cases hds
  | some properties =>
    dsimp only
    rw [← loopLaw_iff]
    cases propertyLoop key 0 (properties.take s.propertyNumber) with
    | found y =>
      refine (and_iff_left_of_imp fun h ds _ => .inr ?_).symm
      obtain ⟨x, hx, -⟩ := (h.found y).mp rfl
      exact ⟨x, hx⟩
    | fail =>
      dsimp only
      by_cases hlen : s.propertyNumber ≤ properties.length
      · rw [if_pos hlen]
        refine (and_iff_left_of_imp fun _ ds hds => .inl ?_).symm
        cases hds
        exact hlen
      · rw [if_neg hlen]
        refine iff_of_false not_law_outside ?_
        rintro ⟨h, hall⟩
        obtain ⟨x, hx⟩ := (hall properties rfl).resolve_left hlen
        exact law_fail_iff.mp h x hx
    | nullRead => exact iff_of_false not_law_nullRead fun h => not_law_nullRead h.1
    | outside => exact iff_of_false not_law_outside fun h => not_law_outside h.1

theorem searchLaw_fail_iff : SearchLaw .fail denotes ↔ ∀ x, ¬ denotes x :=
  (searchLaw_map_iff .fail).trans law_fail_iff

theorem eventOutputSearch_iff (outputdatas : Option (List ShwData)) (number : ℕ)
    (key : Bytes) :
    SearchLaw (eventOutputSearch outputdatas number key) (NodeOf outputdatas number key) ↔
      EventRight outputdatas number key := by
  rw [EventRight]
  cases outputdatas with
  | none =>
    rw [if_pos (Or.inl rfl), eventOutputSearch, searchLaw_fail_iff]
    exact iff_of_true (fun _ => not_nodeOf_none) trivial
  | some datas =>
    rw [eventOutputSearch]
    by_cases hnumber : number = 0
    · subst hnumber
      rw [if_pos (Or.inl rfl), if_pos (Or.inr rfl), searchLaw_fail_iff]
      exact iff_of_true (fun _ => not_nodeOf_zero) trivial
    rw [if_neg (not_or.mpr ⟨by simp, hnumber⟩)]
    by_cases hkey : key = []
    · rw [if_pos (Or.inr hkey), if_pos hkey]
      exact searchLaw_fail_iff
    · rw [if_neg (not_or.mpr ⟨hnumber, hkey⟩), if_neg hkey]
      exact datasSearch_iff datas number key

theorem serviceInputOutputSearch_iff (type : DataTarget) (service : ShwService) (key : Bytes) :
    SearchLaw (serviceInputOutputSearch type service key)
        (NodeOf (type.datas service).1 (type.datas service).2 key) ↔
      ServiceRight (type.datas service).1 (type.datas service).2 key := by
  rw [serviceInputOutputSearch, ServiceRight]
  by_cases hkey : key = []
  · rw [if_pos hkey]
    exact iff_of_false (fun h => h.error rfl) fun h => h.1 hkey
  rw [if_neg hkey, and_iff_right hkey]
  rcases type.datas service with ⟨_ | datas, number⟩
  · refine iff_of_false (fun h => ?_) ?_
    · dsimp only at h
      split_ifs at h
      · exact h.error rfl
      · exact h.nullRead rfl
    · rintro ⟨-, x, hx⟩
      exact not_nodeOf_none hx
  · exact datasSearch_iff datas number key

/-- **The lookups of properties, event outputs and service datas** find the node that a key denotes,
and return an error when there is none, exactly when the key is taken apart on its way through the
nodes as it is meant. -/
theorem dm_shw_search_iff (s : Shw) (event : ShwEvent) (type : DataTarget) (service : ShwService)
    (key : Bytes) :
    (SearchLaw ((propertySearch s key).map some) (NodeOf s.properties s.propertyNumber key) ↔
      PropertyRight s key) ∧
    (SearchLaw (eventOutputSearch event.outputDatas event.outputDataNumber key)
        (NodeOf event.outputDatas event.outputDataNumber key) ↔
      EventRight event.outputDatas event.outputDataNumber key) ∧
    (SearchLaw (serviceInputOutputSearch type service key)
        (NodeOf (type.datas service).1 (type.datas service).2 key) ↔
      ServiceRight (type.datas service).1 (type.datas service).2 key) :=
  ⟨propertySearch_iff s key, eventOutputSearch_iff event.outputDatas event.outputDataNumber key,
    serviceInputOutputSearch_iff type service key⟩

end Lookups

/-- The element 7 of an array of one truth value is found; and a service without input succeeds with
no node for a name. -/
theorem dm_shw_search_broken :
    let env : LoadEnv := ⟨fun _ => true, []⟩
    let bools : Json := .object [] [(propertiesKey, .array [] [.object []
      [(identifierKey, .string [0x61]),
        (dataTypeKey, .object [] [(typeKey, .string [0x61, 0x72, 0x72, 0x61, 0x79]),
          (specsKey, .object [] [(sizeKey, .string [0x31]),
            (itemKey, .object [] [(typeKey, .string [0x62, 0x6F, 0x6F, 0x6C])])])])]])]
    let service : Json := .object [] [(servicesKey, .array [] [.object []
      [(identifierKey, .string [0x61])]])]
    ¬ (∀ s key, dmTslAlinkCreate env bools = some s →
      SearchLaw ((propertySearch s key).map some) (NodeOf s.properties s.propertyNumber key)) ∧
    ¬ (∀ s services a key, dmTslAlinkCreate env service = some s → s.services = some services →
      a ∈ services → SearchLaw (serviceInputOutputSearch .serviceInputData a key)
        (NodeOf a.inputDatas a.inputDataNumber key)) := by
  intro env bools service
  constructor
  · intro h
    let s₀ : Shw := ⟨1, some [.cells (some [0x61]) .bool 1 [.int 0]], 0, none, 0, none⟩
    let key : Bytes := [0x61, 0x5B, 0x37, 0x5D]
    have hsearch : propertySearch s₀ key = .found ([0], 7) := by
      have hstart : keyStart key = some ⟨4, 1, 1, 7⟩ := by decide +kernel
      apply propertySearch_single rfl rfl (by decide)
      rw [dataSearch, hstart]
      exact itemSearch_cells hstart (some [0x61]) .bool 1 [.int 0] [0]
    have hload : dmTslAlinkCreate env bools = some s₀ := load_single rfl propertyParse_bools
    have hfound := (h s₀ key hload).node ([0], 7)
    rw [hsearch, nodeOf_some_iff] at hfound
    obtain ⟨j, d, x, hget, ⟨name, rest, hname, hkey, hx⟩, -⟩ := hfound.mp rfl
    obtain rfl : d = .cells (some [0x61]) .bool 1 [.int 0] := by
      rw [← List.mem_singleton]
      exact List.mem_of_getElem? hget
    obtain rfl : name = [0x61] := hname.unique ⟨[0x61], rfl, by decide⟩
    have hrest : bracketText (some [0x37]) ++ [] = rest := (List.cons.inj hkey).2
    rw [← hrest] at hx
    -- the index is no index of the array
    obtain ⟨hindex, -⟩ := (denotes_values_iff rfl ⟨by decide, by decide⟩).mp hx
    exact absurd hindex.lt (by decide)
  · intro h
    have hlaw := h ⟨0, none, 0, none, 1, some [⟨some [0x61], 0, none, 0, none⟩]⟩ _ _ [0x62] rfl rfl
      List.mem_cons_self
    exact hlaw.error rfl

end Iotkit.Shadow
