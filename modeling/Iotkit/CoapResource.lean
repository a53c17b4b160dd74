/-
# Resources by their paths

`CoAPResource_create`, `CoAPResource_register` and `CoAPResourceByPath_get`
(`CoAPResource.c`), over whole runs of registrations.

The entry of a path is known by a digest of the path, the entry of a filter by the filter.
The digest of a filter stays zero, and so does the digest of the empty path; a lookup
compares digests without a look at the kind of the entry.
-/
import Iotkit.GuardedRun
import Iotkit.Upsert
import Iotkit.CoapContext

open GuardedRun

namespace Iotkit.Coap

open List hiding Vector

variable {H U C : Type}

/-! ## Registering -/

/-- `strstr (path, "/#") != NULL`. -/
def isPathFilter (path : CString) : Bool := decide ([0x2f, 0x23] <:+: path.bytes)

/-- What `CoAPResource_register` is to register. -/
structure Registration (C : Type) where
  path : CString
  permission : UInt16
  ctype : UInt32
  maxage : UInt32
  callback : Option C

/-- One call of it, with the address a new node gets, and whether there is memory for the
node and for the filter in it. -/
structure RegisterCall (C : Type) extends Registration C where
  ptr : ℕ
  malloc : Bool
  mallocFilter : Bool

variable (md5 : Bytes → Vector UInt8 16)

def coapResourceCreate (call : RegisterCall C) (pathType : PathType) : Option (CoapResource C) :=
  if coapMsgMaxPathLen ≤ call.path.strlen then none
  else if call.malloc = false then none
  else
    let resource : CoapResource C :=
      { ptr := call.ptr, permission := call.permission, callback := call.callback,
        ctype := call.ctype, maxage := call.maxage,
        path := List.replicate 5 0, filterPath := [], pathType := pathType }
    match pathType with
    | .normal => some { resource with path := coapPathMD5Sum md5 call.path.bytes 5 }
    | .filter =>
      if call.mallocFilter = false then none
      else some { resource with filterPath := call.path.bytes }

/-- The comparison `CoAPResource_register` makes with every node: digests with a node for a
path, and as many characters as the new filter has with a node for a filter. -/
def alreadyExist (type : PathType) (pathCalc path : Bytes) (node : CoapResource C) : Bool :=
  match type, node.pathType with
  | .normal, .normal => pathCalc == node.path
  | .filter, .filter => path.isPrefixOf node.filterPath
  | _, _ => false

/-- The fields of a node that are written again. -/
def CoapResource.rewrite (node : CoapResource C) (r : Registration C) : CoapResource C :=
  { node with
    callback := r.callback, ctype := r.ctype, maxage := r.maxage, permission := r.permission }

def coapResourceRegister (ctx : CoapIntContext H U C) (call : RegisterCall C) :
    ℤ × CoapIntContext H U C :=
  if ctx.resource.maxcount ≤ ctx.resource.count then (coapErrorDataSize, ctx)
  else
    let type := if isPathFilter call.path then PathType.filter else .normal
    let pathCalc := if isPathFilter call.path then List.replicate 5 0
      else coapPathMD5Sum md5 call.path.bytes 5
    let exist := alreadyExist type pathCalc call.path.bytes
    if ctx.resource.list.any exist then
      (coapSuccess,
        { ctx with resource := ctx.resource.updateFirst exist (·.rewrite call.toRegistration) })
    else
      match coapResourceCreate md5 call type with
      | some newnode => (coapSuccess, { ctx with resource := ctx.resource.addTail newnode })
      | none => (coapSuccess, ctx)

/-- A run of registrations. -/
def registerRun (ctx : CoapIntContext H U C) (calls : List (RegisterCall C)) :
    CoapIntContext H U C :=
  calls.foldl (fun ctx call => (coapResourceRegister md5 ctx call).2) ctx

/-! ## What is registered -/

/-- The purpose of a registration: the entry for its path takes the new values, or there is
a new entry as long as there is room. -/
def register (maxcount : ℕ) (table : List (Registration C)) (r : Registration C) :
    List (Registration C) :=
  if r.path ∈ table.map Registration.path ∨ table.length < maxcount then
    Upsert.upsert Registration.path r table
  else table

/-- What is registered after `calls`. -/
def registered (maxcount : ℕ) (calls : List (RegisterCall C)) : List (Registration C) :=
  calls.foldl (fun table call => register maxcount table call.toRegistration) []

/-- A path is for the requests of itself, a filter for those it matches. -/
def Registration.Covers (r : Registration C) (request : CString) : Prop :=
  if isPathFilter r.path then coapResourceTopicFilterMatch r.path.bytes request.bytes = true
  else r.path = request

/-- The node for a registration. -/
def Registration.node (ptr : ℕ) (r : Registration C) :
    CoapResource C where
  ptr := ptr
  permission := r.permission
  callback := r.callback
  ctype := r.ctype
  maxage := r.maxage
  path := if isPathFilter r.path then List.replicate 5 0 else coapPathMD5Sum md5 r.path.bytes 5
  filterPath := if isPathFilter r.path then r.path.bytes else []
  pathType := if isPathFilter r.path then .filter else .normal

/-- A node of the list is the one for the registration. -/
def EntryFor (r : Registration C) (node : CoapResource C) :
    Prop :=
  node = r.node md5 node.ptr

/-- The digests of the paths that are involved are told apart, and are not zero. -/
structure DigestsApart (md5 : Bytes → Vector UInt8 16) (paths : List CString) : Prop where
  injective : ∀ p ∈ paths, ∀ q ∈ paths, p.bytes ≠ [] → q.bytes ≠ [] →
    coapPathMD5Sum md5 p.bytes 5 = coapPathMD5Sum md5 q.bytes 5 → p = q
  nonzero : ∀ p ∈ paths, p.bytes ≠ [] → coapPathMD5Sum md5 p.bytes 5 ≠ List.replicate 5 0

namespace DigestsApart

variable {md5 : Bytes → Vector UInt8 16} {paths : List CString}

section

variable (h : DigestsApart md5 paths)
include h

theorem mono {paths' : List CString} (hsub : paths' ⊆ paths) : DigestsApart md5 paths' :=
  ⟨fun p hp q hq => h.injective p (hsub hp) q (hsub hq), fun p hp => h.nonzero p (hsub hp)⟩

theorem cons_empty {path : CString} (hempty : path.bytes = []) :
    DigestsApart md5 (path :: paths) := by
  constructor
  · intro p hp q hq hpne hqne
    have hp' := (mem_cons.mp hp).resolve_left fun heq => hpne (heq ▸ hempty)
    have hq' := (mem_cons.mp hq).resolve_left fun heq => hqne (heq ▸ hempty)
    exact h.injective p hp' q hq' hpne hqne
  · intro p hp hpne
    exact h.nonzero p ((mem_cons.mp hp).resolve_left fun heq => hpne (heq ▸ hempty)) hpne

theorem digest_eq_zero_iff {p : CString} (hp : p ∈ paths) :
    coapPathMD5Sum md5 p.bytes 5 = List.replicate 5 0 ↔ p.bytes = [] := by
  refine ⟨fun hzero => ?_, fun hnil => if_pos hnil⟩
  by_contra hne
  exact h.nonzero p hp hne hzero

theorem digest_inj {p q : CString} (hp : p ∈ paths) (hq : q ∈ paths) :
    coapPathMD5Sum md5 p.bytes 5 = coapPathMD5Sum md5 q.bytes 5 ↔ p = q := by
  refine ⟨fun hdigest => ?_, fun heq => congrArg (fun p => coapPathMD5Sum md5 p.bytes 5) heq⟩
  by_cases hpnil : p.bytes = []
  · rw [(h.digest_eq_zero_iff hp).mpr hpnil, eq_comm, h.digest_eq_zero_iff hq] at hdigest
    exact CString.ext (hpnil.trans hdigest.symm)
  · refine h.injective p hp q hq hpnil (fun hqnil => ?_) hdigest
    rw [(h.digest_eq_zero_iff hq).mpr hqnil] at hdigest
    exact h.nonzero p hp hpnil hdigest

end

end DigestsApart

/-! ## One registration -/

/-- The comparison of `CoAPResource_register`, with a registration instead of its node. -/
def sameEntry (path : CString) (r : Registration C) : Bool :=
  if isPathFilter path then isPathFilter r.path && path.bytes.isPrefixOf r.path.bytes
  else decide (r.path = path)

/-- When a call registers what it is to register, in a table as it is before it: there is
room if its path is there already; a new node can be made if there is room; and the first
filter that begins with a filter is that filter. -/
structure Registers (maxcount : ℕ) (table : List (Registration C)) (call : RegisterCall C) :
    Prop where
  room : call.path ∈ table.map Registration.path → table.length < maxcount
  created : call.path ∉ table.map Registration.path → table.length < maxcount →
    call.path.strlen < coapMsgMaxPathLen ∧ call.malloc = true ∧
      (isPathFilter call.path = true → call.mallocFilter = true)
  first : table.length < maxcount → ∀ r ∈ table.find? (sameEntry call.path), r.path = call.path

instance (maxcount : ℕ) (table : List (Registration C)) (call : RegisterCall C) :
    Decidable (Registers maxcount table call) :=
  decidable_of_iff ((call.path ∈ table.map Registration.path → table.length < maxcount) ∧
      (call.path ∉ table.map Registration.path → table.length < maxcount →
        call.path.strlen < coapMsgMaxPathLen ∧ call.malloc = true ∧
          (isPathFilter call.path = true → call.mallocFilter = true)) ∧
      (table.length < maxcount → ∀ r ∈ table.find? (sameEntry call.path), r.path = call.path))
    ⟨fun h => ⟨h.1, h.2.1, h.2.2⟩, fun h => ⟨h.room, h.created, h.first⟩⟩

theorem sameEntry_self {path : CString} {r : Registration C} (h : r.path = path) :
    sameEntry path r = true := by
  subst h
  unfold sameEntry
  split_ifs with hfilter
  · simp [hfilter]
  · exact decide_eq_true rfl

variable {md5 : Bytes → Vector UInt8 16} {table : List (Registration C)}
  {l : List (CoapResource C)}

variable {path : CString} {r : Registration C} {node : CoapResource C}

theorem alreadyExist_eq {paths : List CString} (hapart : DigestsApart md5 paths)
    (hpath : path ∈ paths) (hr : r.path ∈ paths) (hnode : EntryFor md5 r node) :
    alreadyExist (if isPathFilter path then .filter else .normal)
      (if isPathFilter path then List.replicate 5 0 else coapPathMD5Sum md5 path.bytes 5)
      path.bytes node = sameEntry path r := by
  rw [hnode]
  unfold sameEntry alreadyExist Registration.node
  by_cases hfilter : isPathFilter path = true
  · by_cases hrfilter : isPathFilter r.path = true
    · simp [hfilter, hrfilter]
    · simp [hfilter, hrfilter]
  by_cases hrfilter : isPathFilter r.path = true
  · have hne : r.path ≠ path := fun h => hfilter (h ▸ hrfilter)
    simp [hfilter, hrfilter, hne]
  · simp only [hfilter, hrfilter, Bool.false_eq_true, if_false]
    have hdigest := hapart.digest_inj hpath hr
    rw [Bool.eq_iff_iff, beq_iff_eq, decide_eq_true_iff, hdigest, eq_comm]

theorem EntryFor.rewrite {r r' : Registration C} {node : CoapResource C}
    (h : EntryFor md5 r node) (hpath : r.path = r'.path) : EntryFor md5 r' (node.rewrite r') := by
  unfold EntryFor at h ⊢
  rw [h]
  simp only [Registration.node, CoapResource.rewrite, hpath]

theorem any_eq_of_forall₂ (h : List.Forall₂ (EntryFor md5) table l)
    {p : CoapResource C → Bool} {q : Registration C → Bool}
    (hpq : ∀ r ∈ table, ∀ node, EntryFor md5 r node → p node = q r) : l.any p = table.any q := by
  induction h with
  | nil => rfl
  | cons hnode _ ih =>
    rw [any_cons, any_cons, hpq _ mem_cons_self _ hnode,
      ih fun r hr => hpq r (mem_cons_of_mem _ hr)]

theorem any_sameEntry_iff (hfirst : ∀ r ∈ table.find? (sameEntry path), r.path = path) :
    table.any (sameEntry path) = true ↔ path ∈ table.map Registration.path := by
  rw [any_eq_true, mem_map]
  constructor
  · intro hany
    obtain ⟨r, hr⟩ := Option.isSome_iff_exists.mp (List.find?_isSome.mpr hany)
    exact ⟨r, mem_of_find?_eq_some hr, hfirst r hr⟩
  · rintro ⟨r, hr, hpath⟩
    exact ⟨r, hr, sameEntry_self hpath⟩

/-- Writing the first node that is the same again is an update of the table. -/
theorem forall₂_updateFirst {exist : CoapResource C → Bool}
    (h : List.Forall₂ (EntryFor md5) table l)
    (hexist : ∀ r' ∈ table, ∀ node, EntryFor md5 r' node → exist node = sameEntry r.path r')
    (hfirst : ∀ r' ∈ table.find? (sameEntry r.path), r'.path = r.path)
    (hmem : r.path ∈ table.map Registration.path) :
    List.Forall₂ (EntryFor md5) (Upsert.upsert Registration.path r table)
      (updateFirst exist (·.rewrite r) l) := by
  induction h with
  | nil => cases hmem
  | @cons r' node table l hnode htail ih =>
    have hhead := hexist r' mem_cons_self node hnode
    rw [Upsert.upsert_cons, updateFirst]
    by_cases hsame : sameEntry r.path r' = true
    · have hpath : r'.path = r.path := hfirst r' (List.find?_cons_of_pos hsame)
      rw [if_pos hpath, if_pos (hhead.trans hsame)]
      exact List.Forall₂.cons (hnode.rewrite hpath) htail
    have hne : r'.path ≠ r.path := fun hpath => hsame (sameEntry_self hpath)
    rw [if_neg hne, if_neg (fun hex => hsame (hhead.symm.trans hex))]
    refine List.Forall₂.cons hnode (ih ?_ ?_ ?_)
    · exact fun r'' hr'' => hexist r'' (mem_cons_of_mem _ hr'')
    · rwa [List.find?_cons_of_neg hsame] at hfirst
    · exact (mem_cons.mp hmem).resolve_left fun hpath => hne hpath.symm

theorem coapResourceCreate_entry {call : RegisterCall C}
    (hlen : call.path.strlen < coapMsgMaxPathLen) (hmalloc : call.malloc = true)
    (hfilter : isPathFilter call.path = true → call.mallocFilter = true) :
    coapResourceCreate md5 call (if isPathFilter call.path then .filter else .normal)
      = some (call.toRegistration.node md5 call.ptr) := by
  unfold coapResourceCreate Registration.node
  rw [if_neg (not_le.mpr hlen), if_neg (by simp [hmalloc])]
  by_cases hf : isPathFilter call.path = true
  · simp [hf, hfilter hf]
  · simp [hf]

/-! ## Runs -/

/-- The list of the context has one node for each registration of the table. -/
structure Represents (md5 : Bytes → Vector UInt8 16) (maxcount : UInt8)
    (table : List (Registration C)) (ctx : CoapIntContext H U C) : Prop where
  entries : List.Forall₂ (EntryFor md5) table ctx.resource.list
  nodup : (table.map Registration.path).Nodup
  counted : ctx.resource.Counted
  maxcount_eq : ctx.resource.maxcount = maxcount

theorem map_path_register (maxcount : ℕ) (table : List (Registration C)) (r : Registration C) :
    (register maxcount table r).map Registration.path = table.map Registration.path ∨
      (r.path ∉ table.map Registration.path ∧ (register maxcount table r).map Registration.path
        = table.map Registration.path ++ [r.path]) := by
  unfold register
  split_ifs with hroom
  · by_cases hmem : r.path ∈ table.map Registration.path
    · exact .inl (Upsert.map_key_upsert_of_mem _ hmem)
    · rw [Upsert.upsert_of_notMem _ hmem, map_append]
      exact .inr ⟨hmem, rfl⟩
  · exact .inl rfl

theorem nodup_register (maxcount : ℕ) (h : (table.map Registration.path).Nodup)
    (r : Registration C) : ((register maxcount table r).map Registration.path).Nodup := by
  rcases map_path_register maxcount table r with heq | ⟨hnew, heq⟩
  · rw [heq]
    exact h
  · rw [heq]
    refine nodup_append.mpr ⟨h, nodup_singleton _, ?_⟩
    rintro p hp _ hp' rfl
    rw [mem_singleton.mp hp'] at hp
    exact hnew hp

variable {ctx : CoapIntContext H U C}

/-- One registration: the list stays that of the table, and a path that is there already
leaves all nodes where they are. -/
theorem coapResourceRegister_represents {maxcount : UInt8} {call : RegisterCall C}
    {paths : List CString} (h : Represents md5 maxcount table ctx) (hapart : DigestsApart md5 paths)
    (hcall : call.path ∈ paths) (htable : table.map Registration.path ⊆ paths)
    (hregs : Registers maxcount.toNat table call) :
    Represents md5 maxcount (register maxcount.toNat table call.toRegistration)
        (coapResourceRegister md5 ctx call).2 ∧
      (call.path ∈ table.map Registration.path →
        (coapResourceRegister md5 ctx call).2.resource.list.map CoapResource.ptr
          = ctx.resource.list.map CoapResource.ptr) := by
  have hlen : table.length = ctx.resource.count.toNat := by
    rw [h.counted.count_eq]
    exact h.entries.length_eq
  have hnodup := nodup_register maxcount.toNat h.nodup call.toRegistration
  unfold coapResourceRegister
  by_cases hfull : ctx.resource.maxcount ≤ ctx.resource.count
  · -- without room, the path is not there either
    have hnoroom : ¬ table.length < maxcount.toNat := by
      rw [hlen, ← h.maxcount_eq]
      exact not_lt.mpr (UInt8.le_iff_toNat_le.mp hfull)
    have hnew : call.path ∉ table.map Registration.path := fun hmem => hnoroom (hregs.room hmem)
    have htable' : register maxcount.toNat table call.toRegistration = table :=
      if_neg (not_or.mpr ⟨hnew, hnoroom⟩)
    rw [if_pos hfull, htable']
    exact ⟨h, fun hmem => absurd hmem hnew⟩
  have hroom : table.length < maxcount.toNat := by
    rw [hlen, ← h.maxcount_eq]
    exact UInt8.lt_iff_toNat_lt.mp (UInt8.not_le.mp hfull)
  have htable' : register maxcount.toNat table call.toRegistration
      = Upsert.upsert Registration.path call.toRegistration table := if_pos (.inr hroom)
  have hpaths : ∀ r ∈ table, r.path ∈ paths := fun r hr => htable (mem_map_of_mem hr)
  have hexist := fun r hr (node : CoapResource C) (hnode : EntryFor md5 r node) =>
    alreadyExist_eq hapart hcall (hpaths r hr) hnode
  have hfirst := hregs.first hroom
  simp only [if_neg hfull]
  generalize alreadyExist _ _ _ = exist at hexist ⊢
  have hany : ctx.resource.list.any exist = true ↔ call.path ∈ table.map Registration.path := by
    rw [any_eq_of_forall₂ h.entries hexist]
    exact any_sameEntry_iff hfirst
  by_cases hmem : call.path ∈ table.map Registration.path
  · rw [if_pos (hany.mpr hmem)]
    refine ⟨⟨?_, hnodup, ?_, h.maxcount_eq⟩, fun _ => ?_⟩
    · rw [htable']
      exact forall₂_updateFirst h.entries hexist hfirst hmem
    · exact h.counted.of_length_eq (length_updateFirst _ _ _)
    · show (updateFirst exist (·.rewrite call.toRegistration) ctx.resource.list).map _ = _
      apply map_updateFirst
      intro node
      rfl
  · obtain ⟨hlen', hmalloc, hfilter⟩ := hregs.created hmem hroom
    rw [if_neg (fun hex => hmem (hany.mp hex)), coapResourceCreate_entry hlen' hmalloc hfilter]
    refine ⟨⟨?_, hnodup, ?_, h.maxcount_eq⟩, fun hmem' => absurd hmem' hmem⟩
    · rw [htable', Upsert.upsert_of_notMem _ hmem]
      exact rel_append h.entries (List.Forall₂.cons rfl List.Forall₂.nil)
    · exact h.counted.addTail (UInt8.not_le.mp hfull) _

theorem registered_subset (maxcount : ℕ) (calls : List (RegisterCall C)) :
    (registered maxcount calls).map Registration.path ⊆ calls.map (·.path) := by
  induction calls using List.reverseRecOn with
  | nil => exact List.Subset.refl _
  | append_singleton calls call ih =>
    rw [registered, foldl_append, ← registered, map_append]
    show (register maxcount _ call.toRegistration).map Registration.path ⊆ _
    rcases map_path_register maxcount (registered maxcount calls) call.toRegistration with
      heq | ⟨-, heq⟩
    · rw [heq]
      exact fun p hp => mem_append_left _ (ih hp)
    · rw [heq]
      exact append_subset.mpr ⟨fun p hp => mem_append_left _ (ih hp),
        subset_append_right _ _⟩

/-- The steps of a run of registrations, over the table. -/
abbrev AllRegister (maxcount : ℕ) (calls : List (RegisterCall C)) : Prop :=
  AllSteps (fun table call => register maxcount table call.toRegistration) (Registers maxcount)
    [] calls

/-- A run whose calls all register represents the table of what is registered. -/
theorem registerRun_represents {maxcount : UInt8} (hinit : ctx.resource = CoapList.init _ maxcount)
    (calls : List (RegisterCall C)) (hapart : DigestsApart md5 (calls.map (·.path)))
    (hregs : AllRegister maxcount.toNat calls) :
    Represents md5 maxcount (registered maxcount.toNat calls) (registerRun md5 ctx calls) := by
  induction calls using List.reverseRecOn with
  | nil =>
    show Represents md5 maxcount [] ctx
    constructor
    · rw [hinit]
      exact List.Forall₂.nil
    · exact nodup_nil
    · rw [hinit]
      exact CoapList.Counted.init maxcount
    · rw [hinit]
      rfl
  | append_singleton calls call ih =>
    obtain ⟨hbefore, hcall, -⟩ := (allSteps_append _ _ _).mp hregs
    have hsub : calls.map (·.path) ⊆ (calls ++ [call]).map (·.path) := by
      rw [map_append]
      exact subset_append_left _ _
    have hrep := ih (hapart.mono hsub) hbefore
    rw [registered, foldl_append, ← registered, registerRun, foldl_append,
      ← registerRun]
    exact (coapResourceRegister_represents hrep hapart (by simp)
      (fun p hp => hsub (registered_subset _ _ hp)) hcall).1

/-! ## Looking up -/

/-- A lookup is right: there is a resource for the request if one that covers it is
registered, and it is the resource of such a one. -/
structure LooksUp (md5 : Bytes → Vector UInt8 16) (table : List (Registration C))
    (ctx : CoapIntContext H U C) (request : CString) : Prop where
  found : (coapResourceByPathGet md5 ctx request.bytes).isSome = true ↔
    ∃ r ∈ table, r.Covers request
  served : ∀ node ∈ coapResourceByPathGet md5 ctx request.bytes,
    ∃ r ∈ table, r.Covers request ∧ EntryFor md5 r node

/-- Among the filters and the empty path, the empty path was registered first, or none. -/
def EmptyPathFirst (table : List (Registration C)) : Prop :=
  ∀ r ∈ table.find? (fun r => isPathFilter r.path || r.path.bytes == []),
    isPathFilter r.path = false

theorem find?_of_forall₂ (h : List.Forall₂ (EntryFor md5) table l)
    {p : CoapResource C → Bool} {q : Registration C → Bool}
    (hpq : ∀ r ∈ table, ∀ node, EntryFor md5 r node → p node = q r) :
    (table.find? q = none ∧ l.find? p = none) ∨
      ∃ r node, table.find? q = some r ∧ l.find? p = some node ∧ EntryFor md5 r node := by
  induction h with
  | nil => exact .inl ⟨rfl, rfl⟩
  | @cons r node table l hnode htail ih =>
    have hhead := hpq r mem_cons_self node hnode
    by_cases hq : q r = true
    · rw [List.find?_cons_of_pos hq, List.find?_cons_of_pos (hhead.trans hq)]
      exact .inr ⟨r, node, rfl, rfl, hnode⟩
    · rw [List.find?_cons_of_neg hq, List.find?_cons_of_neg (fun hp => hq (hhead.symm.trans hp))]
      exact ih fun r hr => hpq r (mem_cons_of_mem _ hr)

theorem not_topicFilterMatch_nil (filter : Bytes) :
    coapResourceTopicFilterMatch filter [] = false := by
  simp [coapResourceTopicFilterMatch]

theorem length_pos_of_isPathFilter (h : isPathFilter path = true) : 0 < path.bytes.length := by
  obtain ⟨s, t, hpath⟩ := of_decide_eq_true h
  rw [← hpath]
  simp

variable {request : CString}

theorem digest_pass {paths : List CString} (hapart : DigestsApart md5 paths)
    (hrequest : request ∈ paths) (hr : r.path ∈ paths) (hnode : EntryFor md5 r node) :
    decide (node.path = coapPathMD5Sum md5 request.bytes 5)
      = if isPathFilter r.path then request.bytes == [] else decide (r.path = request) := by
  rw [hnode]
  unfold Registration.node
  split_ifs with hfilter
  · have hzero := hapart.digest_eq_zero_iff hrequest
    rw [Bool.eq_iff_iff, decide_eq_true_iff, beq_iff_eq, eq_comm, hzero]
  · rw [Bool.eq_iff_iff, decide_eq_true_iff, decide_eq_true_iff, hapart.digest_inj hr hrequest]

theorem filter_pass (request : CString) (hnode : EntryFor md5 r node) :
    decide (node.pathType = .filter ∧ 0 < node.filterPath.length ∧
        coapResourceTopicFilterMatch node.filterPath request.bytes)
      = (isPathFilter r.path && coapResourceTopicFilterMatch r.path.bytes request.bytes) := by
  rw [hnode]
  unfold Registration.node
  by_cases hfilter : isPathFilter r.path = true
  · have hpos := length_pos_of_isPathFilter hfilter
    simp [hfilter, hpos]
  · simp [hfilter]

theorem Registration.covers_of_filter (hfilter : isPathFilter r.path = true) :
    r.Covers request ↔ coapResourceTopicFilterMatch r.path.bytes request.bytes = true := by
  rw [Registration.Covers, if_pos hfilter]

theorem Registration.covers_of_path (hpath : isPathFilter r.path = false) :
    r.Covers request ↔ r.path = request := by
  rw [Registration.Covers, if_neg (by simp [hpath])]

theorem looksUp_of_some (hr : r ∈ table) (hnode : EntryFor md5 r node)
    (hget : coapResourceByPathGet md5 ctx request.bytes = some node) (hcovers : r.Covers request) :
    LooksUp md5 table ctx request := by
  constructor
  · rw [hget]
    exact iff_of_true rfl ⟨r, hr, hcovers⟩
  · intro node' hnode'
    obtain rfl := Option.some.inj (hget.symm.trans hnode')
    exact ⟨r, hr, hcovers, hnode⟩

theorem looksUp_of_none (hget : coapResourceByPathGet md5 ctx request.bytes = none)
    (hcovers : ∀ r ∈ table, ¬ r.Covers request) : LooksUp md5 table ctx request := by
  constructor
  · rw [hget]
    exact iff_of_false Bool.false_ne_true fun ⟨r, hr, hc⟩ => hcovers r hr hc
  · intro node hnode
    rw [hget] at hnode
    cases hnode

/-- **The lookup of a request.**  It is right, but for the empty path after a filter. -/
theorem looksUp_iff (h : List.Forall₂ (EntryFor md5) table ctx.resource.list)
    (hapart : DigestsApart md5 (request :: table.map Registration.path)) :
    LooksUp md5 table ctx request ↔ (request.bytes = [] → EmptyPathFirst table) := by
  have hmem : ∀ r ∈ table, r.path ∈ request :: table.map Registration.path :=
    fun r hr => mem_cons_of_mem _ (mem_map_of_mem hr)
  have hget : coapResourceByPathGet md5 ctx request.bytes = (ctx.resource.list.find? fun node =>
          decide (node.path = coapPathMD5Sum md5 request.bytes 5)).or
        (ctx.resource.list.find? fun node =>
          decide (node.pathType = .filter ∧ 0 < node.filterPath.length ∧
            coapResourceTopicFilterMatch node.filterPath request.bytes)) := rfl
  have hfirst := find?_of_forall₂ h fun r hr node hnode =>
    digest_pass hapart mem_cons_self (hmem r hr) hnode
  have hsecond := find?_of_forall₂ h fun r _ node hnode => filter_pass request hnode
  by_cases hempty : request.bytes = []
  · -- the first pass takes the first filter or the empty path
    have hpass : (fun r : Registration C =>
        if isPathFilter r.path = true then request.bytes == [] else decide (r.path = request))
          = fun r => isPathFilter r.path || r.path.bytes == [] := by
      funext r
      split_ifs with hfilter
      · simp [hempty, hfilter]
      · have hpath : r.path = request ↔ r.path.bytes = [] :=
          ⟨fun heq => heq ▸ hempty, fun hnil => CString.ext (hnil.trans hempty.symm)⟩
        rw [Bool.eq_iff_iff, decide_eq_true_iff, hpath]
        simp [hfilter]
    rw [hpass] at hfirst
    rcases hfirst with ⟨hnone, hlist⟩ | ⟨r, node, hr, hlist, hnode⟩
    · -- there is no filter, and no entry for the empty path
      have hnot := fun r hr => List.find?_eq_none.mp hnone r hr
      refine iff_of_true ?_ fun _ r hr => by rw [hnone] at hr; cases hr
      apply looksUp_of_none
      · rw [hget, hlist, Option.none_or]
        refine List.find?_eq_none.mpr fun node _ => ?_
        simp [hempty, not_topicFilterMatch_nil]
      · intro r hr hcovers
        have hr' := hnot r hr
        simp only [Bool.or_eq_true, beq_iff_eq, not_or, Bool.not_eq_true] at hr'
        rw [Registration.covers_of_path hr'.1] at hcovers
        exact hr'.2 (hcovers ▸ hempty)
    · rw [hlist, Option.some_or] at hget
      have hfound : EmptyPathFirst table ↔ isPathFilter r.path = false := by
        unfold EmptyPathFirst
        rw [hr]
        simp
      rw [hfound]
      constructor
      · rintro ⟨-, hserved⟩ -
        -- the node belongs to what it was found for, and no filter covers the empty path
        obtain ⟨r', hr', hcovers, hnode'⟩ := hserved node hget
        have htype : isPathFilter r.path = isPathFilter r'.path := by
          have heq := congrArg CoapResource.pathType (hnode.symm.trans hnode')
          simp only [Registration.node] at heq
          split_ifs at heq <;> simp_all
        rw [htype]
        by_contra hfilter
        rw [Bool.not_eq_false] at hfilter
        rw [Registration.covers_of_filter hfilter, hempty, not_topicFilterMatch_nil] at hcovers
        cases hcovers
      · intro hpath
        refine looksUp_of_some (mem_of_find?_eq_some hr) hnode hget ?_
        rw [Registration.covers_of_path (hpath hempty)]
        have hq := List.find?_some hr
        simp only [hpath hempty, Bool.false_or, beq_iff_eq] at hq
        exact CString.ext (hq.trans hempty.symm)
  · refine iff_of_true ?_ fun h => absurd h hempty
    rcases hfirst with ⟨hnone, hlist⟩ | ⟨r, node, hr, hlist, hnode⟩
    · rw [hlist, Option.none_or] at hget
      rcases hsecond with ⟨hnone', hlist'⟩ | ⟨r, node, hr, hlist', hnode⟩
      · refine looksUp_of_none (hget.trans hlist') fun r hr hcovers => ?_
        have hpath := List.find?_eq_none.mp hnone r hr
        have hfilter := List.find?_eq_none.mp hnone' r hr
        by_cases hf : isPathFilter r.path = true
        · rw [Registration.covers_of_filter hf] at hcovers
          simp [hf, hcovers] at hfilter
        · rw [Registration.covers_of_path (by simpa using hf)] at hcovers
          simp only [if_neg hf, decide_eq_true_eq] at hpath
          exact hpath hcovers
      · have hq := List.find?_some hr
        rw [Bool.and_eq_true] at hq
        exact looksUp_of_some (mem_of_find?_eq_some hr) hnode (hget.trans hlist')
          ((Registration.covers_of_filter hq.1).mpr hq.2)
    · rw [hlist, Option.some_or] at hget
      have hq := List.find?_some hr
      by_cases hf : isPathFilter r.path = true
      · rw [if_pos hf, beq_iff_eq] at hq
        exact absurd hq hempty
      · rw [if_neg hf, decide_eq_true_iff] at hq
        exact looksUp_of_some (mem_of_find?_eq_some hr) hnode hget
          ((Registration.covers_of_path (by simpa using hf)).mpr hq)

/-! ## Whole runs -/

/-- **Resources.**  After every run of calls that all register, the list has one node for each path,
with the values of its last registration and in the order of the first ones, as many as it counts; a
path that is registered again moves no node; and the lookup is right exactly if the request is not
the empty path, or that was registered before every filter. -/
theorem coap_resource_lookup_iff (md5 : Bytes → Vector UInt8 16) {maxcount : UInt8}
    {ctx : CoapIntContext H U C} (hinit : ctx.resource = CoapList.init _ maxcount)
    {calls : List (RegisterCall C)} (hregs : AllRegister maxcount.toNat calls)
    {request : CString} (hapart : DigestsApart md5 (request :: calls.map (·.path))) :
    (registerRun md5 ctx calls).resource.count.toNat
        = (registerRun md5 ctx calls).resource.list.length ∧
      (registerRun md5 ctx calls).resource.list.length ≤ maxcount.toNat ∧
      List.Forall₂ (EntryFor md5) (registered maxcount.toNat calls)
        (registerRun md5 ctx calls).resource.list ∧
      ((registered maxcount.toNat calls).map Registration.path).Nodup ∧
      (∀ before call after, calls = before ++ call :: after →
        call.path ∈ (registered maxcount.toNat before).map Registration.path →
          (registerRun md5 ctx (before ++ [call])).resource.list.map CoapResource.ptr
            = (registerRun md5 ctx before).resource.list.map CoapResource.ptr) ∧
      (LooksUp md5 (registered maxcount.toNat calls) (registerRun md5 ctx calls) request ↔
        (request.bytes = [] → EmptyPathFirst (registered maxcount.toNat calls))) := by
  have hcalls : DigestsApart md5 (calls.map (·.path)) := hapart.mono (subset_cons_self _ _)
  have hrep := registerRun_represents hinit calls hcalls hregs
  refine ⟨hrep.counted.count_eq, ?_, hrep.entries, hrep.nodup, ?_, ?_⟩
  · rw [← hrep.maxcount_eq]
    exact hrep.counted.le_maxcount
  · rintro before call after rfl hmem
    obtain ⟨hbefore, hcall, -⟩ := (allSteps_append _ _ _).mp hregs
    have hsub : before.map (·.path) ⊆ (before ++ call :: after).map (·.path) := by
      rw [map_append]
      exact subset_append_left _ _
    have hrep' := registerRun_represents hinit before (hcalls.mono hsub) hbefore
    rw [registerRun, foldl_append, ← registerRun]
    exact (coapResourceRegister_represents hrep' hcalls (by simp)
      (fun p hp => hsub (registered_subset _ _ hp)) hcall).2 hmem
  · refine looksUp_iff hrep.entries (hapart.mono ?_)
    exact cons_subset_cons _ (registered_subset _ _)

/-! ### A filter and the empty path -/

/-- The paths `/a` and `/a/#`. -/
def aPath : CString := ⟨[0x2f, 0x61], by decide⟩
def aFilter : CString := ⟨[0x2f, 0x61, 0x2f, 0x23], by decide⟩

/-- `utils_md5` on the two. -/
def aDigest (path : Bytes) : Vector UInt8 16 :=
  if path = aPath.bytes then
    #v[6, 57, 118, 127, 62, 158, 170, 215, 41, 181, 64, 55, 167, 226, 171, 245]
  else
    #v[34, 8, 168, 95, 40, 199, 34, 209, 124, 192, 50, 103, 241, 58, 237, 36]

/-- A call that registers a path for GET, with memory for it. -/
def registerCall (ptr : ℕ) (path : CString) : RegisterCall Unit :=
  ⟨⟨path, 1, 50, 60, some ()⟩, ptr, true, true⟩

/-- A context with room for `maxcount` resources. -/
def emptyContext (maxcount : UInt8) : CoapIntContext Unit Unit Unit where
  sendlist := CoapList.init _ 8
  obsserver := CoapList.init _ 8
  obsclient := CoapList.init _ 8
  resource := CoapList.init _ maxcount
  sends := 0
  trace := []

theorem aDigest_apart : DigestsApart aDigest [aPath, aFilter] := by
  have hne : coapPathMD5Sum aDigest aPath.bytes 5 ≠ coapPathMD5Sum aDigest aFilter.bytes 5 := by
    decide
  constructor
  · intro p hp q hq _ _ heq
    simp only [mem_cons, not_mem_nil, or_false] at hp hq
    rcases hp with rfl | rfl
    · rcases hq with rfl | rfl
      · rfl
      · exact absurd heq hne
    · rcases hq with rfl | rfl
      · exact absurd heq.symm hne
      · rfl
  · intro p hp _
    simp only [mem_cons, not_mem_nil, or_false] at hp
    rcases hp with rfl | rfl
    · decide
    · decide

/-- A filter, a path and the path again. -/
def aCalls : List (RegisterCall Unit) :=
  [registerCall 1 aFilter, registerCall 2 aPath, registerCall 3 aPath]

/-- The path is found. -/
theorem coap_resource_lookup_a :
    LooksUp aDigest (registered 8 aCalls) (registerRun aDigest (emptyContext 8) aCalls) aPath := by
  have hapart : DigestsApart aDigest (aPath :: aCalls.map (·.path)) :=
    aDigest_apart.mono (by simp [aCalls, registerCall])
  have hinit : (emptyContext 8).resource = CoapList.init _ 8 := rfl
  obtain ⟨-, -, -, -, -, hlooks⟩ := coap_resource_lookup_iff aDigest hinit (by decide) hapart
  exact hlooks.mpr fun hempty => by cases hempty

example : (registerRun aDigest (emptyContext 8) aCalls).resource.list.map CoapResource.ptr
    = [1, 2] := by decide

/-- A request for the empty path is answered with the resource of a filter that does not
match it. -/
theorem coap_resource_lookup_empty :
    AllRegister 8 [registerCall 1 aFilter] ∧
      DigestsApart aDigest [⟨[], by decide⟩, aFilter] ∧
      coapResourceByPathGet aDigest
          (registerRun aDigest (emptyContext 8) [registerCall 1 aFilter]) []
        = some ((registerCall 1 aFilter).toRegistration.node aDigest 1) ∧
      coapResourceTopicFilterMatch aFilter.bytes [] = false ∧
      ¬ LooksUp aDigest (registered 8 [registerCall 1 aFilter])
        (registerRun aDigest (emptyContext 8) [registerCall 1 aFilter]) ⟨[], by decide⟩ := by
  have hget : coapResourceByPathGet aDigest
      (registerRun aDigest (emptyContext 8) [registerCall 1 aFilter]) []
        = some ((registerCall 1 aFilter).toRegistration.node aDigest 1) := rfl
  have hapart : DigestsApart aDigest [aFilter] := aDigest_apart.mono (by simp)
  refine ⟨by decide, hapart.cons_empty rfl, hget, by decide, fun hlooks => ?_⟩
  obtain ⟨r, hr, hcovers⟩ := hlooks.found.mp (by rw [hget]; rfl)
  obtain rfl : r = (registerCall 1 aFilter).toRegistration := mem_singleton.mp hr
  exact absurd hcovers (by decide : ¬ coapResourceTopicFilterMatch aFilter.bytes [] = true)

end Iotkit.Coap
