/-
# The device registry of the device model (`dm_manager.c`)

The list of devices that starts with the local node, is changed by `dm_mgr_device_create` and
`dm_mgr_device_destroy` and is walked by ids by `dm_mgr_get_next_devid`.  The ids come from a
counter of type `int`; behind the largest `int` they are negative, and a device with a negative id
can be neither destroyed nor walked past.
-/
import Iotkit.DmMsgCache
import Iotkit.LibC

namespace Iotkit.Dm

open GuardedRun LibC List

/-! ## The registry -/

abbrev iotxDmLocalNodeDevid : ℤ := 0
abbrev iotxProductKeyLen : ℕ := 20
abbrev iotxDeviceNameLen : ℕ := 32
abbrev iotxDeviceSecretLen : ℕ := 64

/-- `IOTX_DM_DEVICE_TYPE` of a device that is no gateway. -/
abbrev iotxDmDeviceSingle : ℤ := 1

/-- `iotx_dm_dev_status_t`. -/
inductive DevStatus
  | unauthorized
  | authorized
  | registered
  | attached
  | logined
  | online
  deriving DecidableEq

/-- A `dm_mgr_dev_node_t`.  The arrays are cleared before the characters are copied, so that
each of them holds a string. -/
structure DevNode where
  devid : ℤ
  devType : ℤ
  productKey : CString
  deviceName : CString
  deviceSecret : CString
  devStatus : DevStatus
  deriving DecidableEq

/-- The parts of a `dm_mgr_ctx` behind its mutex. -/
structure DmMgr where
  globalDevid : ℤ
  devList : List DevNode
  deriving DecidableEq

def emptyString : CString := ⟨[], CString.nul_notMem_nil⟩

/-! ## Lookups -/

variable (ctx : DmMgr)

def dmMgrSearchDevByDevid (devid : ℤ) : Option DevNode :=
  ctx.devList.find? fun node => node.devid = devid

def dmMgrSearchDevByPkdn (productKey deviceName : CString) : Option DevNode :=
  ctx.devList.find? fun node => node.productKey = productKey ∧ node.deviceName = deviceName

/-- The loop of `dm_mgr_get_next_devid`; `searchNode` is the device it has found. -/
def nextDevidLoop (devid : ℤ) : Option DevNode → List DevNode → Option ℤ
  | _, [] => none
  | searchNode, nextNode :: rest =>
    if searchNode.any (fun node => node.devid = devid) then some nextNode.devid
    else nextDevidLoop devid (if nextNode.devid = devid then some nextNode else searchNode) rest

/-- `dm_mgr_get_next_devid`: the value returned, and what it stores in `devid_next`. -/
def dmMgrGetNextDevid (devid : ℤ) (hasNext : Bool) : ℤ × Option ℤ :=
  if devid < 0 ∨ hasNext = false then (dmInvalidParameter, none)
  else
    match nextDevidLoop devid none ctx.devList with
    | some devidNext => (successReturn, some devidNext)
    | none => (failReturn, none)

/-! ## Creation and destruction -/

def dmMgrInsertDev (devid devType : ℤ) (productKey deviceName : CString) (memory : Bool) :
    ℤ × DmMgr :=
  if devid < 0 ∨ productKey.strlen ≥ iotxProductKeyLen + 1 ∨
      deviceName.strlen ≥ iotxDeviceNameLen + 1 then (dmInvalidParameter, ctx)
  else if (dmMgrSearchDevByDevid ctx devid).isSome then (failReturn, ctx)
  else if memory = false then (dmMemoryNotEnough, ctx)
  else
    (successReturn,
      { ctx with
        devList := ctx.devList ++
          [⟨devid, devType, productKey, deviceName, emptyString, .unauthorized⟩] })

/-- `dm_mgr_init`, with the product key and the device name that the HAL has.  `mutex` is
whether a mutex can be had. -/
def dmMgrInit (mutex memory : Bool) (productKey deviceName : CString) : ℤ × DmMgr :=
  if mutex = false then (failReturn, ⟨0, []⟩)
  else
    match dmMgrInsertDev ⟨iotxDmLocalNodeDevid + 1, []⟩ iotxDmLocalNodeDevid iotxDmDeviceSingle
        productKey deviceName memory with
    | (res, ctx) => if res ≠ successReturn then (failReturn, ⟨0, []⟩) else (successReturn, ctx)

/-- What `dm_mgr_device_create` is called with; `none` is the null pointer. -/
structure CreateArgs where
  devType : ℤ
  productKey : Option CString
  deviceName : Option CString
  deviceSecret : Option CString

/-- The node that `dm_mgr_device_create` fills, with the next id. -/
def newDevNode (devType : ℤ) (productKey deviceName : CString) (deviceSecret : Option CString) :
    DevNode :=
  ⟨ctx.globalDevid, devType, productKey, deviceName, deviceSecret.getD emptyString, .authorized⟩

/-- `dm_mgr_device_create` behind its tests of the arguments: the value returned, what it
stores in `devid`, and the registry. -/
def deviceCreate (devType : ℤ) (productKey deviceName : CString) (deviceSecret : Option CString)
    (memory : Bool) : ℤ × Option ℤ × DmMgr :=
  match dmMgrSearchDevByPkdn ctx productKey deviceName with
  | some node => (successReturn, some node.devid, ctx)
  | none =>
    if memory = false then (dmMemoryNotEnough, none, ctx)
    else
      (successReturn, some ctx.globalDevid,
        { globalDevid := toInt32 (ctx.globalDevid + 1)
          devList := ctx.devList ++
            [newDevNode ctx devType productKey deviceName deviceSecret] })

/-- The tests of the strings that `dm_mgr_device_create` is given. -/
def CreateArgs.valid (args : CreateArgs) : Option (CString × CString) :=
  match args.productKey, args.deviceName with
  | some productKey, some deviceName =>
    if productKey.strlen ≥ iotxProductKeyLen + 1 ∨ deviceName.strlen ≥ iotxDeviceNameLen + 1 ∨
        (∃ secret ∈ args.deviceSecret, secret.strlen ≥ iotxDeviceSecretLen + 1) then none
    else some (productKey, deviceName)
  | _, _ => none

def dmMgrDeviceCreate (args : CreateArgs) (memory : Bool) :
    ℤ × Option ℤ × DmMgr :=
  match args.valid with
  | none => (dmInvalidParameter, none, ctx)
  | some (productKey, deviceName) =>
    deviceCreate ctx args.devType productKey deviceName args.deviceSecret memory

def dmMgrDeviceDestroy (devid : ℤ) : ℤ × DmMgr :=
  if devid < 0 then (dmInvalidParameter, ctx)
  else
    match dmMgrSearchDevByDevid ctx devid with
    | none => (failReturn, ctx)
    | some node =>
      if node.devid = iotxDmLocalNodeDevid then (failReturn, ctx)
      else
        (successReturn,
          { ctx with devList := ctx.devList.eraseP fun node => node.devid = devid })

inductive RegistryOp
  | create (args : CreateArgs) (memory : Bool)
  | destroy (devid : ℤ)

def registryStep : RegistryOp → DmMgr
  | .create args memory => (dmMgrDeviceCreate ctx args memory).2.2
  | .destroy devid => (dmMgrDeviceDestroy ctx devid).2

/-- The devices that are seen from `devid` on by calls of `dm_mgr_get_next_devid`, each with
the id the call before has stored, and the value of the call that finds no next one. -/
def walkDevids (ctx : DmMgr) : ℕ → ℤ → List ℤ × Option ℤ
  | 0, _ => ([], none)
  | fuel + 1, devid =>
    match dmMgrGetNextDevid ctx devid true with
    | (_, some devidNext) =>
      (devidNext :: (walkDevids ctx fuel devidNext).1, (walkDevids ctx fuel devidNext).2)
    | (res, none) => ([], some res)

/-! ## What the operations do -/

/-- The outcomes of `dm_mgr_device_create`: it is refused, finds the device, or adds it. -/
inductive CreateOutcome (ctx : DmMgr) (args : CreateArgs) (memory : Bool) :
    ℤ × Option ℤ × DmMgr → Prop
  | refused (res : ℤ) (hres : res ≠ successReturn) : CreateOutcome ctx args memory (res, none, ctx)
  | found (node : DevNode) (hmem : node ∈ ctx.devList)
      (hvalid : args.valid = some (node.productKey, node.deviceName)) :
      CreateOutcome ctx args memory (successReturn, some node.devid, ctx)
  | added (productKey deviceName : CString) (hvalid : args.valid = some (productKey, deviceName))
      (hnew : dmMgrSearchDevByPkdn ctx productKey deviceName = none) (hmemory : memory = true) :
      CreateOutcome ctx args memory (successReturn, some ctx.globalDevid,
        ⟨toInt32 (ctx.globalDevid + 1), ctx.devList ++
          [newDevNode ctx args.devType productKey deviceName args.deviceSecret]⟩)

theorem create_outcome (args : CreateArgs) (memory : Bool) :
    CreateOutcome ctx args memory (dmMgrDeviceCreate ctx args memory) := by
  cases hvalid : args.valid with
  | none =>
    simp only [dmMgrDeviceCreate, hvalid]
    exact .refused dmInvalidParameter (by decide)
  | some names =>
    obtain ⟨productKey, deviceName⟩ := names
    simp only [dmMgrDeviceCreate, hvalid, deviceCreate]
    cases hsearch : dmMgrSearchDevByPkdn ctx productKey deviceName with
    | some node =>
      obtain ⟨rfl, rfl⟩ : node.productKey = productKey ∧ node.deviceName = deviceName := by
        simpa using List.find?_some hsearch
      exact .found node (mem_of_find?_eq_some hsearch) hvalid
    | none =>
      cases memory with
      | false => exact .refused dmMemoryNotEnough (by decide)
      | true => exact .added productKey deviceName hvalid hsearch rfl

/-- The outcomes of `dm_mgr_device_destroy`: the registry stays as it is, or loses the first
device with the id, which is not the local one. -/
theorem destroy_outcome (devid : ℤ) :
    (dmMgrDeviceDestroy ctx devid).2 = ctx ∨
      (devid ≠ iotxDmLocalNodeDevid ∧ (dmMgrDeviceDestroy ctx devid).2 =
        { ctx with devList := ctx.devList.eraseP fun node => node.devid = devid }) := by
  unfold dmMgrDeviceDestroy
  by_cases hneg : devid < 0
  · exact Or.inl (by rw [if_pos hneg])
  rw [if_neg hneg]
  cases hsearch : dmMgrSearchDevByDevid ctx devid with
  | none => exact .inl rfl
  | some node =>
    have hid : node.devid = devid := by simpa using List.find?_some hsearch
    by_cases hlocal : node.devid = iotxDmLocalNodeDevid
    · exact Or.inl (by simp only [if_pos hlocal])
    · exact Or.inr ⟨hid ▸ hlocal, by simp only [if_neg hlocal]⟩

/-! ## The invariant -/

/-- The product key and the name of a device. -/
def DevNode.names (node : DevNode) : CString × CString := (node.productKey, node.deviceName)

/-- The registry that started with the local node `loc`: that node is the first, no id and no
pair of names stands twice, and the ids are below the counter. -/
structure Registered (loc : DevNode) (ctx : DmMgr) : Prop where
  first : ∃ rest, ctx.devList = loc :: rest
  loc_devid : loc.devid = iotxDmLocalNodeDevid
  ids : (ctx.devList.map (·.devid)).Nodup
  names : (ctx.devList.map (·.names)).Nodup
  devid_bounds : ∀ node ∈ ctx.devList, 0 ≤ node.devid ∧ node.devid < ctx.globalDevid
  counter_le : ctx.globalDevid ≤ intMax

/-- The creation of a device that is not registered finds the counter below `INT_MAX`. -/
def RegistryAdmissible : RegistryOp → Prop
  | .create args memory => ∀ productKey deviceName, args.valid = some (productKey, deviceName) →
      dmMgrSearchDevByPkdn ctx productKey deviceName = none → memory = true →
      ctx.globalDevid < intMax
  | .destroy _ => True

variable {ctx : DmMgr}

theorem dmMgrInit_registered {mutex memory : Bool} {productKey deviceName : CString}
    (hinit : dmMgrInit mutex memory productKey deviceName = (successReturn, ctx)) :
    ∃ loc, ctx.devList = [loc] ∧ Registered loc ctx := by
  refine ⟨⟨0, 1, productKey, deviceName, emptyString, .unauthorized⟩, ?_⟩
  have hctx : ctx =
      ⟨1, [⟨0, 1, productKey, deviceName, emptyString, .unauthorized⟩]⟩ := by
    unfold dmMgrInit dmMgrInsertDev at hinit
    split_ifs at hinit <;> simp_all
  subst hctx
  refine ⟨rfl, ⟨[], rfl⟩, rfl, nodup_singleton _, nodup_singleton _, ?_, ?_⟩
  · simp
  · exact (by decide : (1 : ℤ) ≤ intMax)

variable {loc : DevNode}

theorem Registered.create (h : Registered loc ctx) {args : CreateArgs} {memory : Bool}
    (hok : RegistryAdmissible ctx (.create args memory)) :
    Registered loc (registryStep ctx (.create args memory)) := by
  have hout := create_outcome ctx args memory
  simp only [registryStep]
  generalize dmMgrDeviceCreate ctx args memory = out at hout ⊢
  cases hout with
  | refused res _ => exact h
  | found node _ _ => exact h
  | added productKey deviceName hvalid hnew hmemory =>
    have hlt := hok productKey deviceName hvalid hnew hmemory
    obtain ⟨rest, hrest⟩ := h.first
    have hpos : 0 < ctx.globalDevid := by
      have := h.devid_bounds loc (by simp [hrest])
      omega
    have hnext : toInt32 (ctx.globalDevid + 1) = ctx.globalDevid + 1 :=
      toInt32_of_bounds (by omega) (by unfold intMax at hlt; omega)
    have hnames : ∀ node ∈ ctx.devList, node.names ≠ (productKey, deviceName) := by
      intro node hmem heq
      have := List.find?_eq_none.mp hnew node hmem
      exact this (by simpa [DevNode.names] using heq)
    refine ⟨⟨rest ++ [newDevNode ctx args.devType productKey deviceName args.deviceSecret], ?_⟩,
      h.loc_devid, ?_, ?_, ?_, ?_⟩
    · simp [hrest]
    · simp only [map_append, nodup_append]
      refine ⟨h.ids, by simp, ?_⟩
      simpa [newDevNode] using fun node hmem => (h.devid_bounds node hmem).2.ne
    · simp only [map_append, nodup_append]
      refine ⟨h.names, by simp, ?_⟩
      simpa [newDevNode, DevNode.names] using hnames
    · intro node hmem
      simp only [hnext]
      rcases mem_append.mp hmem with hmem | hmem
      · have := h.devid_bounds node hmem
        omega
      · rw [mem_singleton.mp hmem]
        exact ⟨hpos.le, Int.lt_succ _⟩
    · simp only [hnext]
      omega

theorem Registered.destroy (h : Registered loc ctx) (devid : ℤ) :
    Registered loc (registryStep ctx (.destroy devid)) := by
  simp only [registryStep]
  rcases destroy_outcome ctx devid with heq | ⟨hlocal, heq⟩
  · rwa [heq]
  rw [heq]
  have hsub : (ctx.devList.eraseP fun node => node.devid = devid).Sublist ctx.devList :=
    eraseP_sublist
  obtain ⟨rest, hrest⟩ := h.first
  refine ⟨⟨rest.eraseP fun node => node.devid = devid, ?_⟩, h.loc_devid,
    h.ids.sublist (hsub.map _), h.names.sublist (hsub.map _),
    fun node hmem => h.devid_bounds node (hsub.subset hmem), h.counter_le⟩
  rw [hrest, eraseP_cons_of_neg]
  rw [h.loc_devid]
  simpa using hlocal.symm

theorem Registered.step (ctx : DmMgr) (op : RegistryOp) (h : Registered loc ctx)
    (hok : RegistryAdmissible ctx op) : Registered loc (registryStep ctx op) := by
  cases op with
  | create args memory => exact h.create hok
  | destroy devid => exact h.destroy devid

theorem registered_run (ops : List RegistryOp) (h : Registered loc ctx)
    (hok : AllSteps registryStep RegistryAdmissible ctx ops) :
    Registered loc (ops.foldl registryStep ctx) :=
  inv_of_allSteps Registered.step ops h hok

theorem Registered.globalDevid_le_step (h : Registered loc ctx) {op : RegistryOp}
    (hok : RegistryAdmissible ctx op) : ctx.globalDevid ≤ (registryStep ctx op).globalDevid := by
  cases op with
  | create args memory =>
    have hout := create_outcome ctx args memory
    simp only [registryStep]
    generalize dmMgrDeviceCreate ctx args memory = out at hout ⊢
    cases hout with
    | refused res _ => exact le_refl _
    | found node _ _ => exact le_refl _
    | added productKey deviceName hvalid hnew hmemory =>
      have hlt := hok productKey deviceName hvalid hnew hmemory
      obtain ⟨rest, hrest⟩ := h.first
      have hpos := h.devid_bounds loc (by simp [hrest])
      simp only
      rw [toInt32_of_bounds (by omega) (by unfold intMax at hlt; omega)]
      omega
  | destroy devid =>
    simp only [registryStep]
    rcases destroy_outcome ctx devid with heq | ⟨-, heq⟩ <;> rw [heq]

/-- Every id that stands in the list now is below the counter at all later times. -/
theorem Registered.globalDevid_le_run (h : Registered loc ctx) (ops : List RegistryOp)
    (hok : AllSteps registryStep RegistryAdmissible ctx ops) :
    ctx.globalDevid ≤ (ops.foldl registryStep ctx).globalDevid := by
  induction ops generalizing ctx with
  | nil => exact le_refl _
  | cons op ops ih =>
    exact (h.globalDevid_le_step hok.1).trans (ih (h.step ctx op hok.1) hok.2)

/-! ## The walk by ids -/

theorem nextDevidLoop_found (node : DevNode) (rest : List DevNode) :
    nextDevidLoop node.devid (some node) rest = rest.head?.map (·.devid) := by
  cases rest with
  | nil => rfl
  | cons next rest => simp [nextDevidLoop]

variable {node : DevNode}

theorem nextDevidLoop_of_split {before rest : List DevNode}
    (hids : ((before ++ node :: rest).map (·.devid)).Nodup) :
    nextDevidLoop node.devid none (before ++ node :: rest) = rest.head?.map (·.devid) := by
  induction before with
  | nil =>
    rw [nil_append, nextDevidLoop]
    simpa using nextDevidLoop_found node rest
  | cons first before ih =>
    rw [cons_append, map_cons, nodup_cons] at hids
    have hne : first.devid ≠ node.devid := by
      intro heq
      exact hids.1 (by simp [heq])
    rw [cons_append, nextDevidLoop]
    simpa [hne] using ih hids.2

/-- The walk from `node` sees the devices behind it and then reports the end. -/
theorem walkDevids_of_split {before rest : List DevNode}
    (hlist : ctx.devList = before ++ node :: rest) (hids : (ctx.devList.map (·.devid)).Nodup)
    (hpos : ∀ node ∈ ctx.devList, 0 ≤ node.devid) {fuel : ℕ} (hfuel : rest.length < fuel) :
    walkDevids ctx fuel node.devid = (rest.map (·.devid), some failReturn) := by
  induction rest generalizing before node fuel with
  | nil =>
    obtain ⟨fuel, rfl⟩ : ∃ k, fuel = k + 1 := ⟨fuel - 1, by simp at hfuel; omega⟩
    have hnext : nextDevidLoop node.devid none ctx.devList = none := by
      rw [hlist] at hids ⊢
      exact nextDevidLoop_of_split hids
    have hnn : ¬ node.devid < 0 := not_lt.mpr (hpos node (by simp [hlist]))
    simp [walkDevids, dmMgrGetNextDevid, hnn, hnext]
  | cons next rest ih =>
    obtain ⟨fuel, rfl⟩ : ∃ k, fuel = k + 1 := ⟨fuel - 1, by simp at hfuel; omega⟩
    have hnext : nextDevidLoop node.devid none ctx.devList = some next.devid := by
      rw [hlist] at hids ⊢
      exact nextDevidLoop_of_split hids
    have hnn : ¬ node.devid < 0 := not_lt.mpr (hpos node (by simp [hlist]))
    have hlist' : ctx.devList = (before ++ [node]) ++ next :: rest := by simp [hlist]
    have htail := ih hlist' (Nat.lt_of_succ_lt_succ hfuel)
    simp [walkDevids, dmMgrGetNextDevid, hnn, hnext, htail]

theorem Registered.walk (h : Registered loc ctx) {fuel : ℕ} (hfuel : ctx.devList.length ≤ fuel) :
    ∃ seen, walkDevids ctx fuel iotxDmLocalNodeDevid = (seen, some failReturn) ∧ seen.Nodup ∧
      ∀ devid, devid ∈ seen ↔
        devid ≠ iotxDmLocalNodeDevid ∧ ∃ node ∈ ctx.devList, node.devid = devid := by
  obtain ⟨rest, hrest⟩ := h.first
  have hids := h.ids
  rw [hrest, map_cons, nodup_cons] at hids
  refine ⟨rest.map (·.devid), ?_, hids.2, ?_⟩
  · rw [← h.loc_devid]
    have hsplit : ctx.devList = [] ++ loc :: rest := hrest
    refine walkDevids_of_split hsplit h.ids (fun node hmem => (h.devid_bounds node hmem).1) ?_
    rw [hrest, length_cons] at hfuel
    omega
  · intro devid
    rw [hrest, ← h.loc_devid]
    constructor
    · intro hmem
      obtain ⟨node, hnode, rfl⟩ := mem_map.mp hmem
      exact ⟨fun heq => hids.1 (heq ▸ hmem), node, mem_cons_of_mem _ hnode, rfl⟩
    · rintro ⟨hne, node, hnode, rfl⟩
      rcases mem_cons.mp hnode with rfl | hnode
      · exact absurd rfl hne
      · exact mem_map_of_mem hnode

/-! ## The registry over a run -/

theorem Registered.create_existing (h : Registered loc ctx) (hmem : node ∈ ctx.devList)
    {args : CreateArgs} (memory : Bool) (hvalid : args.valid = some node.names) :
    dmMgrDeviceCreate ctx args memory = (successReturn, some node.devid, ctx) := by
  unfold dmMgrDeviceCreate deviceCreate
  rw [hvalid]
  cases hsearch : dmMgrSearchDevByPkdn ctx node.productKey node.deviceName with
  | none =>
    exact absurd (by simp) (List.find?_eq_none.mp hsearch node hmem)
  | some node' =>
    have hsame : node'.names = node.names := by
      simpa [DevNode.names] using List.find?_some hsearch
    obtain rfl := inj_on_of_nodup_map h.names (mem_of_find?_eq_some hsearch) hmem hsame
    simp [DevNode.names, hsearch]

/-- **The device registry.**  In every run in which new devices are created only below `INT_MAX`: no
id and no pair of product key and name stands twice; a new id was never that of another device; a
registered device is found again, and nothing is added; the local node stays; a creation that fails
changes nothing; and the walk from the local node sees every other device once and then reports the
end. -/
theorem device_registry (mutex memory : Bool) (productKey deviceName : CString) (ctx₀ : DmMgr)
    (hinit : dmMgrInit mutex memory productKey deviceName = (successReturn, ctx₀))
    (before ops : List RegistryOp)
    (hok : AllSteps registryStep RegistryAdmissible ctx₀ (before ++ ops)) :
    let earlier := before.foldl registryStep ctx₀
    let ctx := ops.foldl registryStep earlier
    ((ctx.devList.map (·.devid)).Nodup ∧ (ctx.devList.map (·.names)).Nodup) ∧
      (∀ args memory devid ctx',
        dmMgrDeviceCreate ctx args memory = (successReturn, some devid, ctx') →
        ctx'.devList ≠ ctx.devList → ∀ node ∈ earlier.devList, devid ≠ node.devid) ∧
      (∀ node ∈ ctx.devList, ∀ args memory, args.valid = some node.names →
        dmMgrDeviceCreate ctx args memory = (successReturn, some node.devid, ctx)) ∧
      (∃ loc ∈ ctx.devList, ctx₀.devList = [loc] ∧ loc.devid = iotxDmLocalNodeDevid) ∧
      (∀ args memory, (dmMgrDeviceCreate ctx args memory).1 ≠ successReturn →
        (dmMgrDeviceCreate ctx args memory).2.2 = ctx) ∧
      (∀ fuel, ctx.devList.length ≤ fuel →
        ∃ seen, walkDevids ctx fuel iotxDmLocalNodeDevid = (seen, some failReturn) ∧
          seen.Nodup ∧ ∀ devid, devid ∈ seen ↔
            devid ≠ iotxDmLocalNodeDevid ∧ ∃ node ∈ ctx.devList, node.devid = devid) := by
  intro earlier ctx
  rw [allSteps_append] at hok
  obtain ⟨loc, hsingle, hstart⟩ := dmMgrInit_registered hinit
  have hearlier : Registered loc earlier := registered_run before hstart hok.1
  have hreg : Registered loc ctx := registered_run ops hearlier hok.2
  refine ⟨⟨hreg.ids, hreg.names⟩, ?_, fun node hmem args memory => hreg.create_existing hmem memory,
    ?_, ?_, fun fuel hfuel => hreg.walk hfuel⟩
  · intro args memory devid ctx' hcreate hgrown node hnode
    have hout := create_outcome ctx args memory
    rw [hcreate] at hout
    cases hout with
    | found node' _ _ => exact absurd rfl hgrown
    | added productKey deviceName _ _ _ =>
      have hbefore := (hearlier.devid_bounds node hnode).2
      have hcounter := hearlier.globalDevid_le_run ops hok.2
      exact (hbefore.trans_le hcounter).ne'
  · obtain ⟨rest, hrest⟩ := hreg.first
    exact ⟨loc, by rw [hrest]; exact mem_cons_self, hsingle, hreg.loc_devid⟩
  · intro args memory hfail
    have hout := create_outcome ctx args memory
    generalize dmMgrDeviceCreate ctx args memory = out at hout hfail ⊢
    cases hout with
    | refused res _ => rfl
    | found node _ _ => rfl
    | added productKey deviceName _ _ _ => exact absurd rfl hfail

/-- The names of the devices of the runs below. -/
def shortName (c : UInt8) (h : 0 ≠ c) : CString := ⟨[c], by simpa using h⟩

/-- The creation of a sub-device whose product key is one character long. -/
def createSubdev (c : UInt8) (h : 0 ≠ c) : RegistryOp :=
  .create ⟨2, some (shortName c h), some (shortName 110 (by decide)), none⟩ true

def localOnly (globalDevid : ℤ) : DmMgr :=
  ⟨globalDevid, [⟨0, 1, shortName 107 (by decide), shortName 110 (by decide), emptyString,
    .unauthorized⟩]⟩

/-- Two devices are created, the first one is destroyed and created again: the local node
and the two devices stand in the list, the one created again with an id of its own. -/
theorem device_registry_recreated :
    let ops : List RegistryOp :=
      [createSubdev 97 (by decide), createSubdev 98 (by decide), .destroy 1,
        createSubdev 97 (by decide)]
    let ctx := ops.foldl registryStep (localOnly 1)
    ctx.devList.map (·.devid) = [0, 2, 3] ∧ (ctx.devList.map (·.names)).Nodup := by
  intro ops ctx
  have hinit : dmMgrInit true true (shortName 107 (by decide)) (shortName 110 (by decide)) =
      (successReturn, localOnly 1) := rfl
  refine ⟨rfl, (device_registry true true _ _ (localOnly 1) hinit [] ops ?_).1.2⟩
  exact ⟨fun _ _ _ _ _ => by decide, fun _ _ _ _ _ => by decide, trivial,
    fun _ _ _ _ _ => by decide, trivial⟩

/-- A sub-device is created and destroyed again, `k` times. -/
def createCycles (k : ℕ) : List RegistryOp :=
  (List.range k).flatMap fun i => [createSubdev 97 (by decide), .destroy (i + 1)]

theorem createCycle_run (globalDevid : ℤ) (hlow : 0 < globalDevid) :
    [createSubdev 97 (by decide), .destroy globalDevid].foldl registryStep
      (localOnly globalDevid) = localOnly (toInt32 (globalDevid + 1)) := by
  have hcreate : registryStep (localOnly globalDevid) (createSubdev 97 (by decide)) =
      ⟨toInt32 (globalDevid + 1), (localOnly globalDevid).devList ++
        [⟨globalDevid, 2, shortName 97 (by decide), shortName 110 (by decide), emptyString,
          .authorized⟩]⟩ := rfl
  rw [foldl_cons, hcreate]
  have hne : globalDevid ≠ 0 := hlow.ne'
  simp [registryStep, dmMgrDeviceDestroy, dmMgrSearchDevByDevid, localOnly, hne.symm, hne,
    not_lt.mpr hlow.le]

theorem createCycles_run (k : ℕ) (hk : k < 2 ^ 31) :
    (createCycles k).foldl registryStep (localOnly 1) = localOnly (toInt32 (k + 1)) := by
  induction k with
  | zero => rfl
  | succ k ih =>
    have hcounter : toInt32 (k + 1) = k + 1 := toInt32_of_bounds (by omega) (by omega)
    have hcycles : createCycles (k + 1) =
        createCycles k ++ [createSubdev 97 (by decide), .destroy (k + 1)] := by
      simp [createCycles, range_succ]
    rw [hcycles, foldl_append, ih (by omega), hcounter,
      createCycle_run _ (by omega)]
    push_cast
    rfl

/-- After 2 ^ 31 - 1 devices have been created and destroyed the counter has run over: two
devices that are created then have negative ids, the walk from the local node sees only the
first of them, and that one cannot be destroyed. -/
theorem device_registry_overflow :
    dmMgrInit true true (shortName 107 (by decide)) (shortName 110 (by decide)) =
        (successReturn, localOnly 1) ∧
      (let ctx := (createCycles (2 ^ 31 - 1) ++
          [createSubdev 97 (by decide), createSubdev 98 (by decide)]).foldl registryStep (localOnly 1)
       ctx.devList.map (·.devid) = [0, -2 ^ 31, -2 ^ 31 + 1] ∧
        walkDevids ctx 3 iotxDmLocalNodeDevid = ([-2 ^ 31], some dmInvalidParameter) ∧
        (dmMgrDeviceDestroy ctx (-2 ^ 31)).1 = dmInvalidParameter) := by
  refine ⟨rfl, ?_⟩
  have hcounter : toInt32 (((2 ^ 31 - 1 : ℕ) : ℤ) + 1) = -2 ^ 31 := by decide
  rw [foldl_append, createCycles_run _ (by norm_num), hcounter]
  exact ⟨rfl, rfl, rfl⟩

end Iotkit.Dm
