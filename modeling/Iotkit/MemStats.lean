/-
# Memory statistics (`infra_mem_stats.c`)

With `INFRA_MEM_STATS` every allocation has a record and is counted twice, in the counters of
the program and in those of a table of its module, which is created when it is first needed.
A record keeps a pointer to the table.  A dump of the statistics prints the tables and frees
them.

Addresses are numbers that are given out once, so that a pointer to memory that was freed is
never taken for one to memory that was allocated later.
-/
import Iotkit.GuardedRun
import Iotkit.LibC

namespace Iotkit.Mem

open GuardedRun LibC List Function

/-! ## Counters, tables and records -/

/-- The counters of the program, and of a `mem_statis_t`; they are of type `int`. -/
structure MemCounters where
  bytesTotalAllocated : ℤ
  bytesTotalFreed : ℤ
  bytesTotalInUse : ℤ
  bytesMaxAllocated : ℤ
  bytesMaxInUse : ℤ
  iterationsAllocated : ℤ
  iterationsFreed : ℤ
  iterationsInUse : ℤ
  iterationsMaxInUse : ℤ
  deriving DecidableEq

def MemCounters.zero : MemCounters := ⟨0, 0, 0, 0, 0, 0, 0, 0, 0⟩

/-- An allocation of `size` bytes is counted. -/
def MemCounters.allocate (c : MemCounters) (size : ℤ) : MemCounters :=
  let bytes := toInt32 (c.bytesTotalInUse + size)
  let iterations := toInt32 (c.iterationsInUse + 1)
  { c with
    iterationsAllocated := toInt32 (c.iterationsAllocated + 1)
    bytesTotalAllocated := toInt32 (c.bytesTotalAllocated + size)
    bytesTotalInUse := bytes
    bytesMaxInUse := if c.bytesMaxInUse > bytes then c.bytesMaxInUse else bytes
    bytesMaxAllocated := if c.bytesMaxAllocated ≥ size then c.bytesMaxAllocated else size
    iterationsInUse := iterations
    iterationsMaxInUse :=
      if iterations > c.iterationsMaxInUse then iterations else c.iterationsMaxInUse }

/-- A release of `buflen` bytes is counted. -/
def MemCounters.release (c : MemCounters) (buflen : ℤ) : MemCounters :=
  { c with
    iterationsFreed := toInt32 (c.iterationsFreed + 1)
    iterationsInUse := toInt32 (c.iterationsInUse - 1)
    bytesTotalFreed := toInt32 (c.bytesTotalFreed + buflen)
    bytesTotalInUse := toInt32 (c.bytesTotalInUse - buflen) }

/-- A `calling_stack_t`. -/
structure CallingStack where
  funcName : Option Bytes
  line : ℤ
  deriving DecidableEq

/-- A `module_mem_t` at the address `addr`. -/
structure ModuleMem where
  addr : ℕ
  moduleName : Bytes
  callingStack : List CallingStack
  memStatis : MemCounters
  deriving DecidableEq

/-- An `OS_malloc_record`. -/
structure MallocRecord where
  buf : ℕ
  buflen : ℤ
  func : Bytes
  line : ℤ
  memTable : Option ℕ
  deriving DecidableEq

/-- The variables of the file, the contents of the memory that is allocated through it, and
whether memory was used that may not be: a null pointer, or a table that is freed. -/
structure MemStats where
  memRecs : List MallocRecord
  memModuleStatis : List ModuleMem
  counters : MemCounters
  loglevel : ℤ
  heap : ℕ → Option Bytes
  fresh : ℕ
  faulted : Bool

def memStatsStart (loglevel : ℤ) : MemStats := ⟨[], [], .zero, loglevel, fun _ => none, 0, false⟩

/-- Whether `HAL_Malloc` has memory for the buffer, the record, a table, an entry of a calling
stack and the name in it. -/
structure MallocEnv where
  buf : Bool
  record : Bool
  table : Bool
  entry : Bool
  name : Bool

/-- The arguments of an allocation: the caller, the size, and the variadic ones. -/
structure MallocCall where
  func : Bytes
  line : ℤ
  size : ℤ
  magic : Bool
  moduleName : Option Bytes

/-- The text `unknown`. -/
def unknownText : Bytes := [0x75, 0x6e, 0x6b, 0x6e, 0x6f, 0x77, 0x6e]

/-- The module that an allocation is counted for; only with `MEM_MAGIC` has it a name. -/
def MallocCall.module (call : MallocCall) : Option Bytes :=
  if call.magic then call.moduleName else some unknownText

/-! ## Allocation -/

def findMemTable (moduleName : Option Bytes) (tables : List ModuleMem) :
    Option ModuleMem :=
  match moduleName with
  | none => none
  | some name => tables.find? (·.moduleName = name)

variable (env : MallocEnv)

/-- `_create_mem_table`; a name has room for 31 bytes. -/
def createMemTable (addr : ℕ) (moduleName : Option Bytes) :
    Option ModuleMem :=
  match moduleName with
  | none => none
  | some name => if env.table then some ⟨addr, name.take 31, [], .zero⟩ else none

/-- The table of a module, the one that there is or else a new one, and the tables with it. -/
def ensureTable (addr : ℕ) (moduleName : Option Bytes) (tables : List ModuleMem) :
    Option (ModuleMem × List ModuleMem) :=
  match findMemTable moduleName tables with
  | some table => some (table, tables)
  | none => (createMemTable env addr moduleName).map fun table => (table, tables ++ [table])

def liteStrdup (src : Bytes) : Option Bytes :=
  if 1024 < src.length + 1 then none else if env.name then some src else none

/-- Whether the caller is in a calling stack; nothing, when a null name is compared first. -/
def isRepeat (func : Bytes) (line : ℤ) : List CallingStack → Option Bool
  | [] => some false
  | call :: rest =>
    match call.funcName with
    | none => none
    | some name => if name = func ∧ call.line = line then some true else isRepeat func line rest

/-- How the caller is entered in the calling stack of its table. -/
inductive Entry where
  | fault
  | noMemory
  | entered (table : ModuleMem)

/-- Only the table of the module `unknown` has a calling stack. -/
def enterCaller (call : MallocCall) (table : ModuleMem) : Entry :=
  if table.moduleName ≠ unknownText then .entered table
  else
    match isRepeat call.func call.line table.callingStack with
    | none => .fault
    | some true => .entered table
    | some false =>
      if env.entry then
        .entered { table with
            callingStack := ⟨liteStrdup env call.func, call.line⟩ :: table.callingStack }
      else .noMemory

/-- The table at an address is changed. -/
def updateTable (tables : List ModuleMem) (changed : ModuleMem) : List ModuleMem :=
  tables.map fun table => if table.addr = changed.addr then changed else table

variable (s : MemStats)

/-- `_count_malloc_internal`: the pointer that the record gets, and the state.  Its return value
is not used. -/
def countMallocInternal (call : MallocCall) :
    Option ℕ × MemStats :=
  match ensureTable env s.fresh call.module s.memModuleStatis with
  | none => (none, s)
  | some (table, tables) =>
    let s := { s with memModuleStatis := tables, fresh := s.fresh + 1 }
    match enterCaller env call table with
    | .fault => (some table.addr, { s with faulted := true })
    | .noMemory => (some table.addr, s)
    | .entered table =>
      (some table.addr,
        { s with
          memModuleStatis :=
            updateTable tables { table with memStatis := table.memStatis.allocate call.size } })

def liteMallocInternal (call : MallocCall) :
    Option ℕ × MemStats :=
  if call.size ≤ 0 then (none, s)
  else if env.buf = false then (none, s)
  else
    let ptr := s.fresh
    let s := { s with fresh := ptr + 1, counters := s.counters.allocate call.size }
    -- without memory for the record the buffer is freed, and the counters stay
    if env.record = false then (none, s)
    else
      match countMallocInternal env s call with
      | (table, s) =>
        (some ptr,
          { s with
            memRecs := s.memRecs ++ [⟨ptr, call.size, call.func, call.line, table⟩]
            heap := update s.heap ptr (some (List.replicate call.size.toNat 0)) })

/-! ## Release -/

def countFreeInternal (pos : MallocRecord) : MemStats :=
  match pos.memTable with
  | none => s
  | some addr =>
    match s.memModuleStatis.find? (·.addr = addr) with
    | none => { s with faulted := true }
    | some table =>
      { s with
        memModuleStatis := updateTable s.memModuleStatis
          { table with memStatis := table.memStatis.release pos.buflen } }

/-- `LITE_free_internal`.  Memory that has no record is left allocated. -/
def liteFreeInternal (ptr : Option ℕ) : MemStats :=
  match ptr with
  | none => s
  | some ptr =>
    match s.memRecs.find? (·.buf = ptr) with
    | none => s
    | some pos =>
      let s := countFreeInternal { s with counters := s.counters.release pos.buflen } pos
      { s with
        memRecs := s.memRecs.eraseP (·.buf = ptr)
        heap := update s.heap ptr none }

/-! ## Reallocation and dump -/

/-- The bytes that `memcpy` reads: those of the memory and what stands behind them. -/
def readBytes (block : Bytes) (beyond : Memory) (n : ℕ) : Bytes :=
  (List.range n).map fun i => block.getD i (beyond i)

/-- What `LITE_realloc_internal` returns and leaves, with the state after its allocation. -/
structure ReallocResult where
  ret : Option ℕ
  malloced : MemStats
  after : MemStats

def liteReallocInternal (call : MallocCall) (ptr : Option ℕ) (beyond : Memory) : ReallocResult :=
  if call.size ≤ 0 then ⟨none, s, s⟩
  else
    match liteMallocInternal env s call with
    | (none, malloced) => ⟨none, malloced, malloced⟩
    | (some temp, malloced) =>
      match ptr with
      | none => ⟨some temp, malloced, malloced⟩
      | some old =>
        let copy := readBytes ((malloced.heap old).getD []) beyond call.size.toNat
        ⟨some temp, malloced,
          liteFreeInternal
            { malloced with heap := update malloced.heap temp (some copy) } (some old)⟩

/-- `LITE_dump_malloc_free_stats`.  The order in which it sorts the tables does not matter: it
frees them all. -/
def liteDumpMallocFreeStats (level : ℤ) : MemStats :=
  if level > s.loglevel then s else { s with memModuleStatis := [] }

/-! ## Runs -/

/-- A call, or a write of the user to memory of its own. -/
inductive MemOp where
  | malloc (env : MallocEnv) (call : MallocCall)
  | realloc (env : MallocEnv) (call : MallocCall) (ptr : Option ℕ) (beyond : Memory)
  | free (ptr : Option ℕ)
  | dump (level : ℤ)
  | setLoglevel (pri : ℤ)
  | write (ptr : ℕ) (data : Bytes)

/-- The size is converted to `int`. -/
def MallocCall.converted (call : MallocCall) : MallocCall := { call with size := toInt32 call.size }

def memStep : MemOp → MemStats
  | .malloc env call => (liteMallocInternal env s call.converted).2
  | .realloc env call ptr beyond => (liteReallocInternal env s call.converted ptr beyond).after
  | .free ptr => liteFreeInternal s ptr
  | .dump level => liteDumpMallocFreeStats s level
  | .setLoglevel pri => { s with loglevel := pri }
  | .write ptr data =>
    if (s.heap ptr).map List.length = some data.length then
      { s with heap := update s.heap ptr (some data) }
    else s

/-! ## The counters are those of the records -/

/-- The bytes that records stand for. -/
def bytesIn (recs : List MallocRecord) : ℤ := (recs.map (·.buflen)).sum

/-- The records of the table at an address. -/
def recordsOf (addr : ℕ) (recs : List MallocRecord) : List MallocRecord :=
  recs.filter (·.memTable = some addr)

/-- The counters in use are the sums over the records, for the program and for every table, and
all records belong to a table. -/
structure Accounted (s : MemStats) : Prop where
  bytes : s.counters.bytesTotalInUse = bytesIn s.memRecs
  iterations : s.counters.iterationsInUse = s.memRecs.length
  modules : ∀ table ∈ s.memModuleStatis,
    table.memStatis.bytesTotalInUse = bytesIn (recordsOf table.addr s.memRecs) ∧
      table.memStatis.iterationsInUse = (recordsOf table.addr s.memRecs).length
  tables : ∀ pos ∈ s.memRecs, ∃ table ∈ s.memModuleStatis, pos.memTable = some table.addr
  faulted : s.faulted = false

/-- All counters are as they were. -/
def SameCounters (s' : MemStats) : Prop :=
  s'.counters = s.counters ∧ s'.memModuleStatis = s.memModuleStatis

/-- A reallocation copies what both the old and the new memory have room for, and reads nothing
else. -/
def CopiesBlock (size : ℤ) (old new : ℕ) (s' : MemStats) : Prop :=
  ∃ block copy, s.heap old = some block ∧ s'.heap new = some copy ∧
    size.toNat ≤ block.length ∧ copy.length = size.toNat ∧
    copy.take (min block.length size.toNat) = block.take (min block.length size.toNat)

/-- What the accounting promises of a call. -/
def Accounts : MemOp → Prop
  | .malloc env call =>
    let r := liteMallocInternal env s call.converted
    Accounted r.2 ∧ (r.1 = none → SameCounters s r.2)
  | .realloc env call ptr beyond =>
    let r := liteReallocInternal env s call.converted ptr beyond
    Accounted r.malloced ∧ Accounted r.after ∧ (r.ret = none → SameCounters s r.after) ∧
      ∀ new ∈ r.ret, ∀ old ∈ ptr, CopiesBlock s (toInt32 call.size) old new r.after
  | op => Accounted (memStep s op)

/-- The record of an allocation can be allocated, and its table and the entry of its caller too
where they are needed; no null name is compared; and the bytes in use can be counted. -/
def CanAccount (call : MallocCall) : Prop :=
  0 < call.size → env.buf = true →
    env.record = true ∧ bytesIn s.memRecs + call.size < 2 ^ 31 ∧
      ∃ found ∈ ensureTable env (s.fresh + 1) call.module s.memModuleStatis,
        ∃ table, enterCaller env call found.1 = .entered table

/-- The memory that is reallocated has room for the new size, and nothing is in use when the
tables are dumped. -/
def AccountOk : MemOp → Prop
  | .malloc env call => CanAccount env s call.converted
  | .realloc env call ptr _ =>
    CanAccount env s call.converted ∧
      ∀ old ∈ ptr, 0 < toInt32 call.size → env.buf = true →
        ∃ block ∈ s.heap old, (toInt32 call.size).toNat ≤ block.length
  | .dump level => s.loglevel < level ∨ s.memRecs = []
  | .free _ => True
  | .setLoglevel _ => True
  | .write _ _ => True

/-! ## Counters and tables -/

theorem toInt32_modEq (x : ℤ) : toInt32 x ≡ x [ZMOD 2 ^ 32] := Int.bmod_emod

theorem toInt32_lt (x : ℤ) : toInt32 x < 2 ^ 31 := by
  have hlt : toInt32 x < ((2 ^ 32 : ℕ) + 1) / 2 := Int.bmod_lt (by norm_num)
  norm_num at hlt ⊢
  exact hlt

theorem toInt32_eq_iff {x : ℤ} (hpos : 0 ≤ x) : toInt32 x = x ↔ x < 2 ^ 31 :=
  ⟨fun h => h ▸ toInt32_lt x, toInt32_of_bounds hpos⟩

theorem toInt32_add_ne {x n : ℤ} (hpos : 0 < n) (hlt : n < 2 ^ 31) : toInt32 (x + n) ≠ x := by
  intro h
  have hmod : x ≡ x + n [ZMOD 2 ^ 32] := by
    simpa [h] using toInt32_modEq (x + n)
  have hdvd : (2 ^ 32 : ℤ) ∣ n := by simpa using hmod.dvd
  have := Int.le_of_dvd hpos hdvd
  omega

@[simp] theorem bytesIn_append (recs others : List MallocRecord) :
    bytesIn (recs ++ others) = bytesIn recs + bytesIn others := by
  simp [bytesIn]

@[simp] theorem bytesIn_cons (pos : MallocRecord) (recs : List MallocRecord) :
    bytesIn (pos :: recs) = pos.buflen + bytesIn recs := by
  simp [bytesIn]

@[simp] theorem bytesIn_nil : bytesIn [] = 0 := rfl

@[simp] theorem recordsOf_append (addr : ℕ) (recs others : List MallocRecord) :
    recordsOf addr (recs ++ others) = recordsOf addr recs ++ recordsOf addr others :=
  filter_append ..

theorem length_le_bytesIn {recs : List MallocRecord} (h : ∀ pos ∈ recs, 0 < pos.buflen) :
    (recs.length : ℤ) ≤ bytesIn recs := by
  induction recs with
  | nil => exact le_rfl
  | cons pos recs ih =>
    have hpos := h pos mem_cons_self
    have hrest := ih fun other hother => h other (mem_cons_of_mem _ hother)
    rw [bytesIn_cons, length_cons]
    omega

theorem bytesIn_recordsOf_le (addr : ℕ) {recs : List MallocRecord}
    (h : ∀ pos ∈ recs, 0 < pos.buflen) : bytesIn (recordsOf addr recs) ≤ bytesIn recs := by
  induction recs with
  | nil => exact le_rfl
  | cons pos recs ih =>
    have hpos := h pos mem_cons_self
    have hrest := ih fun other hother => h other (mem_cons_of_mem _ hother)
    rw [recordsOf, filter_cons]
    split_ifs
    · rw [bytesIn_cons, bytesIn_cons]
      exact Int.add_le_add_left hrest _
    · rw [bytesIn_cons]
      exact hrest.trans (by omega)

variable {table : ModuleMem}

theorem mem_updateTable {tables : List ModuleMem} {changed : ModuleMem}
    (h : table ∈ updateTable tables changed) :
    table = changed ∨ (table ∈ tables ∧ table.addr ≠ changed.addr) := by
  obtain ⟨old, hold, heq⟩ := mem_map.mp h
  split_ifs at heq with haddr
  · exact .inl heq.symm
  · subst heq
    exact .inr ⟨hold, haddr⟩

theorem addrs_updateTable (tables : List ModuleMem) (changed : ModuleMem) :
    (updateTable tables changed).map (·.addr) = tables.map (·.addr) := by
  rw [updateTable, map_map]
  apply map_congr_left
  intro table _
  show (if table.addr = changed.addr then changed else table).addr = table.addr
  split_ifs with haddr
  · exact haddr.symm
  · rfl

theorem enterCaller_entered {env : MallocEnv} {call : MallocCall} {entered : ModuleMem}
    (h : enterCaller env call table = .entered entered) :
    entered.addr = table.addr ∧ entered.memStatis = table.memStatis := by
  unfold enterCaller at h
  by_cases hunknown : table.moduleName ≠ unknownText
  · rw [if_pos hunknown] at h
    obtain rfl := Entry.entered.inj h
    exact ⟨rfl, rfl⟩
  rw [if_neg hunknown] at h
  cases hrepeat : isRepeat call.func call.line table.callingStack with
  | none => simp [hrepeat] at h
  | some found =>
    cases found <;> simp only [hrepeat] at h
    · split_ifs at h
      obtain rfl := Entry.entered.inj h
      exact ⟨rfl, rfl⟩
    · obtain rfl := Entry.entered.inj h
      exact ⟨rfl, rfl⟩

/-- The table of a module is one of the tables or a new one, with counters at zero. -/
theorem ensureTable_spec {env : MallocEnv} {addr : ℕ} {moduleName : Option Bytes}
    {tables tables' : List ModuleMem}
    (h : ensureTable env addr moduleName tables = some (table, tables')) :
    table ∈ tables' ∧ (tables' = tables ∨
      (tables' = tables ++ [table] ∧ table.addr = addr ∧ table.memStatis = .zero)) := by
  unfold ensureTable at h
  split at h
  next found hfound =>
    obtain ⟨rfl, rfl⟩ := Prod.mk.inj (Option.some.inj h)
    refine ⟨?_, .inl rfl⟩
    unfold findMemTable at hfound
    split at hfound
    · contradiction
    · exact mem_of_find?_eq_some hfound
  next =>
    obtain ⟨created, hcreated, hpair⟩ := Option.map_eq_some_iff.mp h
    obtain ⟨rfl, rfl⟩ := Prod.mk.inj hpair
    refine ⟨by simp, Or.inr ⟨rfl, ?_⟩⟩
    unfold createMemTable at hcreated
    split at hcreated
    · contradiction
    · split_ifs at hcreated
      obtain rfl := Option.some.inj hcreated
      exact ⟨rfl, rfl⟩

/-- The tables count the records, and every record has a table. -/
structure TablesFit (tables : List ModuleMem) (recs : List MallocRecord) : Prop where
  counted : ∀ table ∈ tables,
    table.memStatis.bytesTotalInUse = bytesIn (recordsOf table.addr recs) ∧
      table.memStatis.iterationsInUse = (recordsOf table.addr recs).length
  belong : ∀ pos ∈ recs, ∃ table ∈ tables, pos.memTable = some table.addr

namespace TablesFit

variable {tables tables' : List ModuleMem} {recs : List MallocRecord}

variable {table : ModuleMem}

theorem ensure (h : TablesFit tables recs) {env : MallocEnv} {addr : ℕ}
    {moduleName : Option Bytes}
    (hfound : ensureTable env addr moduleName tables = some (table, tables'))
    (haddr : ∀ table ∈ tables, table.addr < addr) : TablesFit tables' recs := by
  obtain ⟨-, rfl | ⟨rfl, hnew, hzero⟩⟩ := ensureTable_spec hfound
  · exact h
  have hnone : recordsOf addr recs = [] := by
    refine filter_eq_nil_iff.mpr fun pos hpos => ?_
    obtain ⟨owner, howner, hmem⟩ := h.belong pos hpos
    have hlt := haddr owner howner
    rw [hmem, decide_eq_true_iff]
    intro hsame
    have := Option.some.inj hsame
    omega
  refine ⟨fun other hother => ?_, fun pos hpos => ?_⟩
  · rcases mem_append.mp hother with hold | hlast
    · exact h.counted other hold
    · rw [mem_singleton.mp hlast, hzero, hnew, hnone]
      exact ⟨rfl, rfl⟩
  · obtain ⟨owner, howner, hmem⟩ := h.belong pos hpos
    exact ⟨owner, mem_append_left _ howner, hmem⟩

theorem belong_updateTable (h : TablesFit tables recs) (changed : ModuleMem) {pos : MallocRecord}
    (hpos : pos ∈ recs) :
    ∃ table ∈ updateTable tables changed, pos.memTable = some table.addr := by
  obtain ⟨owner, howner, hmem⟩ := h.belong pos hpos
  have haddr : owner.addr ∈ (updateTable tables changed).map (·.addr) := by
    rw [addrs_updateTable]
    exact mem_map_of_mem howner
  obtain ⟨table, htable, heq⟩ := mem_map.mp haddr
  exact ⟨table, htable, by rw [hmem, heq]⟩

theorem add (h : TablesFit tables recs) (hpositive : ∀ pos ∈ recs, 0 < pos.buflen)
    (changed : ModuleMem) (pos : MallocRecord) (htable : table ∈ tables)
    (hmem : pos.memTable = some table.addr) (haddr : changed.addr = table.addr)
    (hcount : changed.memStatis = table.memStatis.allocate pos.buflen) (hpos : 0 < pos.buflen)
    (hfit : bytesIn recs + pos.buflen < 2 ^ 31) :
    TablesFit (updateTable tables changed) (recs ++ [pos]) := by
  refine ⟨fun other hother => ?_, fun other hother => ?_⟩
  · rcases mem_updateTable hother with rfl | ⟨hold, hdiff⟩
    · obtain ⟨hbytes, hiterations⟩ := h.counted table htable
      have hle := bytesIn_recordsOf_le table.addr hpositive
      have hpositive' : ∀ pos ∈ recordsOf table.addr recs, 0 < pos.buflen :=
        fun pos hmem => hpositive pos (mem_of_mem_filter hmem)
      have hlength := length_le_bytesIn hpositive'
      have hown : recordsOf other.addr (recs ++ [pos]) = recordsOf table.addr recs ++ [pos] := by
        rw [haddr, recordsOf_append]
        simp [recordsOf, hmem]
      rw [hown, hcount, bytesIn_append, length_append]
      constructor
      · show toInt32 (table.memStatis.bytesTotalInUse + pos.buflen) = _
        rw [hbytes, toInt32_of_bounds (by omega) (by omega)]
        simp
      · show toInt32 (table.memStatis.iterationsInUse + 1) = _
        rw [hiterations, toInt32_of_bounds (by omega) (by omega)]
        simp
    · have hother' : recordsOf other.addr (recs ++ [pos]) = recordsOf other.addr recs := by
        rw [recordsOf_append]
        simp [recordsOf, hmem, ← haddr, hdiff.symm]
      rw [hother']
      exact h.counted other hold
  · rcases mem_append.mp hother with hold | hlast
    · exact h.belong_updateTable changed hold
    rw [mem_singleton.mp hlast]
    have hmem' : changed.addr ∈ (updateTable tables changed).map (·.addr) := by
      rw [addrs_updateTable, haddr]
      exact mem_map_of_mem htable
    obtain ⟨own, hown, heq⟩ := mem_map.mp hmem'
    exact ⟨own, hown, by rw [hmem, heq, haddr]⟩

theorem remove {before after : List MallocRecord} {pos : MallocRecord}
    (h : TablesFit tables (before ++ pos :: after))
    (hpositive : ∀ pos' ∈ before ++ pos :: after, 0 < pos'.buflen)
    (hfit : bytesIn (before ++ pos :: after) < 2 ^ 31) (htable : table ∈ tables)
    (hmem : pos.memTable = some table.addr) (changed : ModuleMem)
    (haddr : changed.addr = table.addr)
    (hcount : changed.memStatis = table.memStatis.release pos.buflen) :
    TablesFit (updateTable tables changed) (before ++ after) := by
  have hpos : 0 < pos.buflen := hpositive pos (by simp)
  refine ⟨fun other hother => ?_, fun other hother => ?_⟩
  · rcases mem_updateTable hother with rfl | ⟨hold, hdiff⟩
    · obtain ⟨hbytes, hiterations⟩ := h.counted table htable
      have hle := bytesIn_recordsOf_le table.addr hpositive
      have hpositive' : ∀ pos' ∈ recordsOf table.addr (before ++ pos :: after), 0 < pos'.buflen :=
        fun pos' hmem => hpositive pos' (mem_of_mem_filter hmem)
      have hlength := length_le_bytesIn hpositive'
      have hrest : ∀ pos' ∈ recordsOf table.addr (before ++ after), 0 < pos'.buflen := by
        intro pos' hmem'
        have := mem_of_mem_filter hmem'
        exact hpositive pos' (by simp at this ⊢; tauto)
      have hlength' := length_le_bytesIn hrest
      have hown : recordsOf table.addr (before ++ pos :: after) =
          recordsOf table.addr before ++ pos :: recordsOf table.addr after := by
        rw [recordsOf_append]
        simp [recordsOf, hmem]
      rw [hown] at hbytes hiterations hle hlength
      rw [haddr, hcount, recordsOf_append]
      rw [recordsOf_append] at hlength'
      simp only [bytesIn_append, bytesIn_cons, length_append, length_cons,
        Nat.cast_add, Nat.cast_one] at hbytes hiterations hle hlength hlength' hfit ⊢
      constructor
      · show toInt32 (table.memStatis.bytesTotalInUse - pos.buflen) = _
        rw [hbytes, toInt32_of_bounds (by omega) (by omega)]
        omega
      · show toInt32 (table.memStatis.iterationsInUse - 1) = _
        rw [hiterations, toInt32_of_bounds (by omega) (by omega)]
        omega
    · have hother' : recordsOf other.addr (before ++ pos :: after) =
          recordsOf other.addr (before ++ after) := by
        rw [recordsOf_append, recordsOf_append]
        simp [recordsOf, hmem, ← haddr, hdiff.symm]
      rw [← hother']
      exact h.counted other hold
  · exact h.belong_updateTable changed (by simp at hother ⊢; tauto)

end TablesFit

/-! ## One call -/

/-- The counters fit the records, the bytes in use can be counted, and no address is given out
twice. -/
structure MemInv (s : MemStats) : Prop where
  accounted : Accounted s
  buflen : ∀ pos ∈ s.memRecs, 0 < pos.buflen
  bytes_lt : bytesIn s.memRecs < 2 ^ 31
  addr_lt : ∀ table ∈ s.memModuleStatis, table.addr < s.fresh
  heap : ∀ ptr, s.fresh ≤ ptr → s.heap ptr = none

theorem Accounted.tablesFit {s : MemStats} (h : Accounted s) :
    TablesFit s.memModuleStatis s.memRecs := ⟨h.modules, h.tables⟩

namespace MemInv

variable {s : MemStats} {env : MallocEnv} {call : MallocCall}

theorem start (loglevel : ℤ) : MemInv (memStatsStart loglevel) where
  accounted := ⟨rfl, rfl, by simp [memStatsStart], by simp [memStatsStart], rfl⟩
  buflen := by simp [memStatsStart]
  bytes_lt := by simp [memStatsStart]
  addr_lt := by simp [memStatsStart]
  heap := fun _ _ => rfl

theorem malloc_recorded (hsize : 0 < call.size) (hbuf : env.buf = true)
    (hrecord : env.record = true) :
    ∃ table s', countMallocInternal env
        { s with fresh := s.fresh + 1, counters := s.counters.allocate call.size } call =
          (table, s') ∧
      liteMallocInternal env s call = (some s.fresh,
          { s' with
            memRecs := s'.memRecs ++ [⟨s.fresh, call.size, call.func, call.line, table⟩]
            heap := update s'.heap s.fresh (some (List.replicate call.size.toNat 0)) }) := by
  cases hcount : countMallocInternal env
      { s with fresh := s.fresh + 1, counters := s.counters.allocate call.size } call with
  | mk table s' =>
    refine ⟨table, s', rfl, ?_⟩
    simp only [liteMallocInternal, not_le.mpr hsize, hbuf, hrecord, hcount, if_false,
      Bool.true_eq_false]

theorem malloc (h : MemInv s) (hsize : 0 < call.size) (hbuf : env.buf = true)
    (hok : CanAccount env s call) :
    ∃ s', liteMallocInternal env s call = (some s.fresh, s') ∧ MemInv s' ∧
      s.fresh < s'.fresh ∧ s'.memRecs.length = s.memRecs.length + 1 ∧
      s'.heap = update s.heap s.fresh (some (List.replicate call.size.toNat 0)) := by
  obtain ⟨hrecord, hfit, ⟨table, tables⟩, hfound, entered, hentered⟩ := hok hsize hbuf
  obtain ⟨haddr, hstatis⟩ := enterCaller_entered hentered
  dsimp only at haddr hstatis
  have hcount : countMallocInternal env
      { s with fresh := s.fresh + 1, counters := s.counters.allocate call.size } call =
        (some entered.addr,
          { s with
            counters := s.counters.allocate call.size
            fresh := s.fresh + 1 + 1
            memModuleStatis :=
              updateTable tables
                { entered with memStatis := entered.memStatis.allocate call.size } }) := by
    simp only [Option.mem_def] at hfound
    simp only [countMallocInternal, hfound, hentered]
  obtain ⟨found, after, hafter, hmalloc⟩ := malloc_recorded (s := s) hsize hbuf hrecord
  obtain ⟨rfl, rfl⟩ := Prod.mk.inj (hcount.symm.trans hafter)
  -- the addresses of the tables are below the one that is handed out next
  have hlt : ∀ other ∈ s.memModuleStatis, other.addr < s.fresh + 1 :=
    fun other hother => (h.addr_lt other hother).trans (Nat.lt_succ_self _)
  have htables := h.accounted.tablesFit.ensure hfound hlt
  obtain ⟨htable, hnew⟩ := ensureTable_spec hfound
  have hadded := htables.add h.buflen
    { entered with memStatis := entered.memStatis.allocate call.size }
    ⟨s.fresh, call.size, call.func, call.line, some entered.addr⟩ htable
    (congrArg some haddr) haddr (by rw [hstatis]) hsize hfit
  have hlength := length_le_bytesIn h.buflen
  have hnonneg : 0 ≤ bytesIn s.memRecs := (Int.natCast_nonneg _).trans hlength
  refine ⟨_, hmalloc, ⟨⟨?_, ?_, hadded.counted, hadded.belong, h.accounted.faulted⟩, ?_, ?_, ?_, ?_⟩,
    by dsimp only; omega, by simp, rfl⟩
  · show toInt32 (s.counters.bytesTotalInUse + call.size) = _
    rw [h.accounted.bytes, toInt32_of_bounds (by omega) (by omega)]
    simp
  · show toInt32 (s.counters.iterationsInUse + 1) = _
    rw [h.accounted.iterations, toInt32_of_bounds (by omega) (by omega)]
    simp
  · exact forall_mem_append.mpr ⟨h.buflen, forall_mem_singleton.mpr hsize⟩
  · simpa using hfit
  · intro other hother
    rcases mem_updateTable hother with rfl | ⟨hold, -⟩
    · -- the table of the module was there, or it has just been created
      rcases hnew with rfl | ⟨-, hfresh, -⟩
      · have := h.addr_lt table htable
        dsimp only
        omega
      · dsimp only
        omega
    · rcases hnew with rfl | ⟨rfl, hfresh, -⟩
      · have := h.addr_lt other hold
        dsimp only
        omega
      rcases mem_append.mp hold with hold' | hlast
      · have := h.addr_lt other hold'
        dsimp only
        omega
      · rw [mem_singleton.mp hlast]
        dsimp only
        omega
  · intro ptr hptr
    dsimp only at hptr ⊢
    rw [update_of_ne (by omega)]
    exact h.heap ptr (by omega)

theorem not_accounted (h : MemInv s) (hlt : call.size < 2 ^ 31) (hno : ¬ CanAccount env s call) :
    ¬ Accounted (liteMallocInternal env s call).2 := by
  rintro hacc
  refine hno fun hsize hbuf => ?_
  have hlength := length_le_bytesIn h.buflen
  have hnonneg : 0 ≤ bytesIn s.memRecs := (Int.natCast_nonneg _).trans hlength
  have hrecord : env.record = true := by
    by_contra hrecord
    rw [Bool.not_eq_true] at hrecord
    have hbytes := hacc.bytes
    simp only [liteMallocInternal, not_le.mpr hsize, hbuf, hrecord, if_false, if_true,
      Bool.true_eq_false] at hbytes
    have hraised : toInt32 (s.counters.bytesTotalInUse + call.size) = bytesIn s.memRecs := hbytes
    rw [h.accounted.bytes] at hraised
    exact toInt32_add_ne hsize hlt hraised
  obtain ⟨table, s', hcount, hmalloc⟩ := malloc_recorded (s := s) hsize hbuf hrecord
  rw [hmalloc] at hacc
  have hlt' : ∀ other ∈ s.memModuleStatis, other.addr < s.fresh + 1 :=
    fun other hother => (h.addr_lt other hother).trans (Nat.lt_succ_self _)
  unfold countMallocInternal at hcount
  split at hcount
  -- the record has no table
  next hnone =>
    obtain ⟨rfl, rfl⟩ := Prod.mk.inj hcount
    obtain ⟨owner, -, hmem⟩ := hacc.tables ⟨s.fresh, call.size, call.func, call.line, none⟩ (by simp)
    contradiction
  next table' tables hfound =>
    split at hcount
    next =>
      obtain ⟨rfl, rfl⟩ := Prod.mk.inj hcount
      exact absurd hacc.faulted (by simp)
    -- the table does not count the record
    next =>
      obtain ⟨rfl, rfl⟩ := Prod.mk.inj hcount
      have hfit := (h.accounted.tablesFit.ensure hfound hlt').counted table'
        (ensureTable_spec hfound).1
      have hcounted := (hacc.modules table' (ensureTable_spec hfound).1).2
      rw [hfit.2, recordsOf_append] at hcounted
      simp [recordsOf] at hcounted
    next entered hentered =>
      refine ⟨hrecord, ?_, ⟨table', tables⟩, hfound, entered, hentered⟩
      obtain ⟨rfl, rfl⟩ := Prod.mk.inj hcount
      have hbytes := hacc.bytes
      have hcounter : toInt32 (bytesIn s.memRecs + call.size) = bytesIn s.memRecs + call.size := by
        rw [← h.accounted.bytes]
        simpa [MemCounters.allocate, h.accounted.bytes] using hbytes
      exact (toInt32_eq_iff (by omega)).mp hcounter

theorem malloc_none (hno : ¬ (0 < call.size ∧ env.buf = true)) :
    liteMallocInternal env s call = (none, s) := by
  unfold liteMallocInternal
  by_cases hsize : call.size ≤ 0
  · exact if_pos hsize
  · have hbuf : env.buf = false := by
      rw [← Bool.not_eq_true]
      exact fun hbuf => hno ⟨not_le.mp hsize, hbuf⟩
    rw [if_neg hsize, if_pos hbuf]

theorem store (h : MemInv s) {ptr : ℕ} (hptr : ptr < s.fresh) (data : Bytes) :
    MemInv { s with heap := update s.heap ptr (some data) } where
  accounted := ⟨h.accounted.bytes, h.accounted.iterations, h.accounted.modules,
    h.accounted.tables, h.accounted.faulted⟩
  buflen := h.buflen
  bytes_lt := h.bytes_lt
  addr_lt := h.addr_lt
  heap := by
    intro other hother
    dsimp only at hother ⊢
    rw [update_of_ne (by omega)]
    exact h.heap other hother

theorem free (h : MemInv s) (ptr : Option ℕ) : MemInv (liteFreeInternal s ptr) := by
  cases ptr with
  | none => exact h
  | some ptr =>
    cases hfind : s.memRecs.find? (·.buf = ptr) with
    | none => simpa [liteFreeInternal, hfind] using h
    | some pos =>
      obtain ⟨hbuf, before, after, hrecs, hbefore⟩ := List.find?_eq_some_iff_append.mp hfind
      have herase : s.memRecs.eraseP (·.buf = ptr) = before ++ after := by
        rw [hrecs, eraseP_append_right _ (fun other hother => by simpa using hbefore other hother)]
        simp [hbuf]
      -- the table of the module that the record was counted for
      obtain ⟨owner, howner, hmem⟩ := h.accounted.tables pos (by simp [hrecs])
      obtain ⟨table, htable⟩ : ∃ table,
          s.memModuleStatis.find? (·.addr = owner.addr) = some table :=
        Option.isSome_iff_exists.mp (List.find?_isSome.mpr ⟨owner, howner, decide_eq_true rfl⟩)
      have haddr : table.addr = owner.addr := by simpa using List.find?_some htable
      have hremoved := (hrecs ▸ h.accounted.tablesFit).remove (hrecs ▸ h.buflen)
        (hrecs ▸ h.bytes_lt) (mem_of_find?_eq_some htable) (hmem.trans (by rw [haddr]))
        { table with memStatis := table.memStatis.release pos.buflen } rfl rfl
      have hpos : 0 < pos.buflen := h.buflen pos (by simp [hrecs])
      have hrest : ∀ other ∈ before ++ after, 0 < other.buflen := by
        intro other hother
        refine h.buflen other ?_
        rw [hrecs]
        simp only [mem_append, mem_cons] at hother ⊢
        tauto
      -- the counters hold the sums over the records, so they do not wrap
      have hlength := length_le_bytesIn hrest
      have hbytes := h.accounted.bytes
      have hiterations := h.accounted.iterations
      have hlt := h.bytes_lt
      rw [hrecs] at hbytes hiterations hlt
      simp only [bytesIn_append, bytesIn_cons, length_append, length_cons,
        Nat.cast_add, Nat.cast_one] at hbytes hiterations hlt hlength
      have hfree : liteFreeInternal s (some ptr) = { s with
            counters := s.counters.release pos.buflen
            memModuleStatis := updateTable s.memModuleStatis
              { table with memStatis := table.memStatis.release pos.buflen }
            memRecs := before ++ after
            heap := update s.heap ptr none } := by
        simp only [liteFreeInternal, hfind, herase, countFreeInternal, hmem, htable]
      rw [hfree]
      refine ⟨⟨?_, ?_, hremoved.counted, hremoved.belong, h.accounted.faulted⟩, hrest, ?_, ?_, ?_⟩
      · show toInt32 (s.counters.bytesTotalInUse - pos.buflen) = _
        rw [hbytes, toInt32_of_bounds (by omega) (by omega), bytesIn_append]
        omega
      · show toInt32 (s.counters.iterationsInUse - 1) = _
        rw [hiterations, toInt32_of_bounds (by omega) (by omega), length_append]
        omega
      · rw [bytesIn_append]
        omega
      · intro other hother
        rcases mem_updateTable hother with rfl | ⟨hold, -⟩
        · exact h.addr_lt table (mem_of_find?_eq_some htable)
        · exact h.addr_lt other hold
      · intro other hother
        dsimp only
        by_cases hsame : other = ptr
        · rw [hsame]
          exact update_self ..
        · rw [update_of_ne hsame]
          exact h.heap other hother

theorem heap_countFreeInternal (s : MemStats) (pos : MallocRecord) :
    (countFreeInternal s pos).heap = s.heap := by
  unfold countFreeInternal
  split
  · rfl
  · split <;> rfl

theorem heap_free (s : MemStats) {ptr other : ℕ} (hne : other ≠ ptr) :
    (liteFreeInternal s (some ptr)).heap other = s.heap other := by
  cases hfind : s.memRecs.find? (·.buf = ptr) with
  | none => simp only [liteFreeInternal, hfind]
  | some pos =>
    simp only [liteFreeInternal, hfind]
    rw [update_of_ne hne, heap_countFreeInternal]

theorem dump_iff (h : MemInv s) (level : ℤ) :
    Accounted (liteDumpMallocFreeStats s level) ↔ s.loglevel < level ∨ s.memRecs = [] := by
  unfold liteDumpMallocFreeStats
  constructor
  · intro hacc
    by_contra hno
    push Not at hno
    rw [if_neg (not_lt.mpr hno.1)] at hacc
    obtain ⟨pos, hpos⟩ := exists_mem_of_ne_nil _ hno.2
    obtain ⟨table, htable, -⟩ := hacc.tables pos hpos
    simp at htable
  · rintro (hlevel | hrecs)
    · rw [if_pos hlevel]
      exact h.accounted
    · split_ifs
      · exact h.accounted
      · exact ⟨h.accounted.bytes, h.accounted.iterations, by simp, by simp [hrecs],
          h.accounted.faulted⟩

/-- What a reallocation does whose allocation is accounted. -/
theorem realloc (h : MemInv s) (hsize : 0 < call.size) (hbuf : env.buf = true)
    (hok : CanAccount env s call) (ptr : Option ℕ) (beyond : Memory) :
    ∃ r, liteReallocInternal env s call ptr beyond = r ∧ r.ret = some s.fresh ∧
      r.malloced = (liteMallocInternal env s call).2 ∧ MemInv r.malloced ∧ MemInv r.after ∧
      ∀ old ∈ ptr, ((∃ block ∈ s.heap old, call.size.toNat ≤ block.length) ↔
        CopiesBlock s call.size old s.fresh r.after) := by
  obtain ⟨s', hmalloc, hinv, hfresh, -, hheap⟩ := h.malloc hsize hbuf hok
  refine ⟨_, rfl, ?_⟩
  cases ptr with
  | none =>
    simp only [liteReallocInternal, hmalloc, not_le.mpr hsize, if_false]
    exact ⟨trivial, trivial, hinv, hinv, by simp⟩
  | some old =>
    simp only [liteReallocInternal, hmalloc, not_le.mpr hsize, if_false]
    refine ⟨trivial, trivial, hinv, (hinv.store hfresh _).free _, ?_⟩
    rintro _ ⟨⟩
    constructor
    · rintro ⟨block, hblock, hle⟩
      have hne : old ≠ s.fresh := by
        rintro rfl
        rw [h.heap s.fresh le_rfl] at hblock
        contradiction
      have hold : s'.heap old = some block := by
        rw [hheap, update_of_ne hne]
        exact hblock
      refine ⟨block, readBytes block beyond call.size.toNat, hblock, ?_, hle, ?_, ?_⟩
      · rw [heap_free _ hne.symm]
        simp [hold]
      · simp [readBytes]
      · rw [Nat.min_eq_right hle]
        refine ext_getElem (by simp [readBytes, hle]) fun i hi hi' => ?_
        simp only [length_take] at hi'
        simp only [readBytes, getElem_take, getElem_map, getElem_range]
        exact getD_eq_getElem _ _ (by omega)
    · rintro ⟨block, copy, hblock, -, hle, -⟩
      exact ⟨block, hblock, hle⟩

/-- **One call.**  From a state whose counters fit, a call keeps the accounts exactly when the
condition on it holds. -/
theorem accounts_iff (h : MemInv s) (op : MemOp) : Accounts s op ↔ AccountOk s op := by
  cases op with
  | malloc env call =>
    -- without a size or a buffer nothing is recorded
    by_cases hno : 0 < call.converted.size ∧ env.buf = true
    · constructor
      · rintro ⟨hacc, -⟩
        by_contra hnot
        exact h.not_accounted (toInt32_lt _) hnot hacc
      · intro hok
        obtain ⟨s', hmalloc, hinv, -⟩ := h.malloc hno.1 hno.2 hok
        show Accounted (liteMallocInternal env s call.converted).2 ∧ _
        rw [hmalloc]
        exact ⟨hinv.accounted, fun hnone => absurd hnone (Option.some_ne_none _)⟩
    · have hmalloc : liteMallocInternal env s call.converted = (none, s) := malloc_none hno
      refine ⟨fun _ hsize hbuf => absurd ⟨hsize, hbuf⟩ hno, fun _ => ?_⟩
      show Accounted (liteMallocInternal env s call.converted).2 ∧ _
      rw [hmalloc]
      exact ⟨h.accounted, fun _ => ⟨rfl, rfl⟩⟩
  | realloc env call ptr beyond =>
    by_cases hno : 0 < call.converted.size ∧ env.buf = true
    · constructor
      · rintro ⟨hmalloced, -, -, hcopies⟩
        have hok : CanAccount env s call.converted := by
          by_contra hnot
          refine h.not_accounted (toInt32_lt _) hnot ?_
          -- what is recorded for the new block does not depend on the old one
          have heq : (liteReallocInternal env s call.converted ptr beyond).malloced =
              (liteMallocInternal env s call.converted).2 := by
            simp only [liteReallocInternal, not_le.mpr hno.1, if_false]
            split
            next malloced hmalloc => rw [hmalloc]
            next temp malloced hmalloc =>
              rw [hmalloc]
              cases ptr <;> rfl
          rwa [← heq]
        obtain ⟨r, hr, hret, -, -, -, hiff⟩ := h.realloc hno.1 hno.2 hok ptr beyond
        rw [hr] at hcopies
        exact ⟨hok, fun old hold _ _ => (hiff old hold).mpr (hcopies _ hret old hold)⟩
      · rintro ⟨hok, hblock⟩
        obtain ⟨r, hr, hret, -, hmalloced, hafter, hiff⟩ :=
          h.realloc hno.1 hno.2 hok ptr beyond
        show Accounted _ ∧ _
        rw [hr]
        refine ⟨hmalloced.accounted, hafter.accounted, fun hnone => ?_, fun new hnew old hold => ?_⟩
        · rw [hret] at hnone
          contradiction
        · obtain rfl : s.fresh = new := Option.some.inj (hret.symm.trans hnew)
          exact (hiff old hold).mp (hblock old hold hno.1 hno.2)
    · have hmalloc : liteMallocInternal env s call.converted = (none, s) := malloc_none hno
      have hrealloc : liteReallocInternal env s call.converted ptr beyond = ⟨none, s, s⟩ := by
        simp only [liteReallocInternal, hmalloc]
        split_ifs <;> rfl
      refine ⟨fun _ => ⟨fun hsize hbuf => absurd ⟨hsize, hbuf⟩ hno,
        fun _ _ hsize hbuf => absurd ⟨hsize, hbuf⟩ hno⟩, fun _ => ?_⟩
      show Accounted _ ∧ _
      rw [hrealloc]
      exact ⟨h.accounted, h.accounted, fun _ => ⟨rfl, rfl⟩, by simp⟩
  | free ptr => exact ⟨fun _ => trivial, fun _ => (h.free ptr).accounted⟩
  | dump level => exact h.dump_iff level
  | setLoglevel pri =>
    exact ⟨fun _ => trivial, fun _ => ⟨h.accounted.bytes, h.accounted.iterations,
      h.accounted.modules, h.accounted.tables, h.accounted.faulted⟩⟩
  | write ptr data =>
    refine ⟨fun _ => trivial, fun _ => ?_⟩
    show Accounted (memStep s _)
    rw [memStep]
    split_ifs
    · exact ⟨h.accounted.bytes, h.accounted.iterations, h.accounted.modules,
        h.accounted.tables, h.accounted.faulted⟩
    · exact h.accounted

theorem step (h : MemInv s) (op : MemOp) (hok : AccountOk s op) : MemInv (memStep s op) := by
  cases op with
  | malloc env call =>
    rw [memStep]
    by_cases hno : 0 < call.converted.size ∧ env.buf = true
    · obtain ⟨s', hmalloc, hinv, -⟩ := h.malloc hno.1 hno.2 hok
      rw [hmalloc]
      exact hinv
    · rw [malloc_none hno]
      exact h
  | realloc env call ptr beyond =>
    rw [memStep]
    by_cases hno : 0 < call.converted.size ∧ env.buf = true
    · obtain ⟨r, hr, -, -, -, hafter, -⟩ := h.realloc hno.1 hno.2 hok.1 ptr beyond
      rw [hr]
      exact hafter
    · simp only [liteReallocInternal, malloc_none hno]
      split_ifs <;> exact h
  | free ptr => exact h.free ptr
  | dump level =>
    refine ⟨(h.dump_iff level).mpr hok, ?_, ?_, ?_, ?_⟩ <;>
      simp only [memStep, liteDumpMallocFreeStats]
    all_goals split_ifs
    · exact h.buflen
    · exact h.buflen
    · exact h.bytes_lt
    · exact h.bytes_lt
    · exact h.addr_lt
    · simp
    · exact h.heap
    · exact h.heap
  | setLoglevel pri =>
    exact ⟨((h.accounts_iff (.setLoglevel pri)).mpr trivial), h.buflen, h.bytes_lt, h.addr_lt,
      h.heap⟩
  | write ptr data =>
    rw [memStep]
    split_ifs with hblock
    · refine h.store ?_ data
      by_contra hfresh
      rw [h.heap ptr (not_lt.mp hfresh)] at hblock
      contradiction
    · exact h

end MemInv

/-- **The accounts along runs.**  All calls of a run keep the accounts exactly when each
allocation can be accounted, each reallocation is of memory that has the new size, and nothing
is in use when the tables are dumped. -/
theorem mem_accounts_iff (loglevel : ℤ) (ops : List MemOp) :
    AllSteps memStep Accounts (memStatsStart loglevel) ops ↔
      AllSteps memStep AccountOk (memStatsStart loglevel) ops :=
  allSteps_congr (fun _ op h => h.accounts_iff op) (fun _ op h hok => h.step op hok)
    (MemInv.start loglevel) ops

/-- Memory for everything. -/
def memoryForAll : MallocEnv := ⟨true, true, true, true, true⟩

/-- An allocation of the module `m` from the function `f`. -/
def callOf (size : ℤ) : MallocCall := ⟨[0x66], 1, size, true, some [0x6d]⟩

/-- A dump while memory is in use frees the table of its record, and the release writes to it; an
allocation without memory for its record fails and stays counted; and memory of 4 bytes that is
enlarged to 8 is read behind its end. -/
theorem mem_accounts_broken :
    (let ops : List MemOp := [.malloc memoryForAll (callOf 16), .dump 5]
     ¬ AllSteps memStep Accounts (memStatsStart 5) ops ∧
       (memStep (ops.foldl memStep (memStatsStart 5)) (.free (some 0))).faulted = true) ∧
    (let ops : List MemOp := [.malloc ⟨true, false, true, true, true⟩ (callOf 16)]
     ¬ AllSteps memStep Accounts (memStatsStart 5) ops ∧
       (ops.foldl memStep (memStatsStart 5)).counters.bytesTotalInUse = 16) ∧
    (let ops : List MemOp :=
      [.malloc memoryForAll (callOf 4), .realloc memoryForAll (callOf 8) (some 0) fun _ => 0x78]
     ¬ AllSteps memStep Accounts (memStatsStart 5) ops) := by
  refine ⟨⟨fun h => ?_, by decide +kernel⟩, ⟨fun h => ?_, by decide +kernel⟩, fun h => ?_⟩
  · obtain ⟨table, htable, -⟩ := h.2.1.tables ⟨0, 16, [0x66], 1, some 1⟩ (by decide +kernel)
    exact absurd htable not_mem_nil
  · exact absurd h.1.1.bytes (by decide +kernel)
  · obtain ⟨block, copy, hblock, -, hle, -⟩ := h.2.1.2.2.2 2 (by decide +kernel) 0 rfl
    obtain rfl : [0, 0, 0, 0] = block := Option.some.inj hblock
    exact absurd hle (by decide +kernel)

end Iotkit.Mem
