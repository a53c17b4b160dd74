/-
# The key-value store of the Linux port

`HAL_KV_linux.c`: a file of 384 rows of two slots each; a key belongs to the row of its hash.
Rows can be read and written and memory can be allocated.

The store refines a finite map as long as no key is cut when it is stored and no key is
deleted from a slot with a taken one behind it; we prove that this is exact.
-/
import Iotkit.GuardedRun
import Iotkit.LibC
import Iotkit.ProbeRow

namespace Iotkit.Kv

open ProbeRow Function

/-! ## The file -/

abbrev tableColSize : ℕ := 384
def tableRowSize : ℕ := 2
def itemMaxKeyLen : ℕ := 128
def itemMaxValLen : ℕ := 512

/-- `kv_item_t`, free when `value_len` is 0: the key, which is a C string, and the first
`value_len` bytes of the value. -/
abbrev KvItem := Option (Bytes × Bytes)

/-- The file, which has all of its rows. -/
structure KvFile where
  row : Fin tableColSize → List KvItem
  length_row : ∀ i, (row i).length = tableRowSize

def createHashFile : KvFile := ⟨fun _ => List.replicate tableRowSize none, fun _ => rfl⟩

/-- A `char` in the arithmetic of `unsigned int`. -/
def charToUInt32 (c : UInt8) : UInt32 :=
  if c < 0x80 then UInt32.ofNat c.toNat else UInt32.ofNat (c.toNat + 0xFFFFFF00)

def hashGen (key : Bytes) : Fin tableColSize :=
  Fin.ofNat tableColSize
    (key.foldl (fun (hash : UInt32) c => (hash <<< 5) + hash + charToUInt32 c) 0).toNat

variable (file : KvFile)

/-- `write_kv_item`. -/
def KvFile.write (i : Fin tableColSize) (row : List KvItem) (h : row.length = tableRowSize) :
    KvFile where
  row := update file.row i row
  length_row j := by
    by_cases hj : j = i
    · rw [hj, update_self]
      exact h
    · rw [update_of_ne hj]
      exact file.length_row j

/-- `hash_table_put`: the file afterwards, or `none` for the return value `-1`.  The key is
copied by `strncpy`, which leaves one byte of its array alone. -/
def hashTablePut (key value : Bytes) : Option KvFile :=
  let i := hashGen key
  match h : insert (key.take (itemMaxKeyLen - 1)) key (value.take itemMaxValLen) (file.row i) with
  | none => none
  | some row => some (file.write i row ((length_insert h).trans (file.length_row i)))

/-- `hash_table_get` into a buffer of `len` bytes, or `none` for the return value `-1`. -/
def hashTableGet (key : Bytes) (len : ℕ) : Option Bytes :=
  (lookup key (file.row (hashGen key))).map fun value => value.take len

def hashTableRm (key : Bytes) : KvFile :=
  let i := hashGen key
  file.write i (erase key (file.row i)) (length_erase.trans (file.length_row i))

def halKvSet (key value : Bytes) : ℤ × KvFile :=
  if value = [] then (-1, file)
  else
    match hashTablePut file key value with
    | none => (-1, file)
    | some file => (0, file)

def halKvGet (key : Bytes) (bufferLen : ℕ) : Option Bytes :=
  if bufferLen = 0 then none else hashTableGet file key bufferLen

def halKvDel (key : Bytes) : ℤ × KvFile := (0, hashTableRm file key)

/-! ## The map that the store stands for -/

/-- A value that can be stored. -/
structure KvValue where
  bytes : Bytes
  ne_nil : bytes ≠ []
  length_le : bytes.length ≤ itemMaxValLen

/-- The operations, on values that can be stored. -/
inductive KvOp
  | set (key : Bytes) (value : KvValue)
  | get (key : Bytes) (bufferLen : ℕ)
  | del (key : Bytes)

def KvOp.key : KvOp → Bytes
  | .set key _ => key
  | .get key _ => key
  | .del key => key

/-- The file, and the map made by the calls that reported success. -/
structure KvState where
  file : KvFile
  map : Bytes → Option Bytes

def kvStep (s : KvState) : KvOp → KvState
  | .set key value =>
    match halKvSet s.file key value.bytes with
    | (rc, file) => ⟨file, if rc = 0 then update s.map key (some value.bytes) else s.map⟩
  | .get _ _ => s
  | .del key =>
    match halKvDel s.file key with
    | (rc, file) => ⟨file, if rc = 0 then update s.map key none else s.map⟩

/-- A new file, and the empty map. -/
def kvStart : KvState := ⟨createHashFile, fun _ => none⟩

/-- What a call should do: afterwards every key has the value of its last successful `Set`
that no `Del` has followed, the other keys have the values they had, and a call of `Set` that
fails changes nothing. -/
structure StepCorrect (s : KvState) (op : KvOp) : Prop where
  get_eq : ∀ key bufferLen, itemMaxValLen ≤ bufferLen →
    halKvGet (kvStep s op).file key bufferLen = (kvStep s op).map key
  others : ∀ key bufferLen, key ≠ op.key →
    halKvGet (kvStep s op).file key bufferLen = halKvGet s.file key bufferLen
  failed : ∀ key value, op = .set key value → (halKvSet s.file key value.bytes).1 ≠ 0 →
    (kvStep s op).file = s.file

/-- The calls that the store is made for: a key that is stored is not cut, unless its row is
full, and a key that is deleted is the last in its row. -/
def Storable (s : KvState) : KvOp → Prop
  | .set key _ => key.length ≤ itemMaxKeyLen - 1 ∨ none ∉ s.file.row (hashGen key)
  | .get _ _ => True
  | .del key => LastOf key (s.file.row (hashGen key))

/-! ## What a call does -/

/-- What `HAL_Kv_Set` can do: find the row full and do nothing, or store the value. -/
theorem kvStep_set_cases (s : KvState) (key : Bytes) (value : KvValue) :
    (insert (key.take (itemMaxKeyLen - 1)) key value.bytes (s.file.row (hashGen key)) = none ∧
        (halKvSet s.file key value.bytes).1 = -1 ∧ kvStep s (.set key value) = s) ∨
      ∃ row, insert (key.take (itemMaxKeyLen - 1)) key value.bytes (s.file.row (hashGen key)) =
          some row ∧
        (halKvSet s.file key value.bytes).1 = 0 ∧
        (kvStep s (.set key value)).file.row = update s.file.row (hashGen key) row ∧
        (kvStep s (.set key value)).map = update s.map key (some value.bytes) := by
  have hcut : value.bytes.take itemMaxValLen = value.bytes := List.take_of_length_le value.length_le
  have hput : hashTablePut s.file key value.bytes = none ∧
        insert (key.take (itemMaxKeyLen - 1)) key value.bytes (s.file.row (hashGen key)) = none ∨
      ∃ row file, hashTablePut s.file key value.bytes = some file ∧
        insert (key.take (itemMaxKeyLen - 1)) key value.bytes (s.file.row (hashGen key)) = some row ∧
        file.row = update s.file.row (hashGen key) row := by
    unfold hashTablePut
    simp only
    split
    · next hnone =>
        rw [hcut] at hnone
        exact .inl ⟨rfl, hnone⟩
    · next row hsome =>
        have hrow := hsome
        rw [hcut] at hrow
        exact .inr ⟨row, _, rfl, hrow, rfl⟩
  rcases hput with ⟨hput, hinsert⟩ | ⟨row, file, hput, hinsert, hrow⟩
  · have hset : halKvSet s.file key value.bytes = (-1, s.file) := by
      rw [halKvSet, if_neg value.ne_nil, hput]
    refine Or.inl ⟨hinsert, by rw [hset], ?_⟩
    rw [kvStep, hset]
    rfl
  · have hset : halKvSet s.file key value.bytes = (0, file) := by
      rw [halKvSet, if_neg value.ne_nil, hput]
    refine Or.inr ⟨row, hinsert, by rw [hset], ?_, ?_⟩ <;> rw [kvStep, hset]
    · exact hrow
    · rfl

/-- The rows are compact, their keys are distinct, were not cut and belong there, and they
hold the map. -/
structure KvInv (s : KvState) : Prop where
  compact : ∀ i, Compact (s.file.row i)
  nodup : ∀ i, (keys (s.file.row i)).Nodup
  stored : ∀ i kv, some kv ∈ s.file.row i →
    hashGen kv.1 = i ∧ kv.1.length ≤ itemMaxKeyLen - 1 ∧ kv.2.length ≤ itemMaxValLen
  map_eq : ∀ key, s.map key = lookup key (s.file.row (hashGen key))

theorem kvInv_start : KvInv kvStart where
  compact _ := by
    apply compact_of_free
    intro s hs
    exact List.eq_of_mem_replicate hs
  nodup _ := List.nodup_nil
  stored _ kv hmem := absurd (List.eq_of_mem_replicate hmem) (by simp)
  map_eq _ := rfl

variable {s : KvState}

theorem KvInv.get_eq (h : KvInv s) (key : Bytes) {bufferLen : ℕ}
    (hlen : itemMaxValLen ≤ bufferLen) : halKvGet s.file key bufferLen = s.map key := by
  have hpos : bufferLen ≠ 0 := by
    rintro rfl
    exact absurd hlen (by decide)
  rw [halKvGet, if_neg hpos, hashTableGet, h.map_eq]
  cases hfound : lookup key (s.file.row (hashGen key)) with
  | none => rfl
  | some value =>
    have hvalue := (h.stored _ _ (mem_of_lookup hfound)).2.2
    rw [Option.map_some, List.take_of_length_le (le_trans hvalue hlen)]

theorem KvInv.notMem_keys (h : KvInv s) {key : Bytes}
    (hlong : ¬ key.length ≤ itemMaxKeyLen - 1) (i : Fin tableColSize) :
    key ∉ keys (s.file.row i) := by
  intro hmem
  obtain ⟨slot, hslot, hkey⟩ := List.mem_filterMap.mp hmem
  obtain ⟨kv, rfl, rfl⟩ := Option.map_eq_some_iff.mp hkey
  exact hlong (h.stored i kv hslot).2.1

theorem halKvGet_congr {file file' : KvFile} {key : Bytes}
    (h : lookup key (file'.row (hashGen key)) = lookup key (file.row (hashGen key)))
    (bufferLen : ℕ) : halKvGet file' key bufferLen = halKvGet file key bufferLen := by
  unfold halKvGet hashTableGet
  rw [h]

/-- A call that changes the row of a key and its value in the map. -/
theorem KvInv.update (h : KvInv s) {s' : KvState} {key : Bytes}
    {row : List (Option (Bytes × Bytes))} {value : Option Bytes}
    (hrow : s'.file.row = update s.file.row (hashGen key) row)
    (hmap : s'.map = update s.map key value) (hcompact : Compact row)
    (hnodup : (keys row).Nodup)
    (hstored : ∀ kv, some kv ∈ row → hashGen kv.1 = hashGen key ∧
      kv.1.length ≤ itemMaxKeyLen - 1 ∧ kv.2.length ≤ itemMaxValLen)
    (hself : lookup key row = value)
    (hne : ∀ key', key' ≠ key → lookup key' row = lookup key' (s.file.row (hashGen key))) :
    KvInv s' ∧ ∀ key', key' ≠ key →
      lookup key' (s'.file.row (hashGen key')) = lookup key' (s.file.row (hashGen key')) := by
  have hothers : ∀ key', key' ≠ key →
      lookup key' (s'.file.row (hashGen key')) = lookup key' (s.file.row (hashGen key')) := by
    intro key' hkey
    rw [hrow]
    by_cases hhash : hashGen key' = hashGen key
    · rw [hhash, update_self]
      exact hne key' hkey
    · rw [update_of_ne hhash]
  have hrows : ∀ i, i = hashGen key ∧ s'.file.row i = row ∨ s'.file.row i = s.file.row i := by
    intro i
    rw [hrow]
    by_cases hi : i = hashGen key
    · exact Or.inl ⟨hi, by rw [hi, update_self]⟩
    · exact .inr (update_of_ne hi _ _)
  refine ⟨⟨fun i => ?_, fun i => ?_, fun i kv hmem => ?_, fun key' => ?_⟩, hothers⟩
  · rcases hrows i with ⟨-, hi⟩ | hi <;> rw [hi]
    exacts [hcompact, h.compact i]
  · rcases hrows i with ⟨-, hi⟩ | hi <;> rw [hi]
    exacts [hnodup, h.nodup i]
  · rcases hrows i with ⟨rfl, hi⟩ | hi <;> rw [hi] at hmem
    exacts [hstored kv hmem, h.stored i kv hmem]
  · by_cases hkey : key' = key
    · rw [hmap, hrow, hkey, update_self, update_self, hself]
    · rw [hmap, update_of_ne hkey, hothers key' hkey, h.map_eq]

/-! ## Calls of `Set` -/

section Set

variable {s : KvState} {key : Bytes} {value : KvValue}

theorem KvInv.set_short (h : KvInv s) (hshort : key.length ≤ itemMaxKeyLen - 1) :
    KvInv (kvStep s (.set key value)) ∧
      ∀ key', key' ≠ key → lookup key' ((kvStep s (.set key value)).file.row (hashGen key')) =
        lookup key' (s.file.row (hashGen key')) := by
  have hkey : key.take (itemMaxKeyLen - 1) = key := List.take_of_length_le hshort
  rcases kvStep_set_cases s key value with ⟨-, -, hsame⟩ | ⟨row, hinsert, -, hrow, hmap⟩
  · rw [hsame]
    exact ⟨h, fun _ _ => rfl⟩
  rw [hkey] at hinsert
  refine h.update hrow hmap (compact_insert (h.compact _) hinsert)
    (nodup_keys_insert (h.compact _) (h.nodup _) hinsert) (fun kv hmem => ?_)
    (lookup_insert_self hinsert) fun key' hne => lookup_insert_of_ne (h.compact _) hinsert hne hne
  rcases mem_insert hinsert hmem with hold | ⟨hvalue, hstored⟩
  · exact h.stored _ kv hold
  · have hkv : kv.1 = key := hstored.elim id And.left
    rw [hkv, hvalue]
    exact ⟨rfl, hshort, value.length_le⟩

theorem KvInv.set_full (h : KvInv s) (hlong : ¬ key.length ≤ itemMaxKeyLen - 1)
    (hfull : none ∉ s.file.row (hashGen key)) : kvStep s (.set key value) = s := by
  rcases kvStep_set_cases s key value with ⟨-, -, hsame⟩ | ⟨row, hinsert, -⟩
  · exact hsame
  · rw [insert_eq_none hfull (h.notMem_keys hlong _)] at hinsert
    cases hinsert

theorem KvInv.set_cut (h : KvInv s) (hlong : ¬ key.length ≤ itemMaxKeyLen - 1)
    (hfree : none ∈ s.file.row (hashGen key)) :
    halKvGet (kvStep s (.set key value)).file key itemMaxValLen ≠
      (kvStep s (.set key value)).map key := by
  have hcut : key.take (itemMaxKeyLen - 1) ≠ key := by
    intro heq
    have hlen := congrArg List.length heq
    rw [List.length_take] at hlen
    omega
  rcases kvStep_set_cases s key value with ⟨hnone, -⟩ | ⟨row, hinsert, -, hrow, hmap⟩
  · have hsome : (ProbeRow.insert (key.take (itemMaxKeyLen - 1)) key value.bytes _).isSome :=
      insert_isSome_of_free hfree
    rw [hnone] at hsome
    cases hsome
  · have hlost := lookup_insert_of_stored_ne (h.compact _) hinsert hcut (h.notMem_keys hlong _)
    rw [hmap, update_self, halKvGet, if_neg (by decide), hashTableGet, hrow,
      update_self, hlost]
    simp

end Set

/-! ## Calls of `Del` -/

section Del

variable {s : KvState} {key : Bytes}

theorem row_del (s : KvState) (key : Bytes) :
    (kvStep s (.del key)).file.row =
      update s.file.row (hashGen key) (erase key (s.file.row (hashGen key))) := rfl

theorem KvInv.del (h : KvInv s) (hlast : LastOf key (s.file.row (hashGen key))) :
    KvInv (kvStep s (.del key)) ∧
      ∀ key', key' ≠ key → lookup key' ((kvStep s (.del key)).file.row (hashGen key')) =
        lookup key' (s.file.row (hashGen key')) :=
  h.update (row_del s key) rfl (compact_erase (h.compact _) hlast)
    ((h.nodup _).sublist keys_erase_sublist) (fun kv hmem => h.stored _ kv (mem_erase hmem))
    lookup_erase_self fun _ hne => lookup_erase_of_ne hlast hne

/-- A key that is deleted in front of another takes the other one with it. -/
theorem KvInv.del_lost (h : KvInv s) (hlast : ¬ LastOf key (s.file.row (hashGen key))) :
    ∃ key', key' ≠ key ∧
      halKvGet (kvStep s (.del key)).file key' itemMaxValLen ≠ halKvGet s.file key' itemMaxValLen := by
  obtain ⟨key', v, hne, hfound, hlost⟩ :=
    exists_lost_of_not_lastOf (h.compact _) (h.nodup _) hlast
  have hrow : hashGen key' = hashGen key := (h.stored _ _ (mem_of_lookup hfound)).1
  refine ⟨key', hne, ?_⟩
  rw [halKvGet, halKvGet, if_neg (by decide), if_neg (by decide), hashTableGet, hashTableGet, row_del,
    hrow, update_self, hlost, hfound]
  simp

end Del

/-! ## Runs -/

theorem KvInv.kvStep (h : KvInv s) {op : KvOp} (hop : Storable s op) :
    KvInv (kvStep s op) := by
  cases op with
  | set key value =>
    by_cases hshort : key.length ≤ itemMaxKeyLen - 1
    · exact (h.set_short hshort).1
    · rw [h.set_full hshort (hop.resolve_left hshort)]
      exact h
  | get key bufferLen => exact h
  | del key => exact (h.del hop).1

theorem KvInv.others (h : KvInv s) {op : KvOp} (hop : Storable s op)
    {key : Bytes} (hne : key ≠ op.key) :
    lookup key ((Kv.kvStep s op).file.row (hashGen key)) = lookup key (s.file.row (hashGen key)) := by
  cases op with
  | set key' value =>
    by_cases hshort : key'.length ≤ itemMaxKeyLen - 1
    · exact (h.set_short hshort).2 key hne
    · rw [h.set_full hshort (hop.resolve_left hshort)]
  | get key' bufferLen => rfl
  | del key' => exact (h.del hop).2 key hne

theorem KvInv.stepCorrect_iff (h : KvInv s) (op : KvOp) :
    StepCorrect s op ↔ Storable s op := by
  constructor
  · intro hcorrect
    by_contra hop
    cases op with
    | set key value =>
      have hlong := not_or.mp hop
      exact h.set_cut hlong.1 (not_not.mp hlong.2) (hcorrect.get_eq key itemMaxValLen le_rfl)
    | get key bufferLen => exact hop trivial
    | del key =>
      obtain ⟨key', hne, hlost⟩ := h.del_lost hop
      exact hlost (hcorrect.others key' itemMaxValLen hne)
  · intro hop
    refine ⟨fun key bufferLen hlen => (h.kvStep hop).get_eq key hlen, ?_, ?_⟩
    · intro key bufferLen hne
      exact halKvGet_congr (h.others hop hne) bufferLen
    · rintro key value rfl hfailed
      rcases kvStep_set_cases s key value with ⟨-, -, hsame⟩ | ⟨row, -, hok, -⟩
      · rw [hsame]
      · exact absurd hok hfailed

/-- **The store and the map.**  Every call of a run does what it should exactly when every
call is one that the store is made for. -/
theorem kv_refines_map_iff (ops : List KvOp) :
    GuardedRun.AllSteps kvStep StepCorrect kvStart ops ↔
      GuardedRun.AllSteps kvStep Storable kvStart ops :=
  GuardedRun.allSteps_congr (fun _ op h => h.stepCorrect_iff op) (fun _ _ h hop => h.kvStep hop)
    kvInv_start ops

/-- The value `x`. -/
def valueX : KvValue := ⟨[0x78], by decide, by decide⟩

/-- Two keys of one row, of which the first is deleted: the second is lost. -/
theorem kv_del_loses_other_key :
    let ops : List KvOp := [.set [0x61, 0x42] valueX, .set [0x62, 0x21] valueX, .del [0x61, 0x42]]
    halKvGet (ops.foldl kvStep kvStart).file [0x62, 0x21] itemMaxValLen = none ∧
      (ops.foldl kvStep kvStart).map [0x62, 0x21] = some [0x78] ∧
      ¬ GuardedRun.AllSteps kvStep StepCorrect kvStart ops := by
  intro ops
  have hlost : halKvGet (ops.foldl kvStep kvStart).file [0x62, 0x21] itemMaxValLen = none := by decide
  have hmap : (ops.foldl kvStep kvStart).map [0x62, 0x21] = some [0x78] := by decide
  refine ⟨hlost, hmap, fun h => ?_⟩
  have hget := h.2.2.1.get_eq [0x62, 0x21] itemMaxValLen le_rfl
  exact absurd (hlost.symm.trans (hget.trans hmap)) (by simp)

end Iotkit.Kv
