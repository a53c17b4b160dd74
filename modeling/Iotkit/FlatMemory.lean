/-
# A flat memory

A memory gives a value for each address.  `store` writes a list from an address on and `load`
reads a number of cells.  What is stored away from a region is not seen in it, and what is
stored right after a region extends what is read from it.  A sequence of stores leaves the cells
from an address on alone in every memory exactly if each store ends before it.
-/
import Mathlib

namespace FlatMemory

open List

variable {α : Type*}

/-- The memory with `l` stored from `addr` on. -/
def store (mem : ℕ → α) (addr : ℕ) (l : List α) : ℕ → α :=
  fun a => if addr ≤ a then (l[a - addr]?).getD (mem a) else mem a

/-- The `n` cells from `addr` on. -/
def load (mem : ℕ → α) (addr n : ℕ) : List α := (List.range n).map fun i => mem (addr + i)

/-- The regions of `n` cells from `addr` on and of `m` cells from `addr'` on share no cell. -/
def Apart (addr n addr' m : ℕ) : Prop := ∀ i < n, ∀ j < m, addr + i ≠ addr' + j

instance (addr n addr' m : ℕ) : Decidable (Apart addr n addr' m) :=
  inferInstanceAs (Decidable (∀ i < n, ∀ j < m, addr + i ≠ addr' + j))

/-- Being apart is symmetric. -/
theorem Apart.symm {addr n addr' m : ℕ} (h : Apart addr n addr' m) : Apart addr' m addr n :=
  fun j hj i hi heq => h i hi j hj heq.symm

variable (mem : ℕ → α) (addr : ℕ)

@[simp] theorem length_load (n : ℕ) : (load mem addr n).length = n := by
  simp [load]

/-- The last cell of a load. -/
theorem load_succ (n : ℕ) : load mem addr (n + 1) = load mem addr n ++ [mem (addr + n)] := by
  simp [load, range_succ]

/-- The first cell of a load. -/
theorem load_cons (n : ℕ) : load mem addr (n + 1) = mem addr :: load mem (addr + 1) n := by
  simp [load, range_succ_eq_map, Nat.add_assoc, Nat.add_comm 1, Function.comp_def]

/-- A load depends on its cells only. -/
theorem load_congr {mem mem' : ℕ → α} {addr n : ℕ}
    (h : ∀ i < n, mem (addr + i) = mem' (addr + i)) : load mem addr n = load mem' addr n := by
  unfold load
  exact map_congr_left fun i hi => h i (mem_range.mp hi)

variable {a : ℕ}

/-- A store leaves the cells in front of it. -/
theorem store_of_lt (l : List α) (h : a < addr) :
    store mem addr l a = mem a := if_neg (Nat.not_le.mpr h)

/-- A store leaves all other cells. -/
theorem store_of_ne (l : List α) (h : ∀ j < l.length, a ≠ addr + j) :
    store mem addr l a = mem a := by
  unfold store
  split_ifs with haddr
  · have hout : l.length ≤ a - addr := by
      by_contra hlt
      exact h (a - addr) (by omega) (by omega)
    rw [List.getElem?_eq_none hout, Option.getD_none]
  · rfl

/-- What was stored is loaded. -/
theorem load_store_self (l : List α) : load (store mem addr l) addr l.length = l := by
  apply ext_getElem (length_load _ _ _)
  intro i hi hil
  simp [load, store, hil]

/-- A cell is stored behind what is loaded. -/
theorem load_store_succ (n : ℕ) (a : α) :
    load (store mem (addr + n) [a]) addr (n + 1) = load mem addr n ++ [a] := by
  have hbefore : load (store mem (addr + n) [a]) addr n = load mem addr n :=
    load_congr fun i hi => store_of_lt mem (addr + n) [a] (by omega)
  rw [load_succ, hbefore]
  simp [store]

/-- Two stores, one behind the other, are one. -/
theorem store_append (l l' : List α) :
    store (store mem addr l) (addr + l.length) l' = store mem addr (l ++ l') := by
  funext a
  unfold store
  by_cases hl : addr + l.length ≤ a
  · rw [if_pos hl, if_pos (by omega), if_pos (by omega), List.getElem?_append_right (by omega),
      List.getElem?_eq_none (show l.length ≤ a - addr by omega), Nat.sub_sub]
    rfl
  · by_cases ha : addr ≤ a
    · rw [if_neg hl, if_pos ha, if_pos ha, List.getElem?_append_left (by omega)]
    · rw [if_neg hl, if_neg ha, if_neg ha]

/-- A loop that stores one cell after the other. -/
theorem foldl_store (f : ℕ → α) (n : ℕ) :
    (List.range n).foldl (fun mem j => store mem (addr + j) [f j]) mem =
      store mem addr ((List.range n).map f) := by
  induction n with
  | zero =>
    funext a
    exact (store_of_ne mem addr [] fun j hj => absurd hj (Nat.not_lt_zero j)).symm
  | succ n ih =>
    have happend := store_append mem addr ((List.range n).map f) [f n]
    rw [length_map, length_range] at happend
    rw [range_succ, foldl_append, ih, map_append, map_singleton, ← happend]
    rfl

/-- A store of a function of the index. -/
theorem store_map_range (f : ℕ → α) (n a : ℕ) :
    store mem addr ((List.range n).map f) a =
      if addr ≤ a ∧ a < addr + n then f (a - addr) else mem a := by
  unfold store
  by_cases ha : addr ≤ a
  · by_cases hn : a < addr + n
    · have hlt : a - addr < n := by omega
      simp [ha, hn, hlt]
    · have hle : n ≤ a - addr := by omega
      simp [ha, hn, hle]
  · simp [ha]

/-! ## Sequences of stores -/

/-- The stores one after the other. -/
def storeAll (mem : ℕ → α) (stores : List (ℕ × List α)) : ℕ → α :=
  stores.foldl (fun mem s => store mem s.1 s.2) mem

theorem storeAll_cons (s : ℕ × List α) (stores : List (ℕ × List α)) :
    storeAll mem (s :: stores) = storeAll (store mem s.1 s.2) stores := rfl

/-- Two lists of stores, one after the other. -/
theorem storeAll_append (stores stores' : List (ℕ × List α)) :
    storeAll mem (stores ++ stores') = storeAll (storeAll mem stores) stores' :=
  foldl_append

/-- A store depends on the cell it is seen at. -/
theorem store_congr {mem mem' : ℕ → α} {addr : ℕ} {l : List α} (h : mem a = mem' a) :
    store mem addr l a = store mem' addr l a := by
  unfold store
  rw [h]

/-- So do several stores. -/
theorem storeAll_congr (stores : List (ℕ × List α)) :
    ∀ {mem mem' : ℕ → α}, mem a = mem' a → storeAll mem stores a = storeAll mem' stores a := by
  induction stores with
  | nil => exact fun h => h
  | cons s stores ih => exact fun h => ih (store_congr h)

/-- A cell that one of them covers depends on no memory before. -/
theorem storeAll_congr_of_mem {s : ℕ × List α} (hle : s.1 ≤ a) (hlt : a < s.1 + s.2.length)
    (stores : List (ℕ × List α)) :
    ∀ mem mem' : ℕ → α, s ∈ stores → storeAll mem stores a = storeAll mem' stores a := by
  induction stores with
  | nil => exact fun _ _ hs => absurd hs not_mem_nil
  | cons t stores ih =>
    intro mem mem' hs
    rcases mem_cons.mp hs with rfl | hs
    · rw [storeAll_cons, storeAll_cons]
      apply storeAll_congr
      unfold store
      rw [if_pos hle, if_pos hle, List.getElem?_eq_getElem (by omega)]
      rfl
    · exact ih _ _ hs

/-- Stores below a bound leave the cells from it on. -/
theorem storeAll_of_forall_le {n : ℕ} (hn : n ≤ a) (stores : List (ℕ × List α)) :
    ∀ mem : ℕ → α, (∀ s ∈ stores, s.2 ≠ [] → s.1 + s.2.length ≤ n) →
      storeAll mem stores a = mem a := by
  induction stores with
  | nil => exact fun _ _ => rfl
  | cons s stores ih =>
    intro mem hall
    rw [storeAll_cons, ih _ fun t ht => hall t (mem_cons_of_mem _ ht)]
    apply store_of_ne
    intro j hj heq
    have hne : s.2 ≠ [] := ne_nil_of_length_pos (by omega)
    have hle := hall s mem_cons_self hne
    omega

/-- **Bounds of stores.**  The cells from `n` on are kept in every memory exactly if every store
ends before `n`. -/
theorem storeAll_keeps_iff [Nontrivial α] (n : ℕ) (stores : List (ℕ × List α)) :
    (∀ (mem : ℕ → α) (a : ℕ), n ≤ a → storeAll mem stores a = mem a) ↔
      ∀ s ∈ stores, s.2 ≠ [] → s.1 + s.2.length ≤ n := by
  constructor
  · intro hkeep s hs hne
    by_contra hlong
    have hpos : 0 < s.2.length := length_pos_iff.mpr hne
    -- the last cell of the store has one value in two memories
    obtain ⟨x, y, hxy⟩ := exists_pair_ne α
    have hsame := storeAll_congr_of_mem (a := s.1 + s.2.length - 1) (by omega) (by omega) stores
      (fun _ => x) (fun _ => y) hs
    rw [hkeep _ _ (by omega), hkeep _ _ (by omega)] at hsame
    exact hxy hsame
  · exact fun hall mem a hn => storeAll_of_forall_le hn stores mem hall

end FlatMemory
