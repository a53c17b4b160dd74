/-
# A ledger of the heap

Blocks of a heap are numbered in the order in which they are allocated, and what is done to them
is written down.  A stretch of the ledger is *released* when every block of it is allocated and
freed once, and nothing else is freed.  Such stretches follow one another, and stand between the
allocation and the release of an outer block.
-/
import Mathlib

namespace HeapLedger

open List

/-- Blocks are allocated and freed; `freeLiteral` frees what is not in the heap. -/
inductive HeapEvent where
  | alloc (b : ℕ)
  | free (b : ℕ)
  | freeLiteral
  deriving DecidableEq

/-- The blocks from `lo` on and below `hi` are allocated and freed once, and nothing else is. -/
structure Released (lo hi : ℕ) (log : List HeapEvent) : Prop where
  le : lo ≤ hi
  allocs : ∀ b, log.count (.alloc b) = if lo ≤ b ∧ b < hi then 1 else 0
  frees : ∀ b, log.count (.free b) = if lo ≤ b ∧ b < hi then 1 else 0
  literal : .freeLiteral ∉ log

theorem released_nil (n : ℕ) : Released n n [] := by
  refine ⟨le_refl n, fun b => ?_, fun b => ?_, not_mem_nil⟩
  · rw [if_neg (by omega), count_nil]
  · rw [if_neg (by omega), count_nil]

variable {hi : ℕ} {log : List HeapEvent}

/-- Two logs, one after the other. -/
theorem Released.append {lo mid : ℕ} {log' : List HeapEvent} (h : Released lo mid log)
    (h' : Released mid hi log') : Released lo hi (log ++ log') := by
  have hle := h.le
  have hle' := h'.le
  refine ⟨hle.trans hle', fun b => ?_, fun b => ?_, fun hmem => ?_⟩
  · rw [count_append, h.allocs, h'.allocs]
    split_ifs <;> omega
  · rw [count_append, h.frees, h'.frees]
    split_ifs <;> omega
  · rcases mem_append.mp hmem with hmem | hmem
    · exact h.literal hmem
    · exact h'.literal hmem

/-- The order of the events does not matter. -/
theorem Released.perm {lo : ℕ} {log' : List HeapEvent} (h : Released lo hi log)
    (hperm : log.Perm log') : Released lo hi log' := by
  refine ⟨h.le, fun b => ?_, fun b => ?_, fun hmem => h.literal (hperm.mem_iff.mpr hmem)⟩
  · rw [← hperm.count_eq]
    exact h.allocs b
  · rw [← hperm.count_eq]
    exact h.frees b

/-- A block may be freed after a log. -/
theorem Released.block {n : ℕ} (h : Released (n + 1) hi log) :
    Released n hi (.alloc n :: log ++ [.free n]) := by
  have hle := h.le
  refine ⟨by omega, fun b => ?_, fun b => ?_, fun hmem => ?_⟩
  · rw [count_append, count_cons, h.allocs, count_singleton]
    by_cases hb : n = b
    · subst hb
      simp
      omega
    · simp [hb]
      split_ifs <;> omega
  · rw [count_append, count_cons, h.frees, count_singleton]
    by_cases hb : n = b
    · subst hb
      simp
      omega
    · simp [hb]
      split_ifs <;> omega
  · simp only [mem_append, mem_cons, reduceCtorEq, false_or, or_false,
      not_mem_nil] at hmem
    exact h.literal hmem

/-- A block that is freed at once. -/
theorem released_block (n : ℕ) : Released n (n + 1) [.alloc n, .free n] :=
  (released_nil (n + 1)).block

/-- What was allocated is freed. -/
theorem Released.free_mem {lo b : ℕ} (h : Released lo hi log) (hmem : .alloc b ∈ log) :
    .free b ∈ log := by
  have hcount := count_pos_iff.mpr hmem
  rw [h.allocs, ← h.frees] at hcount
  exact count_pos_iff.mp hcount

/-- Only what was allocated is freed. -/
theorem Released.of_free_mem {lo b : ℕ} (h : Released lo hi log) (hmem : .free b ∈ log) :
    lo ≤ b ∧ b < hi := by
  have hcount := count_pos_iff.mpr hmem
  rw [h.frees] at hcount
  split_ifs at hcount with hin
  · exact hin
  · exact absurd hcount (lt_irrefl 0)

end HeapLedger
