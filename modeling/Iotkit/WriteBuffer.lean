/-
# Buffers of a size

A buffer has a number of cells.  A store behind the last cell leaves the cells alone and marks the
buffer as strayed; what is known of a buffer is what its cells begin with.
-/
import Mathlib

/-- The cells of a buffer, and whether something has been stored behind them. -/
structure WriteBuffer (α : Type*) where
  cells : List α
  stray : Bool := false

namespace WriteBuffer

open List

variable {α : Type*}

variable (b : WriteBuffer α)

def size : ℕ := b.cells.length

/-- The list `l` is stored from the cell `i` on. -/
def store (i : ℕ) (l : List α) : WriteBuffer α where
  cells := (b.cells.take i ++ l ++ b.cells.drop (i + l.length)).take b.size
  stray := b.stray || !l.isEmpty && decide (b.size < i + l.length)

/-- A buffer of `n` cells with what fits of the old one, the other cells filled with `a`. -/
def resize (n : ℕ) (a : α) : WriteBuffer α :=
  { b with cells := b.cells.take n ++ List.replicate (n - b.size) a }

@[simp] theorem size_store (i : ℕ) (l : List α) : (b.store i l).size = b.size := by
  simp only [store, size, length_take, length_append, length_drop]
  omega

@[simp] theorem size_resize (n : ℕ) (a : α) : (b.resize n a).size = n := by
  simp only [resize, size, length_append, length_take, length_replicate]
  omega

/-- A store with room goes nowhere else. -/
theorem stray_store {b : WriteBuffer α} {i : ℕ} {l : List α} (h : l = [] ∨ i + l.length ≤ b.size) :
    (b.store i l).stray = b.stray := by
  show (b.stray || !l.isEmpty && decide (b.size < i + l.length)) = b.stray
  rcases h with rfl | h
  · simp
  · rw [decide_eq_false (Nat.not_lt.mpr h), Bool.and_false, Bool.or_false]

section Prefix

variable {b : WriteBuffer α} {p : List α}

/-- A store behind a prefix makes it longer. -/
theorem prefix_store (h : p <+: b.cells) {l : List α} (hroom : p.length + l.length ≤ b.size) :
    p ++ l <+: (b.store p.length l).cells := by
  have hp : b.cells.take p.length = p := (prefix_iff_eq_take.mp h).symm
  show p ++ l <+: (b.cells.take p.length ++ l ++ b.cells.drop (p.length + l.length)).take b.size
  rw [hp, prefix_take_iff, length_append]
  exact ⟨prefix_append _ _, hroom⟩

/-- A store behind a prefix leaves it. -/
theorem prefix_store_of_le (h : p <+: b.cells) {i : ℕ} (hi : p.length ≤ i) (l : List α) :
    p <+: (b.store i l).cells := by
  show p <+: (b.cells.take i ++ l ++ b.cells.drop (i + l.length)).take b.size
  have htake : p <+: b.cells.take i := prefix_take_iff.mpr ⟨h, hi⟩
  rw [prefix_take_iff, append_assoc]
  exact ⟨htake.trans (prefix_append _ _), h.length_le⟩

/-- A larger buffer keeps the prefix. -/
theorem prefix_resize (h : p <+: b.cells) {n : ℕ} (hn : p.length ≤ n) (a : α) :
    p <+: (b.resize n a).cells := by
  have htake : p <+: b.cells.take n := prefix_take_iff.mpr ⟨h, hn⟩
  exact htake.trans (prefix_append _ _)

end Prefix

end WriteBuffer
