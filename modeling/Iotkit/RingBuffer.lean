/-
# Ring buffers

A ring of `size` slots holds a list from the slot `start` on: the `i`-th element stands in the
slot `(start + i) % size`, and the other slots are free.  What it is for a slot to hold an
element, or to be free, is a parameter; an operation that changes one slot and leaves the others
as they were takes the first element out, appends one, or, when the list stands in its order
from slot 0 on and fills the ring, appends one in a slot that the ring is enlarged by.
-/
import Mathlib

namespace RingBuffer

open List

variable {α : Type*}

/-- The ring holds the list, in order from the slot `start` on. -/
structure RingHolds (holds : ℕ → α → Prop) (free : ℕ → Prop) (size start : ℕ) (xs : List α) :
    Prop where
  start_lt : start < size
  length_le : xs.length ≤ size
  holds_at : ∀ i (h : i < xs.length), holds ((start + i) % size) xs[i]
  free_at : ∀ i, xs.length ≤ i → i < size → free ((start + i) % size)

variable {holds holds' : ℕ → α → Prop} {free free' : ℕ → Prop} {size start : ℕ}

/-- Different places have different indices. -/
theorem place_inj {i j : ℕ} (hi : i < size) (hj : j < size)
    (h : (start + i) % size = (start + j) % size) : i = j := by
  have hmod : i ≡ j [MOD size] := Nat.ModEq.add_left_cancel' start h
  exact Nat.ModEq.eq_of_lt_of_lt hmod hi hj

namespace RingHolds

/-- All slots but one are as they were. -/
def Others (holds holds' : ℕ → α → Prop) (free free' : ℕ → Prop) (slot : ℕ) : Prop :=
  ∀ j, j ≠ slot → (∀ x, holds j x → holds' j x) ∧ (free j → free' j)

theorem place_zero (hlt : start < size) : (start + 0) % size = start :=
  Nat.mod_eq_of_lt hlt

/-- The first place is freed. -/
theorem pop {x : α} {xs : List α} (h : RingHolds holds free size start (x :: xs))
    (hothers : Others holds holds' free free' start) (hfree : free' start) :
    RingHolds holds' free' size ((start + 1) % size) xs := by
  have hlt := h.start_lt
  have hle : xs.length + 1 ≤ size := h.length_le
  have hne : ∀ i, i + 1 < size → (start + (i + 1)) % size ≠ start := by
    intro i hi hsame
    have := place_inj hi (by omega) (hsame.trans (place_zero hlt).symm)
    omega
  have hplace : ∀ i, ((start + 1) % size + i) % size = (start + (i + 1)) % size := by
    intro i
    rw [Nat.mod_add_mod]
    congr 1
    omega
  refine ⟨Nat.mod_lt _ (by omega), by omega, fun i hi => ?_, fun i hle' hi => ?_⟩
  · rw [hplace]
    exact (hothers _ (hne i (by omega))).1 _ (h.holds_at (i + 1) (by simpa using hi))
  · rw [hplace]
    by_cases hlast : i + 1 = size
    · rw [hlast, Nat.add_mod_right, Nat.mod_eq_of_lt hlt]
      exact hfree
    · exact (hothers _ (hne i (by omega))).2 (h.free_at (i + 1) (by simpa using hle') (by omega))

/-- A place behind the last one is taken. -/
theorem push {x : α} {xs : List α} (h : RingHolds holds free size start xs)
    (hroom : xs.length < size)
    (hothers : Others holds holds' free free' ((start + xs.length) % size))
    (hholds : holds' ((start + xs.length) % size) x) :
    RingHolds holds' free' size start (xs ++ [x]) := by
  have hne : ∀ i, i < size → i ≠ xs.length →
      (start + i) % size ≠ (start + xs.length) % size :=
    fun i hi hdiff hsame => hdiff (place_inj hi hroom hsame)
  refine ⟨h.start_lt, by simpa using hroom, fun i hi => ?_, fun i hle hi => ?_⟩
  · rw [length_append, length_singleton] at hi
    by_cases hlast : i = xs.length
    · subst hlast
      simpa using hholds
    · have hi' : i < xs.length := by omega
      rw [getElem_append_left hi']
      exact (hothers _ (hne i (by omega) hlast)).1 _ (h.holds_at i hi')
  · rw [length_append, length_singleton] at hle
    exact (hothers _ (hne i hi (by omega))).2 (h.free_at i (by omega) hi)

/-- A place is added to a full ring. -/
theorem grow {x : α} {xs : List α} (h : RingHolds holds free size 0 xs) (hfull : xs.length = size)
    (hothers : Others holds holds' free free' size) (hholds : holds' size x) :
    RingHolds holds' free' (size + 1) 0 (xs ++ [x]) := by
  subst hfull
  refine ⟨Nat.succ_pos _, by simp, fun i hi => ?_, fun i hle hi => ?_⟩
  · rw [length_append, length_singleton] at hi
    rw [Nat.zero_add, Nat.mod_eq_of_lt (by omega)]
    by_cases hlast : i = xs.length
    · subst hlast
      simpa using hholds
    · have hi' : i < xs.length := by omega
      have hold := h.holds_at i hi'
      rw [Nat.zero_add, Nat.mod_eq_of_lt (by omega)] at hold
      rw [getElem_append_left hi']
      exact (hothers _ (by omega)).1 _ hold
  · rw [length_append, length_singleton] at hle
    omega

end RingHolds

end RingBuffer
