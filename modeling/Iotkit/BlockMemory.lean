/-
# Blocks in a memory

A memory gives a value for each offset, before and behind the address that offsets count from.
It is read and written in blocks of `w` cells: `blocksAt` reads a number of blocks in a
row and `setBlocks` writes a list of them.
-/
import Mathlib

namespace BlockMemory

variable {α : Type*} {w : ℕ}

/-- The block of `w` cells from `p` on. -/
def blockAt (mem : ℤ → α) (p : ℤ) : Fin w → α := fun j => mem (p + j.val)

/-- The memory with the block `b` written from `p` on. -/
def setBlock (mem : ℤ → α) (p : ℤ) (b : Fin w → α) : ℤ → α :=
  fun i => if h : p ≤ i ∧ i < p + w then b ⟨(i - p).toNat, by omega⟩ else mem i

/-- The `n` blocks from `p` on. -/
def blocksAt (mem : ℤ → α) : ℤ → ℕ → List (Fin w → α)
  | _, 0 => []
  | p, n + 1 => blockAt mem p :: blocksAt mem (p + w) n

/-- The memory with the blocks written from `p` on. -/
def setBlocks : (ℤ → α) → ℤ → List (Fin w → α) → ℤ → α
  | mem, _, [] => mem
  | mem, p, b :: bs => setBlocks (setBlock mem p b) (p + w) bs

variable (mem : ℤ → α)

@[simp] theorem length_blocksAt (n : ℕ) :
    ∀ p, (blocksAt mem p n : List (Fin w → α)).length = n := by
  induction n with
  | zero => exact fun _ => rfl
  | succ n ih => exact fun p => congrArg (· + 1) (ih _)

/-- Blocks behind blocks. -/
theorem blocksAt_add (m n : ℕ) :
    ∀ p, (blocksAt mem p (m + n) : List (Fin w → α))
      = blocksAt mem p m ++ blocksAt mem (p + w * m) n := by
  induction m with
  | zero =>
    intro p
    simp [blocksAt]
  | succ m ih =>
    intro p
    rw [Nat.succ_add, blocksAt, ih, blocksAt, List.cons_append]
    congr 3
    push_cast
    ring

/-- A block depends on its cells only. -/
theorem blockAt_congr {mem mem' : ℤ → α} {p q : ℤ}
    (h : ∀ i : ℕ, i < w → mem (p + i) = mem' (q + i)) :
    (blockAt mem p : Fin w → α) = blockAt mem' q := by
  funext j
  exact h j.val j.isLt

/-- Equal blocks have equal cells. -/
theorem cells_eq_of_blocksAt {mem mem' : ℤ → α} (n : ℕ) :
    ∀ {p q : ℤ}, (blocksAt mem p n : List (Fin w → α)) = blocksAt mem' q n →
      ∀ {i : ℕ}, i < w * n → mem (p + i) = mem' (q + i) := by
  induction n with
  | zero => exact fun _ _ hi => absurd hi (by simp)
  | succ n ih =>
    intro p q h i hi
    obtain ⟨hhead, htail⟩ := List.cons.inj h
    by_cases hlt : i < w
    · exact congrFun hhead ⟨i, hlt⟩
    · have hw : w * (n + 1) = w + w * n := by ring
      have hrest := ih htail (i := i - w) (by omega)
      have hi' : ((i - w : ℕ) : ℤ) = i - w := by omega
      rw [hi'] at hrest
      rwa [add_add_sub_cancel, add_add_sub_cancel] at hrest

/-! ## Writing -/

/-- A block leaves the cells outside. -/
theorem setBlock_of_outside {p i : ℤ} (b : Fin w → α) (h : i < p ∨ p + w ≤ i) :
    setBlock mem p b i = mem i := dif_neg (by omega)

/-- A cell of a block that was set. -/
theorem setBlock_cell (p : ℤ) (b : Fin w → α) (j : Fin w) : setBlock mem p b (p + j.val) = b j := by
  have hj := j.isLt
  unfold setBlock
  rw [dif_pos (by omega)]
  congr 1
  apply Fin.ext
  show (p + j.val - p).toNat = j.val
  omega

/-- A block that was set is read. -/
theorem blockAt_setBlock (p : ℤ) (b : Fin w → α) : blockAt (setBlock mem p b) p = b := by
  funext j
  exact setBlock_cell mem p b j

/-- What a block covers is overwritten. -/
theorem setBlock_update {p i : ℤ} (b : Fin w → α) (hi : p ≤ i ∧ i < p + w) (a : α) :
    setBlock (Function.update mem i a) p b = setBlock mem p b := by
  funext i'
  unfold setBlock
  by_cases h : p ≤ i' ∧ i' < p + w
  · rw [dif_pos h, dif_pos h]
  · rw [dif_neg h, dif_neg h]
    apply Function.update_of_ne
    rintro rfl
    exact h hi

/-- Blocks leave the cells outside. -/
theorem setBlocks_of_outside (bs : List (Fin w → α)) :
    ∀ (mem : ℤ → α) {p i : ℤ}, (i < p ∨ p + w * bs.length ≤ i) → setBlocks mem p bs i = mem i := by
  induction bs with
  | nil => exact fun _ _ _ _ => rfl
  | cons b bs ih =>
    intro mem p i h
    have hlen : (w : ℤ) * (b :: bs).length = w + w * bs.length := by
      rw [List.length_cons]
      push_cast
      ring
    have hnonneg : (0 : ℤ) ≤ w * bs.length := by positivity
    rw [hlen] at h
    rw [setBlocks, ih _ (by omega), setBlock_of_outside _ _ (by omega)]

/-- Blocks that are set behind blocks. -/
theorem setBlocks_append (as bs : List (Fin w → α)) :
    ∀ (mem : ℤ → α) (p : ℤ), setBlocks mem p (as ++ bs)
      = setBlocks (setBlocks mem p as) (p + w * as.length) bs := by
  induction as with
  | nil =>
    intro mem p
    simp [setBlocks]
  | cons a as ih =>
    intro mem p
    rw [List.cons_append, setBlocks, setBlocks, ih, List.length_cons]
    congr 1
    push_cast
    ring

/-- Blocks that were set are read. -/
theorem blocksAt_setBlocks (bs : List (Fin w → α)) :
    ∀ (mem : ℤ → α) (p : ℤ), blocksAt (setBlocks mem p bs) p bs.length = bs := by
  induction bs with
  | nil => exact fun _ _ => rfl
  | cons b bs ih =>
    intro mem p
    have hhead : (blockAt (setBlocks (setBlock mem p b) (p + w) bs) p : Fin w → α) = b := by
      have hkeep : ∀ i : ℕ, i < w →
          setBlocks (setBlock mem p b) (p + w) bs (p + i) = setBlock mem p b (p + i) :=
        fun i hi => setBlocks_of_outside bs _ (Or.inl (by omega))
      exact (blockAt_congr hkeep).trans (blockAt_setBlock mem p b)
    rw [List.length_cons, blocksAt, setBlocks, hhead, ih]

/-- Blocks are copied cell by cell. -/
theorem setBlocks_blocksAt (mem' : ℤ → α) (p q : ℤ) (n : ℕ) {i : ℕ} (hi : i < w * n) :
    setBlocks mem p (blocksAt mem' q n : List (Fin w → α)) (p + i) = mem' (q + i) := by
  have hread := blocksAt_setBlocks (blocksAt mem' q n : List (Fin w → α)) mem p
  rw [length_blocksAt] at hread
  exact cells_eq_of_blocksAt n hread hi

end BlockMemory
