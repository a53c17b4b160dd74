/-
# Paths of levels and filters over them

A text is read as a path of levels between separators.  A filter is a path in which a level `one`
stands for any level and a last level `many` for any number of levels, none included; its other
levels stand for themselves.
-/
import Mathlib

namespace Levels

open List

/-! ## Levels of a text -/

section Text

variable {α : Type*} [DecidableEq α]

/-- The levels of a text. -/
def levels (sep : α) (s : List α) : List (List α) := s.splitOn sep

@[simp] theorem levels_nil (sep : α) : levels sep [] = [[]] := splitOn_nil sep

/-- There is always a level. -/
theorem levels_ne_nil (sep : α) (s : List α) : levels sep s ≠ [] := splitOn_ne_nil sep s

/-- A text without a separator is one level. -/
theorem levels_of_notMem {sep : α} {l : List α} (h : sep ∉ l) : levels sep l = [l] :=
  splitOn_eq_singleton h

/-- The first level ends in front of the first separator. -/
theorem levels_append_cons {sep : α} {l : List α} (h : sep ∉ l) (s : List α) :
    levels sep (l ++ sep :: s) = l :: levels sep s :=
  splitOn_append_cons_self_of_not_mem h s

/-- A separator splits the levels. -/
theorem levels_append (sep : α) (s t : List α) :
    levels sep (s ++ sep :: t) = levels sep s ++ levels sep t :=
  splitOn_append_cons_self s t

/-- A text is one level, or a first level and a rest behind a separator. -/
theorem first_level (sep : α) (s : List α) :
    sep ∉ s ∨ ∃ l t, sep ∉ l ∧ s = l ++ sep :: t := by
  by_cases h : sep ∈ s
  · right
    obtain ⟨l, t, rfl, hl⟩ := eq_append_cons_of_mem h
    exact ⟨l, t, hl, rfl⟩
  · exact .inl h

/-- Induction over the levels of a text. -/
theorem level_induction {P : List α → Prop} (sep : α) (last : ∀ l, sep ∉ l → P l)
    (cons : ∀ l t, sep ∉ l → P t → P (l ++ sep :: t)) (s : List α) : P s := by
  induction hn : s.length using Nat.strong_induction_on generalizing s with
  | _ n ih =>
    subst hn
    rcases first_level sep s with hs | ⟨l, t, hl, rfl⟩
    · exact last s hs
    · apply cons l t hl
      apply ih t.length _ t rfl
      rw [length_append, length_cons]
      omega

/-- No level has a separator. -/
theorem sep_notMem_of_mem_levels {sep : α} {s l : List α} (h : l ∈ levels sep s) : sep ∉ l := by
  induction s using level_induction sep with
  | last s hs =>
    rw [levels_of_notMem hs, mem_singleton] at h
    rwa [h]
  | cons first t hfirst ih =>
    rw [levels_append_cons hfirst, mem_cons] at h
    rcases h with rfl | h
    · exact hfirst
    · exact ih h

/-- Every other character is in a level. -/
theorem exists_mem_levels {sep c : α} {s : List α} (hc : c ≠ sep) :
    c ∈ s ↔ ∃ l ∈ levels sep s, c ∈ l := by
  induction s using level_induction sep with
  | last s hs => simp [levels_of_notMem hs]
  | cons first t hfirst ih =>
    rw [levels_append_cons hfirst, mem_append, mem_cons, ih]
    simp [hc]

/-- A character behind a text goes to its last level, or makes a level of its own. -/
theorem levels_concat (sep c : α) (s : List α) :
    levels sep (s ++ [c]) = if c = sep then levels sep s ++ [[]]
      else (levels sep s).dropLast ++ [(levels sep s).getLast (levels_ne_nil sep s) ++ [c]] := by
  by_cases hc : c = sep
  · subst hc
    rw [if_pos rfl, levels_append, levels_nil]
  rw [if_neg hc]
  induction s using level_induction sep with
  | last s hs =>
    have hsc : sep ∉ s ++ [c] := by
      rw [mem_append, mem_singleton]
      rintro (h | h)
      · exact hs h
      · exact hc h.symm
    simp [levels_of_notMem hsc, levels_of_notMem hs]
  | cons first t hfirst ih =>
    have hne := levels_ne_nil sep t
    rw [append_assoc, cons_append, levels_append_cons hfirst, ih]
    simp [levels_append_cons hfirst, dropLast_cons_of_ne_nil hne, getLast_cons hne]

/-- A character behind a text goes on with the last level or ends it. -/
theorem getLast_levels_concat (sep c : α) (s : List α) :
    (levels sep (s ++ [c])).getLast (levels_ne_nil sep _) =
      if c = sep then [] else (levels sep s).getLast (levels_ne_nil sep s) ++ [c] := by
  have h := levels_concat sep c s
  by_cases hc : c = sep
  · rw [if_pos hc] at h ⊢
    simp [h]
  · rw [if_neg hc] at h ⊢
    simp [h]

end Text

/-! ## Filters -/

section Filter

variable {β : Type*} (one many : β)

/-- A path matches a filter. -/
def Matches : List β → List β → Prop
  | [], path => path = []
  | f :: filter, path =>
    f = many ∧ filter = [] ∨
      match path with
      | [] => False
      | n :: path => (f = one ∨ f = n) ∧ Matches filter path

instance decidableMatches [DecidableEq β] : ∀ filter path, Decidable (Matches one many filter path)
  | [], path => inferInstanceAs (Decidable (path = []))
  | f :: filter, [] => inferInstanceAs (Decidable (f = many ∧ filter = [] ∨ False))
  | f :: filter, n :: path =>
    have := decidableMatches filter path
    inferInstanceAs (Decidable
      (f = many ∧ filter = [] ∨ (f = one ∨ f = n) ∧ Matches one many filter path))

variable {one many}

@[simp] theorem matches_nil (path : List β) : Matches one many [] path ↔ path = [] := Iff.rfl

theorem matches_cons_nil {f : β} {filter : List β} :
    Matches one many (f :: filter) [] ↔ f = many ∧ filter = [] := by
  simp [Matches]

theorem matches_cons {f n : β} {filter path : List β} :
    Matches one many (f :: filter) (n :: path) ↔
      f = many ∧ filter = [] ∨ (f = one ∨ f = n) ∧ Matches one many filter path := Iff.rfl

variable (one many) in
/-- Every wildcard of a filter stands against a level of the path with a property. -/
def Filled (p : β → Prop) (filter path : List β) : Prop :=
  ∀ k : ℕ, filter[k]? = some one ∨ filter[k]? = some many → ∃ n, path[k]? = some n ∧ p n

theorem filled_nil {p : β → Prop} (path : List β) : Filled one many p [] path := by
  intro k h
  simp at h

theorem filled_cons {p : β → Prop} {f n : β} {filter path : List β} :
    Filled one many p (f :: filter) (n :: path) ↔
      (f = one ∨ f = many → p n) ∧ Filled one many p filter path := by
  constructor
  · intro h
    constructor
    · intro hf
      obtain ⟨n', hn, hp⟩ := h 0 (by simpa using hf)
      rw [List.getElem?_cons_zero, Option.some.injEq] at hn
      rwa [hn]
    · intro k hk
      obtain ⟨n', hn, hp⟩ := h (k + 1) (by simpa using hk)
      exact ⟨n', by simpa using hn, hp⟩
  · rintro ⟨hfirst, hrest⟩ k hk
    cases k with
    | zero => exact ⟨n, rfl, hfirst (by simpa using hk)⟩
    | succ k => simpa using hrest k (by simpa using hk)

/-- A wildcard has to stand for a level. -/
theorem filled_cons_nil {p : β → Prop} {f : β} {filter : List β} (h : f = one ∨ f = many) :
    ¬ Filled one many p (f :: filter) [] := by
  intro hfilled
  obtain ⟨n, hn, -⟩ := hfilled 0 (by simpa using h)
  exact nomatch hn

end Filter

end Levels
