/-
# Rows of elements

A buffer in which elements stand one behind the other, each of them telling its own length: the
information elements of a frame, the attributes of such an element.  The last element may be cut
off.  Where an element ends is fixed by how it begins, so a buffer is read in one way only.
-/
import Mathlib.Data.List.Basic
import Mathlib.Tactic.Common

namespace ElementRow

open List

/-- The elements of a format: none is empty, and no two of them begin the same buffer. -/
structure Format (α : Type*) where
  IsElement : List α → Prop
  ne_nil : ∀ {e : List α}, IsElement e → e ≠ []
  eq_of_append : ∀ {e f r s : List α}, IsElement e → IsElement f → e ++ r = f ++ s → e = f

namespace Format

variable {α : Type*} (F : Format α) {P Q : List α → Prop} {buf r s : List α}
  {es fs : List (List α)} {k l : ℕ}

/-- Whole elements, none of which has the property. -/
def Without (P : List α → Prop) (es : List (List α)) : Prop :=
  ∀ e ∈ es, F.IsElement e ∧ ¬ P e

/-- No whole element stands at the front: the buffer is at its end or the element is cut off. -/
def Truncated (buf : List α) : Prop :=
  ∀ e r, F.IsElement e → buf ≠ e ++ r

/-- The first whole element with the property stands at a position of the buffer, with whole
elements only in front of it. -/
def FirstAt (P : List α → Prop) (buf : List α) (k : ℕ) : Prop :=
  ∃ es e r, buf = es.flatten ++ (e ++ r) ∧ F.Without P es ∧ F.IsElement e ∧ P e ∧
    k = es.flatten.length

variable {F}

/-- The first element and the others. -/
theorem without_cons {e : List α} :
    F.Without P (e :: es) ↔ (F.IsElement e ∧ ¬ P e) ∧ F.Without P es := by
  simp [Without]

theorem truncated_nil : F.Truncated [] := by
  intro e r he h
  exact F.ne_nil he (append_eq_nil_iff.mp h.symm).1

/-- Of two ways to read the front of a buffer one goes on where the other stops. -/
theorem row_compare (hes : ∀ e ∈ es, F.IsElement e) (hfs : ∀ f ∈ fs, F.IsElement f)
    (h : es.flatten ++ r = fs.flatten ++ s) :
    (∃ gs, fs = es ++ gs ∧ r = gs.flatten ++ s) ∨ ∃ gs, es = fs ++ gs ∧ s = gs.flatten ++ r := by
  induction es generalizing fs with
  | nil => exact .inl ⟨fs, rfl, h⟩
  | cons e es ih =>
    cases fs with
    | nil => exact .inr ⟨e :: es, rfl, h.symm⟩
    | cons f fs =>
      rw [flatten_cons, flatten_cons, append_assoc, append_assoc] at h
      have hef : e = f := F.eq_of_append (hes e (by simp)) (hfs f (by simp)) h
      subst hef
      rcases ih (fun x hx => hes x (by simp [hx])) (fun x hx => hfs x (by simp [hx]))
        (append_cancel_left h) with ⟨gs, hgs, hr⟩ | ⟨gs, hgs, hs⟩
      · exact Or.inl ⟨gs, by rw [hgs, cons_append], hr⟩
      · exact Or.inr ⟨gs, by rw [hgs, cons_append], hs⟩

/-- Where a row without the property goes on, the first element with it does not lie in the
row. -/
theorem FirstAt.split (hes : F.Without P es) (h : F.FirstAt P (es.flatten ++ r) k) :
    ∃ gs e s, r = gs.flatten ++ (e ++ s) ∧ F.Without P gs ∧ F.IsElement e ∧ P e ∧
      k = es.flatten.length + gs.flatten.length := by
  obtain ⟨fs, f, s, hbuf, hfs, hf, hPf, rfl⟩ := h
  rcases row_compare (fun e he => (hes e he).1) (fun e he => (hfs e he).1) hbuf with
    ⟨gs, rfl, hr⟩ | ⟨gs, rfl, hs⟩
  · exact ⟨gs, f, s, hr, fun e he => hfs e (by simp [he]), hf, hPf, by simp⟩
  cases gs with
  | nil =>
    rw [append_nil] at hes ⊢
    exact ⟨[], f, s, hs.symm, fun e he => absurd he (by simp), hf, hPf, rfl⟩
  | cons g gs =>
    rw [flatten_cons, append_assoc] at hs
    have hg := hes g (by simp)
    have hfg : f = g := F.eq_of_append hf hg.1 hs
    exact absurd (hfg ▸ hPf) hg.2

/-- A row without such an element has no first one. -/
theorem not_firstAt_of_truncated (hes : F.Without P es) (hr : F.Truncated r) :
    ¬ F.FirstAt P (es.flatten ++ r) k := by
  intro h
  obtain ⟨gs, e, s, rfl, hgs, he, -, -⟩ := h.split hes
  cases gs with
  | nil => exact hr e s he rfl
  | cons g gs =>
    apply hr g (gs.flatten ++ (e ++ s)) (hgs g (by simp)).1
    rw [flatten_cons, append_assoc]

/-- The first element stands at its offset. -/
theorem FirstAt.drop (h : F.FirstAt P buf k) :
    ∃ e r, buf.drop k = e ++ r ∧ F.IsElement e ∧ P e := by
  obtain ⟨es, e, r, rfl, -, he, hPe, rfl⟩ := h
  exact ⟨e, r, drop_left, he, hPe⟩

/-- Every element has a byte at least. -/
theorem Without.length_le (h : F.Without P es) : es.length ≤ es.flatten.length := by
  induction es with
  | nil => exact Nat.le_refl _
  | cons e es ih =>
    obtain ⟨⟨he, -⟩, hes⟩ := without_cons.mp h
    have hpos : 0 < e.length := length_pos_iff.mpr (F.ne_nil he)
    have hle := ih hes
    rw [flatten_cons, length_cons, length_append]
    omega

/-- A row without the wider kind has none of the narrower. -/
theorem Without.mono (hPQ : ∀ e, P e → Q e) (h : F.Without Q es) : F.Without P es :=
  fun e he => ⟨(h e he).1, fun hP => (h e he).2 (hPQ e hP)⟩

/-- The first of a wider kind may be the first of a narrower. -/
theorem FirstAt.mono (hPQ : ∀ e, P e → Q e) (h : F.FirstAt Q buf k)
    (hP : ∀ e r, buf.drop k = e ++ r → F.IsElement e → P e) : F.FirstAt P buf k := by
  obtain ⟨es, e, r, rfl, hes, he, -, rfl⟩ := h
  exact ⟨es, e, r, rfl, hes.mono hPQ, he, hP e r drop_left he, rfl⟩

/-- Either an element with the property comes first, or there is none up to the end or to the
element that is cut off. -/
theorem firstAt_or_truncated (P : List α → Prop) (buf : List α) :
    (∃ k, F.FirstAt P buf k) ∨
      ∃ es r, buf = es.flatten ++ r ∧ F.Without P es ∧ F.Truncated r := by
  induction hn : buf.length using Nat.strongRecOn generalizing buf with
  | _ n ih =>
    by_cases htr : F.Truncated buf
    · exact Or.inr ⟨[], buf, rfl, fun e he => absurd he (by simp), htr⟩
    simp only [Truncated, not_forall, not_not] at htr
    obtain ⟨e, r, he, rfl⟩ := htr
    by_cases hP : P e
    · exact Or.inl ⟨0, [], e, r, rfl, fun e he => absurd he (by simp), he, hP, rfl⟩
    have hpos : 0 < e.length := length_pos_iff.mpr (F.ne_nil he)
    rw [length_append] at hn
    rcases ih r.length (by omega) r rfl with ⟨k, es, f, s, rfl, hes, hf, hPf, -⟩ |
      ⟨es, s, rfl, hes, hs⟩
    · exact Or.inl ⟨_, e :: es, f, s, by simp, without_cons.mpr ⟨⟨he, hP⟩, hes⟩, hf, hPf, rfl⟩
    · exact Or.inr ⟨e :: es, s, by simp, without_cons.mpr ⟨⟨he, hP⟩, hes⟩, hs⟩

end Format

end ElementRow
