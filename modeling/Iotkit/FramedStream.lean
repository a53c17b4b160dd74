/-
# Byte streams that are concatenations of frames

`FramedStream enc` is an infinite stream of letters together with a sequence of
frames whose encodings, put one after the other, spell it.  A position of the
stream is a boundary when it is the end of some number of whole frames; a
position strictly inside a frame is not one.
-/
import Mathlib

variable {F : Type*} {A : Type*}

/-- The position at which the `k`-th frame starts. -/
def frameOffset (enc : F → List A) (frames : ℕ → F) (k : ℕ) : ℕ :=
  ∑ j ∈ Finset.range k, (enc (frames j)).length

/-- An infinite stream spelled by the encodings of its frames. -/
structure FramedStream (enc : F → List A) where
  letters : ℕ → A
  frames : ℕ → F
  spells : ∀ k i (h : i < (enc (frames k)).length),
    letters (frameOffset enc frames k + i) = (enc (frames k))[i]

namespace FramedStream

variable {enc : F → List A} (st : FramedStream enc)

/-- The start of the `k`-th frame. -/
def offset (k : ℕ) : ℕ := frameOffset enc st.frames k

/-- A position between two frames. -/
def IsBoundary (pos : ℕ) : Prop := ∃ k, pos = st.offset k

@[simp] theorem offset_zero : st.offset 0 = 0 := by simp [offset, frameOffset]

/-- A frame ends where the next one starts. -/
theorem offset_succ (k : ℕ) :
    st.offset (k + 1) = st.offset k + (enc (st.frames k)).length := by
  simp [offset, frameOffset, Finset.sum_range_succ]

/-- Later frames have larger offsets. -/
theorem offset_mono : Monotone st.offset :=
  monotone_nat_of_le_succ fun k => by rw [offset_succ]; omega

/-- Inside a frame there is no boundary. -/
theorem not_isBoundary_of_inside {pos k : ℕ} (hlo : st.offset k < pos)
    (hhi : pos < st.offset (k + 1)) : ¬ st.IsBoundary pos := by
  rintro ⟨j, rfl⟩
  rcases Nat.lt_or_ge k j with h | h
  · have := st.offset_mono (show k + 1 ≤ j from h)
    omega
  · have := st.offset_mono h
    omega

/-- The letters of a part of a frame. -/
theorem map_letters_eq (k i n : ℕ) (h : i + n ≤ (enc (st.frames k)).length) :
    (List.range n).map (fun j => st.letters (st.offset k + i + j))
      = ((enc (st.frames k)).drop i).take n := by
  apply List.ext_getElem
  · simp; omega
  · intro j hj _
    have hj' : j < n := by simpa using hj
    have hspell := st.spells k (i + j) (by omega)
    rw [← Nat.add_assoc] at hspell
    simpa [offset] using hspell

end FramedStream
