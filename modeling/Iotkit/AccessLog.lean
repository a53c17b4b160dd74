/-
# Computations that record what they access

A `Logged` computation yields a value and the list of the accesses it has made, in the order in
which it has made them.  `Within P` says that all of them meet `P`: a computation is within its
bounds when its parts are, each at the values that those before it have yielded.
-/
import Mathlib

namespace AccessLog

open List

universe u v

/-- A value with the accesses that were made to compute it. -/
structure Logged (ι : Type u) (α : Type v) where
  val : α
  log : List ι

namespace Logged

variable {ι : Type u} {α β γ : Type v} {P Q : ι → Prop}

instance : Monad (Logged ι) where
  pure a := ⟨a, []⟩
  bind m f := ⟨(f m.val).val, m.log ++ (f m.val).log⟩

@[simp] theorem val_pure (a : α) : (pure a : Logged ι α).val = a := rfl

@[simp] theorem val_bind (m : Logged ι α) (f : α → Logged ι β) :
    (m >>= f).val = (f m.val).val := rfl

/-- The logs of two computations, one behind the other. -/
theorem mk_bind (a : α) (log : List ι) (f : α → Logged ι β) :
    (⟨a, log⟩ >>= f : Logged ι β) = ⟨(f a).val, log ++ (f a).log⟩ := rfl

theorem pure_eq_mk (a : α) : (pure a : Logged ι α) = ⟨a, []⟩ := rfl

def access (i : ι) (a : α) : Logged ι α := ⟨a, [i]⟩

theorem access_eq_mk (i : ι) (a : α) : access i a = ⟨a, [i]⟩ := rfl

@[simp] theorem val_access (i : ι) (a : α) : (access i a).val = a := rfl

/-- All accesses meet `P`. -/
def Within (P : ι → Prop) (m : Logged ι α) : Prop := ∀ i ∈ m.log, P i

@[simp] theorem within_pure (a : α) : (pure a : Logged ι α).Within P := forall_mem_nil _

@[simp] theorem within_access (i : ι) (a : α) : (access i a).Within P ↔ P i :=
  forall_mem_singleton

@[simp] theorem within_bind (m : Logged ι α) (f : α → Logged ι β) :
    (m >>= f).Within P ↔ m.Within P ∧ (f m.val).Within P := forall_mem_append

@[simp] theorem within_ite (c : Prop) [Decidable c] (m m' : Logged ι α) :
    (if c then m else m').Within P ↔ (c → m.Within P) ∧ (¬ c → m'.Within P) := by
  by_cases h : c <;> simp [h]

/-- **The loop rule.**  A loop whose passes are within bounds, from any state, is. -/
theorem within_foldlM {f : β → α → Logged ι β} {l : List α}
    (hf : ∀ a ∈ l, ∀ b, (f b a).Within P) (b : β) : (l.foldlM f b).Within P := by
  induction l generalizing b with
  | nil => exact within_pure b
  | cons a l ih =>
    rw [foldlM_cons, within_bind]
    exact ⟨hf a mem_cons_self b, ih (fun a' ha' => hf a' (mem_cons_of_mem a ha')) _⟩

/-- A loop whose accesses do not depend on its state is within bounds when each pass is. -/
theorem within_foldlM_iff {γ : Type v} (g : α → Logged ι γ) (h : β → α → γ → β) (l : List α)
    (b : β) :
    (l.foldlM (fun b a => g a >>= fun c => pure (h b a c)) b).Within P ↔
      ∀ a ∈ l, (g a).Within P := by
  induction l generalizing b with
  | nil => simp
  | cons a l ih =>
    rw [foldlM_cons, within_bind, ih, within_bind, forall_mem_cons]
    simp

/-- The value meets `P`. -/
def Yields (P : α → Prop) (m : Logged ι α) : Prop := P m.val

@[simp] theorem yields_pure (P : α → Prop) (a : α) : (pure a : Logged ι α).Yields P ↔ P a := Iff.rfl

@[simp] theorem yields_bind (P : β → Prop) (m : Logged ι α) (f : α → Logged ι β) :
    (m >>= f).Yields P ↔ (f m.val).Yields P := Iff.rfl

@[simp] theorem yields_ite (P : α → Prop) (c : Prop) [Decidable c] (m m' : Logged ι α) :
    (if c then m else m').Yields P ↔ (c → m.Yields P) ∧ (¬ c → m'.Yields P) := by
  by_cases h : c <;> simp [h]

/-- A branch in front of a computation. -/
theorem yields_ite_bind {P : β → Prop} {Q : α → Prop} {c : Prop} [Decidable c] {m m' : Logged ι α}
    {f : α → Logged ι β} (hm : m.Yields Q) (hm' : m'.Yields Q) (hf : ∀ a, Q a → (f a).Yields P) :
    (if c then m >>= f else m' >>= f).Yields P := by
  rw [yields_ite]
  exact ⟨fun _ => hf _ hm, fun _ => hf _ hm'⟩

/-- A fold yields what each of its steps keeps. -/
theorem yields_foldlM {P : β → Prop} {f : β → α → Logged ι β} {l : List α}
    (hf : ∀ a ∈ l, ∀ b, P b → (f b a).Yields P) {b : β} (hb : P b) : (l.foldlM f b).Yields P := by
  induction l generalizing b with
  | nil => exact hb
  | cons a l ih =>
    rw [foldlM_cons, yields_bind]
    exact ih (fun a' ha' => hf a' (mem_cons_of_mem a ha')) (hf a mem_cons_self b hb)

end Logged

end AccessLog
