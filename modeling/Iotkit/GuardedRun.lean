/-
# Guarded runs of a deterministic step function

A run of a step function `step : S → I → S` over a list of inputs is the fold
`inputs.foldl step s`.  `AllSteps step ok s inputs` says that every input of the
run meets the guard `ok` in the state in which it is taken; the induction rules
below carry an invariant along such a run and along all of its prefixes.
-/
import Mathlib

namespace GuardedRun

variable {S I : Type*} (step : S → I → S)

/-- Every input meets the guard `ok` in the state in which it is taken. -/
def AllSteps (ok : S → I → Prop) : S → List I → Prop
  | _, [] => True
  | s, i :: is => ok s i ∧ AllSteps ok (step s i) is

variable {step} {ok : S → I → Prop} {Inv : S → Prop}

instance decidableAllSteps [∀ s i, Decidable (ok s i)] :
    ∀ (s : S) (is : List I), Decidable (AllSteps step ok s is)
  | _, [] => .isTrue trivial
  | s, i :: is =>
    have := decidableAllSteps (step s i) is
    inferInstanceAs (Decidable (ok s i ∧ AllSteps step ok (step s i) is))

@[simp] theorem allSteps_nil (s : S) : AllSteps step ok s [] := trivial

@[simp] theorem allSteps_cons (s : S) (i : I) (is : List I) :
    AllSteps step ok s (i :: is) ↔ ok s i ∧ AllSteps step ok (step s i) is := Iff.rfl

/-- A run is guarded if both of its parts are. -/
theorem allSteps_append (s : S) (is js : List I) :
    AllSteps step ok s (is ++ js) ↔
      AllSteps step ok s is ∧ AllSteps step ok (is.foldl step s) js := by
  induction is generalizing s with
  | nil => simp
  | cons i is ih => simp [ih, and_assoc]

/-- A weaker guard holds as well. -/
theorem AllSteps.mono {ok' : S → I → Prop} (himp : ∀ s i, ok s i → ok' s i) :
    ∀ {s : S} {is : List I}, AllSteps step ok s is → AllSteps step ok' s is
  | _, [], _ => trivial
  | _, _ :: _, h => ⟨himp _ _ h.1, AllSteps.mono himp h.2⟩

/-- A guard that always holds. -/
theorem allSteps_of_forall (hall : ∀ s i, ok s i) : ∀ (s : S) (is : List I), AllSteps step ok s is
  | _, [] => trivial
  | _, _ :: is => ⟨hall _ _, allSteps_of_forall hall _ is⟩

/-- Two guards are one. -/
theorem AllSteps.and {ok' : S → I → Prop} :
    ∀ {s : S} {is : List I}, AllSteps step ok s is → AllSteps step ok' s is →
      AllSteps step (fun s i => ok s i ∧ ok' s i) s is
  | _, [], _, _ => trivial
  | _, _ :: _, h, h' => ⟨⟨h.1, h'.1⟩, AllSteps.and h.2 h'.2⟩

/-- A guard on the inputs alone. -/
theorem allSteps_of_mem {ok : I → Prop} {is : List I} (hall : ∀ i ∈ is, ok i) (s : S) :
    AllSteps step (fun _ i => ok i) s is := by
  induction is generalizing s with
  | nil => trivial
  | cons i is ih =>
    exact ⟨hall i List.mem_cons_self, ih (fun j hj => hall j (List.mem_cons_of_mem i hj)) _⟩

/-- **The invariant rule.**  An invariant kept by every guarded step holds at the
end of every guarded run. -/
theorem inv_of_allSteps (hstep : ∀ s i, Inv s → ok s i → Inv (step s i)) :
    ∀ {s : S} (is : List I), Inv s → AllSteps step ok s is → Inv (is.foldl step s) := by
  intro s is
  induction is generalizing s with
  | nil => intro hs _; exact hs
  | cons i is ih =>
    intro hs hall
    exact ih (hstep s i hs hall.1) hall.2

/-- An invariant that every step keeps holds at the end of every run. -/
theorem inv_foldl (Inv : S → Prop) (hstep : ∀ s i, Inv s → Inv (step s i)) {s : S}
    (hs : Inv s) (is : List I) : Inv (is.foldl step s) := by
  induction is generalizing s with
  | nil => exact hs
  | cons i is ih => exact ih (hstep s i hs)

/-- What every guarded step keeps holds at each step of a guarded run. -/
theorem allSteps_of_guard (hstep : ∀ s i, Inv s → ok s i → Inv (step s i)) :
    ∀ {s : S} {is : List I}, Inv s → AllSteps step ok s is → AllSteps step (fun s _ => Inv s) s is
  | _, [], _, _ => trivial
  | _, _ :: _, hs, h => ⟨hs, allSteps_of_guard hstep (hstep _ _ hs h.1) h.2⟩

/-- It also holds in front of every step. -/
theorem allSteps_of_inv (hstep : ∀ s i, Inv s → Inv (step s i)) {s : S} (hs : Inv s)
    (is : List I) : AllSteps step (fun s _ => Inv s) s is :=
  allSteps_of_guard (fun s i h _ => hstep s i h) hs (allSteps_of_forall (fun _ _ => trivial) s is)

/-- The rule for a property `P` weaker than the invariant: all states of a run have `P` exactly when
all of its steps meet a guard that keeps the invariant and without which `P` is lost. -/
theorem forall_prefix_iff_allSteps_of {P : S → Prop} (himp : ∀ s, Inv s → P s)
    (hkeep : ∀ s i, Inv s → ok s i → Inv (step s i))
    (hbad : ∀ s i, Inv s → P (step s i) → ok s i) :
    ∀ {s : S} (is : List I), Inv s →
      ((∀ pre, pre <+: is → P (pre.foldl step s)) ↔ AllSteps step ok s is) := by
  intro s is
  induction is generalizing s with
  | nil => intro hs; simp [himp s hs]
  | cons i is ih =>
    intro hs
    rw [allSteps_cons]
    constructor
    · intro hall
      have hok : ok s i := hbad s i hs (hall [i] (by simp))
      refine ⟨hok, (ih (hkeep s i hs hok)).mp fun pre hpre => ?_⟩
      exact hall (i :: pre) (by simpa using hpre)
    · rintro ⟨hok, hrest⟩ pre hpre
      cases pre with
      | nil => exact himp s hs
      | cons j pre =>
        obtain ⟨rfl, hpre'⟩ := List.cons_prefix_cons.mp hpre
        exact (ih (hkeep s j hs hok)).mpr hrest pre hpre'

/-- **Exactness along a run.**  If from a good state a step stays good exactly when
it meets the guard, then all states of a run are good exactly when all of its
steps meet the guard. -/
theorem forall_prefix_iff_allSteps (hstep : ∀ s i, Inv s → (Inv (step s i) ↔ ok s i)) :
    ∀ {s : S} (is : List I), Inv s →
      ((∀ pre, pre <+: is → Inv (pre.foldl step s)) ↔ AllSteps step ok s is) :=
  forall_prefix_iff_allSteps_of (fun _ h => h) (fun s i hs => (hstep s i hs).mpr)
    fun s i hs => (hstep s i hs).mp

/-- Two guards that agree wherever an invariant holds, which guarded steps keep, are met
along the same runs. -/
theorem allSteps_congr {P : S → I → Prop} (hiff : ∀ s i, Inv s → (P s i ↔ ok s i))
    (hstep : ∀ s i, Inv s → ok s i → Inv (step s i)) {s : S} (hs : Inv s) (is : List I) :
    AllSteps step P s is ↔ AllSteps step ok s is := by
  induction is generalizing s with
  | nil => exact Iff.rfl
  | cons i is ih =>
    rw [allSteps_cons, allSteps_cons, hiff s i hs]
    exact and_congr_right fun hok => ih (hstep s i hs hok)

end GuardedRun
