/-
# Lists that hold one entry for each key

`upsert` puts an entry in the place of the one with the same key, or behind all others.
A list built by it holds every key once, in the order in which the keys first came, and for
every key the entry that came last.
-/
import Mathlib

namespace Upsert

open List

variable {α κ : Type*} [DecidableEq κ] (key : α → κ)

/-- The entry `a` in the place of the one with its key, if there is one. -/
def update (a : α) : List α → Option (List α)
  | [] => none
  | b :: l => if key b = key a then some (a :: l) else (update a l).map (b :: ·)

/-- The entry `a` in the place of the one with its key, or behind all others. -/
def upsert (a : α) (l : List α) : List α := (update key a l).getD (l ++ [a])

/-- Putting in the entries of a list one after the other. -/
def upserts (as : List α) : List α := as.foldl (fun l a => upsert key a l) []

/-- An entry replaces the first one or goes on. -/
theorem upsert_cons (a b : α) (l : List α) :
    upsert key a (b :: l) = if key b = key a then a :: l else b :: upsert key a l := by
  rw [upsert, upsert, update]
  by_cases h : key b = key a
  · rw [if_pos h, if_pos h, Option.getD_some]
  · rw [if_neg h, if_neg h]
    cases update key a l <;> rfl

/-- The last entry that is put in. -/
theorem upserts_append_singleton (as : List α) (a : α) :
    upserts key (as ++ [a]) = upsert key a (upserts key as) := by
  simp [upserts]

/-- Nothing is replaced exactly if the key is new. -/
theorem update_eq_none_iff (a : α) (l : List α) : update key a l = none ↔ key a ∉ l.map key := by
  induction l with
  | nil => simp [update]
  | cons b l ih =>
    rw [update]
    by_cases h : key b = key a
    · simp [h]
    · rw [if_neg h, Option.map_eq_none_iff, ih]
      simp [Ne.symm h]

/-- A new key goes behind all others. -/
theorem upsert_of_notMem {a : α} {l : List α} (h : key a ∉ l.map key) :
    upsert key a l = l ++ [a] := by
  rw [upsert, (update_eq_none_iff key a l).mpr h, Option.getD_none]

/-- A known key leaves the keys in place. -/
theorem map_key_upsert_of_mem {a : α} {l : List α} (h : key a ∈ l.map key) :
    (upsert key a l).map key = l.map key := by
  induction l with
  | nil => cases h
  | cons b l ih =>
    rw [upsert_cons]
    by_cases hb : key b = key a
    · rw [if_pos hb, map_cons, map_cons, hb]
    · rw [if_neg hb, map_cons, map_cons, ih]
      exact (mem_cons.mp h).resolve_left (Ne.symm hb)

/-- Only a new key makes the list longer. -/
theorem length_upsert (a : α) (l : List α) :
    (upsert key a l).length = if key a ∈ l.map key then l.length else l.length + 1 := by
  by_cases h : key a ∈ l.map key
  · rw [if_pos h, ← length_map key, map_key_upsert_of_mem key h, length_map]
  · rw [if_neg h, upsert_of_notMem key h, length_append, length_singleton]

/-- An entry takes the place of the one with its key. -/
theorem mem_upsert {a b : α} {l : List α} (hnodup : (l.map key).Nodup) :
    b ∈ upsert key a l ↔ b = a ∨ b ∈ l ∧ key b ≠ key a := by
  induction l with
  | nil => simp [upsert, update]
  | cons c l ih =>
    rw [map_cons, nodup_cons] at hnodup
    rw [upsert_cons]
    by_cases hc : key c = key a
    · -- the entry with the key gives way, and there is no other one
      rw [if_pos hc, mem_cons, mem_cons]
      refine or_congr_right ⟨fun hb => ⟨.inr hb, fun hba => ?_⟩, ?_⟩
      · exact hnodup.1 (hc.trans hba.symm ▸ mem_map_of_mem hb)
      · rintro ⟨rfl | hb, hba⟩
        · exact absurd hc hba
        · exact hb
    rw [if_neg hc, mem_cons, ih hnodup.2, mem_cons]
    constructor
    · rintro (rfl | rfl | ⟨hb, hba⟩)
      · exact .inr ⟨.inl rfl, hc⟩
      · exact .inl rfl
      · exact .inr ⟨.inr hb, hba⟩
    · rintro (rfl | ⟨rfl | hb, hba⟩)
      · exact .inr (.inl rfl)
      · exact .inl rfl
      · exact .inr (.inr ⟨hb, hba⟩)

/-- Each key once, in the order in which they first came. -/
theorem map_key_upserts (as : List α) : (upserts key as).map key = (as.map key).eraseDups := by
  induction as using List.reverseRecOn with
  | nil => rfl
  | append_singleton as a ih =>
    rw [upserts_append_singleton, map_append, eraseDups_append, ← ih]
    by_cases h : key a ∈ (upserts key as).map key
    · have hcame : key a ∈ as.map key := by rwa [ih, mem_eraseDups] at h
      have hall : [key a].removeAll (as.map key) = [] := by
        simpa [List.removeAll, filter_cons] using hcame
      rw [map_key_upsert_of_mem key h, map_singleton, hall, eraseDups_nil,
        append_nil]
    · have hnew : key a ∉ as.map key := by rwa [ih, mem_eraseDups] at h
      have hall : [key a].removeAll (as.map key) = [key a] := by
        simpa [List.removeAll] using hnew
      rw [upsert_of_notMem key h, map_append, map_singleton, hall]
      rfl

/-- No key stands twice. -/
theorem nodup_upserts (as : List α) : ((upserts key as).map key).Nodup := by
  induction as using List.reverseRecOn with
  | nil => exact nodup_nil
  | append_singleton as a ih =>
    rw [upserts_append_singleton]
    by_cases h : key a ∈ (upserts key as).map key
    · rw [map_key_upsert_of_mem key h]
      exact ih
    · rw [upsert_of_notMem key h, map_append, map_singleton]
      refine nodup_append.mpr ⟨ih, nodup_singleton _, ?_⟩
      rintro k hk _ hk' rfl
      rw [mem_singleton.mp hk'] at hk
      exact h hk

/-- An entry is the last one with its key. -/
theorem mem_upserts {as : List α} {b : α} :
    b ∈ upserts key as ↔
      ∃ before after, as = before ++ b :: after ∧ ∀ a ∈ after, key a ≠ key b := by
  induction as using List.reverseRecOn with
  | nil => simp [upserts]
  | append_singleton as a ih =>
    rw [upserts_append_singleton, mem_upsert key (nodup_upserts key as), ih]
    constructor
    · rintro (rfl | ⟨⟨before, after, rfl, hlast⟩, hb⟩)
      · exact ⟨as, [], rfl, by simp⟩
      · refine ⟨before, after ++ [a], by simp, fun c hc => ?_⟩
        rcases mem_append.mp hc with hc | hc
        · exact hlast c hc
        · rw [mem_singleton.mp hc]
          exact Ne.symm hb
    · -- the last entry of the list is `b` itself, or one behind it with another key
      rintro ⟨before, after, has, hlast⟩
      rcases eq_nil_or_concat after with rfl | ⟨after, c, rfl⟩
      · exact .inl (append_inj_right' has rfl |> singleton_inj.mp).symm
      rw [concat_eq_append, ← cons_append, ← append_assoc] at has
      obtain ⟨rfl, hc⟩ := append_inj' has rfl
      obtain rfl : a = c := singleton_inj.mp hc
      refine .inr ⟨⟨before, after, rfl, fun d hd => ?_⟩, ?_⟩
      · exact hlast d (by simp [hd])
      · exact Ne.symm (hlast a (by simp))

end Upsert
