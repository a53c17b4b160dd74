/-
# Rows of slots that are scanned up to the first free one

A row of a hash table is a list of slots, each free or taken by a key and a value.  All
operations scan it from the front and stop at the first free slot.  A row is compact when no
taken slot stands behind a free one; on compact rows, insertion and the erasure of the last
key act on the bindings of the row as on a map.
-/
import Mathlib

namespace ProbeRow

open List

variable {K V : Type*}

/-- No taken slot stands behind a free one. -/
def Compact : List (Option (K × V)) → Prop
  | [] => True
  | none :: row => ∀ s ∈ row, s = none
  | some _ :: row => Compact row

/-- The keys of the taken slots. -/
def keys (row : List (Option (K × V))) : List K := row.filterMap (Option.map Prod.fst)

@[simp] theorem keys_cons_none (row : List (Option (K × V))) : keys (none :: row) = keys row := rfl

@[simp] theorem keys_cons_some (kv : K × V) (row : List (Option (K × V))) :
    keys (some kv :: row) = kv.1 :: keys row := rfl

variable {row : List (Option (K × V))}

/-- The key of an entry is one of the keys. -/
theorem mem_keys {kv : K × V} (h : some kv ∈ row) :
    kv.1 ∈ keys row :=
  mem_filterMap.mpr ⟨some kv, h, rfl⟩

/-- A free row has no keys. -/
theorem keys_of_free (h : ∀ s ∈ row, s = none) : keys row = [] := by
  apply filterMap_eq_nil_iff.mpr
  intro s hs
  rw [h s hs]
  rfl

/-- A free row is compact. -/
theorem compact_of_free (h : ∀ s ∈ row, s = none) : Compact row := by
  cases row with
  | nil => trivial
  | cons s row =>
    obtain rfl := h s mem_cons_self
    exact fun s hs => h s (mem_cons_of_mem _ hs)

/-- Behind slots that are taken a row is compact as before. -/
theorem compact_append {pre post : List (Option (K × V))} (hfree : none ∉ pre) :
    Compact (pre ++ post) ↔ Compact post := by
  induction pre with
  | nil => rfl
  | cons s pre ih =>
    cases s with
    | none => exact absurd mem_cons_self hfree
    | some kv => exact ih (by simpa using hfree)

@[simp] theorem keys_append (pre post : List (Option (K × V))) :
    keys (pre ++ post) = keys pre ++ keys post :=
  filterMap_append

variable [DecidableEq K]

/-- The value of the key `k`. -/
def lookup (k : K) : List (Option (K × V)) → Option V
  | [] => none
  | none :: _ => none
  | some (k', v) :: row => if k' = k then some v else lookup k row

/-- The value of `k` is replaced, or put into the first free slot under the key `stored`;
`none` if the row is full. -/
def insert (stored k : K) (v : V) : List (Option (K × V)) → Option (List (Option (K × V)))
  | [] => none
  | none :: row => some (some (stored, v) :: row)
  | some (k', v') :: row =>
    if k' = k then some (some (k', v) :: row)
    else (insert stored k v row).map (some (k', v') :: ·)

/-- The slots of `k` are freed. -/
def erase (k : K) : List (Option (K × V)) → List (Option (K × V))
  | [] => []
  | none :: row => none :: row
  | some (k', v) :: row => (if k' = k then none else some (k', v)) :: erase k row

/-- The slot of `k` is the last taken one, if there is one. -/
def LastOf (k : K) : List (Option (K × V)) → Prop
  | [] => True
  | none :: _ => True
  | some (k', _) :: row => if k' = k then ∀ s ∈ row, s = none else LastOf k row

/-- Nothing is found in a free row. -/
theorem lookup_of_free (h : ∀ s ∈ row, s = none) (k : K) : lookup k row = none := by
  cases row with
  | nil => rfl
  | cons s row =>
    obtain rfl := h s mem_cons_self
    rfl

/-- Nothing is erased from a free row. -/
theorem erase_of_free (h : ∀ s ∈ row, s = none) (k : K) : erase k row = row := by
  cases row with
  | nil => rfl
  | cons s row =>
    obtain rfl := h s mem_cons_self
    rfl

/-- What is found is an entry. -/
theorem mem_of_lookup {k : K} {v : V} (h : lookup k row = some v) : some (k, v) ∈ row := by
  induction row with
  | nil => cases h
  | cons s row ih =>
    cases s with
    | none => cases h
    | some kv =>
      obtain ⟨k', v'⟩ := kv
      unfold lookup at h
      split_ifs at h with hk
      · cases h
        rw [hk]
        exact mem_cons_self
      · exact mem_cons_of_mem _ (ih h)

/-! ## Insertion -/

section Insert

variable {stored k k' : K} {v : V} {row row' : List (Option (K × V))}

/-- What an insertion can do to a row: replace the value of the key in its slot, or take the
first free slot. -/
theorem insert_cases (h : insert stored k v row = some row') :
    (∃ pre w post, row = pre ++ some (k, w) :: post ∧ row' = pre ++ some (k, v) :: post ∧
        k ∉ keys pre ∧ none ∉ pre) ∨
      (∃ pre post, row = pre ++ none :: post ∧ row' = pre ++ some (stored, v) :: post ∧
        k ∉ keys pre ∧ none ∉ pre) := by
  induction row generalizing row' with
  | nil => cases h
  | cons s row ih =>
    cases s with
    | none =>
      cases h
      exact .inr ⟨[], row, rfl, rfl, not_mem_nil, not_mem_nil⟩
    | some kv =>
      obtain ⟨k₁, v₁⟩ := kv
      unfold insert at h
      split_ifs at h with hk
      · cases h
        rw [hk]
        exact .inl ⟨[], v₁, row, rfl, rfl, not_mem_nil, not_mem_nil⟩
      · obtain ⟨rest, hrest, rfl⟩ := Option.map_eq_some_iff.mp h
        rcases ih hrest with ⟨pre, w, post, rfl, rfl, hpre, hfree⟩ |
          ⟨pre, post, rfl, rfl, hpre, hfree⟩
        · exact Or.inl ⟨some (k₁, v₁) :: pre, w, post, rfl, rfl, by simp [Ne.symm hk, hpre],
            by simpa using hfree⟩
        · exact Or.inr ⟨some (k₁, v₁) :: pre, post, rfl, rfl, by simp [Ne.symm hk, hpre],
            by simpa using hfree⟩

variable {pre post : List (Option (K × V))}

/-- A lookup passes over slots with other keys. -/
theorem lookup_append (hfree : none ∉ pre) (hk : k ∉ keys pre) :
    lookup k (pre ++ post) = lookup k post := by
  induction pre with
  | nil => rfl
  | cons s pre ih =>
    cases s with
    | none => exact absurd mem_cons_self hfree
    | some kv =>
      obtain ⟨k₁, v₁⟩ := kv
      simp only [keys_cons_some, mem_cons, not_or] at hk
      rw [cons_append, lookup, if_neg (Ne.symm hk.1)]
      exact ih (by simpa using hfree) hk.2

/-- A key in front hides what is behind. -/
theorem lookup_append_of_mem (hfree : none ∉ pre) (hk : k ∈ keys pre) :
    lookup k (pre ++ post) = lookup k pre := by
  induction pre with
  | nil => cases hk
  | cons s pre ih =>
    cases s with
    | none => exact absurd mem_cons_self hfree
    | some kv =>
      obtain ⟨k₁, v₁⟩ := kv
      rw [cons_append, lookup, lookup]
      split_ifs with heq
      · rfl
      · simp only [keys_cons_some, mem_cons] at hk
        exact ih (by simpa using hfree) (hk.resolve_left (Ne.symm heq))

/-- A change behind taken slots is seen as it is seen there. -/
theorem lookup_append_congr {post' : List (Option (K × V))} (hfree : none ∉ pre)
    (hpost : lookup k' post' = lookup k' post) :
    lookup k' (pre ++ post') = lookup k' (pre ++ post) := by
  by_cases hk : k' ∈ keys pre
  · rw [lookup_append_of_mem hfree hk, lookup_append_of_mem hfree hk]
  · rw [lookup_append hfree hk, lookup_append hfree hk, hpost]

/-- An insertion keeps the length. -/
theorem length_insert (h : insert stored k v row = some row') : row'.length = row.length := by
  rcases insert_cases h with ⟨pre, w, post, rfl, rfl, -⟩ | ⟨pre, post, rfl, rfl, -⟩ <;> simp

/-- An entry after an insertion was there, or has the new value. -/
theorem mem_insert {kv : K × V} (h : insert stored k v row = some row') (hmem : some kv ∈ row') :
    some kv ∈ row ∨ kv.2 = v ∧ (kv.1 = stored ∨ kv.1 = k ∧ k ∈ keys row) := by
  rcases insert_cases h with ⟨pre, w, post, rfl, rfl, -⟩ | ⟨pre, post, rfl, rfl, -⟩
  · rcases mem_append.mp hmem with hpre | hpost
    · exact .inl (mem_append_left _ hpre)
    · rcases mem_cons.mp hpost with heq | hpost
      · obtain rfl := Option.some.inj heq
        exact Or.inr ⟨rfl, Or.inr ⟨rfl, by simp [keys]⟩⟩
      · exact .inl (mem_append_right _ (mem_cons_of_mem _ hpost))
  rcases mem_append.mp hmem with hpre | hpost
  · exact .inl (mem_append_left _ hpre)
  · rcases mem_cons.mp hpost with heq | hpost
    · obtain rfl := Option.some.inj heq
      exact .inr ⟨rfl, .inl rfl⟩
    · exact .inl (mem_append_right _ (mem_cons_of_mem _ hpost))

/-- An insertion keeps a row compact. -/
theorem compact_insert (hc : Compact row) (h : insert stored k v row = some row') :
    Compact row' := by
  rcases insert_cases h with ⟨pre, w, post, rfl, rfl, -, hfree⟩ | ⟨pre, post, rfl, rfl, -, hfree⟩
  · rw [compact_append hfree] at hc ⊢
    exact hc
  · rw [compact_append hfree] at hc ⊢
    exact (compact_of_free hc : Compact post)

/-- The inserted value is found. -/
theorem lookup_insert_self (h : insert k k v row = some row') : lookup k row' = some v := by
  rcases insert_cases h with ⟨pre, w, post, rfl, rfl, hk, hfree⟩ | ⟨pre, post, rfl, rfl, hk, hfree⟩ <;>
    rw [lookup_append hfree hk, lookup, if_pos rfl]

/-- Other keys are found as before. -/
theorem lookup_insert_of_ne (hc : Compact row) (h : insert stored k v row = some row')
    (hk : k' ≠ k) (hstored : k' ≠ stored) : lookup k' row' = lookup k' row := by
  rcases insert_cases h with ⟨pre, w, post, rfl, rfl, -, hfree⟩ | ⟨pre, post, rfl, rfl, -, hfree⟩
  · apply lookup_append_congr hfree
    rw [lookup, lookup, if_neg (Ne.symm hk), if_neg (Ne.symm hk)]
  · rw [compact_append hfree] at hc
    apply lookup_append_congr hfree
    show (if stored = k' then some v else lookup k' post) = none
    rw [if_neg (Ne.symm hstored), lookup_of_free hc]

/-- A key that is stored under another one is not found. -/
theorem lookup_insert_of_stored_ne (hc : Compact row) (h : insert stored k v row = some row')
    (hstored : stored ≠ k) (hnew : k ∉ keys row) : lookup k row' = none := by
  rcases insert_cases h with ⟨pre, w, post, rfl, rfl, -⟩ | ⟨pre, post, rfl, rfl, hk, hfree⟩
  · exact absurd (by simp [keys]) hnew
  · rw [compact_append hfree] at hc
    rw [lookup_append hfree hk, lookup, if_neg hstored, lookup_of_free hc]

/-- With a free slot an insertion succeeds. -/
theorem insert_isSome_of_free (h : none ∈ row) : (insert stored k v row).isSome := by
  induction row with
  | nil => cases h
  | cons s row ih =>
    cases s with
    | none => rfl
    | some kv =>
      unfold insert
      split_ifs
      · rfl
      · rw [Option.isSome_map]
        exact ih (by simpa using h)

/-- A full row takes no new key. -/
theorem insert_eq_none (hfull : none ∉ row) (hnew : k ∉ keys row) :
    insert stored k v row = none := by
  cases h : insert stored k v row with
  | none => rfl
  | some row' =>
    rcases insert_cases h with ⟨pre, w, post, rfl, -⟩ | ⟨pre, post, rfl, -⟩
    · exact absurd (by simp [keys]) hnew
    · exact absurd (by simp) hfull

/-- An insertion keeps the keys apart. -/
theorem nodup_keys_insert (hc : Compact row) (hd : (keys row).Nodup)
    (h : insert k k v row = some row') : (keys row').Nodup := by
  rcases insert_cases h with ⟨pre, w, post, rfl, rfl, -⟩ | ⟨pre, post, rfl, rfl, hk, hfree⟩
  · simpa [keys] using hd
  rw [compact_append hfree] at hc
  have hpost : keys post = [] := keys_of_free hc
  rw [keys_append, keys_cons_none, hpost, append_nil] at hd
  rw [keys_append, keys_cons_some, hpost]
  refine nodup_append.mpr ⟨hd, nodup_singleton k, ?_⟩
  intro a ha b hb heq
  rw [heq, mem_singleton.mp hb] at ha
  exact hk ha

end Insert

/-! ## Erasure -/

section Erase

variable {k k' : K} {row : List (Option (K × V))}

/-- Erasing keeps the length. -/
theorem length_erase : (erase k row).length = row.length := by
  induction row with
  | nil => rfl
  | cons s row ih =>
    cases s with
    | none => rfl
    | some kv => simp [erase, ih]

/-- An entry that is left was there before. -/
theorem mem_erase {kv : K × V} (hmem : some kv ∈ erase k row) : some kv ∈ row := by
  induction row with
  | nil => cases hmem
  | cons s row ih =>
    cases s with
    | none => exact hmem
    | some kv' =>
      rcases mem_cons.mp hmem with heq | hrow
      · split_ifs at heq
        rw [heq]
        exact mem_cons_self
      · exact mem_cons_of_mem _ (ih hrow)

/-- Erasing adds no key. -/
theorem keys_erase_sublist : (keys (erase k row)).Sublist (keys row) := by
  induction row with
  | nil => exact List.Sublist.refl _
  | cons s row ih =>
    cases s with
    | none => exact List.Sublist.refl _
    | some kv =>
      unfold erase
      split_ifs
      · exact List.Sublist.cons _ ih
      · exact List.Sublist.cons_cons _ ih

/-- The erased key is not found. -/
theorem lookup_erase_self : lookup k (erase k row) = none := by
  induction row with
  | nil => rfl
  | cons s row ih =>
    cases s with
    | none => rfl
    | some kv =>
      unfold erase
      split_ifs with hk
      · rfl
      · rw [lookup, if_neg hk]
        exact ih

/-- Erasing the last entry keeps a row compact. -/
theorem compact_erase (hc : Compact row) (hlast : LastOf k row) : Compact (erase k row) := by
  induction row with
  | nil => trivial
  | cons s row ih =>
    cases s with
    | none => exact hc
    | some kv =>
      unfold LastOf at hlast
      unfold erase
      split_ifs at hlast ⊢ with hk
      · rw [erase_of_free hlast]
        exact hlast
      · exact ih hc hlast

/-- Then other keys are found as before. -/
theorem lookup_erase_of_ne (hlast : LastOf k row) (hk : k' ≠ k) :
    lookup k' (erase k row) = lookup k' row := by
  induction row with
  | nil => rfl
  | cons s row ih =>
    cases s with
    | none => rfl
    | some kv =>
      unfold LastOf at hlast
      unfold erase
      split_ifs at hlast ⊢ with heq
      · have hne : kv.1 ≠ k' := fun h => hk (h.symm.trans heq)
        rw [lookup, lookup, if_neg hne, lookup_of_free hlast]
      · rw [lookup, lookup, ih hlast]

/-- Erasing an entry before the last loses another key. -/
theorem exists_lost_of_not_lastOf (hc : Compact row) (hd : (keys row).Nodup)
    (hlast : ¬ LastOf k row) :
    ∃ k' v, k' ≠ k ∧ lookup k' row = some v ∧ lookup k' (erase k row) = none := by
  induction row with
  | nil => exact absurd trivial hlast
  | cons s row ih =>
    cases s with
    | none => exact absurd trivial hlast
    | some kv =>
      obtain ⟨k₁, v₁⟩ := kv
      obtain ⟨hnot, hrest⟩ := nodup_cons.mp hd
      unfold LastOf at hlast
      by_cases hk : k₁ = k
      · -- the slot behind that of `k` is taken, by another key
        rw [if_pos hk] at hlast
        cases row with
        | nil => exact absurd (by simp) hlast
        | cons s row =>
          cases s with
          | none => exact absurd (fun s hs => (mem_cons.mp hs).elim id (hc s)) hlast
          | some kv₂ =>
            have hne : kv₂.1 ≠ k₁ := fun h => hnot (h ▸ mem_cons_self)
            refine ⟨kv₂.1, kv₂.2, fun h => hne (h.trans hk.symm), ?_, ?_⟩
            · rw [lookup, if_neg (Ne.symm hne), lookup, if_pos rfl]
            · rw [erase, if_pos hk]
              rfl
      · rw [if_neg hk] at hlast
        obtain ⟨k', v, hne, hfound, hlost⟩ := ih hc hrest hlast
        have hk₁ : k₁ ≠ k' := by
          intro heq
          have hmem := mem_keys (mem_of_lookup hfound)
          exact hnot (heq ▸ hmem)
        refine ⟨k', v, hne, ?_, ?_⟩
        · rw [lookup, if_neg hk₁, hfound]
        · rw [erase, if_neg hk, lookup, if_neg hk₁, hlost]

end Erase

end ProbeRow
