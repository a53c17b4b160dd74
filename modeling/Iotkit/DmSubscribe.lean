/-
# Subscribing to the topics of a device (`dm_client.c`)

`dm_client_subscribe_all` tries the first entry of the table some times at most, and then goes
through the others with an index that is moved back where a try failed.  A failed subscription is
counted, a name that cannot be built is not.  What a try of an entry meets is given for every entry
and every number of tries before.
-/
import Iotkit.DmUri

namespace Iotkit.DmSubscribe

open DmUri List Option

/-! ## The model -/

def iotxDmClientSubRetryMaxCounts : ℕ := 3

/-- What the tries of the entries meet: whether there is memory for the name, whether the
subscription succeeds, and the option `DM_OPT_DOWNSTREAM_EVENT_POST_REPLY`. -/
structure Env where
  serviceName : ℕ → ℕ → Bool
  subscribe : ℕ → ℕ → Bool
  eventPostReplyOpt : Bool

inductive Outcome where
  | nameFailed | filtered | subFailed | subscribed
  deriving DecidableEq

/-- A try: the index of its entry, and how it ended. -/
structure Try where
  index : ℕ
  outcome : Outcome
  deriving DecidableEq

/-- `_dm_client_subscribe_filter`: the topic is not wanted. -/
def dmClientSubscribeFilter (env : Env) (entry : UriMap) : Bool :=
  entry.uriName = some dmUriThingEventPostReplyWildcard && !env.eventPostReplyOpt

/-- A try: the name is built, the filter is asked, the topic is subscribed to. -/
def tryEntry (env : Env) (entry : UriMap) (index k : ℕ) : Outcome :=
  if !env.serviceName index k then Outcome.nameFailed
  else if dmClientSubscribeFilter env entry then Outcome.filtered
  else if !env.subscribe index k then Outcome.subFailed
  else Outcome.subscribed

/-- The loop over the first entry, from its `k`-th try on. -/
def firstLoop (env : Env) (entry : UriMap) : ℕ → ℕ → List Try
  | 0, _ => []
  | left + 1, k =>
    ⟨0, tryEntry env entry 0 k⟩ ::
      if tryEntry env entry 0 k = Outcome.subscribed then [] else firstLoop env entry left (k + 1)

/-- The entry is there for devices of the type. -/
def applicable (entry : UriMap) (devType : ℕ) : Bool :=
  entry.devType &&& devType ≠ 0

/-- The loop over the entries from an index on, where `k` tries of that entry were made. -/
def entryLoop (env : Env) (uriMap : List UriMap) (devType : ℕ) :
    ℕ → ℕ → ℕ → ℕ → Option (List Try)
  | 0, _, _, _ => none
  | fuel + 1, index, failCount, k =>
    match uriMap[index]? with
    | none => some []
    | some entry =>
      if !applicable entry devType then
        entryLoop env uriMap devType fuel (index + 1) failCount 0
      else if iotxDmClientSubRetryMaxCounts ≤ failCount then
        entryLoop env uriMap devType fuel (index + 1) 0 0
      else
        match tryEntry env entry index k with
        | Outcome.nameFailed =>
          (⟨index, Outcome.nameFailed⟩ :: ·) <$>
            entryLoop env uriMap devType fuel index failCount (k + 1)
        | Outcome.filtered =>
          (⟨index, Outcome.filtered⟩ :: ·) <$>
            entryLoop env uriMap devType fuel (index + 1) failCount 0
        | Outcome.subFailed =>
          (⟨index, Outcome.subFailed⟩ :: ·) <$>
            entryLoop env uriMap devType fuel index (failCount + 1) (k + 1)
        | Outcome.subscribed =>
          (⟨index, Outcome.subscribed⟩ :: ·) <$> entryLoop env uriMap devType fuel (index + 1) 0 0

/-- `dm_client_subscribe_all`: its tries, if it ends within the rounds. -/
def dmClientSubscribeAll (build : Build) (env : Env) (devType fuel : ℕ) : Option (List Try) :=
  match gDmClientUriMap build, build.rawdataSolo with
  | entry :: rest, false =>
    (firstLoop env entry iotxDmClientSubRetryMaxCounts 0 ++ ·) <$>
      entryLoop env (entry :: rest) devType fuel 1 0 0
  | uriMap, _ => entryLoop env uriMap devType fuel 0 0 0

/-! ## What the function is to do -/

/-- The try is one of subscribing. -/
def Try.subscribes (t : Try) : Prop :=
  t.outcome = Outcome.subFailed ∨ t.outcome = Outcome.subscribed

/-- Tries in the order of the table: every entry for the device type at least once and no entry
too often, and no other entry is subscribed to. -/
structure Progress (uriMap : List UriMap) (devType : ℕ) (tries : List Try) : Prop where
  in_order : tries.Pairwise fun s t => s.index ≤ t.index
  attempted : ∀ i entry, uriMap[i]? = some entry → applicable entry devType →
    ∃ t ∈ tries, t.index = i
  bounded : ∀ i, tries.countP (fun t => t.index = i) ≤ iotxDmClientSubRetryMaxCounts
  only_applicable : ∀ t ∈ tries, t.subscribes →
    ∃ entry, uriMap[t.index]? = some entry ∧ applicable entry devType

/-! ## The tries of one entry -/

variable {env : Env} {entry : UriMap} {uriMap : List UriMap} {devType index fuel f f' k : ℕ}
  {tries rest : List Try}

/-- The tries of an entry with a number of failures, from its `k`-th try on, and the number of
failures that is left behind. -/
inductive EntryRun (env : Env) (entry : UriMap) (index : ℕ) : ℕ → ℕ → List Try → ℕ → Prop
  | givenUp {f k : ℕ} (h : iotxDmClientSubRetryMaxCounts ≤ f) : EntryRun env entry index f k [] 0
  | filtered {f k : ℕ} (h : f < iotxDmClientSubRetryMaxCounts)
      (ho : tryEntry env entry index k = Outcome.filtered) :
      EntryRun env entry index f k [⟨index, Outcome.filtered⟩] f
  | subscribed {f k : ℕ} (h : f < iotxDmClientSubRetryMaxCounts)
      (ho : tryEntry env entry index k = Outcome.subscribed) :
      EntryRun env entry index f k [⟨index, Outcome.subscribed⟩] 0
  | nameFailed {f k f' : ℕ} {tries : List Try} (h : f < iotxDmClientSubRetryMaxCounts)
      (ho : tryEntry env entry index k = Outcome.nameFailed)
      (hrun : EntryRun env entry index f (k + 1) tries f') :
      EntryRun env entry index f k (⟨index, Outcome.nameFailed⟩ :: tries) f'
  | subFailed {f k f' : ℕ} {tries : List Try} (h : f < iotxDmClientSubRetryMaxCounts)
      (ho : tryEntry env entry index k = Outcome.subFailed)
      (hrun : EntryRun env entry index (f + 1) (k + 1) tries f') :
      EntryRun env entry index f k (⟨index, Outcome.subFailed⟩ :: tries) f'

theorem entryLoop_end (h : uriMap[index]? = none) :
    entryLoop env uriMap devType (fuel + 1) index f k = some [] := by
  rw [entryLoop, h]

theorem entryLoop_skip (h : uriMap[index]? = some entry) (happ : ¬ applicable entry devType) :
    entryLoop env uriMap devType (fuel + 1) index f k =
      entryLoop env uriMap devType fuel (index + 1) f 0 := by
  simp only [entryLoop, h]
  rw [if_pos (by simpa using happ)]

theorem entryLoop_givenUp (h : uriMap[index]? = some entry) (happ : applicable entry devType)
    (hf : iotxDmClientSubRetryMaxCounts ≤ f) :
    entryLoop env uriMap devType (fuel + 1) index f k =
      entryLoop env uriMap devType fuel (index + 1) 0 0 := by
  simp only [entryLoop, h]
  rw [if_neg (by simp [happ]), if_pos hf]

/-- A try of an entry, and where the loop goes on after it. -/
theorem entryLoop_try (h : uriMap[index]? = some entry) (happ : applicable entry devType)
    (hf : f < iotxDmClientSubRetryMaxCounts) :
    entryLoop env uriMap devType (fuel + 1) index f k = match tryEntry env entry index k with
      | Outcome.nameFailed =>
        (⟨index, Outcome.nameFailed⟩ :: ·) <$> entryLoop env uriMap devType fuel index f (k + 1)
      | Outcome.filtered =>
        (⟨index, Outcome.filtered⟩ :: ·) <$> entryLoop env uriMap devType fuel (index + 1) f 0
      | Outcome.subFailed =>
        (⟨index, Outcome.subFailed⟩ :: ·) <$>
          entryLoop env uriMap devType fuel index (f + 1) (k + 1)
      | Outcome.subscribed =>
        (⟨index, Outcome.subscribed⟩ :: ·) <$>
          entryLoop env uriMap devType fuel (index + 1) 0 0 := by
  simp only [entryLoop, h]
  rw [if_neg (by simp [happ]), if_neg (by omega)]

/-- The loop makes the tries of an entry, and goes on with the next one. -/
theorem EntryRun.entryLoop (hrun : EntryRun env entry index f k tries f')
    (h : uriMap[index]? = some entry) (happ : applicable entry devType)
    (hrest : entryLoop env uriMap devType fuel (index + 1) f' 0 = some rest) :
    ∃ fuel, entryLoop env uriMap devType fuel index f k = some (tries ++ rest) := by
  induction hrun with
  | givenUp hf => exact ⟨fuel + 1, by rw [entryLoop_givenUp h happ hf, hrest, nil_append]⟩
  | filtered hf ho =>
    refine ⟨fuel + 1, ?_⟩
    rw [entryLoop_try h happ hf, ho]
    simp [hrest]
  | subscribed hf ho =>
    refine ⟨fuel + 1, ?_⟩
    rw [entryLoop_try h happ hf, ho]
    simp [hrest]
  | nameFailed hf ho _ ih =>
    obtain ⟨fuel', hfuel'⟩ := ih hrest
    refine ⟨fuel' + 1, ?_⟩
    rw [entryLoop_try h happ hf, ho]
    simp [hfuel']
  | subFailed hf ho _ ih =>
    obtain ⟨fuel', hfuel'⟩ := ih hrest
    refine ⟨fuel' + 1, ?_⟩
    rw [entryLoop_try h happ hf, ho]
    simp [hfuel']

/-- If the loop ends, it has made the tries of the entry and has gone on with the next one. -/
theorem exists_entryRun (h : uriMap[index]? = some entry) (happ : applicable entry devType)
    (hloop : entryLoop env uriMap devType fuel index f k = some tries) :
    ∃ own rest f' fuel', EntryRun env entry index f k own f' ∧ tries = own ++ rest ∧
      entryLoop env uriMap devType fuel' (index + 1) f' 0 = some rest := by
  induction fuel generalizing f k tries with
  | zero => simp [DmSubscribe.entryLoop] at hloop
  | succ fuel ih =>
    by_cases hf : iotxDmClientSubRetryMaxCounts ≤ f
    · rw [entryLoop_givenUp h happ hf] at hloop
      exact ⟨[], tries, 0, fuel, EntryRun.givenUp hf, rfl, hloop⟩
    rw [not_le] at hf
    rw [entryLoop_try h happ hf] at hloop
    cases ho : tryEntry env entry index k with
    | nameFailed =>
      rw [ho] at hloop
      obtain ⟨later, hlater, rfl⟩ := map_eq_some_iff.mp hloop
      obtain ⟨own, rest, f', fuel', hrun, rfl, hrest⟩ := ih hlater
      exact ⟨_, rest, f', fuel', EntryRun.nameFailed hf ho hrun, rfl, hrest⟩
    | filtered =>
      rw [ho] at hloop
      obtain ⟨later, hlater, rfl⟩ := map_eq_some_iff.mp hloop
      exact ⟨_, later, f, fuel, EntryRun.filtered hf ho, rfl, hlater⟩
    | subFailed =>
      rw [ho] at hloop
      obtain ⟨later, hlater, rfl⟩ := map_eq_some_iff.mp hloop
      obtain ⟨own, rest, f', fuel', hrun, rfl, hrest⟩ := ih hlater
      exact ⟨_, rest, f', fuel', EntryRun.subFailed hf ho hrun, rfl, hrest⟩
    | subscribed =>
      rw [ho] at hloop
      obtain ⟨later, hlater, rfl⟩ := map_eq_some_iff.mp hloop
      exact ⟨_, later, 0, fuel, EntryRun.subscribed hf ho, rfl, hlater⟩

/-! ## How often an entry is tried -/

/-- A try is the last one of its entry: the topic is not wanted, or it is subscribed to. -/
def Ends (env : Env) (entry : UriMap) (index k : ℕ) : Prop :=
  env.serviceName index k ∧ (dmClientSubscribeFilter env entry ∨ env.subscribe index k)

/-- One of the first tries of an entry is the last one, or all of these can build the name. -/
def EndsInTime (env : Env) (entry : UriMap) (index : ℕ) : Prop :=
  (∃ k < iotxDmClientSubRetryMaxCounts, Ends env entry index k) ∨
    ∀ k < iotxDmClientSubRetryMaxCounts, env.serviceName index k

theorem tryEntry_eq_nameFailed (h : tryEntry env entry index k = Outcome.nameFailed) :
    ¬ env.serviceName index k := by
  unfold tryEntry at h
  split at h
  · next hname => simpa using hname
  · split at h
    · simp at h
    · split at h <;> simp at h

theorem tryEntry_eq_subFailed (h : tryEntry env entry index k = Outcome.subFailed) :
    env.serviceName index k ∧ ¬ dmClientSubscribeFilter env entry ∧ ¬ env.subscribe index k := by
  unfold tryEntry at h
  split at h
  · simp at h
  · next hname =>
    split at h
    · simp at h
    · next hfilter =>
      split at h
      · next hsub => exact ⟨by simpa using hname, hfilter, by simpa using hsub⟩
      · simp at h

theorem tryEntry_eq_filtered (h : tryEntry env entry index k = Outcome.filtered) :
    env.serviceName index k ∧ dmClientSubscribeFilter env entry := by
  unfold tryEntry at h
  split at h
  · simp at h
  · next hname =>
    split at h
    · next hfilter => exact ⟨by simpa using hname, hfilter⟩
    · split at h <;> simp at h

theorem tryEntry_eq_subscribed (h : tryEntry env entry index k = Outcome.subscribed) :
    env.serviceName index k ∧ ¬ dmClientSubscribeFilter env entry ∧ env.subscribe index k := by
  unfold tryEntry at h
  split at h
  · simp at h
  · next hname =>
    split at h
    · simp at h
    · next hfilter =>
      split at h
      · simp at h
      · next hsub => exact ⟨by simpa using hname, hfilter, by simpa using hsub⟩

/-- The tries of an entry that ends in time, from the `k`-th one on. -/
theorem exists_entryRun_of_endsInTime (hk : k ≤ iotxDmClientSubRetryMaxCounts) (hf : f ≤ k)
    (h : (∃ j, k ≤ j ∧ j < iotxDmClientSubRetryMaxCounts ∧ Ends env entry index j) ∨
      (f = k ∧ ∀ j, k ≤ j → j < iotxDmClientSubRetryMaxCounts → env.serviceName index j)) :
    ∃ tries f', EntryRun env entry index f k tries f' ∧
      tries.length ≤ iotxDmClientSubRetryMaxCounts - k := by
  induction hn : iotxDmClientSubRetryMaxCounts - k generalizing f k with
  | zero =>
    rcases h with ⟨j, hkj, hj, -⟩ | ⟨rfl, -⟩
    · omega
    · exact ⟨[], 0, EntryRun.givenUp (by omega), Nat.zero_le _⟩
  | succ n ih =>
    have hlt : f < iotxDmClientSubRetryMaxCounts := by omega
    have hk' : k + 1 ≤ iotxDmClientSubRetryMaxCounts := by omega
    have hn' : iotxDmClientSubRetryMaxCounts - (k + 1) = n := by omega
    -- An end that is not this try is one of the later ones.
    have hlater : ¬ Ends env entry index k →
        (∃ j, k ≤ j ∧ j < iotxDmClientSubRetryMaxCounts ∧ Ends env entry index j) →
        ∃ j, k + 1 ≤ j ∧ j < iotxDmClientSubRetryMaxCounts ∧ Ends env entry index j := by
      rintro hno ⟨j, hkj, hj, hends⟩
      rcases Nat.lt_or_eq_of_le hkj with hlt | rfl
      · exact ⟨j, hlt, hj, hends⟩
      · exact absurd hends hno
    cases ho : tryEntry env entry index k with
    | nameFailed =>
      have hname := tryEntry_eq_nameFailed ho
      have h' := h.resolve_right fun hall => hname (hall.2 k le_rfl (by omega))
      have hf' : f ≤ k + 1 := by omega
      obtain ⟨tries, f', hrun, hlen⟩ :=
        ih hk' hf' (.inl (hlater (fun hends => hname hends.1) h')) hn'
      refine ⟨_, f', EntryRun.nameFailed hlt ho hrun, ?_⟩
      rw [length_cons]
      omega
    | subFailed =>
      obtain ⟨-, hfilter, hsub⟩ := tryEntry_eq_subFailed ho
      have hno : ¬ Ends env entry index k := fun hends => hends.2.elim hfilter hsub
      have h' : (∃ j, k + 1 ≤ j ∧ j < iotxDmClientSubRetryMaxCounts ∧ Ends env entry index j) ∨
          (f + 1 = k + 1 ∧
            ∀ j, k + 1 ≤ j → j < iotxDmClientSubRetryMaxCounts → env.serviceName index j) := by
        rcases h with h | ⟨rfl, hall⟩
        · exact .inl (hlater hno h)
        · exact Or.inr ⟨rfl, fun j hj => hall j (by omega)⟩
      have hf' : f + 1 ≤ k + 1 := by omega
      obtain ⟨tries, f', hrun, hlen⟩ := ih hk' hf' h' hn'
      refine ⟨_, f', EntryRun.subFailed hlt ho hrun, ?_⟩
      rw [length_cons]
      omega
    | filtered => exact ⟨_, f, EntryRun.filtered hlt ho, by rw [length_singleton]; omega⟩
    | subscribed => exact ⟨_, 0, EntryRun.subscribed hlt ho, by rw [length_singleton]; omega⟩

section

variable (hrun : EntryRun env entry index f k tries f')
include hrun

/-- Tries that are not too many end in time. -/
theorem EntryRun.endsInTime (hf : f ≤ k) (hlen : k + tries.length ≤ iotxDmClientSubRetryMaxCounts) :
    (∃ j, k ≤ j ∧ j < iotxDmClientSubRetryMaxCounts ∧ Ends env entry index j) ∨
      (f = k ∧ ∀ j, k ≤ j → j < iotxDmClientSubRetryMaxCounts → env.serviceName index j) := by
  induction hrun with
  | givenUp hge =>
    rw [length_nil] at hlen
    exact Or.inr ⟨by omega, fun j hkj hj => by omega⟩
  | @filtered f k hlt ho =>
    obtain ⟨hname, hfilter⟩ := tryEntry_eq_filtered ho
    rw [length_singleton] at hlen
    exact Or.inl ⟨k, le_rfl, by omega, hname, Or.inl hfilter⟩
  | @subscribed f k hlt ho =>
    obtain ⟨hname, -, hsub⟩ := tryEntry_eq_subscribed ho
    rw [length_singleton] at hlen
    exact Or.inl ⟨k, le_rfl, by omega, hname, Or.inr hsub⟩
  | nameFailed hlt ho _ ih =>
    rw [length_cons] at hlen
    rcases ih (by omega) (by omega) with ⟨j, hkj, hj, hends⟩ | ⟨hfk, -⟩
    · exact Or.inl ⟨j, by omega, hj, hends⟩
    · omega
  | @subFailed f k f' tries hlt ho _ ih =>
    rw [length_cons] at hlen
    rcases ih (by omega) (by omega) with ⟨j, hkj, hj, hends⟩ | ⟨hfk, hall⟩
    · exact Or.inl ⟨j, by omega, hj, hends⟩
    · refine Or.inr ⟨by omega, fun j hkj hj => ?_⟩
      rcases Nat.lt_or_eq_of_le hkj with hlt | rfl
      · exact hall j hlt hj
      · exact (tryEntry_eq_subFailed ho).1

/-- No failure is left to the next entry, as the topics that are not wanted are no failures. -/
theorem EntryRun.failCount (hf : dmClientSubscribeFilter env entry → f = 0) : f' = 0 := by
  induction hrun with
  | givenUp hge => rfl
  | filtered hlt ho => exact hf (tryEntry_eq_filtered ho).2
  | subscribed hlt ho => rfl
  | nameFailed hlt ho _ ih => exact ih hf
  | subFailed hlt ho _ ih => exact ih fun hfilter => absurd hfilter (tryEntry_eq_subFailed ho).2.1

theorem EntryRun.index_eq : ∀ t ∈ tries, t.index = index := by
  induction hrun with
  | givenUp hge => simp
  | filtered hlt ho => simp
  | subscribed hlt ho => simp
  | nameFailed hlt ho _ ih => simpa using ih
  | subFailed hlt ho _ ih => simpa using ih

end

theorem EntryRun.ne_nil (hrun : EntryRun env entry index 0 k tries f') : tries ≠ [] := by
  generalize hf : (0 : ℕ) = f at hrun
  cases hrun with
  | givenUp hge => exact absurd (hf ▸ hge) (by decide)
  | filtered hlt ho => simp
  | subscribed hlt ho => simp
  | nameFailed hlt ho _ => simp
  | subFailed hlt ho _ => simp

theorem EntryRun.unique {tries' : List Try} {f'' : ℕ}
    (hrun : EntryRun env entry index f k tries f')
    (hrun' : EntryRun env entry index f k tries' f'') : tries = tries' := by
  induction hrun generalizing tries' f'' with
  | givenUp hge =>
    cases hrun' with
    | givenUp => rfl
    | _ => omega
  | filtered hlt ho =>
    cases hrun' with
    | givenUp => omega
    | filtered => rfl
    | _ => simp_all
  | subscribed hlt ho =>
    cases hrun' with
    | givenUp => omega
    | subscribed => rfl
    | _ => simp_all
  | nameFailed hlt ho _ ih =>
    cases hrun' with
    | givenUp => omega
    | nameFailed _ _ hrun' => rw [ih hrun']
    | _ => simp_all
  | subFailed hlt ho _ ih =>
    cases hrun' with
    | givenUp => omega
    | subFailed _ _ hrun' => rw [ih hrun']
    | _ => simp_all

/-! ## The loop over the entries -/

/-- What a run of the loop from an index on looks like: the tries of the entries in their order,
each entry for the device type with its own tries. -/
structure Shape (env : Env) (uriMap : List UriMap) (devType index : ℕ) (tries : List Try) :
    Prop where
  in_order : tries.Pairwise fun s t => s.index ≤ t.index
  index_le : ∀ t ∈ tries, index ≤ t.index
  only_applicable : ∀ t ∈ tries, ∃ entry, uriMap[t.index]? = some entry ∧ applicable entry devType
  own : ∀ i entry, index ≤ i → uriMap[i]? = some entry → applicable entry devType →
    EntryRun env entry i 0 0 (tries.filter fun t => t.index = i) 0

theorem filter_own {own : List Try} (hown : ∀ t ∈ own, t.index = index)
    (hrest : ∀ t ∈ rest, index + 1 ≤ t.index) :
    (own ++ rest).filter (fun t => t.index = index) = own := by
  have hfst : own.filter (fun t => t.index = index) = own :=
    filter_eq_self.mpr fun t ht => by simpa using hown t ht
  have hsnd : rest.filter (fun t => t.index = index) = [] := by
    apply filter_eq_nil_iff.mpr
    intro t ht
    have hle := hrest t ht
    simp only [decide_eq_true_eq]
    omega
  rw [filter_append, hfst, hsnd, append_nil]

theorem filter_later {own : List Try} {i : ℕ} (hown : ∀ t ∈ own, t.index = index)
    (hi : index < i) :
    (own ++ rest).filter (fun t => t.index = i) = rest.filter fun t => t.index = i := by
  have hfst : own.filter (fun t => t.index = i) = [] := by
    apply filter_eq_nil_iff.mpr
    intro t ht
    have heq := hown t ht
    simp only [decide_eq_true_eq]
    omega
  rw [filter_append, hfst, nil_append]

theorem shape_nil (h : uriMap[index]? = none) : Shape env uriMap devType index [] := by
  refine ⟨List.Pairwise.nil, by simp, by simp, fun i entry hi hentry _ => ?_⟩
  rw [List.getElem?_eq_none_iff] at h
  have hlt := (List.getElem?_eq_some_iff.mp hentry).1
  omega

theorem Shape.skip (h : uriMap[index]? = some entry) (happ : ¬ applicable entry devType)
    (hs : Shape env uriMap devType (index + 1) tries) : Shape env uriMap devType index tries := by
  refine ⟨hs.in_order, fun t ht => Nat.le_of_succ_le (hs.index_le t ht), hs.only_applicable, ?_⟩
  intro i entry' hi hentry happ'
  rcases Nat.lt_or_eq_of_le hi with hlt | rfl
  · exact hs.own i entry' hlt hentry happ'
  · rw [h] at hentry
    exact absurd (Option.some.inj hentry ▸ happ') happ

theorem Shape.run (h : uriMap[index]? = some entry) (happ : applicable entry devType)
    (hrun : EntryRun env entry index 0 0 tries 0)
    (hs : Shape env uriMap devType (index + 1) rest) :
    Shape env uriMap devType index (tries ++ rest) := by
  have hown := hrun.index_eq
  refine ⟨?_, ?_, ?_, ?_⟩
  · apply pairwise_append.mpr
    refine ⟨?_, hs.in_order, fun s hs' t ht => ?_⟩
    · apply pairwise_of_forall_mem_list
      intro s hs' t ht
      rw [hown s hs', hown t ht]
    · have hle := hs.index_le t ht
      rw [hown s hs']
      omega
  · intro t ht
    rcases mem_append.mp ht with ht | ht
    · rw [hown t ht]
    · exact Nat.le_of_succ_le (hs.index_le t ht)
  · intro t ht
    rcases mem_append.mp ht with ht | ht
    · rw [hown t ht]
      exact ⟨entry, h, happ⟩
    · exact hs.only_applicable t ht
  · intro i entry' hi hentry happ'
    rcases Nat.lt_or_eq_of_le hi with hlt | rfl
    · rw [filter_later hown hlt]
      exact hs.own i entry' hlt hentry happ'
    · rw [h] at hentry
      rw [filter_own hown hs.index_le, ← Option.some.inj hentry]
      exact hrun

theorem shape_of_entryLoop (hloop : entryLoop env uriMap devType fuel index 0 0 = some tries) :
    Shape env uriMap devType index tries := by
  induction hn : uriMap.length - index generalizing index fuel tries with
  | zero =>
    have hnone : uriMap[index]? = none := List.getElem?_eq_none_iff.mpr (by omega)
    cases fuel with
    | zero => simp [entryLoop] at hloop
    | succ fuel =>
      rw [entryLoop_end hnone] at hloop
      rw [← Option.some.inj hloop]
      exact shape_nil hnone
  | succ n ih =>
    obtain ⟨entry, hentry⟩ : ∃ entry, uriMap[index]? = some entry :=
      ⟨_, List.getElem?_eq_getElem (by omega)⟩
    by_cases happ : applicable entry devType
    · obtain ⟨own, rest, f', fuel', hrun, rfl, hrest⟩ := exists_entryRun hentry happ hloop
      have hf' : f' = 0 := hrun.failCount fun _ => rfl
      subst hf'
      exact Shape.run hentry happ hrun (ih hrest (by omega))
    · cases fuel with
      | zero => simp [entryLoop] at hloop
      | succ fuel =>
        rw [entryLoop_skip hentry happ] at hloop
        exact (ih hloop (by omega)).skip hentry happ

theorem EndsInTime.from_zero (h : EndsInTime env entry index) :
    (∃ j, 0 ≤ j ∧ j < iotxDmClientSubRetryMaxCounts ∧ Ends env entry index j) ∨
      (0 = 0 ∧ ∀ j, 0 ≤ j → j < iotxDmClientSubRetryMaxCounts → env.serviceName index j) := by
  rcases h with ⟨k, hk, hends⟩ | hall
  · exact .inl ⟨k, Nat.zero_le k, hk, hends⟩
  · exact .inr ⟨rfl, fun j _ => hall j⟩

/-- The entries for the device type from an index on end in time. -/
def AllEndInTime (env : Env) (uriMap : List UriMap) (devType index : ℕ) : Prop :=
  ∀ i entry, index ≤ i → uriMap[i]? = some entry → applicable entry devType →
    EndsInTime env entry i

theorem exists_entryLoop (h : AllEndInTime env uriMap devType index) :
    ∃ fuel tries, entryLoop env uriMap devType fuel index 0 0 = some tries := by
  induction hn : uriMap.length - index generalizing index with
  | zero =>
    have hnone : uriMap[index]? = none := List.getElem?_eq_none_iff.mpr (by omega)
    exact ⟨1, [], entryLoop_end hnone⟩
  | succ n ih =>
    obtain ⟨entry, hentry⟩ : ∃ entry, uriMap[index]? = some entry :=
      ⟨_, List.getElem?_eq_getElem (by omega)⟩
    have hlater : AllEndInTime env uriMap devType (index + 1) :=
      fun i entry' hi => h i entry' (Nat.le_of_succ_le hi)
    obtain ⟨fuel, rest, hrest⟩ := ih hlater (by omega)
    by_cases happ : applicable entry devType
    · obtain ⟨tries, f', hrun, -⟩ := exists_entryRun_of_endsInTime (Nat.zero_le _) le_rfl
        (h index entry le_rfl hentry happ).from_zero
      have hf' : f' = 0 := hrun.failCount fun _ => rfl
      subst hf'
      obtain ⟨fuel', hfuel'⟩ := hrun.entryLoop hentry happ hrest
      exact ⟨fuel', _, hfuel'⟩
    · exact ⟨fuel + 1, rest, by rw [entryLoop_skip hentry happ, hrest]⟩

theorem EntryRun.length_le_iff (hrun : EntryRun env entry index 0 0 tries f') :
    tries.length ≤ iotxDmClientSubRetryMaxCounts ↔ EndsInTime env entry index := by
  constructor
  · intro hlen
    rcases hrun.endsInTime le_rfl (by omega) with ⟨k, -, hk, hends⟩ | ⟨-, hall⟩
    · exact .inl ⟨k, hk, hends⟩
    · exact .inr fun k hk => hall k (Nat.zero_le k) hk
  · intro h
    obtain ⟨tries', f'', hrun', hlen⟩ :=
      exists_entryRun_of_endsInTime (Nat.zero_le _) le_rfl h.from_zero
    rw [hrun.unique hrun']
    exact hlen

theorem Shape.bounded_iff (hs : Shape env uriMap devType index tries) :
    (∀ i, index ≤ i → tries.countP (fun t => t.index = i) ≤ iotxDmClientSubRetryMaxCounts) ↔
      AllEndInTime env uriMap devType index := by
  constructor
  · intro hbounded i entry hi hentry happ
    have hle := hbounded i hi
    rw [countP_eq_length_filter] at hle
    exact (hs.own i entry hi hentry happ).length_le_iff.mp hle
  · intro h i hi
    rw [countP_eq_length_filter]
    by_cases happ : ∃ entry, uriMap[i]? = some entry ∧ applicable entry devType
    · obtain ⟨entry, hentry, happ⟩ := happ
      exact (hs.own i entry hi hentry happ).length_le_iff.mpr (h i entry hi hentry happ)
    have hnil : tries.filter (fun t => t.index = i) = [] := by
      apply filter_eq_nil_iff.mpr
      intro t ht heq
      have htry := hs.only_applicable t ht
      rw [of_decide_eq_true heq] at htry
      exact happ htry
    rw [hnil]
    exact Nat.zero_le _

theorem Shape.attempted (hs : Shape env uriMap devType index tries) {i : ℕ} (hi : index ≤ i)
    (hentry : uriMap[i]? = some entry) (happ : applicable entry devType) :
    ∃ t ∈ tries, t.index = i := by
  obtain ⟨t, ht⟩ := exists_mem_of_ne_nil _ (hs.own i entry hi hentry happ).ne_nil
  rw [mem_filter] at ht
  exact ⟨t, ht.1, of_decide_eq_true ht.2⟩

theorem Shape.progress_iff (hs : Shape env uriMap devType 0 tries) :
    Progress uriMap devType tries ↔ AllEndInTime env uriMap devType 0 := by
  rw [← hs.bounded_iff]
  constructor
  · intro h i _
    exact h.bounded i
  · intro h
    exact ⟨hs.in_order, fun i entry hentry happ => hs.attempted (Nat.zero_le i) hentry happ,
      fun i => h i (Nat.zero_le i), fun t ht _ => hs.only_applicable t ht⟩

/-! ## The first entry -/

theorem firstLoop_index (left k : ℕ) : ∀ t ∈ firstLoop env entry left k, t.index = 0 := by
  induction left generalizing k with
  | zero => simp [firstLoop]
  | succ left ih =>
    rw [firstLoop]
    intro t ht
    rcases mem_cons.mp ht with rfl | ht
    · rfl
    · split at ht
      · simp at ht
      · exact ih (k + 1) t ht

theorem length_firstLoop (left k : ℕ) : (firstLoop env entry left k).length ≤ left := by
  induction left generalizing k with
  | zero => exact le_rfl
  | succ left ih =>
    rw [firstLoop, length_cons]
    split
    · simp
    · have hle := ih (k + 1)
      omega

theorem firstLoop_subscribes_iff (left k : ℕ) :
    (∃ t ∈ firstLoop env entry left k, t.subscribes) ↔
      ¬ dmClientSubscribeFilter env entry ∧ ∃ j < left, env.serviceName 0 (k + j) := by
  induction left generalizing k with
  | zero => simp [firstLoop]
  | succ left ih =>
    rw [firstLoop]
    have hshift : (∃ j < left + 1, env.serviceName 0 (k + j)) ↔
        env.serviceName 0 k ∨ ∃ j < left, env.serviceName 0 (k + 1 + j) := by
      constructor
      · rintro ⟨j, hj, hname⟩
        cases j with
        | zero => exact .inl hname
        | succ j => exact Or.inr ⟨j, by omega, by rwa [show k + 1 + j = k + (j + 1) by omega]⟩
      · rintro (hname | ⟨j, hj, hname⟩)
        · exact ⟨0, by omega, hname⟩
        · exact ⟨j + 1, by omega, by rwa [show k + (j + 1) = k + 1 + j by omega]⟩
    rw [hshift, exists_mem_cons_iff]
    cases ho : tryEntry env entry 0 k with
    | nameFailed =>
      have hname := tryEntry_eq_nameFailed ho
      have hno : ¬ (⟨0, Outcome.nameFailed⟩ : Try).subscribes := by simp [Try.subscribes]
      rw [or_iff_right hno, or_iff_right hname, if_neg (by simp)]
      exact ih (k + 1)
    | filtered =>
      obtain ⟨-, hfilter⟩ := tryEntry_eq_filtered ho
      have hno : ¬ (⟨0, Outcome.filtered⟩ : Try).subscribes := by simp [Try.subscribes]
      rw [or_iff_right hno, if_neg (by simp), ih (k + 1)]
      exact ⟨fun h => absurd hfilter h.1, fun h => absurd hfilter h.1⟩
    | subFailed =>
      obtain ⟨hname, hfilter, -⟩ := tryEntry_eq_subFailed ho
      exact ⟨fun _ => ⟨hfilter, .inl hname⟩, fun _ => .inl (.inl rfl)⟩
    | subscribed =>
      obtain ⟨hname, hfilter, -⟩ := tryEntry_eq_subscribed ho
      exact ⟨fun _ => ⟨hfilter, .inl hname⟩, fun _ => .inl (.inr rfl)⟩

/-- A run of the loop behind the tries of the first entry. -/
theorem Shape.progress_first_iff {uriMap : List UriMap}
    (hs : Shape env (entry :: uriMap) devType 1 tries) :
    Progress (entry :: uriMap) devType
        (firstLoop env entry iotxDmClientSubRetryMaxCounts 0 ++ tries) ↔
      AllEndInTime env (entry :: uriMap) devType 1 ∧
        (applicable entry devType ∨ dmClientSubscribeFilter env entry ∨
          ∀ k < iotxDmClientSubRetryMaxCounts, ¬ env.serviceName 0 k) := by
  have hfirst : ∀ t ∈ firstLoop env entry iotxDmClientSubRetryMaxCounts 0, t.index = 0 :=
    firstLoop_index _ _
  have hsub : (∃ t ∈ firstLoop env entry iotxDmClientSubRetryMaxCounts 0, t.subscribes) ↔
      ¬ (dmClientSubscribeFilter env entry ∨
        ∀ k < iotxDmClientSubRetryMaxCounts, ¬ env.serviceName 0 k) := by
    rw [firstLoop_subscribes_iff, not_or, not_forall]
    simp only [zero_add, not_forall, not_not, exists_prop]
  have hlater : ∀ i, 1 ≤ i → (firstLoop env entry iotxDmClientSubRetryMaxCounts 0 ++ tries).countP
      (fun t => t.index = i) = tries.countP fun t => t.index = i := by
    intro i hi
    rw [countP_eq_length_filter, filter_later hfirst hi, ← countP_eq_length_filter]
  constructor
  · intro h
    constructor
    · apply hs.bounded_iff.mp
      intro i hi
      rw [← hlater i hi]
      exact h.bounded i
    · by_contra hno
      rw [not_or] at hno
      obtain ⟨t, ht, hsubscribes⟩ := hsub.mpr hno.2
      obtain ⟨entry', hentry', happ⟩ :=
        h.only_applicable t (mem_append_left _ ht) hsubscribes
      rw [hfirst t ht, List.getElem?_cons_zero] at hentry'
      exact hno.1 (Option.some.inj hentry' ▸ happ)
  · rintro ⟨htime, happ⟩
    refine ⟨?_, ?_, ?_, ?_⟩
    · apply pairwise_append.mpr
      refine ⟨?_, hs.in_order, fun s hs' t _ => ?_⟩
      · apply pairwise_of_forall_mem_list
        intro s hs' t ht
        rw [hfirst s hs', hfirst t ht]
      · rw [hfirst s hs']
        exact Nat.zero_le _
    · intro i entry' hentry' happ'
      cases i with
      | zero => exact ⟨_, mem_append_left _ mem_cons_self, rfl⟩
      | succ i =>
        obtain ⟨t, ht, heq⟩ := hs.attempted (by omega) hentry' happ'
        exact ⟨t, mem_append_right _ ht, heq⟩
    · intro i
      cases i with
      | zero =>
        have hnone : tries.countP (fun t => t.index = 0) = 0 := by
          apply countP_eq_zero.mpr
          intro t ht
          have hle := hs.index_le t ht
          simp only [decide_eq_true_eq]
          omega
        rw [countP_append, hnone]
        exact countP_le_length.trans (length_firstLoop _ _)
      | succ i =>
        rw [hlater (i + 1) (by omega)]
        exact hs.bounded_iff.mpr htime (i + 1) (by omega)
    · intro t ht hsubscribes
      rcases mem_append.mp ht with ht | ht
      · refine ⟨entry, by rw [hfirst t ht, List.getElem?_cons_zero], ?_⟩
        exact happ.resolve_right (hsub.mp ⟨t, ht, hsubscribes⟩)
      · exact hs.only_applicable t ht

/-! ## All entries -/

theorem gDmClientUriMap_eq (build : Build) (h : build.rawdataSolo = false) :
    ∃ rest, gDmClientUriMap build =
      ⟨dmUriThingEventPostReplyWildcard, dmUriSysPrefix, iotxDmDeviceAll⟩ :: rest := by
  simp only [gDmClientUriMap, h]
  exact ⟨_, rfl⟩

/-- **`dm_client_subscribe_all` makes progress** if and only if every entry for the device type
behind the first one ends in time, and the first one is for the device type as well, or its topic
is not wanted or cannot be built. -/
theorem dm_client_subscribe_all_iff (build : Build) (env : Env) (devType : ℕ) :
    (∃ fuel tries, dmClientSubscribeAll build env devType fuel = some tries ∧
      Progress (gDmClientUriMap build) devType tries) ↔
      AllEndInTime env (gDmClientUriMap build) devType (if build.rawdataSolo then 0 else 1) ∧
        (build.rawdataSolo ∨ iotxDmDeviceAll &&& devType ≠ 0 ∨ ¬ env.eventPostReplyOpt ∨
          ∀ k < iotxDmClientSubRetryMaxCounts, ¬ env.serviceName 0 k) := by
  cases hsolo : build.rawdataSolo with
  | true =>
    have hall : ∀ fuel, dmClientSubscribeAll build env devType fuel =
        entryLoop env (gDmClientUriMap build) devType fuel 0 0 0 := by
      intro fuel
      unfold dmClientSubscribeAll
      rw [hsolo]
      split
      · simp_all
      · rfl
    rw [if_pos rfl]
    constructor
    · rintro ⟨fuel, tries, hloop, hprogress⟩
      rw [hall] at hloop
      exact ⟨(shape_of_entryLoop hloop).progress_iff.mp hprogress, .inl rfl⟩
    · rintro ⟨htime, -⟩
      obtain ⟨fuel, tries, hloop⟩ := exists_entryLoop htime
      exact ⟨fuel, tries, by rw [hall, hloop],
        (shape_of_entryLoop hloop).progress_iff.mpr htime⟩
  | false =>
    obtain ⟨rest, hrest⟩ := gDmClientUriMap_eq build hsolo
    have hall : ∀ fuel, dmClientSubscribeAll build env devType fuel =
        (firstLoop env ⟨dmUriThingEventPostReplyWildcard, dmUriSysPrefix, iotxDmDeviceAll⟩
          iotxDmClientSubRetryMaxCounts 0 ++ ·) <$>
            entryLoop env (gDmClientUriMap build) devType fuel 1 0 0 := by
      intro fuel
      unfold dmClientSubscribeAll
      rw [hsolo, hrest]
    have happ : (applicable ⟨dmUriThingEventPostReplyWildcard, dmUriSysPrefix, iotxDmDeviceAll⟩
        devType = true) ↔ iotxDmDeviceAll &&& devType ≠ 0 := by
      simp [applicable]
    have hfilter : (dmClientSubscribeFilter env
        ⟨dmUriThingEventPostReplyWildcard, dmUriSysPrefix, iotxDmDeviceAll⟩ = true) ↔
          ¬ env.eventPostReplyOpt := by
      simp [dmClientSubscribeFilter]
    rw [if_neg (by simp), or_iff_right (by simp : ¬ (false = true)), ← happ, ← hfilter]
    constructor
    · rintro ⟨fuel, tries, hloop, hprogress⟩
      rw [hall] at hloop
      obtain ⟨later, hlater, rfl⟩ := map_eq_some_iff.mp hloop
      rw [hrest] at hlater hprogress ⊢
      exact (shape_of_entryLoop hlater).progress_first_iff.mp hprogress
    · intro h
      rw [hrest] at h
      obtain ⟨fuel, later, hlater⟩ := exists_entryLoop h.1
      refine ⟨fuel, _, by rw [hall, hrest, hlater]; rfl, ?_⟩
      rw [hrest]
      exact (shape_of_entryLoop hlater).progress_first_iff.mpr h

/-- The loop stays at an entry whose name can never be built. -/
theorem entryLoop_eq_none (h : uriMap[index]? = some entry) (happ : applicable entry devType)
    (hname : ∀ j, ¬ env.serviceName index j) (hf : f < iotxDmClientSubRetryMaxCounts) :
    entryLoop env uriMap devType fuel index f k = none := by
  induction fuel generalizing k with
  | zero => rfl
  | succ fuel ih =>
    have ho : tryEntry env entry index k = Outcome.nameFailed := by
      unfold tryEntry
      rw [if_pos (by simpa using hname k)]
    rw [entryLoop_try h happ hf, ho]
    show Option.map _ (entryLoop env uriMap devType fuel index f (k + 1)) = none
    rw [ih]
    rfl

/-- Without memory for a name the subscription of a single device does not end. -/
theorem dm_client_subscribe_all_no_memory :
    (∀ fuel, dmClientSubscribeAll ⟨false, false, false⟩ ⟨fun _ _ => false, fun _ _ => true, true⟩
      iotxDmDeviceSingle fuel = none) ∧
    ¬ ∃ fuel tries, dmClientSubscribeAll ⟨false, false, false⟩
      ⟨fun _ _ => false, fun _ _ => true, true⟩ iotxDmDeviceSingle fuel = some tries ∧
      Progress (gDmClientUriMap ⟨false, false, false⟩) iotxDmDeviceSingle tries := by
  have hnone : ∀ fuel, dmClientSubscribeAll ⟨false, false, false⟩
      ⟨fun _ _ => false, fun _ _ => true, true⟩ iotxDmDeviceSingle fuel = none := by
    intro fuel
    have hloop : entryLoop ⟨fun _ _ => false, fun _ _ => true, true⟩
        (gDmClientUriMap ⟨false, false, false⟩) iotxDmDeviceSingle fuel 1 0 0 = none :=
      entryLoop_eq_none rfl (by decide) (by simp) (by decide)
    exact map_eq_none_iff.mpr hloop
  refine ⟨hnone, ?_⟩
  rintro ⟨fuel, tries, htries, -⟩
  rw [hnone fuel] at htries
  simp at htries

end Iotkit.DmSubscribe
