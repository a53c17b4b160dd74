/-
# Topic matching

`iotx_mc_is_topic_matched` runs two cursors over a filter and a topic name.  Neither leaves its
string, and for a filter whose wildcards occupy whole levels the scan accepts the topic names that
match by the rule of the protocol and have a character at every wildcard.

A filter of the maximal length is checked without its last character, so that it can end in a
wildcard behind other characters; such a filter matches what it should not.
-/
import Iotkit.MqttTopicCheck

namespace Iotkit.Mqtt

open Levels List

/-! ## The cursors -/

/-- Where `iotx_mc_is_topic_matched` stands: at the test of its loop, in the loop that skips a
level, or behind the loop. -/
inductive MatchScan
  | test (curf curn : ℕ)
  | skip (curf curn nextpos : ℕ)
  | done (curf curn : ℕ)

section Scan

variable (filter name : Memory) (curnEnd : ℕ)

/-- One turn of `iotx_mc_is_topic_matched`; the cursors are offsets. -/
def matchStep : MatchScan → MatchScan
  | .test curf curn =>
    if filter curf ≠ 0 ∧ curn < curnEnd then
      if name curn = chSlash ∧ filter curf ≠ chSlash then .done curf curn
      else if filter curf ≠ chPlus ∧ filter curf ≠ chHash ∧ filter curf ≠ name curn then
        .done curf curn
      else if filter curf = chPlus then .skip curf curn (curn + 1)
      else if filter curf = chHash then .test (curf + 1) (curnEnd - 1 + 1)
      else .test (curf + 1) (curn + 1)
    else .done curf curn
  | .skip curf curn nextpos =>
    if nextpos < curnEnd ∧ name nextpos ≠ chSlash then .skip curf (curn + 1) (curn + 1 + 1)
    else .test (curf + 1) (curn + 1)
  | .done curf curn => .done curf curn

/-- The scan after `k` turns. -/
def matchRun (k : ℕ) (scan : MatchScan) : MatchScan := (matchStep filter name curnEnd)^[k] scan

theorem matchRun_succ (k : ℕ) (scan : MatchScan) :
    matchRun filter name curnEnd (k + 1) scan =
      matchRun filter name curnEnd k (matchStep filter name curnEnd scan) :=
  Function.iterate_succ_apply _ k scan

theorem matchRun_add (k k' : ℕ) (scan : MatchScan) :
    matchRun filter name curnEnd (k' + k) scan =
      matchRun filter name curnEnd k' (matchRun filter name curnEnd k scan) :=
  Function.iterate_add_apply _ k' k scan

end Scan

/-- The cursors of a scan over strings of two lengths are in them or at their ends, and those of a
skipped level are in them. -/
def MatchScan.InBounds (filterLen nameLen : ℕ) : MatchScan → Prop
  | test curf curn => curf ≤ filterLen ∧ curn ≤ nameLen
  | skip curf curn nextpos => curf < filterLen ∧ curn < nameLen ∧ nextpos = curn + 1
  | done curf curn => curf ≤ filterLen ∧ curn ≤ nameLen

section Strings

variable {topicFilter : CString} {name : Bytes} {rest rest' : Memory}

theorem filter_ne_zero_iff {curf : ℕ} (h : curf ≤ topicFilter.strlen) :
    memOf topicFilter.withNul rest curf ≠ 0 ↔ curf < topicFilter.strlen := by
  have hlen : topicFilter.withNul.length = topicFilter.strlen + 1 := by
    rw [CString.withNul, length_append]
    rfl
  rw [holdsBytes_memOf topicFilter.withNul rest curf (by omega)]
  simp only [CString.withNul]
  constructor
  · intro hne
    by_contra hge
    apply hne
    rw [getElem_append_right (by rw [CString.strlen] at hge; omega)]
    simp
  · intro hlt hzero
    rw [getElem_append_left hlt] at hzero
    exact topicFilter.nul_notMem (hzero ▸ getElem_mem hlt)

theorem filter_getElem {curf : ℕ} (h : curf < topicFilter.strlen) :
    memOf topicFilter.withNul rest curf = topicFilter.bytes[curf] := by
  have hlen : curf < topicFilter.withNul.length := by
    rw [CString.withNul, length_append]
    exact Nat.lt_add_right 1 h
  rw [holdsBytes_memOf topicFilter.withNul rest curf hlen]
  exact getElem_append_left h

theorem matchStep_inBounds {scan : MatchScan}
    (h : scan.InBounds topicFilter.strlen name.length) :
    (matchStep (memOf topicFilter.withNul rest) (memOf name rest') name.length scan).InBounds
      topicFilter.strlen name.length := by
  cases scan with
  | test curf curn =>
    obtain ⟨hcurf, hcurn⟩ := h
    rw [matchStep]
    by_cases hin : memOf topicFilter.withNul rest curf ≠ 0 ∧ curn < name.length
    · have hlt := (filter_ne_zero_iff hcurf).mp hin.1
      rw [if_pos hin]
      split_ifs
      · exact ⟨hcurf, hcurn⟩
      · exact ⟨hcurf, hcurn⟩
      · exact ⟨hlt, hin.2, rfl⟩
      · exact ⟨hlt, by omega⟩
      · exact ⟨hlt, hin.2⟩
    · rw [if_neg hin]
      exact ⟨hcurf, hcurn⟩
  | skip curf curn nextpos =>
    obtain ⟨hcurf, hcurn, rfl⟩ := h
    rw [matchStep]
    split_ifs with hnext
    · exact ⟨hcurf, hnext.1, rfl⟩
    · exact ⟨hcurf, hcurn⟩
  | done curf curn => exact h

/-- **The cursors stay in their strings.** -/
theorem matchRun_inBounds (k : ℕ) {scan : MatchScan}
    (h : scan.InBounds topicFilter.strlen name.length) :
    (matchRun (memOf topicFilter.withNul rest) (memOf name rest') name.length k scan).InBounds
      topicFilter.strlen name.length := by
  induction k generalizing scan with
  | zero => exact h
  | succ k ih =>
    rw [matchRun_succ]
    exact ih (matchStep_inBounds h)

theorem matchRun_skip (curf : ℕ) {curn : ℕ} (h : curn < name.length) :
    ∃ k curn', matchRun (memOf topicFilter.withNul rest) (memOf name rest') name.length k
        (.skip curf curn (curn + 1)) = .test (curf + 1) curn' ∧
      curn' ≤ name.length ∧
      name.drop curn' = (name.drop (curn + 1)).dropWhile (· ≠ chSlash) := by
  induction hn : name.length - curn using Nat.strong_induction_on generalizing curn with
  | _ n ih =>
    subst hn
    by_cases hnext : curn + 1 < name.length ∧ memOf name rest' (curn + 1) ≠ chSlash
    · have hname : memOf name rest' (curn + 1) = name[curn + 1] :=
        holdsBytes_memOf name rest' (curn + 1) hnext.1
      obtain ⟨k, curn', hrun, hle, hdrop⟩ := ih (name.length - (curn + 1)) (by omega) hnext.1 rfl
      refine ⟨k + 1, curn', ?_, hle, ?_⟩
      · rw [matchRun_succ, matchStep, if_pos hnext]
        exact hrun
      · rw [hdrop, drop_eq_getElem_cons hnext.1, dropWhile_cons, if_pos]
        rw [← hname]
        exact decide_eq_true hnext.2
    · refine ⟨1, curn + 1, ?_, h, ?_⟩
      · rw [matchRun_succ, matchStep, if_neg hnext]
        rfl
      · by_cases hlt : curn + 1 < name.length
        · have hname : memOf name rest' (curn + 1) = name[curn + 1] :=
            holdsBytes_memOf name rest' (curn + 1) hlt
          have hslash : name[curn + 1] = chSlash := by
            by_contra hne
            exact hnext ⟨hlt, hname ▸ hne⟩
          rw [drop_eq_getElem_cons hlt, dropWhile_cons, if_neg]
          rw [hslash]
          decide
        · rw [drop_eq_nil_of_le (by omega)]
          rfl

/-- The scan ends, and what stands behind the loop returns the verdict. -/
def Ends (filter name : Memory) (curnEnd : ℕ) (scan : MatchScan) (verdict : Bool) : Prop :=
  ∃ k curf curn, matchRun filter name curnEnd k scan = .done curf curn ∧
    (verdict = true ↔ curn = curnEnd ∧ filter curf = 0)

theorem Ends.of_run {filter name : Memory} {curnEnd k : ℕ} {scan scan' : MatchScan}
    {verdict : Bool} (h : Ends filter name curnEnd scan' verdict)
    (hrun : matchRun filter name curnEnd k scan = scan') : Ends filter name curnEnd scan verdict := by
  obtain ⟨k', curf, curn, hend, hiff⟩ := h
  refine ⟨k' + k, curf, curn, ?_, hiff⟩
  rw [matchRun_add, hrun]
  exact hend

theorem ends_test {curf curn : ℕ} (hcurf : curf ≤ topicFilter.strlen)
    (hcurn : curn ≤ name.length) :
    Ends (memOf topicFilter.withNul rest) (memOf name rest') name.length (.test curf curn)
      (iotxMcIsTopicMatched (topicFilter.bytes.drop curf) (name.drop curn)) := by
  induction hn : topicFilter.strlen - curf using Nat.strong_induction_on generalizing curf curn with
  | _ n ih =>
    subst hn
    by_cases hin : memOf topicFilter.withNul rest curf ≠ 0 ∧ curn < name.length
    · obtain ⟨hne, hlt⟩ := hin
      have hflt := (filter_ne_zero_iff hcurf).mp hne
      have hnext : ∀ curn' ≤ name.length, Ends (memOf topicFilter.withNul rest) (memOf name rest')
          name.length (.test (curf + 1) curn')
          (iotxMcIsTopicMatched (topicFilter.bytes.drop (curf + 1)) (name.drop curn')) :=
        fun curn' hle => ih (topicFilter.strlen - (curf + 1)) (by omega) hflt hle rfl
      have hstep := matchRun_succ (memOf topicFilter.withNul rest) (memOf name rest') name.length 0
        (.test curf curn)
      rw [matchStep, if_pos ⟨hne, hlt⟩, filter_getElem hflt, holdsBytes_memOf name rest' curn hlt]
        at hstep
      rw [drop_eq_getElem_cons hflt, drop_eq_getElem_cons hlt, iotxMcIsTopicMatched]
      split_ifs at hstep ⊢
      · exact ⟨1, curf, curn, hstep, iff_of_false Bool.false_ne_true fun hc => hne hc.2⟩
      · exact ⟨1, curf, curn, hstep, iff_of_false Bool.false_ne_true fun hc => hne hc.2⟩
      · obtain ⟨k, curn', hrun, hle, hdrop⟩ := matchRun_skip curf hlt
        rw [← hdrop]
        exact ((hnext curn' hle).of_run hrun).of_run hstep
      · have hrest := hnext name.length le_rfl
        rw [drop_length] at hrest
        rw [Nat.sub_add_cancel (by omega)] at hstep
        exact hrest.of_run hstep
      · exact (hnext (curn + 1) hlt).of_run hstep
    · refine ⟨1, curf, curn, if_neg hin, ?_⟩
      have hiff : memOf topicFilter.withNul rest curf ≠ 0 ↔ curf < topicFilter.strlen :=
        filter_ne_zero_iff hcurf
      rcases not_and_or.mp hin with hzero | hend
      · rw [drop_eq_nil_of_le (Nat.le_of_not_lt fun hc => hzero (hiff.mpr hc)),
          iotxMcIsTopicMatched, List.isEmpty_iff, drop_eq_nil_iff]
        rw [not_not] at hzero
        exact ⟨fun h => ⟨le_antisymm hcurn h, hzero⟩, fun h => h.1.ge⟩
      · obtain rfl : curn = name.length := by omega
        rw [drop_length, iotxMcIsTopicMatched_nil_right, List.isEmpty_iff,
          drop_eq_nil_iff, ← Nat.not_lt]
        exact ⟨fun h => ⟨rfl, not_not.mp fun hc => h (hiff.mp hc)⟩, fun h hc => hiff.mpr hc h.2⟩

/-- **The scan decides the match.**  Whatever memory lies behind the two strings, the scan from
their beginnings ends, and accepts exactly the names that the filter matches. -/
theorem scan_ends (topicFilter : CString) (name : Bytes) (rest rest' : Memory) :
    Ends (memOf topicFilter.withNul rest) (memOf name rest') name.length (.test 0 0)
      (iotxMcIsTopicMatched topicFilter.bytes name) :=
  ends_test (Nat.zero_le _) (Nat.zero_le _)

end Strings

/-! ## Levels -/

variable {l : Bytes}

variable (filter : Bytes)

theorem matched_literal (hl : ∀ c ∈ l, ¬ Wildcard c) (filter name : Bytes) :
    iotxMcIsTopicMatched (l ++ filter) name = true ↔
      ∃ rest, name = l ++ rest ∧ iotxMcIsTopicMatched filter rest = true := by
  induction l generalizing name with
  | nil => simp
  | cons c l ih =>
    obtain ⟨hplus, hhash⟩ := not_or.mp (hl c mem_cons_self)
    rw [forall_mem_cons] at hl
    cases name with
    | nil => simp [iotxMcIsTopicMatched]
    | cons n name =>
      rw [cons_append, iotxMcIsTopicMatched]
      by_cases hcn : c = n
      · subst hcn
        rw [if_neg (fun h => h.2 h.1), if_neg (fun h => h.2.2 rfl), if_neg hplus, if_neg hhash,
          ih hl.2]
        simp
      have hfalse : ¬ ∃ rest, n :: name = c :: l ++ rest ∧
          iotxMcIsTopicMatched filter rest = true := by
        rintro ⟨rest, heq, -⟩
        exact hcn (List.cons.inj heq).1.symm
      have hdiff : c ≠ chPlus ∧ c ≠ chHash ∧ c ≠ n := ⟨hplus, hhash, hcn⟩
      rw [if_pos hdiff, ite_self]
      exact iff_of_false Bool.false_ne_true hfalse

/-- What is behind a level: the end, or a separator. -/
def Tail (s : Bytes) : Prop := s = [] ∨ ∃ t, s = chSlash :: t

variable {s : Bytes}

theorem head?_levels (hl : chSlash ∉ l) (hs : Tail s) :
    (levels chSlash (l ++ s)).head? = some l := by
  rcases hs with rfl | ⟨t, rfl⟩
  · rw [append_nil, levels_of_notMem hl]
    rfl
  · rw [levels_append_cons hl]
    rfl

theorem matched_slash (name : Bytes) :
    iotxMcIsTopicMatched (chSlash :: filter) (chSlash :: name) =
      iotxMcIsTopicMatched filter name := by
  rw [iotxMcIsTopicMatched, if_neg (by decide), if_neg (by simp), if_neg (by decide),
    if_neg (by decide)]

theorem tail_of_matched {filter rest : Bytes} (hfilter : Tail filter)
    (h : iotxMcIsTopicMatched filter rest = true) : Tail rest := by
  rcases hfilter with rfl | ⟨t, rfl⟩
  · exact .inl (List.isEmpty_iff.mp h)
  have hlit : ∀ c ∈ [chSlash], ¬ Wildcard c := by
    intro c hc
    rw [mem_singleton.mp hc]
    decide
  obtain ⟨u, hrest, -⟩ := (matched_literal hlit t rest).mp h
  exact .inr ⟨u, hrest⟩

variable {m : Bytes}

variable {name : Bytes}

theorem matched_literal_level {filter : Bytes} (hlit : ∀ c ∈ l, ¬ Wildcard c)
    (hl : chSlash ∉ l) (hm : chSlash ∉ m) (hfilter : Tail filter) (hname : Tail name) :
    iotxMcIsTopicMatched (l ++ filter) (m ++ name) = true ↔
      l = m ∧ iotxMcIsTopicMatched filter name = true := by
  rw [matched_literal hlit]
  constructor
  · rintro ⟨rest, heq, h⟩
    have hhead := head?_levels hm hname
    rw [heq, head?_levels hl (tail_of_matched hfilter h)] at hhead
    obtain rfl := Option.some.inj hhead
    rw [append_cancel_left heq]
    exact ⟨rfl, h⟩
  · rintro ⟨rfl, h⟩
    exact ⟨name, rfl, h⟩

theorem matched_plus_level (hm : chSlash ∉ m) (hname : Tail name) :
    iotxMcIsTopicMatched (chPlus :: filter) (m ++ name) = true ↔
      m ≠ [] ∧ iotxMcIsTopicMatched filter name = true := by
  have hskip : name.dropWhile (· ≠ chSlash) = name := by
    rcases hname with rfl | ⟨u, rfl⟩
    · rfl
    · exact dropWhile_cons_of_neg (by decide)
  cases m with
  | nil =>
    rcases hname with rfl | ⟨u, rfl⟩
    · simp [iotxMcIsTopicMatched]
    · have hslash : chSlash = chSlash ∧ chPlus ≠ chSlash := by decide
      rw [nil_append, iotxMcIsTopicMatched, if_pos hslash]
      simp
  | cons n m =>
    have hn : n ≠ chSlash := fun h => hm (h ▸ mem_cons_self)
    have hall : ∀ c ∈ m, decide (c ≠ chSlash) = true := by
      intro c hc
      exact decide_eq_true fun h => hm (h ▸ mem_cons_of_mem n hc)
    rw [cons_append, iotxMcIsTopicMatched, if_neg (fun h => hn h.1),
      if_neg (fun h => h.1 rfl), if_pos rfl, dropWhile_append_of_pos hall, hskip]
    simp

theorem matched_hash_level (hm : chSlash ∉ m) (hname : Tail name) :
    iotxMcIsTopicMatched (chHash :: filter) (m ++ name) = true ↔ m ≠ [] ∧ filter = [] := by
  cases m with
  | nil =>
    rcases hname with rfl | ⟨u, rfl⟩
    · simp [iotxMcIsTopicMatched]
    · have hslash : chSlash = chSlash ∧ chHash ≠ chSlash := by decide
      rw [nil_append, iotxMcIsTopicMatched, if_pos hslash]
      simp
  | cons n m =>
    have hn : n ≠ chSlash := fun h => hm (h ▸ mem_cons_self)
    rw [cons_append, iotxMcIsTopicMatched, if_neg (fun h => hn h.1),
      if_neg (fun h => h.2.1 rfl), if_neg (by decide), if_pos rfl,
      iotxMcIsTopicMatched_nil_right, List.isEmpty_iff]
    simp

/-- The topic names of the protocol. -/
structure CleanName (name : Bytes) : Prop where
  clean : ∀ c ∈ name, ¬ Wildcard c ∧ c ≠ 0
  length : name.length < 2 ^ 16

theorem level_cases (h : ∀ c ∈ l, Wildcard c → l = [c]) :
    (∀ c ∈ l, ¬ Wildcard c) ∨ l = [chPlus] ∨ l = [chHash] := by
  by_cases hlit : ∀ c ∈ l, ¬ Wildcard c
  · exact .inl hlit
  push Not at hlit
  obtain ⟨c, hc, hwild⟩ := hlit
  rw [h c hc hwild]
  rcases hwild with rfl | rfl
  · exact .inr (.inl rfl)
  · exact .inr (.inr rfl)

theorem literal_ne (h : ∀ c ∈ l, ¬ Wildcard c) : l ≠ [chPlus] ∧ l ≠ [chHash] := by
  constructor
  · rintro rfl
    exact h chPlus mem_cons_self (.inl rfl)
  · rintro rfl
    exact h chHash mem_cons_self (.inr rfl)

/-- One level of a filter against one level of a topic name. -/
theorem matched_level {filter : Bytes} (hwhole : ∀ c ∈ l, Wildcard c → l = [c])
    (hclean : ∀ c ∈ m, ¬ Wildcard c) (hl : chSlash ∉ l) (hm : chSlash ∉ m) (hfilter : Tail filter)
    (hname : Tail name) :
    iotxMcIsTopicMatched (l ++ filter) (m ++ name) = true ↔
      (l = [chHash] ∧ filter = [] ∨
        (l = [chPlus] ∨ l = m) ∧ iotxMcIsTopicMatched filter name = true) ∧
      (l = [chPlus] ∨ l = [chHash] → m ≠ []) := by
  have hne : chPlus ≠ chHash := by decide
  obtain ⟨hmplus, hmhash⟩ := literal_ne hclean
  rcases level_cases hwhole with hlit | rfl | rfl
  · obtain ⟨hlplus, hlhash⟩ := literal_ne hlit
    simp [matched_literal_level hlit hl hm hfilter hname, hlplus, hlhash]
  · simp [matched_plus_level filter hm hname, hne, and_comm]
  · simp [matched_hash_level filter hm hname, hne.symm, hmhash.symm, and_comm]

/-- **Topic matching.**  For a filter whose wildcards occupy whole levels, the scan accepts the
topic names that match the filter and have a character at every wildcard. -/
theorem matched_iff {filter : Bytes} (hwhole : WholeWildcards (levels chSlash filter))
    (hname : ∀ c ∈ name, ¬ Wildcard c) :
    iotxMcIsTopicMatched filter name = true ↔
      Matches [chPlus] [chHash] (levels chSlash filter) (levels chSlash name) ∧
        Filled [chPlus] [chHash] (· ≠ []) (levels chSlash filter) (levels chSlash name) := by
  induction filter using level_induction chSlash generalizing name with
  | last l hl =>
    rw [levels_of_notMem hl] at hwhole ⊢
    have hfirst := hwhole l mem_cons_self
    rcases first_level chSlash name with hm | ⟨m, u, hm, rfl⟩
    · have h := matched_level hfirst hname hl hm (.inl rfl) (.inl rfl)
      rw [append_nil, append_nil] at h
      rw [h, levels_of_notMem hm, matches_cons, filled_cons]
      simp [filled_nil, iotxMcIsTopicMatched]
    have hclean : ∀ c ∈ m, ¬ Wildcard c :=
      fun c hc => hname c (mem_append_left _ hc)
    have h := matched_level hfirst hclean hl hm (.inl rfl) (.inr ⟨u, rfl⟩)
    rw [append_nil] at h
    rw [h, levels_append_cons hm, matches_cons, filled_cons]
    simp [filled_nil, levels_ne_nil, iotxMcIsTopicMatched]
  | cons l t hl ih =>
    rw [levels_append_cons hl] at hwhole ⊢
    obtain ⟨hfirst, hrest⟩ := forall_mem_cons.mp hwhole
    have hlevels := levels_ne_nil chSlash t
    rcases first_level chSlash name with hm | ⟨m, u, hm, rfl⟩
    · have h := matched_level hfirst hname hl hm (.inr ⟨t, rfl⟩) (.inl rfl)
      rw [append_nil] at h
      rw [h, levels_of_notMem hm, matches_cons, filled_cons]
      -- the levels of the filter that are left stand against nothing
      have hleft : ¬ (Matches [chPlus] [chHash] (levels chSlash t) [] ∧
          Filled [chPlus] [chHash] (· ≠ []) (levels chSlash t) []) := by
        obtain ⟨f, fs, hfs⟩ := exists_cons_of_ne_nil hlevels
        rintro ⟨hmatch, hfilled⟩
        rw [hfs] at hmatch hfilled
        exact filled_cons_nil (.inr (matches_cons_nil.mp hmatch).1) hfilled
      simp only [iotxMcIsTopicMatched, hlevels, cons_ne_nil, Bool.false_eq_true, and_false,
        false_or, false_and, false_iff]
      rintro ⟨⟨-, hmatch⟩, -, hfilled⟩
      exact hleft ⟨hmatch, hfilled⟩
    · have hclean : ∀ c ∈ m, ¬ Wildcard c :=
        fun c hc => hname c (mem_append_left _ hc)
      have hcleanu : ∀ c ∈ u, ¬ Wildcard c :=
        fun c hc => hname c (mem_append_right _ (mem_cons_of_mem _ hc))
      rw [matched_level hfirst hclean hl hm (.inr ⟨t, rfl⟩) (.inr ⟨u, rfl⟩),
        levels_append_cons hm, matches_cons, filled_cons]
      rw [matched_slash, ih hrest hcleanu]
      simp only [hlevels, cons_ne_nil, and_false, false_or]
      tauto

/-! ## Completeness -/

theorem wholeWildcards_of_matches {filter path : List Bytes}
    (h : Matches [chPlus] [chHash] filter path) (hpath : ∀ m ∈ path, ∀ c ∈ m, ¬ Wildcard c) :
    WholeWildcards filter := by
  have hone : ∀ c' c : UInt8, c ∈ [c'] → Wildcard c → [c'] = [c] := by
    intro c' c hc _
    rw [mem_singleton.mp hc]
  induction filter generalizing path with
  | nil =>
    intro l hl
    exact absurd hl not_mem_nil
  | cons f filter ih =>
    cases path with
    | nil =>
      obtain ⟨rfl, rfl⟩ := matches_cons_nil.mp h
      exact forall_mem_singleton.mpr (hone chHash)
    | cons m path =>
      rw [forall_mem_cons] at hpath
      rcases matches_cons.mp h with ⟨rfl, rfl⟩ | ⟨hf, hrest⟩
      · exact forall_mem_singleton.mpr (hone chHash)
      · refine forall_mem_cons.mpr ⟨?_, ih hrest hpath.2⟩
        rcases hf with rfl | rfl
        · exact hone chPlus
        · intro c hc hwild
          exact absurd hwild (hpath.1 c hc)

theorem CleanName.levels {name : Bytes} (h : CleanName name) :
    ∀ m ∈ levels chSlash name, ∀ c ∈ m, ¬ Wildcard c := by
  intro m hm c hc
  have hne : c ≠ chSlash := fun hc' => sep_notMem_of_mem_levels hm (hc' ▸ hc)
  exact (h.clean c ((exists_mem_levels hne).mpr ⟨m, hm, hc⟩)).1

/-- **Completeness of topic matching.**  A topic name that matches a filter is accepted exactly
when every wildcard of the filter stands against a level that exists and is not empty. -/
theorem matched_complete_iff {filter name : Bytes} (hname : CleanName name)
    (hmatch : Matches [chPlus] [chHash] (levels chSlash filter) (levels chSlash name)) :
    iotxMcIsTopicMatched filter name = true ↔
      Filled [chPlus] [chHash] (· ≠ []) (levels chSlash filter) (levels chSlash name) := by
  have hwhole := wholeWildcards_of_matches hmatch hname.levels
  rw [matched_iff hwhole fun c hc => (hname.clean c hc).1]
  exact and_iff_right hmatch

/-- The filter `/+/b` and the topic name `/a/b`. -/
theorem matched_complete_plus :
    iotxMcIsTopicMatched [0x2F, 0x2B, 0x2F, 0x62] [0x2F, 0x61, 0x2F, 0x62] = true ↔
      Filled [chPlus] [chHash] (· ≠ []) (levels chSlash [0x2F, 0x2B, 0x2F, 0x62])
        (levels chSlash [0x2F, 0x61, 0x2F, 0x62]) := by
  apply matched_complete_iff
  · constructor
    · intro c (hc : c ∈ [0x2F, 0x61, 0x2F, 0x62])
      fin_cases hc <;> decide
    · decide
  · decide

/-- The filters `/a/#` and `/+` are accepted and matched by the topic names `/a` and `/`, which the
scan does not accept. -/
theorem matched_incomplete :
    ¬ (∀ (filter : CString) (name : Bytes),
      iotxMcCheckTopic filter .topicFilter = successReturn → CleanName name →
      Matches [chPlus] [chHash] (levels chSlash filter.bytes) (levels chSlash name) →
      iotxMcIsTopicMatched filter.bytes name = true) ∧
    iotxMcIsTopicMatched [0x2F, 0x61, 0x2F, 0x23] [0x2F, 0x61] = false ∧
    iotxMcIsTopicMatched [0x2F, 0x2B] [0x2F] = false := by
  refine ⟨fun h => ?_, by decide, by decide⟩
  have hname : CleanName [0x2F, 0x61] := by
    constructor
    · intro c (hc : c ∈ [0x2F, 0x61])
      fin_cases hc <;> decide
    · decide
  have hmatched := h ⟨[0x2F, 0x61, 0x2F, 0x23], by decide⟩ [0x2F, 0x61] (by decide) hname (by decide)
  exact absurd hmatched (by decide)

/-! ## Soundness -/

/-- A filter of the maximal length that ends in a wildcard behind another character, with no `#`
in front. -/
def GluedEnd : Prop :=
  filter.length = configMqttTopicMaxlen ∧ ∃ s b c, filter = s ++ [b, c] ∧ Wildcard c ∧
    b ≠ chSlash ∧ ¬ Wildcard b ∧ chHash ∉ s

theorem matched_cons {f : UInt8} {filter : Bytes}
    (h : iotxMcIsTopicMatched (f :: filter) name = true) :
    (f = chHash → filter = []) ∧ ∃ rest, iotxMcIsTopicMatched filter rest = true := by
  cases name with
  | nil => exact nomatch h
  | cons n name =>
    have hne : chHash ≠ chPlus := by decide
    rw [iotxMcIsTopicMatched] at h
    split_ifs at h with hslash hdiff hplus hhash
    · exact ⟨fun hc => absurd (hc.symm.trans hplus) hne, _, h⟩
    · rw [iotxMcIsTopicMatched_nil_right, List.isEmpty_iff] at h
      rw [h]
      exact ⟨fun _ => rfl, [], rfl⟩
    · exact ⟨fun hc => absurd hc hhash, _, h⟩

theorem matched_append {filter : Bytes} (hne : filter ≠ [])
    (h : iotxMcIsTopicMatched (s ++ filter) name = true) :
    chHash ∉ s ∧ ∃ rest, iotxMcIsTopicMatched filter rest = true := by
  induction s generalizing name with
  | nil => exact ⟨not_mem_nil, name, h⟩
  | cons f s ih =>
    obtain ⟨hhash, rest, hrest⟩ := matched_cons h
    obtain ⟨hmem, hfilter⟩ := ih hrest
    refine ⟨?_, hfilter⟩
    rw [mem_cons, not_or]
    exact ⟨fun hc => hne (append_eq_nil_iff.mp (hhash hc.symm)).2, hmem⟩

variable {b : UInt8}

theorem matched_glued_front {c : UInt8} (hb : Wildcard b) (hc : c ≠ chSlash) (name : Bytes) :
    iotxMcIsTopicMatched [b, c] name = false := by
  rw [Bool.eq_false_iff]
  intro h
  rcases hb with rfl | rfl
  · rcases first_level chSlash name with hm | ⟨m, u, hm, rfl⟩
    · have hplus := matched_plus_level [c] hm (.inl rfl)
      rw [append_nil] at hplus
      cases (hplus.mp h).2
    · have hrest := ((matched_plus_level [c] hm (.inr ⟨u, rfl⟩)).mp h).2
      rw [iotxMcIsTopicMatched, if_pos ⟨rfl, hc⟩] at hrest
      cases hrest
  · exact cons_ne_nil c [] ((matched_cons h).1 rfl)

theorem literal_getLast (h : WholeWildcards (levels chSlash (s ++ [b]))) (hb : ¬ Wildcard b) :
    ∀ c ∈ (levels chSlash (s ++ [b])).getLast (levels_ne_nil chSlash _), ¬ Wildcard c := by
  have hmem := getLast_mem (levels_ne_nil chSlash (s ++ [b]))
  intro c hc hwild
  have hone := h _ hmem c hc hwild
  rw [getLast_levels_concat] at hone
  split_ifs at hone
  have hlast := congrArg List.getLast? hone
  rw [List.getLast?_concat] at hlast
  rw [Option.some.inj hlast] at hb
  exact hb hwild

theorem wholeWildcards_concat {c : UInt8} (h : WholeWildcards (levels chSlash (s ++ [b])))
    (hc : c = chSlash ∨ b = chSlash ∨ ¬ Wildcard b ∧ ¬ Wildcard c) :
    WholeWildcards (levels chSlash (s ++ [b, c])) := by
  have hsplit : s ++ [b, c] = s ++ [b] ++ [c] := by simp
  rw [hsplit, levels_concat]
  split_ifs with hslash
  · rw [WholeWildcards, forall_mem_append]
    refine ⟨h, fun l hl c' hc' => ?_⟩
    rw [mem_singleton.mp hl] at hc'
    exact absurd hc' not_mem_nil
  · rw [WholeWildcards, forall_mem_append]
    refine ⟨fun l hl => h l (mem_of_mem_dropLast hl), fun l hl c' hc' hwild => ?_⟩
    rw [mem_singleton.mp hl] at hc' ⊢
    rcases hc.resolve_left hslash with hb | ⟨hb, hcw⟩
    · rw [getLast_levels_concat, if_pos hb, nil_append] at hc' ⊢
      rw [mem_singleton.mp hc']
    · exfalso
      rcases mem_append.mp hc' with hlast | hlast
      · exact literal_getLast h hb c' hlast hwild
      · rw [mem_singleton.mp hlast] at hwild
        exact hcw hwild

/-- A topic name for a filter: the character `a` stands at every `+`. -/
def filled : Bytes := filter.map fun c => if c = chPlus then 0x61 else c

theorem filled_literal (h : ∀ c ∈ l, ¬ Wildcard c) : filled l = l := by
  have hself : ∀ c ∈ l, (if c = chPlus then 0x61 else c) = c :=
    fun c hc => if_neg fun hc' => h c hc (.inl hc')
  exact (map_congr_left hself).trans (map_id' l)

theorem matched_filled (h : WholeWildcards (levels chSlash s)) (hhash : chHash ∉ s)
    (hlast : ∀ c ∈ (levels chSlash s).getLast (levels_ne_nil chSlash s), ¬ Wildcard c) {c : UInt8}
    (hc : Wildcard c) : iotxMcIsTopicMatched (s ++ [c]) (filled s ++ [0x61]) = true := by
  have hend : iotxMcIsTopicMatched [c] [0x61] = true := by
    rcases hc with rfl | rfl
    · decide
    · decide
  induction s using level_induction chSlash with
  | last l hl =>
    simp only [levels_of_notMem hl, getLast_singleton] at hlast
    rw [filled_literal hlast, matched_literal hlast]
    exact ⟨[0x61], rfl, hend⟩
  | cons l t hl ih =>
    simp only [levels_append_cons hl, getLast_cons (levels_ne_nil chSlash t)] at h hlast
    obtain ⟨hfirst, hrest⟩ := forall_mem_cons.mp h
    have hhasht : chHash ∉ t := fun hc' =>
      hhash (mem_append_right l (mem_cons_of_mem _ hc'))
    have hsplit : filled (l ++ chSlash :: t) = filled l ++ chSlash :: filled t := by
      rw [filled, map_append, map_cons, if_neg (by decide)]
      rfl
    have htail := (matched_slash (t ++ [c]) (filled t ++ [0x61])).trans (ih hrest hhasht hlast)
    rw [hsplit, append_assoc, append_assoc, cons_append, cons_append]
    rcases level_cases hfirst with hlit | rfl | rfl
    · rw [filled_literal hlit,
        matched_literal_level hlit hl hl (.inr ⟨_, rfl⟩) (.inr ⟨_, rfl⟩)]
      exact ⟨rfl, htail⟩
    · have hplus : filled [chPlus] = [0x61] := by decide
      rw [hplus, singleton_append, matched_plus_level _ (by decide) (.inr ⟨_, rfl⟩)]
      exact ⟨cons_ne_nil _ _, htail⟩
    · exact absurd (mem_append_left _ mem_cons_self) hhash

/-- What acceptance says about a filter. -/
theorem accepted_head_length {topic : CString} {type : TopicType}
    (h : iotxMcCheckTopic topic type = successReturn) :
    topic.bytes.head? = some chSlash ∧ topic.strlen ≤ configMqttTopicMaxlen := by
  rw [iotxMcCheckTopic] at h
  by_cases hhead : topic.bytes.head? ≠ some chSlash
  · rw [if_pos hhead] at h
    exact absurd h (by decide)
  · rw [if_neg hhead] at h
    by_cases hlen : topic.strlen > configMqttTopicMaxlen
    · rw [if_pos hlen] at h
      exact absurd h (by decide)
    · exact ⟨not_not.mp hhead, Nat.le_of_not_lt hlen⟩

theorem cleanName_filled (hlen : s.length + 2 ≤ configMqttTopicMaxlen) (hnul : 0 ∉ s ++ [b])
    (hb : ¬ Wildcard b) (hhash : chHash ∉ s) : CleanName (filled (s ++ [b]) ++ [0x61]) := by
  constructor
  · rw [forall_mem_append]
    constructor
    · intro x hx
      obtain ⟨c, hc, rfl⟩ := mem_map.mp hx
      by_cases hplus : c = chPlus
      · rw [if_pos hplus]
        decide
      rw [if_neg hplus]
      refine ⟨?_, fun h => hnul (h ▸ hc)⟩
      rintro (hc' | rfl)
      · exact hplus hc'
      · rcases mem_append.mp hc with hmem | hmem
        · exact hhash hmem
        · exact hb (.inr (mem_singleton.mp hmem).symm)
    · intro x hx
      rw [mem_singleton.mp hx]
      decide
  · rw [configMqttTopicMaxlen] at hlen
    simp only [filled, length_append, length_map, length_singleton]
    omega

/-- A filter with a glued end matches no clean topic name by the rule. -/
theorem not_matches_glued {c : UInt8} (hb : b ≠ chSlash) (hc : Wildcard c) {name : Bytes}
    (hname : CleanName name) :
    ¬ Matches [chPlus] [chHash] (levels chSlash (s ++ [b] ++ [c])) (levels chSlash name) := by
  intro hmatch
  have hwhole := wholeWildcards_of_matches hmatch hname.levels
  have hslash : c ≠ chSlash := by
    rcases hc with rfl | rfl
    · decide
    · decide
  have hlast := getLast_mem (levels_ne_nil chSlash (s ++ [b] ++ [c]))
  rw [getLast_levels_concat, if_neg hslash, getLast_levels_concat, if_neg hb] at hlast
  have hone := hwhole _ hlast c (mem_append_right _ mem_cons_self) hc
  have hlen := congrArg List.length hone
  rw [length_append, length_append, length_singleton, length_singleton] at hlen
  omega

/-- **Soundness of topic matching.**  An accepted filter matches only the topic names it should,
with both cursors in their strings, exactly when it does not end in a glued wildcard at the
maximal length. -/
theorem matched_sound_iff {filter : CString}
    (haccepted : iotxMcCheckTopic filter .topicFilter = successReturn) :
    (∀ name, CleanName name →
      (iotxMcIsTopicMatched filter.bytes name = true →
        Matches [chPlus] [chHash] (levels chSlash filter.bytes) (levels chSlash name)) ∧
      ∀ rest rest' k,
        (matchRun (memOf filter.withNul rest) (memOf name rest') name.length k
          (.test 0 0)).InBounds filter.strlen name.length) ↔
      ¬ GluedEnd filter.bytes := by
  obtain ⟨hhead, hlen⟩ := accepted_head_length haccepted
  have hcopy := wholeWildcards_of_tokensOk ((iotxMcCheckTopic_iff hhead hlen _).mp haccepted)
  -- at the maximal length the copy ends at the last but one character
  have hmaxcopy : ∀ s b c, filter.bytes = s ++ [b, c] →
      filter.bytes.length = configMqttTopicMaxlen → topicCopy filter = s ++ [b] := by
    intro s b c hfilter hmax
    have hsplit : filter.bytes = s ++ [b] ++ [c] := by simp [hfilter]
    rw [hsplit, length_append, length_singleton] at hmax
    rw [topicCopy, hsplit, take_append_of_le_length (by omega), take_of_length_le (by omega)]
  constructor
  · rintro hsound ⟨hmax, s, b, c, hfilter, hc, hb, hbw, hhash⟩
    rw [hmaxcopy s b c hfilter hmax] at hcopy
    have hsplit : filter.bytes = s ++ [b] ++ [c] := by simp [hfilter]
    have hnul : 0 ∉ s ++ [b] := fun hc' =>
      filter.nul_notMem (hsplit ▸ mem_append_left _ hc')
    have hname : CleanName (filled (s ++ [b]) ++ [0x61]) := by
      apply cleanName_filled _ hnul hbw hhash
      rw [hfilter, length_append] at hmax
      exact hmax.le
    have hhashb : chHash ∉ s ++ [b] := by
      rw [mem_append, mem_singleton, not_or]
      exact ⟨hhash, fun h => hbw (.inr h.symm)⟩
    have hmatched := matched_filled hcopy hhashb (literal_getLast hcopy hbw) hc
    rw [← hsplit] at hmatched
    have hmatch := (hsound _ hname).1 hmatched
    rw [hsplit] at hmatch
    exact not_matches_glued hb hc hname hmatch
  · intro hglued name hname
    refine ⟨fun hmatched => ?_, fun rest rest' k => ?_⟩
    · by_cases hwhole : WholeWildcards (levels chSlash filter.bytes)
      · exact ((matched_iff hwhole fun c hc => (hname.clean c hc).1).mp hmatched).1
      exfalso
      have hmax : filter.bytes.length = configMqttTopicMaxlen := by
        by_contra hne
        rw [topicCopy, take_of_length_le (by rw [CString.strlen] at hlen; omega)] at hcopy
        exact hwhole hcopy
      obtain ⟨s, b, c, hfilter⟩ : ∃ s b c, filter.bytes = s ++ [b, c] := by
        rcases eq_nil_or_concat' filter.bytes with hnil | ⟨t, c, ht⟩
        · rw [hnil] at hmax
          cases hmax
        · rcases eq_nil_or_concat' t with rfl | ⟨s, b, rfl⟩
          · rw [ht] at hmax
            cases hmax
          · exact ⟨s, b, c, by simp [ht]⟩
      rw [hmaxcopy s b c hfilter hmax] at hcopy
      have hnot := mt (wholeWildcards_concat hcopy) (hfilter ▸ hwhole)
      push Not at hnot
      obtain ⟨hc, hb, hwild⟩ := hnot
      rw [hfilter] at hmatched
      obtain ⟨hhash, rest, hrest⟩ := matched_append (cons_ne_nil b [c]) hmatched
      by_cases hbw : Wildcard b
      · rw [matched_glued_front hbw hc] at hrest
        cases hrest
      · exact hglued ⟨hmax, s, b, c, hfilter, hwild hbw, hb, hbw, hhash⟩
    · exact matchRun_inBounds k ⟨Nat.zero_le _, Nat.zero_le _⟩

/-- The filter `/+`. -/
theorem matched_sound_plus :
    let filter : CString := ⟨[0x2F, 0x2B], by decide⟩
    (∀ name, CleanName name →
      (iotxMcIsTopicMatched filter.bytes name = true →
        Matches [chPlus] [chHash] (levels chSlash filter.bytes) (levels chSlash name)) ∧
      ∀ rest rest' k,
        (matchRun (memOf filter.withNul rest) (memOf name rest') name.length k
          (.test 0 0)).InBounds filter.strlen name.length) ↔
      ¬ GluedEnd filter.bytes :=
  matched_sound_iff (by decide)

/-- A filter of 128 characters that ends in `a+`. -/
def gluedFilter : CString :=
  ⟨0x2F :: List.replicate 126 0x61 ++ [0x2B], by decide +kernel⟩

/-- The filter is accepted and matches a topic name with another character in place of the `+`. -/
theorem matched_unsound :
    ¬ ∀ (filter : CString) (name : Bytes),
      iotxMcCheckTopic filter .topicFilter = successReturn → CleanName name →
      iotxMcIsTopicMatched filter.bytes name = true →
      Matches [chPlus] [chHash] (levels chSlash filter.bytes) (levels chSlash name) := by
  intro h
  have hname : CleanName (0x2F :: List.replicate 127 0x61) := by
    constructor
    · intro c hc
      rcases mem_cons.mp hc with rfl | hc
      · decide
      · rw [eq_of_mem_replicate hc]
        decide
    · decide +kernel
  have hmatch := h gluedFilter _ (by decide +kernel) hname (by decide +kernel)
  exact absurd hmatch (by decide +kernel)

end Iotkit.Mqtt
