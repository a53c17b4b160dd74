/-
# What the topic check accepts

`iotx_mc_check_topic` looks at the tokens of a copy of its string.  A token is a level that is not
empty; a call of `infra_strtok` that finds one character only gives no token, so that a last level
of one character is not looked at when it stands behind a level that is not empty.

`checkTopic_valid_iff` says for which strings the check accepts exactly the valid topics.
-/
import Iotkit.Levels
import Iotkit.MqttTopic

namespace Iotkit.Mqtt

open Levels List

/-! ## Tokens -/

/-- The tokens that calls of `infra_strtok` find among the levels that are left; `called` says that
a call starts at the first of them. -/
def tokens : Bool → List Bytes → List Bytes
  | _, [] => []
  | called, l :: ls =>
    if l = [] then tokens false ls
    else if called = true ∧ ls = [] ∧ l.length = 1 then []
    else l :: tokens true ls

variable {delim : UInt8} {l : Bytes}

/-- Behind the start of a token the scan goes on to the end of its level. -/
theorem infraStrtokLoop_target {target : Bytes} (ht : target ≠ []) (hl : delim ∉ l) :
    infraStrtokLoop delim false target l = (some (target ++ l), []) ∧
      ∀ t, infraStrtokLoop delim false target (l ++ delim :: t) = (some (target ++ l), t) := by
  induction l generalizing target with
  | nil =>
    refine ⟨by simp [infraStrtokLoop], fun t => ?_⟩
    rw [nil_append, infraStrtokLoop, if_neg (not_not.mpr rfl)]
    cases t with
    | nil => simp
    | cons c t => rw [if_neg (cons_ne_nil c t), if_neg ht, append_nil]
  | cons c l ih =>
    have hc : c ≠ delim := fun h => hl (h ▸ mem_cons_self)
    have hrest : delim ∉ l := fun h => hl (mem_cons_of_mem c h)
    have hne : target ++ [c] ≠ [] :=
      append_ne_nil_of_right_ne_nil target (cons_ne_nil c [])
    obtain ⟨hend, hcont⟩ := ih hne hrest
    constructor
    · rw [infraStrtokLoop, if_pos hc, hend]
      simp
    · intro t
      rw [cons_append, infraStrtokLoop, if_pos hc, hcont t]
      simp

theorem infraStrtokLoop_level (only : Bool) (hne : l ≠ []) (hl : delim ∉ l) :
    infraStrtokLoop delim only [] l = (some l, []) ∧
      ∀ t, infraStrtokLoop delim only [] (l ++ delim :: t) = (some l, t) := by
  cases l with
  | nil => exact absurd rfl hne
  | cons c l =>
    have hc : c ≠ delim := fun h => hl (h ▸ mem_cons_self)
    have hrest : delim ∉ l := fun h => hl (mem_cons_of_mem c h)
    obtain ⟨hend, hcont⟩ := infraStrtokLoop_target (cons_ne_nil c []) hrest
    constructor
    · rw [infraStrtokLoop, if_pos hc, nil_append, hend]
      rfl
    · intro t
      rw [cons_append, infraStrtokLoop, if_pos hc, nil_append, hcont t]
      rfl

variable {s : Bytes}

theorem infraStrtokLoop_tokens (delim : UInt8) (hs : s ≠ []) :
    ((infraStrtokLoop delim true [] s).1 = none ∧ tokens false (levels delim s) = []) ∨
      ∃ l t, infraStrtokLoop delim true [] s = (some l, t) ∧ t.length < s.length ∧
        tokens false (levels delim s) = l :: tokens true (levels delim t) := by
  induction s using level_induction delim with
  | last l hl =>
    right
    refine ⟨l, [], (infraStrtokLoop_level true hs hl).1, length_pos_iff.mpr hs, ?_⟩
    rw [levels_of_notMem hl, levels_nil]
    simp [tokens, hs]
  | cons l t hl ih =>
    by_cases hne : l = []
    · subst hne
      rw [nil_append] at *
      have hlevels : levels delim (delim :: t) = [] :: levels delim t :=
        levels_append_cons (l := []) not_mem_nil t
      rw [hlevels, infraStrtokLoop, if_neg (not_not.mpr rfl), tokens, if_pos rfl]
      by_cases ht : t = []
      · left
        subst ht
        simp [tokens]
      · rw [if_neg ht, if_pos rfl]
        rcases ih ht with hnone | ⟨l', t', hloop, hlen, htokens⟩
        · exact .inl hnone
        · exact .inr ⟨l', t', hloop, by rw [length_cons]; omega, htokens⟩
    · right
      refine ⟨l, t, (infraStrtokLoop_level true hne hl).2 t, ?_, ?_⟩
      · rw [length_append, length_cons]
        omega
      · have hlevels := levels_ne_nil delim t
        rw [levels_append_cons hl, tokens, if_neg hne, if_neg (fun h => hlevels h.2.1)]

theorem tokens_of_two (hs : ¬ s.length ≤ 1) :
    tokens true (levels delim s) = tokens false (levels delim s) := by
  rcases first_level delim s with h | ⟨l, t, hl, rfl⟩
  · have hlen : ¬ s.length = 1 := by omega
    rw [levels_of_notMem h]
    simp [tokens, hlen]
  · rw [levels_append_cons hl, tokens, tokens]
    simp [levels_ne_nil]

theorem tokens_of_one (hs : s.length ≤ 1) : tokens true (levels delim s) = [] := by
  cases s with
  | nil => rfl
  | cons c s =>
    have hnil : s = [] := length_eq_zero_iff.mp (by simpa using hs)
    subst hnil
    by_cases hc : c = delim
    · subst hc
      rw [show [c] = [] ++ c :: [] from rfl, levels_append_cons not_mem_nil, levels_nil]
      rfl
    · rw [levels_of_notMem (by simpa using Ne.symm hc)]
      rfl

theorem infraStrtokLoop_suffix (delim : UInt8) (only : Bool) (target s : Bytes) :
    (infraStrtokLoop delim only target s).2 <:+ s := by
  induction s generalizing only target with
  | nil => exact suffix_rfl
  | cons c s ih =>
    rw [infraStrtokLoop]
    split_ifs
    · exact (ih false _).trans (suffix_cons c s)
    · exact nil_suffix
    · exact nil_suffix
    · exact (ih only []).trans (suffix_cons c s)
    · exact suffix_cons c s

/-- A call of `infra_strtok` finds no token, or the first one, with less of the string left. -/
theorem infraStrtok_tokens (delim : UInt8) (s : Bytes) :
    ((infraStrtok delim s).1 = none ∧ tokens true (levels delim s) = []) ∨
      ∃ l t, infraStrtok delim s = (some l, t) ∧ t <:+ s ∧ t.length < s.length ∧
        tokens true (levels delim s) = l :: tokens true (levels delim t) := by
  rw [infraStrtok]
  by_cases hone : s.length ≤ 1
  · rw [if_pos hone]
    exact .inl ⟨rfl, tokens_of_one hone⟩
  rw [if_neg hone, tokens_of_two hone]
  have hne : s ≠ [] := by
    rintro rfl
    exact hone (Nat.zero_le 1)
  rcases infraStrtokLoop_tokens delim hne with hnone | ⟨l, t, hloop, hlen, htokens⟩
  · exact .inl hnone
  · have hsuffix := infraStrtokLoop_suffix delim true [] s
    rw [hloop] at hsuffix
    exact .inr ⟨l, t, hloop, hsuffix, hlen, htokens⟩

/-! ## The check by tokens -/

/-- The characters that are accepted. -/
def Printable (c : UInt8) : Prop := 32 ≤ c.toNat ∧ c.toNat < 127

def Wildcard (c : UInt8) : Prop := c = chPlus ∨ c = chHash

instance (c : UInt8) : Decidable (Printable c) := inferInstanceAs (Decidable (_ ∧ _))

instance (c : UInt8) : Decidable (Wildcard c) := inferInstanceAs (Decidable (_ ∨ _))

variable (type : TopicType)

/-- What `iotx_mc_check_rule` asks of a token. -/
def TokenOk (token : Bytes) : Prop :=
  ∀ c ∈ token, Printable c ∧ (Wildcard c → type = .topicFilter ∧ token.length = 1)

theorem iotxMcCheckRule_iff (token : Bytes) :
    iotxMcCheckRule (some token) type = successReturn ↔ TokenOk type token := by
  simp only [iotxMcCheckRule, TokenOk, Printable, Wildcard]
  cases type with
  | topicFilter =>
    rw [ite_eq_left_iff, imp_iff_not_or, not_not, all_eq_true, or_iff_left (by decide)]
    apply forall₂_congr
    intro c hc
    by_cases hp : c = chPlus <;> by_cases hh : c = chHash <;> simp [hp, hh, and_comm, and_assoc]
  | topicName =>
    rw [ite_eq_left_iff, imp_iff_not_or, not_not, all_eq_true, or_iff_left (by decide)]
    apply forall₂_congr
    intro c hc
    by_cases hp : c = chPlus <;> by_cases hh : c = chHash <;> simp [hp, hh]

/-- What the loop asks of its tokens: nothing comes behind a `#`. -/
def LoopOk (type : TopicType) : Bool → List Bytes → Prop
  | _, [] => True
  | mask, token :: rest =>
    mask = false ∧ TokenOk type token ∧ LoopOk type (token.head? = some chHash) rest

theorem iotxMcCheckTopicLoop_iff {fuel : ℕ} (mask : Bool) (hfuel : s.length < fuel) :
    iotxMcCheckTopicLoop type fuel mask s = successReturn ↔
      LoopOk type mask (tokens true (levels chSlash s)) := by
  induction fuel generalizing mask s with
  | zero => exact absurd hfuel (Nat.not_lt_zero _)
  | succ fuel ih =>
    rw [iotxMcCheckTopicLoop]
    -- the next token, or the end of the text
    rcases infraStrtok_tokens chSlash s with ⟨hnone, htokens⟩ | ⟨l, t, hcall, -, hlen, htokens⟩
    · rw [htokens]
      generalize infraStrtok chSlash s = result at hnone
      obtain ⟨token, pos⟩ := result
      obtain rfl : token = none := hnone
      exact ⟨fun _ => trivial, fun _ => rfl⟩
    rw [hcall, htokens, LoopOk, ← iotxMcCheckRule_iff, ← ih _ (by omega)]
    -- behind `#` any token is an error
    cases mask with
    | true => simp
    | false =>
      dsimp only
      rw [if_neg (by decide)]
      by_cases hrule : iotxMcCheckRule (some l) type = successReturn
      · rw [if_neg (not_not.mpr hrule)]
        simp [hrule]
      · rw [if_pos hrule]
        simp [hrule]

/-- What the check asks of the tokens of its copy. -/
def TokensOk : List Bytes → Prop
  | [] => False
  | token :: rest => TokenOk type token ∧ LoopOk type false rest

/-- The copy that `iotx_mc_check_topic` makes. -/
def topicCopy (topic : CString) : Bytes := topic.bytes.take (configMqttTopicMaxlen - 1)

theorem iotxMcCheckTopic_eq {topic : CString} (hhead : topic.bytes.head? = some chSlash)
    (hlen : topic.strlen ≤ configMqttTopicMaxlen) (type : TopicType) :
    iotxMcCheckTopic topic type =
      if iotxMcCheckRule (infraStrtok chSlash (topicCopy topic)).1 type ≠ successReturn then
        failReturn
      else iotxMcCheckTopicLoop type ((topicCopy topic).length + 1) false
        (infraStrtok chSlash (topicCopy topic)).2 := by
  rw [iotxMcCheckTopic, if_neg (not_not.mpr hhead), if_neg (by omega)]
  rfl

theorem iotxMcCheckTopic_iff {topic : CString} (hhead : topic.bytes.head? = some chSlash)
    (hlen : topic.strlen ≤ configMqttTopicMaxlen) (type : TopicType) :
    iotxMcCheckTopic topic type = successReturn ↔
      TokensOk type (tokens false (levels chSlash (topicCopy topic))) := by
  obtain ⟨s, hcopy⟩ : ∃ s, topicCopy topic = chSlash :: s := by
    cases hb : topic.bytes with
    | nil => simp [hb] at hhead
    | cons c s =>
      rw [hb] at hhead
      obtain rfl := Option.some.inj hhead
      exact ⟨s.take 126, by rw [topicCopy, hb]; rfl⟩
  -- the empty level in front is no token
  have hcalled : tokens false (levels chSlash (topicCopy topic)) =
      tokens true (levels chSlash (topicCopy topic)) := by
    have hlevels : levels chSlash (chSlash :: s) = [] :: levels chSlash s :=
      levels_append_cons (l := []) not_mem_nil s
    rw [hcopy, hlevels, tokens, tokens, if_pos rfl, if_pos rfl]
  rw [iotxMcCheckTopic_eq hhead hlen, hcalled]
  rcases infraStrtok_tokens chSlash (topicCopy topic) with
    ⟨hnone, htokens⟩ | ⟨l, t, hcall, -, hlt, htokens⟩
  · have hrule : iotxMcCheckRule none type ≠ successReturn := by
      show failReturn ≠ successReturn
      decide
    rw [htokens, hnone, if_pos hrule]
    exact ⟨fun h => absurd h (by decide), fun h => absurd h id⟩
  rw [hcall, htokens, TokensOk, ← iotxMcCheckRule_iff]
  have hrest := iotxMcCheckTopicLoop_iff type false (hlt.trans (Nat.lt_succ_self _))
  by_cases hrule : iotxMcCheckRule (some l) type = successReturn
  · rw [if_neg (not_not.mpr hrule), hrest]
    simp [hrule]
  · rw [if_pos hrule]
    simp [hrule]

/-! ## Tokens and levels -/

theorem tokens_sublist (called : Bool) (ls : List Bytes) :
    (tokens called ls).Sublist ls := by
  induction ls generalizing called with
  | nil => exact List.Sublist.refl []
  | cons l ls ih =>
    rw [tokens]
    split_ifs
    · exact (ih false).cons l
    · exact nil_sublist _
    · exact (ih true).cons_cons l

variable {ls : List Bytes}

theorem ne_nil_of_mem_tokens {called : Bool} {token : Bytes} (h : token ∈ tokens called ls) :
    token ≠ [] := by
  induction ls generalizing called with
  | nil => exact absurd h not_mem_nil
  | cons l ls ih =>
    rw [tokens] at h
    split_ifs at h with hl hone
    · exact ih h
    · exact absurd h not_mem_nil
    · rcases mem_cons.mp h with rfl | h
      · exact hl
      · exact ih h

theorem tokens_append (called : Bool) {p q : List Bytes} (hl : l ≠ []) (hq : q ≠ []) :
    tokens called (p ++ l :: q) = p.filter (· ≠ []) ++ l :: tokens true q := by
  induction p generalizing called with
  | nil => rw [nil_append, tokens, if_neg hl, if_neg (fun h => hq h.2.1)]; rfl
  | cons m p ih =>
    rw [cons_append, tokens]
    by_cases hm : m = []
    · rw [if_pos hm, ih, filter_cons_of_neg (by simpa using hm)]
    · have hne : p ++ l :: q ≠ [] := append_ne_nil_of_right_ne_nil p (cons_ne_nil l q)
      rw [if_neg hm, if_neg (fun h => hne h.2.1), ih, filter_cons_of_pos (by simpa using hm)]
      rfl

/-- A last level of one character that no call looks at. -/
def Unread (called : Bool) (ls : List Bytes) (l : Bytes) : Prop :=
  l.length = 1 ∧ (called = true ∧ ls = [l] ∨ ∃ p m, ls = p ++ [m, l] ∧ m ≠ [])

theorem mem_tokens_or_unread (called : Bool) (h : l ∈ ls) (hne : l ≠ []) :
    l ∈ tokens called ls ∨ Unread called ls l := by
  induction ls generalizing called with
  | nil => exact absurd h not_mem_nil
  | cons m ls ih =>
    rw [tokens]
    by_cases hm : m = []
    · rw [if_pos hm]
      have hmem : l ∈ ls := (mem_cons.mp h).resolve_left fun hc => hne (hc.trans hm)
      rcases ih false hmem with htok | ⟨hone, ⟨hc, -⟩ | ⟨p, m', hls, hm'⟩⟩
      · exact .inl htok
      · exact nomatch hc
      · exact .inr ⟨hone, .inr ⟨m :: p, m', congrArg _ hls, hm'⟩⟩
    rw [if_neg hm]
    by_cases hlast : called = true ∧ ls = [] ∧ m.length = 1
    · right
      obtain ⟨hcalled, hnil, hone⟩ := hlast
      rw [hnil] at h ⊢
      obtain rfl := mem_singleton.mp h
      exact ⟨hone, .inl ⟨hcalled, rfl⟩⟩
    rw [if_neg hlast]
    rcases mem_cons.mp h with rfl | hmem
    · exact .inl mem_cons_self
    · rcases ih true hmem with htok | ⟨hone, ⟨-, hls⟩ | ⟨p, m', hls, hm'⟩⟩
      · exact .inl (mem_cons_of_mem m htok)
      · exact .inr ⟨hone, .inr ⟨[], m, congrArg _ hls, hm⟩⟩
      · exact .inr ⟨hone, .inr ⟨m :: p, m', congrArg _ hls, hm'⟩⟩

theorem tokens_ne_nil (h : l ∈ ls) (hne : l ≠ []) : tokens false ls ≠ [] := by
  rcases mem_tokens_or_unread false h hne with htok | ⟨-, ⟨hc, -⟩ | ⟨p, m, hls, hm⟩⟩
  · exact ne_nil_of_mem htok
  · exact nomatch hc
  · rw [hls, tokens_append false hm (cons_ne_nil l [])]
    exact append_ne_nil_of_right_ne_nil _ (cons_ne_nil _ _)

theorem unread_nil_cons (called : Bool) : Unread called ([] :: ls) l ↔ Unread false ls l := by
  constructor
  · rintro ⟨hone, ⟨-, hls⟩ | ⟨_ | ⟨m', p⟩, m, hls, hm⟩⟩
    · rw [← (List.cons.inj hls).1] at hone
      exact absurd hone (by decide)
    · exact absurd (List.cons.inj hls).1.symm hm
    · exact ⟨hone, .inr ⟨p, m, (List.cons.inj hls).2, hm⟩⟩
  · rintro ⟨hone, ⟨hc, -⟩ | ⟨p, m, hls, hm⟩⟩
    · exact absurd hc Bool.false_ne_true
    · exact ⟨hone, .inr ⟨[] :: p, m, congrArg _ hls, hm⟩⟩

theorem unread_cons {m : Bytes} {called : Bool} (hm : m ≠ [])
    (hread : ¬ (called = true ∧ ls = [] ∧ m.length = 1)) :
    Unread called (m :: ls) l ↔ Unread true ls l := by
  constructor
  · rintro ⟨hone, ⟨hc, hls⟩ | ⟨_ | ⟨m', p⟩, m'', hls, hm''⟩⟩
    · obtain ⟨rfl, hnil⟩ := List.cons.inj hls
      exact absurd ⟨hc, hnil, hone⟩ hread
    · exact ⟨hone, .inl ⟨rfl, (List.cons.inj hls).2⟩⟩
    · exact ⟨hone, .inr ⟨p, m'', (List.cons.inj hls).2, hm''⟩⟩
  · rintro ⟨hone, ⟨-, hls⟩ | ⟨p, m', hls, hm'⟩⟩
    · exact ⟨hone, .inr ⟨[], m, congrArg _ hls, hm⟩⟩
    · exact ⟨hone, .inr ⟨m :: p, m', congrArg _ hls, hm'⟩⟩

/-- The tokens are the levels that are not empty if and only if every one of them is looked at. -/
theorem tokens_eq_filter_iff (called : Bool) :
    tokens called ls = ls.filter (· ≠ []) ↔ ∀ l, ¬ Unread called ls l := by
  induction ls generalizing called with
  | nil => simp [tokens, Unread]
  | cons m ls ih =>
    rw [tokens]
    by_cases hm : m = []
    · subst hm
      rw [if_pos rfl, filter_cons_of_neg (by simp), ih]
      exact forall_congr' fun l => not_congr (unread_nil_cons called).symm
    rw [if_neg hm, filter_cons_of_pos (by simpa using hm)]
    by_cases hlast : called = true ∧ ls = [] ∧ m.length = 1
    · obtain ⟨hc, rfl, hone⟩ := hlast
      rw [if_pos ⟨hc, rfl, hone⟩]
      exact ⟨fun h => (cons_ne_nil _ _ h.symm).elim,
        fun h => absurd ⟨hone, .inl ⟨hc, rfl⟩⟩ (h m)⟩
    · rw [if_neg hlast, cons_inj_right, ih]
      exact forall_congr' fun l => not_congr (unread_cons hm hlast).symm

/-! ## Runs of calls -/

/-- The calls of `infra_strtok`, for the string and then for `NULL`, that come before the one that
returns `NULL`: the token, and what is left of the string. -/
def strtokCalls (delim : UInt8) : ℕ → Bytes → List (Bytes × Bytes)
  | 0, _ => []
  | fuel + 1, pos =>
    match infraStrtok delim pos with
    | (none, _) => []
    | (some token, pos) => (token, pos) :: strtokCalls delim fuel pos

/-- What is left after each call is a shorter end of what was left before. -/
def Consumes (s : Bytes) (calls : List (Bytes × Bytes)) : Prop :=
  List.IsChain (fun t t' => t' <:+ t ∧ t'.length < t.length) (s :: calls.map Prod.snd)

theorem strtokCalls_tokens (delim : UInt8) {fuel : ℕ} (hfuel : s.length < fuel) :
    (strtokCalls delim fuel s).map Prod.fst = tokens true (levels delim s) ∧
      Consumes s (strtokCalls delim fuel s) := by
  induction fuel generalizing s with
  | zero => exact absurd hfuel (Nat.not_lt_zero _)
  | succ fuel ih =>
    rw [strtokCalls]
    rcases infraStrtok_tokens delim s with ⟨hnone, htokens⟩ | ⟨l, t, hcall, hsuffix, hlen, htokens⟩
    · rw [htokens]
      generalize infraStrtok delim s = result at hnone
      obtain ⟨token, pos⟩ := result
      obtain rfl : token = none := hnone
      exact ⟨rfl, isChain_singleton s⟩
    · obtain ⟨hrest, hchain⟩ := ih (s := t) (by omega)
      rw [hcall, htokens]
      exact ⟨congrArg (l :: ·) hrest, isChain_cons_cons.mpr ⟨⟨hsuffix, hlen⟩, hchain⟩⟩

/-- **The tokens of a string.**  However many calls are made, the tokens are the levels that are not
empty if and only if the last level is not a single character that is the whole string or stands
behind a level that is not empty. -/
theorem infra_strtok_segments_iff (delim : UInt8) (s : CString) (k : ℕ) :
    let calls := strtokCalls delim (s.strlen + 1 + k) s.bytes
    calls.map Prod.fst = (levels delim s.bytes).filter (· ≠ []) ∧ Consumes s.bytes calls ↔
      ∀ l, ¬ Unread true (levels delim s.bytes) l := by
  intro calls
  obtain ⟨htokens, hconsumes⟩ : calls.map Prod.fst = tokens true (levels delim s.bytes) ∧
      Consumes s.bytes calls := strtokCalls_tokens delim (by rw [CString.strlen]; omega)
  rw [htokens, ← tokens_eq_filter_iff]
  exact and_iff_left hconsumes

/-- Of `ab/c` the `c` is lost. -/
theorem infra_strtok_segments_lost :
    (strtokCalls chSlash 5 [0x61, 0x62, 0x2F, 0x63]).map Prod.fst ≠
      (levels chSlash [0x61, 0x62, 0x2F, 0x63]).filter (· ≠ []) := by
  decide

/-! ## The check by levels -/

/-- In the loop every token is checked, and nothing comes behind a `#`. -/
theorem loopOk_iff (mask : Bool) (toks : List Bytes) :
    LoopOk type mask toks ↔ (∀ token ∈ toks, TokenOk type token) ∧ (mask = true → toks = []) ∧
      ∀ p token q, toks = p ++ token :: q → token.head? = some chHash → q = [] := by
  induction toks generalizing mask with
  | nil => simp [LoopOk]
  | cons token toks ih =>
    rw [LoopOk, ih, forall_mem_cons]
    constructor
    · rintro ⟨hmask, htoken, hall, hnil, hlast⟩
      refine ⟨⟨htoken, hall⟩, fun hc => ?_, ?_⟩
      · rw [hmask] at hc
        exact nomatch hc
      · intro p token' q heq hhash
        cases p with
        | nil =>
          obtain ⟨rfl, rfl⟩ := List.cons.inj heq
          exact hnil (decide_eq_true hhash)
        | cons m p =>
          obtain ⟨-, heq⟩ := List.cons.inj heq
          exact hlast p token' q heq hhash
    · rintro ⟨⟨htoken, hall⟩, hnil, hlast⟩
      refine ⟨?_, htoken, hall, fun hhash => ?_, ?_⟩
      · cases mask with
        | false => rfl
        | true => exact nomatch hnil rfl
      · exact hlast [] token toks rfl (of_decide_eq_true hhash)
      · intro p token' q heq hhash
        exact hlast (token :: p) token' q (congrArg _ heq) hhash

/-! ## Valid topics -/

/-- Every wildcard occupies a whole level. -/
def WholeWildcards (ls : List Bytes) : Prop := ∀ l ∈ ls, ∀ c ∈ l, Wildcard c → l = [c]

/-- The topic filters and topic names of the protocol. -/
def ValidTopic : TopicType → Bytes → Prop
  | .topicFilter, s => WholeWildcards (levels chSlash s) ∧
      ∀ p q, levels chSlash s = p ++ [chHash] :: q → q = []
  | .topicName, s => ∀ c ∈ s, ¬ Wildcard c

/-- What the check accepts: a level is not empty, and the characters can be printed. -/
structure AcceptedTopic (type : TopicType) (s : Bytes) : Prop where
  level : ∃ c ∈ s, c ≠ chSlash
  printable : ∀ c ∈ s, Printable c
  valid : ValidTopic type s

/-- A last character that is not looked at though it matters. -/
def UnreadCharacter (s : Bytes) : Prop :=
  ∃ p m c, levels chSlash s = p ++ [m, [c]] ∧ m ≠ [] ∧
    (¬ Printable c ∨ match type with
      | .topicFilter => [chHash] ∈ p ++ [m]
      | .topicName => Wildcard c)

/-- A `#` that is not the last level, with no token in front of it or no token behind it. -/
def UnmaskedHash (s : Bytes) : Prop :=
  type = .topicFilter ∧ ∃ p q, levels chSlash s = p ++ [chHash] :: q ∧ q ≠ [] ∧
    ((∀ l ∈ p, l = []) ∨ ∀ l ∈ q, l = [])

/-- The last character of a string of the maximal length, which is cut off the copy, decides. -/
def CutCharacter (s : Bytes) : Prop :=
  s.length = configMqttTopicMaxlen ∧
    ¬ (AcceptedTopic type (s.take (configMqttTopicMaxlen - 1)) ↔ AcceptedTopic type s)

variable {type : TopicType}

theorem tokenOk_of_tokensOk {toks : List Bytes} (h : TokensOk type toks) :
    ∀ token ∈ toks, TokenOk type token := by
  cases toks with
  | nil => exact absurd h id
  | cons token rest => exact forall_mem_cons.mpr ⟨h.1, ((loopOk_iff type false rest).mp h.2).1⟩

theorem wholeWildcards_of_tokensOk (h : TokensOk type (tokens false ls)) : WholeWildcards ls := by
  intro l hl c hc hwild
  have hone : l.length = 1 := by
    rcases mem_tokens_or_unread false hl (ne_nil_of_mem hc) with htok | hunread
    · exact ((tokenOk_of_tokensOk h l htok c hc).2 hwild).2
    · exact hunread.1
  obtain ⟨c', rfl⟩ := length_eq_one_iff.mp hone
  rw [mem_singleton.mp hc]

theorem mem_level {c : UInt8} (hc : c ∈ s) : c = chSlash ∨ ∃ l ∈ levels chSlash s, c ∈ l := by
  by_cases hslash : c = chSlash
  · exact .inl hslash
  · exact .inr ((exists_mem_levels hslash).mp hc)

theorem accepted_of_tokensOk (h : TokensOk type (tokens false (levels chSlash s)))
    (hunread : ¬ UnreadCharacter type s) (hhash : ¬ UnmaskedHash type s) :
    AcceptedTopic type s := by
  have htoken := tokenOk_of_tokensOk h
  -- a level that is not looked at is the last one, a character behind a level
  have hread : ∀ l ∈ levels chSlash s, l ≠ [] → l ∈ tokens false (levels chSlash s) ∨
      ∃ p m c, levels chSlash s = p ++ [m, [c]] ∧ m ≠ [] ∧ l = [c] := by
    intro l hl hne
    rcases mem_tokens_or_unread false hl hne with htok | ⟨hone, ⟨hc, -⟩ | ⟨p, m, hls, hm⟩⟩
    · exact .inl htok
    · exact nomatch hc
    · obtain ⟨c, rfl⟩ := length_eq_one_iff.mp hone
      exact .inr ⟨p, m, c, hls, hm, rfl⟩
  refine ⟨?_, ?_, ?_⟩
  · cases htoks : tokens false (levels chSlash s) with
    | nil =>
      rw [htoks] at h
      exact absurd h id
    | cons token rest =>
      have hmem : token ∈ tokens false (levels chSlash s) := by
        rw [htoks]
        exact mem_cons_self
      have hlevel := (tokens_sublist false _).subset hmem
      obtain ⟨c, hc⟩ := exists_mem_of_ne_nil _ (ne_nil_of_mem_tokens hmem)
      have hne : c ≠ chSlash := fun hc' => sep_notMem_of_mem_levels hlevel (hc' ▸ hc)
      exact ⟨c, (exists_mem_levels hne).mpr ⟨token, hlevel, hc⟩, hne⟩
  · intro c hc
    rcases mem_level hc with rfl | ⟨l, hl, hcl⟩
    · exact ⟨by decide, by decide⟩
    · rcases hread l hl (ne_nil_of_mem hcl) with htok | ⟨p, m, c', hls, hm, rfl⟩
      · exact (htoken l htok c hcl).1
      · rw [mem_singleton.mp hcl]
        by_contra hnot
        exact hunread ⟨p, m, c', hls, hm, .inl hnot⟩
  · cases type with
    | topicName =>
      intro c hc hwild
      rcases mem_level hc with rfl | ⟨l, hl, hcl⟩
      · exact absurd hwild (by decide)
      · rcases hread l hl (ne_nil_of_mem hcl) with htok | ⟨p, m, c', hls, hm, rfl⟩
        · exact nomatch ((htoken l htok c hcl).2 hwild).1
        · rw [mem_singleton.mp hcl] at hwild
          exact hunread ⟨p, m, c', hls, hm, .inr hwild⟩
    | topicFilter =>
      refine ⟨wholeWildcards_of_tokensOk h, fun p q hls => ?_⟩
      by_contra hq
      rw [UnmaskedHash, not_and] at hhash
      have hboth : ¬ (∀ l ∈ p, l = []) ∧ ¬ ∀ l ∈ q, l = [] :=
        not_or.mp fun hc => hhash rfl ⟨p, q, hls, hq, hc⟩
      obtain ⟨⟨l, hl, hlne⟩, ⟨x, hx, hxne⟩⟩ : (∃ l ∈ p, l ≠ []) ∧ ∃ x ∈ q, x ≠ [] := by
        push Not at hboth
        exact hboth
      have htoks := tokens_append false (p := p) (cons_ne_nil chHash []) hq
      rw [← hls] at htoks
      -- a token comes behind the `#`
      have hbehind : tokens true q ≠ [] := by
        rcases mem_tokens_or_unread true hx hxne with htok | ⟨hone, ⟨-, hq'⟩ | ⟨p', m, hq', hm⟩⟩
        · exact ne_nil_of_mem htok
        · obtain ⟨c, rfl⟩ := length_eq_one_iff.mp hone
          rw [hq'] at hls
          exact absurd ⟨p, [chHash], c, hls, cons_ne_nil _ _,
            .inr (mem_append_right p mem_cons_self)⟩ hunread
        · rw [hq', tokens_append true hm (cons_ne_nil x [])]
          exact append_ne_nil_of_right_ne_nil _ (cons_ne_nil _ _)
      -- and one in front of it
      have hfront : l ∈ p.filter (· ≠ []) := mem_filter.mpr ⟨hl, decide_eq_true hlne⟩
      obtain ⟨first, rest, hfirst⟩ := exists_cons_of_ne_nil (ne_nil_of_mem hfront)
      rw [htoks, hfirst, cons_append] at h
      exact hbehind (((loopOk_iff _ _ _).mp h.2).2.2 rest [chHash] (tokens true q) rfl rfl)

theorem tokensOk_of_accepted (h : AcceptedTopic type s) :
    TokensOk type (tokens false (levels chSlash s)) := by
  have hsub := tokens_sublist false (levels chSlash s)
  have htoken : ∀ token ∈ tokens false (levels chSlash s), TokenOk type token := by
    intro token hmem c hc
    have hlevel := hsub.subset hmem
    have hne : c ≠ chSlash := fun hc' => sep_notMem_of_mem_levels hlevel (hc' ▸ hc)
    have hcs : c ∈ s := (exists_mem_levels hne).mpr ⟨token, hlevel, hc⟩
    refine ⟨h.printable c hcs, fun hwild => ?_⟩
    cases type with
    | topicName => exact absurd hwild (h.valid c hcs)
    | topicFilter =>
      rw [h.valid.1 token hlevel c hc hwild]
      exact ⟨rfl, rfl⟩
  obtain ⟨c, hcs, hne⟩ := h.level
  obtain ⟨l, hl, hcl⟩ := (exists_mem_levels hne).mp hcs
  obtain ⟨first, rest, htoks⟩ :=
    exists_cons_of_ne_nil (tokens_ne_nil hl (ne_nil_of_mem hcl))
  rw [htoks, forall_mem_cons] at htoken
  rw [htoks]
  refine ⟨htoken.1, (loopOk_iff type false rest).mpr ⟨htoken.2, fun hc => (nomatch hc), ?_⟩⟩
  intro p token q heq hhash
  -- the token is a level `#`, which is the last one
  have hrest : token ∈ rest := by
    rw [heq]
    exact mem_append_right p mem_cons_self
  obtain ⟨t, rfl⟩ : ∃ t, token = chHash :: t := by
    cases token with
    | nil => exact nomatch hhash
    | cons c t => exact ⟨t, congrArg (· :: t) (Option.some.inj hhash)⟩
  cases type with
  | topicName =>
    exact nomatch ((htoken.2 _ hrest chHash mem_cons_self).2 (.inr rfl)).1
  | topicFilter =>
    have hlevel : chHash :: t ∈ levels chSlash s := by
      apply hsub.subset
      rw [htoks]
      exact mem_cons_of_mem first hrest
    have hwhole := h.valid.1 _ hlevel chHash mem_cons_self (.inr rfl)
    rw [hwhole] at heq
    rw [htoks, heq, ← cons_append] at hsub
    obtain ⟨r₁, r₂, hsplit, -, hr₂⟩ := append_sublist_iff.mp hsub
    obtain ⟨r₃, r₄, rfl, hmem, hr₄⟩ := cons_sublist_iff.mp hr₂
    obtain ⟨u, v, rfl⟩ := append_of_mem hmem
    have hnil := h.valid.2 (r₁ ++ u) (v ++ r₄) (by rw [hsplit]; simp)
    rw [(append_eq_nil_iff.mp hnil).2] at hr₄
    exact eq_nil_of_sublist_nil hr₄

/-- **The topic check.**  Of the strings up to the maximum whose cut-off character does not decide,
whose last character is looked at if it matters, and without a `#` in front that is not masked,
exactly the accepted topics pass. -/
theorem checkTopic_valid_iff {topic : CString} (hhead : topic.bytes.head? = some chSlash)
    (hlen : topic.strlen ≤ configMqttTopicMaxlen) (type : TopicType)
    (hcut : ¬ CutCharacter type topic.bytes) (hunread : ¬ UnreadCharacter type (topicCopy topic))
    (hhash : ¬ UnmaskedHash type (topicCopy topic)) :
    iotxMcCheckTopic topic type = successReturn ↔ AcceptedTopic type topic.bytes := by
  have hcopy : AcceptedTopic type (topicCopy topic) ↔ AcceptedTopic type topic.bytes := by
    by_cases hmax : topic.bytes.length = configMqttTopicMaxlen
    · exact not_not.mp fun hdecides => hcut ⟨hmax, hdecides⟩
    · have hshort : topic.bytes.length ≤ configMqttTopicMaxlen - 1 :=
        Nat.le_pred_of_lt (lt_of_le_of_ne hlen hmax)
      rw [topicCopy, take_of_length_le hshort]
  rw [iotxMcCheckTopic_iff hhead hlen, ← hcopy]
  exact ⟨fun h => accepted_of_tokensOk h hunread hhash, tokensOk_of_accepted⟩

/-- The filter `/+/ab` passes. -/
theorem checkTopic_valid_plus :
    let topic : CString := ⟨[0x2F, 0x2B, 0x2F, 0x61, 0x62], by decide⟩
    iotxMcCheckTopic topic .topicFilter = successReturn ↔
      AcceptedTopic .topicFilter topic.bytes := by
  intro topic
  have hhead : topic.bytes.head? = some chSlash := rfl
  refine checkTopic_valid_iff hhead (by decide) .topicFilter ?_ ?_ ?_
  · rintro ⟨hmax, -⟩
    exact absurd hmax (by decide)
  · rintro ⟨p, m, c, hls, -⟩
    have hlast := congrArg List.getLast? hls
    rw [show p ++ [m, [c]] = p ++ [m] ++ [[c]] by simp, List.getLast?_append] at hlast
    exact nomatch hlast
  · rintro ⟨-, p, q, hls, -⟩
    have hmem : [chHash] ∈ levels chSlash [0x2F, 0x2B, 0x2F, 0x61, 0x62] :=
      hls ▸ mem_append_right p mem_cons_self
    exact absurd hmem (by decide)

/-- A topic name with a control character is valid but does not pass. -/
theorem checkTopic_not_valid :
    ¬ (iotxMcCheckTopic ⟨[0x2F, 0x01, 0x61], by decide⟩ .topicName = successReturn ↔
      ValidTopic .topicName [0x2F, 0x01, 0x61]) := by
  intro h
  have hvalid : ValidTopic .topicName [0x2F, 0x01, 0x61] := by
    intro c (hc : c ∈ [0x2F, 0x01, 0x61])
    fin_cases hc <;> decide
  exact absurd (h.mpr hvalid) (by decide)

end Iotkit.Mqtt
