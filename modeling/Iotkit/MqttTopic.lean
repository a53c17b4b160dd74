/-
# Topic names and topic filters

`infra_strtok` (`infra_string.c`) for a one-character delimiter, the topic checks
`iotx_mc_check_rule` and `iotx_mc_check_topic`, and the wildcard matching
`iotx_mc_is_topic_matched` (`iotx_mqtt_client.c`).
-/
import Iotkit.MqttPacket

namespace Iotkit

/-! ## `infra_strtok` -/

/-- The scan of `infra_strtok` from `pos`; `target` holds the characters between the
pointers `target` and `pos`.  The second component is where `pos` is left. -/
def infraStrtokLoop (delim : UInt8) : Bool → Bytes → Bytes → Option Bytes × Bytes
  | _, target, [] => (some target, [])
  | onlyDelim, target, c :: rest =>
    if c ≠ delim then infraStrtokLoop delim false (target ++ [c]) rest
    else if rest = [] then (if onlyDelim then none else some target, [])
    else if target = [] then infraStrtokLoop delim onlyDelim [] rest
    else (some target, rest)

/-- `infra_strtok` on the string left over at `pos`. -/
def infraStrtok (delim : UInt8) (pos : Bytes) : Option Bytes × Bytes :=
  if pos.length ≤ 1 then (none, pos) else infraStrtokLoop delim true [] pos

namespace Mqtt

/-! ## Topic checks -/

/-- The characters `/`, `+` and `#`. -/
abbrev chSlash : UInt8 := 47
abbrev chPlus : UInt8 := 43
abbrev chHash : UInt8 := 35

/-- `iotx_mc_topic_type_t`. -/
inductive TopicType
  | topicName
  | topicFilter
  deriving DecidableEq

/-- `CONFIG_MQTT_TOPIC_MAXLEN` in a build with dynamic memory. -/
def configMqttTopicMaxlen : ℕ := 128

/-- `iotx_mc_check_rule`; the token is `none` when the pointer is `NULL`. -/
def iotxMcCheckRule (iterm : Option Bytes) (type : TopicType) : ℤ :=
  match iterm with
  | none => failReturn
  | some iterm =>
    if iterm.all fun c =>
        (match type with
          | .topicFilter => !(c = chPlus || c = chHash) || iterm.length = 1
          | .topicName => !(c = chPlus || c = chHash))
        && decide (32 ≤ c.toNat) && decide (c.toNat < 127)
    then successReturn else failReturn

/-- The token loop of `iotx_mc_check_topic`; every token is shorter than what is left
of the string, so its length bounds the number of turns. -/
def iotxMcCheckTopicLoop (type : TopicType) : ℕ → Bool → Bytes → ℤ
  | 0, _, _ => successReturn
  | fuel + 1, mask, pos =>
    match infraStrtok chSlash pos with
    | (none, _) => successReturn
    | (some iterm, pos) =>
      if mask then failReturn
      else if iotxMcCheckRule (some iterm) type ≠ successReturn then failReturn
      else iotxMcCheckTopicLoop type fuel (iterm.head? = some chHash) pos

def iotxMcCheckTopic (topicName : CString) (type : TopicType) : ℤ :=
  if topicName.bytes.head? ≠ some chSlash then failReturn
  else if topicName.strlen > configMqttTopicMaxlen then failReturn
  else
    let topicString := topicName.bytes.take (configMqttTopicMaxlen - 1)
    match infraStrtok chSlash topicString with
    | (iterm, pos) =>
      if iotxMcCheckRule iterm type ≠ successReturn then failReturn
      else iotxMcCheckTopicLoop type (topicString.length + 1) false pos

/-! ## Wildcard matching -/

/-- `iotx_mc_is_topic_matched`: `curf` is the rest of the filter, `curn` the rest of
the topic name up to its recorded length. -/
def iotxMcIsTopicMatched : Bytes → Bytes → Bool
  | [], curn => curn.isEmpty
  | _ :: _, [] => false
  | f :: curf, n :: curn =>
    if n = chSlash ∧ f ≠ chSlash then false
    else if f ≠ chPlus ∧ f ≠ chHash ∧ f ≠ n then false
    -- `+` skips to the end of the level, `#` to the end of the name
    else if f = chPlus then iotxMcIsTopicMatched curf (curn.dropWhile (· ≠ chSlash))
    else if f = chHash then iotxMcIsTopicMatched curf []
    else iotxMcIsTopicMatched curf curn

theorem iotxMcIsTopicMatched_nil_right (curf : Bytes) :
    iotxMcIsTopicMatched curf [] = curf.isEmpty := by
  cases curf <;> rfl

/-- A filter that ends in a wildcard: its last character is `+` or `#`, there is no
other `#`, and every earlier `+` ends its level. -/
def endsInWildcard : Bytes → Bool
  | [] => false
  | c :: rest =>
    if c = chHash then rest.isEmpty
    else if c = chPlus then rest.isEmpty || (rest.head? = some chSlash && endsInWildcard rest)
    else endsInWildcard rest

/-- A filter taken as a topic name together with its terminating NUL is matched by
itself exactly when it ends in a wildcard. -/
theorem iotxMcIsTopicMatched_self_withNul (f : Bytes) (hf : 0 ∉ f) :
    iotxMcIsTopicMatched f (f ++ [0]) = endsInWildcard f := by
  induction f with
  | nil => rfl
  | cons c rest ih =>
    have hrest : 0 ∉ rest := fun h => hf (List.mem_cons_of_mem _ h)
    rw [List.cons_append, iotxMcIsTopicMatched, endsInWildcard, if_neg (by tauto),
      if_neg (by tauto)]
    by_cases hp : c = chPlus
    · subst hp
      rw [if_pos rfl, if_neg (by decide), if_pos rfl]
      cases rest with
      | nil => decide
      | cons d ds =>
        by_cases hd : d = chSlash
        · subst hd
          simp only [List.cons_append, List.dropWhile_cons, ne_eq, not_true_eq_false,
            decide_false, Bool.false_eq_true, if_false, List.isEmpty_cons, Bool.false_or,
            List.head?_cons, decide_true, Bool.true_and]
          rw [← List.cons_append]
          exact ih hrest
        -- the skip runs past the characters glued to `+`, up to `/` or the end
        have hskip : ∀ l : Bytes,
            iotxMcIsTopicMatched (d :: ds) (l.dropWhile (· ≠ chSlash)) = false := by
          intro l
          cases hl : l.dropWhile (· ≠ chSlash) with
          | nil => rfl
          | cons e es =>
            have he : e = chSlash := by
              have := List.head?_dropWhile_not (· ≠ chSlash) l
              rw [hl] at this
              simpa using this
            rw [iotxMcIsTopicMatched, if_pos ⟨he, hd⟩]
        rw [hskip]
        simp [hd]
    · rw [if_neg hp]
      by_cases hh : c = chHash
      · rw [if_pos hh, if_pos hh, iotxMcIsTopicMatched_nil_right]
      · rw [if_neg hh, if_neg hh, if_neg hp]
        exact ih hrest

end Mqtt

end Iotkit
