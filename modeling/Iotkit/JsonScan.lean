/-
# The bounds of the JSON iteration

Where the cursor of `json_object_for_each_kv` and `json_array_for_each_entry` can go, on any
memory and for any length of the text.  The iteration over an array passes null pointers for the
key, through which `json_get_next_object` writes when it leaves by `do_exit`.
-/
import Iotkit.JsonIterate

open LibC JsonText

namespace Iotkit.Json

open List Option

/-! ## Cursors -/

/-- Whether `json_get_next_object` leaves by `do_exit`, where `*key` and `*key_len` are written, with
the cursor at the place where the value is looked for. -/
def nextExits (mem : Bytes) (pos strEnd : ℕ) : Bool :=
  match findValue (window mem pos strEnd) with
  | none => false
  | some (type, n) =>
    let value := if type = .jstring then pos + n + 1 else pos + n
    decide (value + valueLen mem strEnd type value > strEnd)

/-- The cursors of `json_object_for_each_kv`. -/
inductive ObjectCursor (mem : Bytes) (slen : ℕ) : ℕ → Prop
  | first {pos : ℕ} (h : jsonGetObject 0x7b (window mem 0 slen) = some pos) :
      ObjectCursor mem slen pos
  | next {pos : ℕ} {kv : JsonKv} (hpos : ObjectCursor mem slen pos) (hnul : mem.getD pos 0 ≠ 0)
      (hkv : jsonGetNextObject mem pos slen = some kv) : ObjectCursor mem slen kv.pos

/-- The cursors of `json_array_for_each_entry`. -/
inductive ArrayCursor (mem : Bytes) (slen : ℕ) : ℕ → Prop
  | first {pos : ℕ} (h : jsonGetObject 0x5b (window mem 0 slen) = some pos) :
      ArrayCursor mem slen pos
  | next {pos : ℕ} {value : JsonValue} (hpos : ArrayCursor mem slen pos)
      (hnul : mem.getD pos 0 ≠ 0) (hvalue : jsonNextValue mem (pos + 1) slen = some value) :
      ArrayCursor mem slen value.pos

/-- A range of the text. -/
def Span.Inside (span : Span) (slen : ℕ) : Prop := span.start + span.len ≤ slen

/-- What is due in a round of the iteration over an object. -/
structure ObjectLaw (mem : Bytes) (slen pos : ℕ) : Prop where
  cursor : pos ≤ slen
  round : mem.getD pos 0 ≠ 0 → ∀ kv, jsonGetNextObject mem pos slen = some kv →
    pos < kv.pos ∧ kv.key.Inside slen ∧ kv.val.Inside slen

/-- What is due in a round of the iteration over an array. -/
structure ArrayLaw (mem : Bytes) (slen pos : ℕ) : Prop where
  cursor : pos ≤ slen
  round : mem.getD pos 0 ≠ 0 → (∀ value, jsonNextValue mem (pos + 1) slen = some value →
    pos < value.pos ∧ value.val.Inside slen) ∧ nextExits mem (pos + 1) slen = false

/-- The two iterations stay inside of the text and end, and write through no null pointer. -/
structure ScanLaw (mem : Bytes) (slen : ℕ) : Prop where
  object : ∀ pos, ObjectCursor mem slen pos → ObjectLaw mem slen pos
  array : ∀ pos, ArrayCursor mem slen pos → ArrayLaw mem slen pos
  objectEnds : ∀ pos rounds, slen ≤ pos + rounds →
    kvLoop mem slen (rounds + 1) pos = kvLoop mem slen rounds pos
  arrayEnds : ∀ pos rounds, slen ≤ pos + rounds →
    entryLoop mem slen (rounds + 1) pos = entryLoop mem slen rounds pos

/-! ## Texts that are cut off -/

/-- The first value from `p` on is a string of which the text has the opening quote only. -/
def CutQuote (mem : Bytes) (slen p : ℕ) : Prop :=
  ∃ lead, (∀ c ∈ lead, Idle c) ∧ lead ++ [0x22] <+: mem.drop p ∧ p + lead.length + 1 = slen

/-- The first value from `p` on is a word that begins in the text and ends behind it. -/
def CutWord (mem : Bytes) (slen p : ℕ) : Prop :=
  ∃ lead, (∀ c ∈ lead, Idle c) ∧ p + lead.length < slen ∧
    ∃ w ∈ booleanTexts, lead ++ w <+: mem.drop p ∧ slen < p + lead.length + w.length

/-- The text is not cut off where the iterations get to. -/
structure NotCut (mem : Bytes) (slen : ℕ) : Prop where
  object : ∀ pos, ObjectCursor mem slen pos → mem.getD pos 0 ≠ 0 → ∀ name p,
    memberName mem pos slen = some (name, p) → ¬CutQuote mem slen p
  array : ∀ pos, ArrayCursor mem slen pos → mem.getD pos 0 ≠ 0 →
    ¬CutQuote mem slen (pos + 1) ∧ ¬CutWord mem slen (pos + 1)

/-! ## One value -/

variable {s : Bytes}

theorem findValue_some_iff {type : JsonType} {n : ℕ} :
    findValue s = some (type, n) ↔ ∃ lead c t, s = lead ++ c :: t ∧ lead.length = n ∧
      (∀ d ∈ lead, Idle d) ∧ c ≠ 0 ∧ valueType c = some type := by
  constructor
  · intro h
    induction s generalizing n with
    | nil => cases h
    | cons c s ih =>
      rw [findValue] at h
      split_ifs at h with hzero
      cases htype : valueType c with
      | some type' =>
        rw [htype] at h
        cases h
        exact ⟨[], c, s, rfl, rfl, forall_mem_nil _, hzero, htype⟩
      | none =>
        rw [htype] at h
        obtain ⟨⟨type', m⟩, hm, heq⟩ := map_eq_some_iff.mp h
        cases heq
        obtain ⟨lead, d, t, rfl, rfl, hlead, hd, htype'⟩ := ih hm
        exact ⟨c :: lead, d, t, rfl, rfl, forall_mem_cons.mpr ⟨⟨hzero, htype⟩, hlead⟩,
          hd, htype'⟩
  · rintro ⟨lead, c, t, rfl, rfl, hlead, hzero, htype⟩
    rw [findValue_idle hlead, findValue, if_neg hzero, htype]
    show some (type, 0 + lead.length) = _
    rw [Nat.zero_add]

theorem strchr_lt {ch : UInt8} {n : ℕ} (h : strchr ch s = some n) : n < s.length :=
  (strchr_append_of_some h []).2

theorem scanNumber_lt {n : ℕ} (h : scanNumber s = some n) : n < s.length := by
  induction s generalizing n with
  | nil => cases h
  | cons c s ih =>
    rw [scanNumber] at h
    split_ifs at h
    · cases h
      exact Nat.succ_pos _
    · obtain ⟨m, hm, rfl⟩ := map_eq_some_iff.mp h
      exact Nat.succ_lt_succ (ih hm)

theorem scanMarks_lt {opening closing : UInt8} {depth n : ℕ} {b : Bool}
    (h : scanMarks opening closing s depth b = some n) : n < s.length := by
  induction s generalizing depth b n with
  | nil => cases h
  | cons c s ih =>
    have hstep : n = 0 ∨ ∃ depth' b', (scanMarks opening closing s depth' b').map (· + 1) =
        some n := by
      rw [scanMarks] at h
      split_ifs at h
      · exact .inr ⟨_, _, h⟩
      · exact .inl (Option.some.inj h).symm
      · exact .inr ⟨_, _, h⟩
      · exact .inr ⟨_, _, h⟩
      · exact .inr ⟨_, _, h⟩
      · exact .inr ⟨_, _, h⟩
      · exact .inr ⟨_, _, h⟩
    rcases hstep with rfl | ⟨depth', b', hmap⟩
    · exact Nat.succ_pos _
    · obtain ⟨m, hm, rfl⟩ := map_eq_some_iff.mp hmap
      exact Nat.succ_lt_succ (ih hm)

theorem length_window_le (mem : Bytes) (p strEnd : ℕ) :
    (window mem p strEnd).length ≤ strEnd - p :=
  length_take_le _ _

theorem valueLen_le {mem : Bytes} {strEnd value : ℕ} {type : JsonType}
    (hvalue : value < strEnd + (if type = .jstring then 1 else 0)) (htype : type ≠ .jboolean) :
    value + valueLen mem strEnd type value ≤ strEnd := by
  have hrest := length_window_le mem (value + 1) strEnd
  unfold valueLen
  cases type with
  | jboolean => exact absurd rfl htype
  | jstring =>
    simp only [if_true] at hvalue
    cases hchr : strchr 0x22 (window mem value strEnd) with
    | none => exact Nat.le_of_lt_succ hvalue
    | some n =>
      have hlt := (strchr_lt hchr).trans_le (length_window_le mem value strEnd)
      show value + n ≤ strEnd
      omega
  | jobject =>
    simp only [reduceCtorEq, if_false] at hvalue
    cases hscan : scanMarks 0x7b 0x7d (window mem (value + 1) strEnd) 0 false with
    | none => exact hvalue.le
    | some n =>
      have hlt := (scanMarks_lt hscan).trans_le hrest
      show value + (n + 2) ≤ strEnd
      omega
  | jarray =>
    simp only [reduceCtorEq, if_false] at hvalue
    cases hscan : scanMarks 0x5b 0x5d (window mem (value + 1) strEnd) 0 false with
    | none => exact hvalue.le
    | some n =>
      have hlt := (scanMarks_lt hscan).trans_le hrest
      show value + (n + 2) ≤ strEnd
      omega
  | jnumber =>
    simp only [reduceCtorEq, if_false] at hvalue
    cases hscan : scanNumber (window mem (value + 1) strEnd) with
    | none => exact hvalue.le
    | some n =>
      have hlt := (scanNumber_lt hscan).trans_le hrest
      show value + (n + 1) ≤ strEnd
      omega

section Value

variable {mem : Bytes} {slen p : ℕ}

/-- What the scan for a value passes, and what comes then. -/
theorem window_eq_append {lead s : Bytes} (h : mem.drop p = lead ++ s)
    (hlt : p + lead.length < slen) :
    window mem p slen = lead ++ s.take (slen - (p + lead.length)) := by
  rw [window, h, take_append, take_of_length_le (by omega), Nat.sub_sub]

theorem drop_of_window {lead t : Bytes} {c : UInt8} (h : window mem p slen = lead ++ c :: t) :
    mem.drop p = lead ++ mem.drop (p + lead.length) ∧ p + lead.length < slen := by
  have hlength := congrArg List.length h
  rw [length_append, length_cons] at hlength
  have hle := length_window_le mem p slen
  refine ⟨?_, by omega⟩
  have hprefix : lead ++ c :: t <+: mem.drop p := by
    rw [← h]
    exact take_prefix _ _
  obtain ⟨s, hs⟩ := (prefix_append lead (c :: t)).trans hprefix
  rw [← drop_drop, ← hs, drop_left]

theorem booleanLen_of_prefix {w s : Bytes} (hw : w ∈ booleanTexts) (h : w <+: s) :
    booleanLen s = w.length := by
  rcases booleanLen_cases s with ⟨-, hnone⟩ | ⟨w', hw', hpre, hlen⟩
  · exact absurd h (hnone w hw)
  · rcases prefix_or_prefix_of_prefix h hpre with hle | hle
    · rw [hlen, booleanTexts_eq w hw w' hw' hle]
    · rw [hlen, booleanTexts_eq w' hw' w hw hle]

theorem booleanTexts_cons {w : Bytes} (hw : w ∈ booleanTexts) :
    ∃ c t, w = c :: t ∧ c ≠ 0 ∧ valueType c = some .jboolean := by
  simp only [booleanTexts, mem_cons, not_mem_nil, or_false] at hw
  rcases hw with rfl | rfl | rfl | rfl <;> exact ⟨_, _, rfl, by decide, rfl⟩

/-- `do_exit` is taken for a word that does not end in the text, and for nothing else. -/
theorem nextExits_iff : nextExits mem p slen = true ↔ CutWord mem slen p := by
  constructor
  · intro h
    unfold nextExits at h
    cases hfound : findValue (window mem p slen) with
    | none =>
      rw [hfound] at h
      cases h
    | some found =>
      obtain ⟨type, n⟩ := found
      rw [hfound] at h
      have hexit := of_decide_eq_true h
      obtain ⟨lead, c, t, hwindow, rfl, hlead, -, -⟩ := findValue_some_iff.mp hfound
      obtain ⟨hdrop, hlt⟩ := drop_of_window hwindow
      have hbool : type = .jboolean := by
        by_contra hne
        have hvalue : (if type = .jstring then p + lead.length + 1 else p + lead.length) <
            slen + if type = .jstring then 1 else 0 := by
          split_ifs <;> omega
        exact absurd hexit (not_lt.mpr (valueLen_le hvalue hne))
      subst hbool
      simp only [reduceCtorEq, if_false, valueLen] at hexit
      refine ⟨lead, hlead, hlt, ?_⟩
      rcases booleanLen_cases (mem.drop (p + lead.length)) with ⟨hzero, -⟩ | ⟨w, hw, hpre, hlen⟩
      · omega
      · refine ⟨w, hw, ?_, by omega⟩
        rw [hdrop]
        exact (prefix_append_right_inj lead).mpr hpre
  · rintro ⟨lead, hlead, hlt, w, hw, ⟨rest, hrest⟩, hout⟩
    obtain ⟨c, t, rfl, hzero, htype⟩ := booleanTexts_cons hw
    have hdrop : mem.drop p = lead ++ (c :: t ++ rest) := by
      rw [← hrest, append_assoc]
    have hwindow := window_eq_append hdrop hlt
    obtain ⟨k, hk⟩ := Nat.exists_eq_add_of_lt hlt
    have hfound : findValue (window mem p slen) = some (.jboolean, lead.length) := by
      rw [findValue_some_iff]
      refine ⟨lead, c, (t ++ rest).take k, ?_, rfl, hlead, hzero, htype⟩
      have htake : slen - (p + lead.length) = k + 1 := by omega
      rw [hwindow, htake]
      rfl
    have hvalue : mem.drop (p + lead.length) = c :: t ++ rest := by
      rw [← drop_drop, hdrop, drop_left]
    have hlen : booleanLen (mem.drop (p + lead.length)) = (c :: t).length := by
      rw [hvalue]
      exact booleanLen_of_prefix hw (prefix_append _ _)
    unfold nextExits
    rw [hfound]
    simp only [reduceCtorEq, if_false, valueLen, hlen]
    exact decide_eq_true hout

/-- The cursor behind a value stays in the text, but for a quote that is cut off. -/
theorem jsonNextValue_pos {value : JsonValue} (h : jsonNextValue mem p slen = some value) :
    value.pos ≤ slen ∨ CutQuote mem slen p := by
  unfold jsonNextValue at h
  cases hfound : findValue (window mem p slen) with
  | none =>
    rw [hfound] at h
    cases h
  | some found =>
    obtain ⟨type, n⟩ := found
    rw [hfound] at h
    obtain ⟨lead, c, t, hwindow, rfl, hlead, -, htype⟩ := findValue_some_iff.mp hfound
    obtain ⟨hdrop, hlt⟩ := drop_of_window hwindow
    by_cases hstring : type = .jstring
    · simp only [hstring, if_true] at h
      split_ifs at h with hout
      cases h
      have hquote : c = 0x22 := by
        rw [hstring] at htype
        by_contra hne
        rw [valueType, if_neg hne] at htype
        split_ifs at htype <;> cases htype
      by_cases hcut : p + lead.length + 1 = slen
      · refine .inr ⟨lead, hlead, ?_, hcut⟩
        rw [← hquote]
        have hprefix : lead ++ [c] <+: lead ++ c :: t :=
          (prefix_append_right_inj lead).mpr ⟨t, rfl⟩
        rw [← hwindow] at hprefix
        exact hprefix.trans (List.take_prefix _ _)
      left
      simp only [valueLen]
      cases hchr : strchr 0x22 (window mem (p + lead.length + 1) slen) with
      | none =>
        show p + lead.length + 1 + 0 + 1 ≤ slen
        omega
      | some k =>
        have hk := (strchr_lt hchr).trans_le (length_window_le mem _ slen)
        show p + lead.length + 1 + k + 1 ≤ slen
        omega
    · simp only [hstring, if_false] at h
      split_ifs at h with hout
      cases h
      exact .inl (not_lt.mp hout)

/-- Behind a quote that is cut off the cursor is out of the text. -/
theorem jsonNextValue_of_cutQuote (h : CutQuote mem slen p) :
    ∃ value, jsonNextValue mem p slen = some value ∧ value.pos = slen + 1 := by
  obtain ⟨lead, hlead, ⟨rest, hrest⟩, hlen⟩ := h
  have hdrop : mem.drop p = lead ++ (0x22 :: rest) := by
    rw [← hrest, append_assoc]
    rfl
  have hlt : p + lead.length < slen := by omega
  have hwindow := window_eq_append hdrop hlt
  have htake : slen - (p + lead.length) = 0 + 1 := by omega
  rw [htake, take_succ_cons, take_zero] at hwindow
  have hfound : findValue (window mem p slen) = some (.jstring, lead.length) :=
    findValue_some_iff.mpr ⟨lead, 0x22, [], hwindow, rfl, hlead, by decide, rfl⟩
  have hempty : window mem (p + lead.length + 1) slen = [] := by
    rw [window, hlen, Nat.sub_self, take_zero]
  unfold jsonNextValue
  rw [hfound]
  simp only [if_true, valueLen, hempty]
  rw [if_neg (by rw [hlen]; exact Nat.lt_irrefl slen)]
  refine ⟨_, rfl, ?_⟩
  show p + lead.length + 1 + 0 + 1 = slen + 1
  omega

end Value

/-! ## Iterations -/

section Iterations

variable {mem : Bytes} {slen : ℕ}

theorem jsonGetObject_lt {ch : UInt8} {s : Bytes} {n : ℕ} (h : jsonGetObject ch s = some n) :
    n < s.length := by
  induction s generalizing n with
  | nil => cases h
  | cons c s ih =>
    rw [jsonGetObject] at h
    split_ifs at h
    · obtain ⟨m, hm, rfl⟩ := map_eq_some_iff.mp h
      exact Nat.succ_lt_succ (ih hm)
    · cases h
      exact Nat.succ_pos _

variable {pos : ℕ}

theorem first_le {ch : UInt8} (h : jsonGetObject ch (window mem 0 slen) = some pos) : pos ≤ slen :=
  ((jsonGetObject_lt h).trans_le (length_window_le mem 0 slen)).le

/-- The cursors of an object stay in the text if and only if no quote is cut off. -/
theorem objectCursor_iff : (∀ pos, ObjectCursor mem slen pos → pos ≤ slen) ↔
    ∀ pos, ObjectCursor mem slen pos → mem.getD pos 0 ≠ 0 → ∀ name p,
      memberName mem pos slen = some (name, p) → ¬CutQuote mem slen p := by
  constructor
  · intro hall pos hpos hnul name p hname hcut
    obtain ⟨value, hvalue, hout⟩ := jsonNextValue_of_cutQuote hcut
    have hkv : jsonGetNextObject mem pos slen = some ⟨value, name⟩ := by
      rw [jsonGetNextObject_name, hname, bind_some, hvalue]
      rfl
    have hle : value.pos ≤ slen := hall _ (.next hpos hnul hkv)
    omega
  · intro hall pos hpos
    cases hpos with
    | first h => exact first_le h
    | next hpos hnul hkv =>
      rw [jsonGetNextObject_name, bind_eq_some_iff] at hkv
      obtain ⟨⟨name, p⟩, hname, hmap⟩ := hkv
      obtain ⟨value, hvalue, rfl⟩ := map_eq_some_iff.mp hmap
      exact (jsonNextValue_pos hvalue).resolve_right (hall _ hpos hnul name p hname)

theorem arrayCursor_iff : (∀ pos, ArrayCursor mem slen pos → pos ≤ slen) ↔
    ∀ pos, ArrayCursor mem slen pos → mem.getD pos 0 ≠ 0 → ¬CutQuote mem slen (pos + 1) := by
  constructor
  · intro hall pos hpos hnul hcut
    obtain ⟨value, hvalue, hout⟩ := jsonNextValue_of_cutQuote hcut
    have hle := hall _ (.next hpos hnul hvalue)
    omega
  · intro hall pos hpos
    cases hpos with
    | first h => exact first_le h
    | next hpos hnul hvalue =>
      exact (jsonNextValue_pos hvalue).resolve_right (hall _ hpos hnul)

theorem entryLoop_end {rounds : ℕ} (h : slen ≤ pos) : entryLoop mem slen rounds pos = [] := by
  cases rounds with
  | zero => rfl
  | succ rounds =>
    rw [entryLoop, jsonNextValue_of_le mem (h.trans (Nat.le_succ pos))]
    exact ite_self _

theorem entryLoop_succ {rounds : ℕ} (h : slen ≤ pos + rounds) :
    entryLoop mem slen (rounds + 1) pos = entryLoop mem slen rounds pos := by
  induction rounds generalizing pos with
  | zero =>
    have hle : slen ≤ pos := h
    rw [entryLoop_end hle, entryLoop_end hle]
  | succ rounds ih =>
    rw [entryLoop, entryLoop]
    cases hvalue : jsonNextValue mem (pos + 1) slen with
    | none => rfl
    | some value =>
      have hbounds := jsonNextValue_bounds hvalue
      have htail : entryLoop mem slen (rounds + 1) value.pos =
          entryLoop mem slen rounds value.pos := ih (by omega)
      simp only [htail]

/-- The cursor moves on, and what is visited lies in the text. -/
theorem object_round {kv : JsonKv} (h : jsonGetNextObject mem pos slen = some kv) :
    pos < kv.pos ∧ kv.key.Inside slen ∧ kv.val.Inside slen := by
  obtain ⟨hkey, hval, hend, hpos⟩ := jsonGetNextObject_bounds h
  refine ⟨by omega, ?_, hend⟩
  show kv.key.start + kv.key.len ≤ slen
  omega

end Iterations

/-- **The bounds of the iterations.**  On every memory and for every length, the two iterations keep
to the text, end and write through no null pointer if and only if the text is not cut off where they
get to: in front of a value whose opening quote is its last byte, or, in an array, in a word that
the bytes behind it complete. -/
theorem json_scan_iff (mem : Bytes) (slen : ℕ) : ScanLaw mem slen ↔ NotCut mem slen := by
  constructor
  · intro hlaw
    refine ⟨objectCursor_iff.mp fun pos hpos => (hlaw.object pos hpos).cursor,
      fun pos hpos hnul => ⟨?_, fun hcut => ?_⟩⟩
    · exact arrayCursor_iff.mp (fun pos hpos => (hlaw.array pos hpos).cursor) pos hpos hnul
    · have hexit := ((hlaw.array pos hpos).round hnul).2
      rw [nextExits_iff.mpr hcut] at hexit
      cases hexit
  · intro hcut
    refine ⟨fun pos hpos => ⟨?_, fun _ kv hkv => object_round hkv⟩,
      fun pos hpos => ⟨?_, fun hnul => ⟨fun value hvalue => ?_, ?_⟩⟩, fun pos rounds h => ?_,
      fun pos rounds h => entryLoop_succ h⟩
    · exact objectCursor_iff.mpr hcut.object pos hpos
    · exact arrayCursor_iff.mpr (fun pos hpos hnul => (hcut.array pos hpos hnul).1) pos hpos
    · obtain ⟨-, hend, hstart, hpos', -⟩ := jsonNextValue_bounds hvalue
      exact ⟨by omega, hend⟩
    · rw [← Bool.not_eq_true, nextExits_iff]
      exact (hcut.array pos hpos hnul).2
    · exact kvLoop_rounds mem slen (by omega) h

/-- The text `[tr` of the memory `[true]`, and the text `{"a":"`. -/
theorem json_scan_cut : ¬ScanLaw [0x5b, 0x74, 0x72, 0x75, 0x65, 0x5d] 3 ∧
    ¬ScanLaw [0x7b, 0x22, 0x61, 0x22, 0x3a, 0x22] 6 := by
  constructor
  · intro hlaw
    have hexit := ((hlaw.array 0 (.first rfl)).round (by decide)).2
    exact absurd hexit (by decide)
  · intro hlaw
    have hkv : jsonGetNextObject [0x7b, 0x22, 0x61, 0x22, 0x3a, 0x22] 0 6 =
        some ⟨⟨.jstring, ⟨6, 0⟩, 7⟩, ⟨2, 1⟩⟩ := by decide
    have hcursor := (hlaw.object 7 (.next (.first rfl) (by decide) hkv)).cursor
    exact absurd hcursor (by decide)

end Iotkit.Json
