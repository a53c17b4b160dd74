/-
# What the callbacks of the AT parser are called with

A callback with a postfix collects a part of the stream from its prefix on, without an occurrence
of its postfix after it.  A pass of the scan touches one callback and leaves alone what the others
collect, as long as the one that starts has room for its prefix and does not share its buffer.
-/
import Iotkit.AtParser

namespace Iotkit.At

open FlatMemory GuardedRun List Option

/-! ## From a prefix to the first postfix after it -/

/-- `data` is the bytes from `pre` up to and including the first following occurrence of
`post`. -/
def Spans (pre post data : Bytes) : Prop :=
  ∃ mid, data = pre ++ mid ++ post ∧ ∀ mid', pre ++ mid' ++ post <+: data → mid' = mid

/-- No occurrence of `post` follows `pre` at the start of `data`. -/
def Awaits (pre post data : Bytes) : Prop := ∀ mid, ¬ pre ++ mid ++ post <+: data

@[simp] theorem endsWith_iff (data s : Bytes) : endsWith data s = true ↔ s <:+ data := by
  rw [endsWith, decide_eq_true_iff, suffix_iff_eq_drop]
  constructor
  · rintro ⟨-, h⟩
    exact h.symm
  · intro h
    refine ⟨?_, h.symm⟩
    calc s.length = (data.drop (data.length - s.length)).length := congrArg List.length h
      _ ≤ data.length := by simp

variable {pre post data : Bytes} {c : UInt8}

theorem Awaits.spans_of_eq {mid : Bytes} (h : Awaits pre post data)
    (heq : data ++ [c] = pre ++ mid ++ post) : Spans pre post (data ++ [c]) := by
  refine ⟨mid, heq, fun mid' hmid' => ?_⟩
  rcases prefix_concat_iff.mp hmid' with hfull | hshort
  · rw [heq] at hfull
    exact append_cancel_left (append_cancel_right hfull)
  · exact absurd hshort (h mid')

/-- The test of the code: the data is long enough and ends with the postfix. -/
theorem Awaits.spans_concat_iff (h : Awaits pre post data) (hpre : pre <+: data ++ [c]) :
    Spans pre post (data ++ [c]) ↔
      pre.length + post.length ≤ data.length + 1 ∧ post <:+ data ++ [c] := by
  constructor
  · rintro ⟨mid, heq, -⟩
    have hlen := congrArg List.length heq
    simp only [length_append, length_singleton] at hlen
    exact ⟨by omega, heq ▸ suffix_append _ _⟩
  · rintro ⟨hlen, hpost⟩
    obtain ⟨rest, hrest⟩ := hpre
    have hlong : post.length ≤ rest.length := by
      have := congrArg List.length hrest
      simp only [length_append, length_singleton] at this
      omega
    have hsuffix : rest <:+ data ++ [c] := hrest ▸ suffix_append _ _
    obtain ⟨mid, hmid⟩ := suffix_of_suffix_length_le hpost hsuffix hlong
    exact h.spans_of_eq (by rw [append_assoc, hmid, hrest])

theorem Awaits.concat (h : Awaits pre post data) (hspans : ¬ Spans pre post (data ++ [c])) :
    Awaits pre post (data ++ [c]) := by
  intro mid hmid
  rcases prefix_concat_iff.mp hmid with hfull | hshort
  · exact hspans (h.spans_of_eq hfull.symm)
  · exact h mid hshort

theorem awaits_of_length_lt (h : data.length < pre.length + post.length) :
    Awaits pre post data := by
  intro mid hmid
  have := hmid.length_le
  simp only [length_append] at this
  omega

/-! ## One callback -/

/-- Only the buffer of the callback is written to, and only where it has room. -/
structure Touches (oob : Oob) (s s' : AtParser) : Prop where
  eq : s' = { s with mem := s'.mem, writes := s'.writes }
  mem : ∀ a, (∀ i < oob.maxlen, a ≠ oob.oobinputdata + i) → s'.mem a = s.mem a
  writes : (∀ w ∈ s.writes, w.upto ≤ w.maxlen) → ∀ w ∈ s'.writes, w.upto ≤ w.maxlen

variable {oob : Oob} {s s' : AtParser}

section

variable (h : Touches oob s s')
include h

theorem Touches.trans {s'' : AtParser} (h' : Touches oob s' s'') : Touches oob s s'' := by
  refine ⟨?_, fun a ha => (h'.mem a ha).trans (h.mem a ha), fun hw => h'.writes (h.writes hw)⟩
  rw [h'.eq, h.eq]

theorem Touches.oobs_eq : s'.oobs = s.oobs := by rw [h.eq]

theorem Touches.line_eq : s'.line = s.line := by rw [h.eq]

theorem Touches.received_eq : s'.received = s.received := by rw [h.eq]

theorem Touches.calls_eq : s'.calls = s.calls := by rw [h.eq]

theorem Touches.congr {oob' : Oob} (haddr : oob'.oobinputdata = oob.oobinputdata)
    (hmax : oob'.maxlen = oob.maxlen) : Touches oob' s s' :=
  ⟨h.eq, fun a ha => h.mem a (by rwa [haddr, hmax] at ha), h.writes⟩

end

theorem touches_write {i : ℕ} {bytes : Bytes} (s : AtParser)
    (h : i + bytes.length ≤ oob.maxlen) : Touches oob s (s.write oob i bytes) := by
  refine ⟨rfl, fun a ha => ?_, fun hw w hmem => ?_⟩
  · refine store_of_ne s.mem _ bytes fun j hj => ?_
    rw [Nat.add_assoc]
    exact ha (i + j) (by omega)
  · rcases mem_append.mp hmem with hold | hnew
    · exact hw w hold
    · rw [mem_singleton.mp hnew]
      exact h

theorem Touches.data_eq {other : Oob} (h : Touches oob s s') (hlen : other.reallen ≤ other.maxlen)
    (hapart : Apart oob.oobinputdata oob.maxlen other.oobinputdata other.maxlen) :
    other.data s'.mem = other.data s.mem :=
  load_congr fun i hi => h.mem _ fun j hj heq => hapart j hj i (by omega) heq.symm

/-- A callback that is about to take the byte `c` has the bytes `data` before it. -/
structure Oob.Before (c : UInt8) (oobPostfix data : Bytes) (s : AtParser) (oob : Oob) :
    Prop where
  hasPostfix : oob.oobPostfix = some oobPostfix
  data_eq : oob.data s.mem = data
  length_le : oob.reallen ≤ oob.maxlen
  awaits : Awaits oob.oobPrefix oobPostfix data
  starts : oob.oobPrefix <+: data ++ [c]
  suffix : data ++ [c] <:+ s.received

variable {oobPostfix : Bytes}

theorem Oob.Before.reallen_eq (h : oob.Before c oobPostfix data s) : oob.reallen = data.length := by
  rw [← h.data_eq, Oob.data, length_load]

theorem take_append_of_suffix {stream : Bytes} (hlast : [c] <:+ stream)
    (hcame : pre <:+ stream) :
    pre <+: pre.take (pre.length - 1) ++ [c] ∧ pre.take (pre.length - 1) ++ [c] <:+ stream := by
  obtain ⟨before, rfl⟩ := hlast
  rcases suffix_concat_iff.mp hcame with hnil | ⟨front, rfl, -⟩
  · simp [hnil]
  · simpa using hcame

/-- **The start.**  A callback that has room for its prefix has all but the last byte of it, if
the prefix has just come. -/
theorem oobStart_before (hpost : oob.oobPostfix = some oobPostfix) (hzero : oob.reallen = 0)
    (hlast : [c] <:+ s.received) (hcame : oob.oobPrefix <:+ s.received)
    (hroom : oob.oobPrefix.length - 1 ≤ oob.maxlen) (hne : oob.oobPrefix ≠ [] ∨ oobPostfix ≠ []) :
    (oobStart s oob).2.Before c oobPostfix
        (oob.oobPrefix.take (oob.oobPrefix.length - 1)) (oobStart s oob).1 ∧
      Touches oob s (oobStart s oob).1 := by
  have hstart : oobStart s oob = ((s.write oob 0 (List.replicate oob.maxlen 0)).write oob 0
        (oob.oobPrefix.take (oob.oobPrefix.length - 1)),
        { oob with reallen := oob.oobPrefix.length - 1 }) := if_pos hzero
  have htake : (oob.oobPrefix.take (oob.oobPrefix.length - 1)).length =
      oob.oobPrefix.length - 1 := by simp
  obtain ⟨hstarts, hsuffix⟩ := take_append_of_suffix hlast hcame
  rw [hstart]
  refine ⟨⟨hpost, ?_, hroom, ?_, hstarts, hsuffix⟩, ?_⟩
  · have hload := load_store_self (store s.mem oob.oobinputdata (List.replicate oob.maxlen 0))
      oob.oobinputdata (oob.oobPrefix.take (oob.oobPrefix.length - 1))
    rwa [htake] at hload
  · refine awaits_of_length_lt ?_
    rw [htake]
    rcases hne with hpre | hpost
    · have := length_pos_iff.mpr hpre
      dsimp only
      omega
    · have := length_pos_iff.mpr hpost
      dsimp only
      omega
  · have hclear : Touches oob s (s.write oob 0 (List.replicate oob.maxlen 0)) :=
      touches_write s (by simp)
    exact hclear.trans (touches_write _ (by omega))

/-- What comes of a byte that a callback takes. -/
inductive Taken (c : UInt8) (oobPostfix data : Bytes) (s : AtParser) (oob : Oob) :
    AtParser × Oob → Prop
  | called (s' : AtParser) (htouch : Touches oob s s') (hroom : data.length < oob.maxlen)
      (hspans : Spans oob.oobPrefix oobPostfix (data ++ [c])) :
      Taken c oobPostfix data s oob ({ s' with
            calls := s.calls ++ [⟨oob.oobPrefix, some oobPostfix, some (data ++ [c])⟩]
            line := [] },
          { oob with reallen := 0 })
  | collected (s' : AtParser) (htouch : Touches oob s s') (hroom : data.length < oob.maxlen)
      (hspans : ¬ Spans oob.oobPrefix oobPostfix (data ++ [c]))
      (hdata : load s'.mem oob.oobinputdata (data.length + 1) = data ++ [c]) :
      Taken c oobPostfix data s oob (s', { oob with reallen := data.length + 1 })
  | dropped (s' : AtParser) (htouch : Touches oob s s') (hfull : oob.maxlen ≤ data.length) :
      Taken c oobPostfix data s oob ({ s' with line := [] }, { oob with reallen := 0 })

/-- **The byte.**  The code tests the length and the end of what is collected. -/
theorem oobTake_taken (h : oob.Before c oobPostfix data s) :
    Taken c oobPostfix data s oob (oobTake c oobPostfix s oob) := by
  have hlen := h.reallen_eq
  unfold oobTake
  by_cases hroom : oob.reallen < oob.maxlen
  · have hcopy : Touches oob s (s.write oob oob.reallen [c]) :=
      touches_write s (by simpa using hroom)
    have hdata : Oob.data (s.write oob oob.reallen [c]).mem
        { oob with reallen := oob.reallen + 1 } = data ++ [c] := by
      rw [← h.data_eq]
      exact load_store_succ s.mem oob.oobinputdata oob.reallen c
    rw [if_pos hroom]
    dsimp only
    rw [hdata, hlen]
    rw [hlen] at hroom hcopy hdata
    split_ifs with htest <;> rw [endsWith_iff] at htest
    · have hspans := (h.awaits.spans_concat_iff h.starts).mpr htest
      have hclear : Touches { oob with reallen := data.length + 1 } (s.write oob data.length [c])
          ((s.write oob data.length [c]).write { oob with reallen := data.length + 1 } 0
            (List.replicate (data.length + 1) 0)) := touches_write _ (by simpa using hroom)
      have hcalled : Taken c oobPostfix data s oob (_, _) :=
        .called _ (hcopy.trans (hclear.congr rfl rfl)) hroom hspans
      rw [← h.hasPostfix] at hcalled
      exact hcalled
    · exact Taken.collected _ hcopy hroom
        (fun hspans => htest ((h.awaits.spans_concat_iff h.starts).mp hspans)) hdata
  · rw [if_neg hroom]
    have hclear : Touches oob s (s.write oob 0 (List.replicate oob.reallen 0)) :=
      touches_write s (by simpa using h.length_le)
    exact Taken.dropped _ hclear (by omega)

/-! ## A pass of the scan -/

/-- What a callback has collected is the bytes of the stream from its prefix on, up to those in
`later`, and its postfix has not come. -/
structure Oob.Collects (oobPostfix : Bytes) (mem : Memory) (stream later : Bytes)
    (oob : Oob) : Prop where
  hasPostfix : oob.oobPostfix = some oobPostfix
  length_le : oob.reallen ≤ oob.maxlen
  starts : oob.oobPrefix <+: oob.data mem
  awaits : Awaits oob.oobPrefix oobPostfix (oob.data mem)
  suffix : oob.data mem ++ later <:+ stream

/-- A callback with a postfix was given the bytes from its prefix to the first postfix. -/
def OobCall.Exact (stream : Bytes) (call : OobCall) : Prop :=
  ∀ oobPostfix, call.oobPostfix = some oobPostfix →
    ∃ data, call.data = some data ∧ data <:+: stream ∧ Spans call.oobPrefix oobPostfix data

/-- The buffers of two callbacks share no byte. -/
def Oob.ApartFrom (oob other : Oob) : Prop :=
  Apart oob.oobinputdata oob.maxlen other.oobinputdata other.maxlen

/-- When a callback with a postfix starts, its prefix but for the last byte fits its buffer, its
prefix and its postfix are not both empty, and no other callback is collecting in its buffer. -/
def StartOk (s : AtParser) (k : ℕ) : Prop :=
  ∀ oob ∈ s.oobs[k]?, ∀ oobPostfix ∈ oob.oobPostfix, oob.reallen = 0 → oob.oobPrefix <:+ s.line →
    oob.oobPrefix.length - 1 ≤ oob.maxlen ∧ (oob.oobPrefix ≠ [] ∨ oobPostfix ≠ []) ∧
      ∀ other ∈ s.oobs, 0 < other.reallen → oob.ApartFrom other

instance (oob other : Oob) : Decidable (oob.ApartFrom other) :=
  inferInstanceAs (Decidable (Apart _ _ _ _))

instance (s : AtParser) (k : ℕ) : Decidable (StartOk s k) :=
  inferInstanceAs (Decidable (∀ oob ∈ s.oobs[k]?, ∀ oobPostfix ∈ oob.oobPostfix,
    oob.reallen = 0 → oob.oobPrefix <:+ s.line →
      oob.oobPrefix.length - 1 ≤ oob.maxlen ∧ (oob.oobPrefix ≠ [] ∨ oobPostfix ≠ []) ∧
        ∀ other ∈ s.oobs, 0 < other.reallen → oob.ApartFrom other))

/-- The callbacks collect apart from each other what they should; `later k` is what the callback
`k` has not seen yet of the bytes that were read. -/
structure OobsOk (later : ℕ → Bytes) (s : AtParser) : Prop where
  collects : ∀ (k : ℕ) (oob : Oob), s.oobs[k]? = some oob → 0 < oob.reallen →
    ∃ oobPostfix, oob.Collects oobPostfix s.mem s.received (later k)
  apart : ∀ (k j : ℕ) (oob other : Oob), k ≠ j → s.oobs[k]? = some oob →
    s.oobs[j]? = some other → 0 < oob.reallen → 0 < other.reallen → oob.ApartFrom other
  writes : ∀ w ∈ s.writes, w.upto ≤ w.maxlen
  calls : ∀ call ∈ s.calls, call.Exact s.received

/-- The state before the pass `k` of the scan for the byte `c`.  The line buffer is not full
after a callback that collects has seen the byte. -/
structure ScanInv (c : UInt8) (k : ℕ) (s : AtParser) : Prop where
  oobs : OobsOk (fun j => if j < k then [] else [c]) s
  last : [c] <:+ s.received
  line_suffix : s.line <:+ s.received
  line_le : s.line.length ≤ recvBufferSize - 1
  room : ∀ (j : ℕ) (oob : Oob), j < k → s.oobs[j]? = some oob → 0 < oob.reallen →
    s.line.length ≤ recvBufferSize - 2

theorem Oob.Collects.before (h : oob.Collects oobPostfix s.mem s.received [c]) :
    oob.Before c oobPostfix (oob.data s.mem) s :=
  ⟨h.hasPostfix, rfl, h.length_le, h.awaits, h.starts.trans (prefix_append _ _), h.suffix⟩

theorem Taken.of_touches {s₁ : AtParser} {n : ℕ} {r : AtParser × Oob} (htouch : Touches oob s s₁)
    (h : Taken c oobPostfix data s₁ { oob with reallen := n } r) :
    Taken c oobPostfix data s oob r := by
  cases h with
  | called s' hnext hroom hspans =>
    rw [htouch.calls_eq]
    exact .called s' (htouch.trans (hnext.congr rfl rfl)) hroom hspans
  | collected s' hnext hroom hspans hdata =>
    exact .collected s' (htouch.trans (hnext.congr rfl rfl)) hroom hspans hdata
  | dropped s' hnext hfull => exact .dropped s' (htouch.trans (hnext.congr rfl rfl)) hfull

/-- What a pass does: nothing, the call of a callback without a postfix, or the byte is taken. -/
inductive PassCase (c : UInt8) (s : AtParser) (k : ℕ) : AtParser → Prop
  | idle (hzero : ∀ oob, s.oobs[k]? = some oob → oob.reallen = 0) : PassCase c s k s
  | bare (oob : Oob) (hoob : s.oobs[k]? = some oob) (hzero : oob.reallen = 0) : PassCase c s k
        { s with calls := s.calls ++ [⟨oob.oobPrefix, none, none⟩], line := [] }
  | taken (oob : Oob) (oobPostfix data : Bytes) (r : AtParser × Oob)
      (hoob : s.oobs[k]? = some oob) (hpost : oob.oobPostfix = some oobPostfix)
      (hdata : 0 < oob.reallen → data = oob.data s.mem)
      (hawaits : Awaits oob.oobPrefix oobPostfix data)
      (hstarts : oob.oobPrefix <+: data ++ [c]) (hsuffix : data ++ [c] <:+ s.received)
      (hapart : ∀ (j : ℕ) (other : Oob), k ≠ j → s.oobs[j]? = some other → 0 < other.reallen →
        oob.ApartFrom other)
      (h : Taken c oobPostfix data s oob r) :
      PassCase c s k (emptyFull { r.1 with oobs := r.1.oobs.set k r.2 })

variable {k : ℕ}

theorem ScanInv.pass (h : ScanInv c k s) (hok : StartOk s k) : PassCase c s k (scanPass c s k) := by
  unfold scanPass
  cases hoob : s.oobs[k]? with
  | none => exact .idle (by simp [hoob])
  | some oob =>
    have hcollects : 0 < oob.reallen →
        ∃ oobPostfix, oob.Collects oobPostfix s.mem s.received [c] := by
      simpa using h.oobs.collects k oob hoob
    dsimp only
    -- the byte ends the prefix of the callback, or goes on with what it collects
    split_ifs with hmatch
    · cases hpost : oob.oobPostfix with
      | none =>
        refine .bare oob hoob (Nat.eq_zero_of_not_pos fun hpos => ?_)
        obtain ⟨oobPostfix, hcollect⟩ := hcollects hpos
        exact nomatch hpost.symm.trans hcollect.hasPostfix
      | some oobPostfix =>
        -- the callback is started, or it has been before
        rcases Nat.eq_zero_or_pos oob.reallen with hzero | hpos
        · have hline : oob.oobPrefix <:+ s.line := by simpa [hzero] using hmatch
          obtain ⟨hroom, hne, hapart⟩ := hok oob hoob oobPostfix hpost hzero hline
          obtain ⟨hbefore, htouch⟩ := oobStart_before hpost hzero h.last
            (hline.trans h.line_suffix) hroom hne
          have hsecond : (oobStart s oob).2 =
              { oob with reallen := (oobStart s oob).2.reallen } := by
            unfold oobStart
            split_ifs
            rfl
          have htaken := oobTake_taken hbefore
          rw [hsecond] at hbefore htaken
          refine .taken oob oobPostfix _ _ hoob hpost (fun hpos => by omega) hbefore.awaits
            hbefore.starts (htouch.received_eq ▸ hbefore.suffix) ?_
            (hsecond ▸ htaken.of_touches htouch)
          exact fun j other _ hother => hapart other (mem_of_getElem? hother)
        · obtain ⟨oobPostfix', hcollect⟩ := hcollects hpos
          obtain rfl : oobPostfix' = oobPostfix :=
            some_inj.mp (hcollect.hasPostfix.symm.trans hpost)
          have hstart : oobStart s oob = (s, oob) := if_neg (by omega)
          rw [hstart]
          exact .taken oob oobPostfix' _ _ hoob hpost (fun _ => rfl) hcollect.awaits
            hcollect.before.starts hcollect.suffix
            (fun j other hne hother => h.oobs.apart k j oob other hne hoob hother hpos)
            (oobTake_taken hcollect.before)
    · refine .idle fun other hother => ?_
      rw [hoob, some_inj] at hother
      rw [← hother]
      omega

/-- What a pass leaves alone, and what it leaves behind for the callback that it is about. -/
structure PassFrame (k : ℕ) (s s' : AtParser) : Prop where
  received : s'.received = s.received
  line : s'.line = s.line ∨ s'.line = []
  length : s'.oobs.length = s.oobs.length
  others : ∀ j, k ≠ j → s'.oobs[j]? = s.oobs[j]?
  data : ∀ (j : ℕ) (other : Oob), k ≠ j → s.oobs[j]? = some other → 0 < other.reallen →
    other.data s'.mem = other.data s.mem
  writes : ∀ w ∈ s'.writes, w.upto ≤ w.maxlen
  calls : ∃ news, s'.calls = s.calls ++ news ∧ ∀ call ∈ news, call.Exact s.received
  collects : ∀ oob, s'.oobs[k]? = some oob → 0 < oob.reallen →
    (∃ oobPostfix, oob.Collects oobPostfix s'.mem s.received []) ∧
      s'.line.length ≤ recvBufferSize - 2 ∧
      ∀ (j : ℕ) (other : Oob), k ≠ j → s.oobs[j]? = some other → 0 < other.reallen →
        oob.ApartFrom other

theorem emptyFull_eq (s : AtParser) :
    ∃ line, emptyFull s = { s with line := line } ∧ (line = s.line ∨ line = []) ∧
      line.length ≤ recvBufferSize - 2 := by
  unfold emptyFull
  split_ifs with hfull
  · exact ⟨[], rfl, .inr rfl, Nat.zero_le _⟩
  · exact ⟨s.line, rfl, Or.inl rfl, by omega⟩

/-- The callback `k` becomes `oob'`, which has the same buffer, and nothing is written outside
that. -/
theorem Touches.frame {k : ℕ} {s s' : AtParser} {oob oob' : Oob} {line : Bytes}
    {news : List OobCall} (htouch : Touches oob s s') (hoob : s.oobs[k]? = some oob)
    (hlen : ∀ (j : ℕ) (other : Oob), s.oobs[j]? = some other → 0 < other.reallen →
      other.reallen ≤ other.maxlen)
    (hapart : ∀ (j : ℕ) (other : Oob), k ≠ j → s.oobs[j]? = some other → 0 < other.reallen →
      oob.ApartFrom other)
    (hwrites : ∀ w ∈ s.writes, w.upto ≤ w.maxlen) (hline : line = s.line ∨ line = [])
    (hnews : ∀ call ∈ news, call.Exact s.received)
    (hsame : oob'.oobinputdata = oob.oobinputdata ∧ oob'.maxlen = oob.maxlen)
    (hcollects : 0 < oob'.reallen →
      (∃ oobPostfix, oob'.Collects oobPostfix s'.mem s.received []) ∧
        line.length ≤ recvBufferSize - 2) :
    PassFrame k s
      { s' with oobs := s.oobs.set k oob', line := line, calls := s.calls ++ news } where
  received := htouch.received_eq
  line := hline
  length := length_set
  others j hne := List.getElem?_set_ne hne
  data j other hne hother hpos := htouch.data_eq (hlen j other hother hpos)
    (hapart j other hne hother hpos)
  writes := htouch.writes hwrites
  calls := ⟨news, rfl, hnews⟩
  collects := by
    intro oob'' hoob'' hpos
    rw [List.getElem?_set_self (List.getElem?_eq_some_iff.mp hoob).1] at hoob''
    obtain rfl := some_inj.mp hoob''
    obtain ⟨hcollect, hroom⟩ := hcollects hpos
    refine ⟨hcollect, hroom, fun j other hne hother hpos' => ?_⟩
    have := hapart j other hne hother hpos'
    unfold Oob.ApartFrom at this ⊢
    rwa [hsame.1, hsame.2]

theorem PassCase.frame (h : ScanInv c k s) (hcase : PassCase c s k s') : PassFrame k s s' := by
  have hlen : ∀ (j : ℕ) (other : Oob), s.oobs[j]? = some other → 0 < other.reallen →
      other.reallen ≤ other.maxlen := fun j other hother hpos =>
    (h.oobs.collects j other hother hpos).choose_spec.length_le
  -- the callback was not started, has no postfix, or takes the byte
  cases hcase with
  | idle hzero =>
    refine ⟨rfl, .inl rfl, rfl, fun _ _ => rfl, fun _ _ _ _ _ => rfl, h.oobs.writes,
      ⟨[], (append_nil _).symm, forall_mem_nil _⟩, fun oob hoob hpos => ?_⟩
    have := hzero oob hoob
    omega
  | bare oob hoob hzero =>
    refine ⟨rfl, .inr rfl, rfl, fun _ _ => rfl, fun _ _ _ _ _ => rfl, h.oobs.writes,
      ⟨_, rfl, ?_⟩, fun other hother hpos => ?_⟩
    · exact forall_mem_singleton.mpr fun _ hsome => nomatch hsome
    · obtain rfl := some_inj.mp (hoob.symm.trans hother)
      omega
  | taken oob oobPostfix data r hoob hpost hdata hawaits hstarts hsuffix hapart htaken =>
    obtain ⟨line, heq, hline, hroom⟩ := emptyFull_eq { r.1 with oobs := r.1.oobs.set k r.2 }
    rw [heq]
    cases htaken with
    | called s' htouch hfits hspans =>
      have hcall : ∀ call ∈ [OobCall.mk oob.oobPrefix (some oobPostfix) (some (data ++ [c]))],
          call.Exact s.received := by
        refine forall_mem_singleton.mpr fun oobPostfix' hsome => ?_
        obtain rfl := some_inj.mp hsome
        exact ⟨_, rfl, hsuffix.isInfix, hspans⟩
      dsimp only at hline ⊢
      rw [htouch.oobs_eq]
      exact htouch.frame hoob hlen hapart h.oobs.writes (.inr (or_self_iff.mp hline)) hcall
        ⟨rfl, rfl⟩ (fun hpos => absurd hpos (lt_irrefl 0))
    | collected s' htouch hfits hspans hload =>
      dsimp only at hline ⊢
      rw [htouch.line_eq] at hline
      have hframe : PassFrame k s { s' with
          oobs := s.oobs.set k { oob with reallen := data.length + 1 }
          line := line
          calls := s.calls ++ [] } := by
        refine htouch.frame hoob hlen hapart h.oobs.writes hline (forall_mem_nil _)
          ⟨rfl, rfl⟩ fun _ => ⟨⟨oobPostfix, hpost, hfits, ?_, ?_, ?_⟩, hroom⟩
        · simpa [Oob.data, hload] using hstarts
        · simpa [Oob.data, hload] using hawaits.concat hspans
        · simpa [Oob.data, hload] using hsuffix
      rwa [append_nil, ← htouch.calls_eq, ← htouch.oobs_eq] at hframe
    | dropped s' htouch hfull =>
      dsimp only at hline ⊢
      have hframe : PassFrame k s { s' with
          oobs := s.oobs.set k { oob with reallen := 0 }
          line := line
          calls := s.calls ++ [] } :=
        htouch.frame hoob hlen hapart h.oobs.writes (.inr (or_self_iff.mp hline))
          (forall_mem_nil _) ⟨rfl, rfl⟩ (fun hpos => absurd hpos (lt_irrefl 0))
      rwa [append_nil, ← htouch.calls_eq, ← htouch.oobs_eq] at hframe

/-! ## The scan -/

theorem Oob.Collects.congr {stream later : Bytes} {mem mem' : Memory}
    (h : oob.Collects oobPostfix mem stream later) (hdata : oob.data mem' = oob.data mem) :
    oob.Collects oobPostfix mem' stream later :=
  ⟨h.hasPostfix, h.length_le, hdata ▸ h.starts, hdata ▸ h.awaits, hdata ▸ h.suffix⟩

theorem Oob.ApartFrom.symm {other : Oob} (h : oob.ApartFrom other) : other.ApartFrom oob :=
  Apart.symm h

theorem ScanInv.succ (h : ScanInv c k s) (hframe : PassFrame k s s') : ScanInv c (k + 1) s' := by
  have hline : s'.line.length ≤ s.line.length := by
    rcases hframe.line with hsame | hnil
    · rw [hsame]
    · simp [hnil]
  refine ⟨⟨fun j oob hoob hpos => ?_, fun j i oob other hne hoob hother hpos hpos' => ?_,
    hframe.writes, fun call hcall => ?_⟩, hframe.received ▸ h.last, ?_, hline.trans h.line_le,
    fun j oob hj hoob hpos => ?_⟩
  · rw [hframe.received]
    by_cases hkj : k = j
    · subst hkj
      simpa using (hframe.collects oob hoob hpos).1
    rw [hframe.others j hkj] at hoob
    obtain ⟨oobPostfix, hcollect⟩ := h.oobs.collects j oob hoob hpos
    have hlater : (if j < k + 1 then [] else [c]) = (if j < k then [] else [c]) :=
      if_congr (by omega) rfl rfl
    refine ⟨oobPostfix, ?_⟩
    rw [hlater]
    exact hcollect.congr (hframe.data j oob hkj hoob hpos)
  · by_cases hkj : k = j
    · subst hkj
      rw [hframe.others i hne] at hother
      exact (hframe.collects oob hoob hpos).2.2 i other hne hother hpos'
    rw [hframe.others j hkj] at hoob
    by_cases hki : k = i
    · subst hki
      exact ((hframe.collects other hother hpos').2.2 j oob hkj hoob hpos).symm
    · rw [hframe.others i hki] at hother
      exact h.oobs.apart j i oob other hne hoob hother hpos hpos'
  · obtain ⟨news, heq, hnews⟩ := hframe.calls
    rw [hframe.received]
    rcases mem_append.mp (heq ▸ hcall) with hold | hnew
    · exact h.oobs.calls call hold
    · exact hnews call hnew
  · rw [hframe.received]
    rcases hframe.line with hsame | hnil
    · exact hsame ▸ h.line_suffix
    · simp [hnil]
  · by_cases hkj : k = j
    · subst hkj
      exact (hframe.collects oob hoob hpos).2.1
    · rw [hframe.others j hkj] at hoob
      exact hline.trans (h.room j oob (by omega) hoob hpos)

/-- The callback `k` is collecting, and it has collected `data`. -/
def Collecting (k : ℕ) (oobPrefix oobPostfix : Bytes) (maxlen : ℕ) (data : Bytes)
    (s : AtParser) : Prop :=
  ∃ oob, s.oobs[k]? = some oob ∧ oob.oobPrefix = oobPrefix ∧ oob.oobPostfix = some oobPostfix ∧
    oob.maxlen = maxlen ∧ 0 < oob.reallen ∧ oob.data s.mem = data

/-- The callback `k`, which had collected `data`, has taken the byte `c`. -/
def Advanced (c : UInt8) (k : ℕ) (oobPrefix oobPostfix : Bytes) (maxlen : ℕ)
    (data : Bytes) (s : AtParser) : Prop :=
  (Spans oobPrefix oobPostfix (data ++ [c]) →
    ⟨oobPrefix, some oobPostfix, some (data ++ [c])⟩ ∈ s.calls) ∧
  (¬ Spans oobPrefix oobPostfix (data ++ [c]) →
    Collecting k oobPrefix oobPostfix maxlen (data ++ [c]) s)

variable {oobPrefix : Bytes} {maxlen : ℕ}

theorem PassFrame.collecting {j : ℕ} (hframe : PassFrame k s s') (hne : k ≠ j)
    (h : Collecting j oobPrefix oobPostfix maxlen data s) :
    Collecting j oobPrefix oobPostfix maxlen data s' := by
  obtain ⟨oob, hoob, hpre, hpost, hmax, hpos, hdata⟩ := h
  exact ⟨oob, (hframe.others j hne).trans hoob, hpre, hpost, hmax, hpos,
    (hframe.data j oob hne hoob hpos).trans hdata⟩

theorem PassFrame.advanced {j : ℕ} (hframe : PassFrame k s s') (hne : k ≠ j)
    (h : Advanced c j oobPrefix oobPostfix maxlen data s) :
    Advanced c j oobPrefix oobPostfix maxlen data s' := by
  obtain ⟨news, heq, -⟩ := hframe.calls
  exact ⟨fun hspans => heq ▸ mem_append_left news (h.1 hspans),
    fun hspans => hframe.collecting hne (h.2 hspans)⟩

theorem PassCase.advanced (hcase : PassCase c s k s')
    (h : Collecting k oobPrefix oobPostfix maxlen data s) (hroom : data.length < maxlen) :
    Advanced c k oobPrefix oobPostfix maxlen data s' := by
  obtain ⟨oob, hoob, rfl, hpost, rfl, hpos, rfl⟩ := h
  cases hcase with
  | idle hzero =>
    have := hzero oob hoob
    omega
  | bare other hother hzero =>
    obtain rfl := some_inj.mp (hoob.symm.trans hother)
    omega
  | taken other oobPostfix' data r hother hpost' hdata _ _ _ _ htaken =>
    obtain rfl := some_inj.mp (hoob.symm.trans hother)
    obtain rfl := some_inj.mp (hpost.symm.trans hpost')
    obtain rfl := hdata hpos
    obtain ⟨line, heq, -, -⟩ := emptyFull_eq { r.1 with oobs := r.1.oobs.set k r.2 }
    rw [heq]
    cases htaken with
    | called s' htouch hfits hspans =>
      exact ⟨fun _ => by simp, fun hnot => absurd hspans hnot⟩
    | collected s' htouch hfits hspans hload =>
      refine ⟨fun hyes => absurd hyes hspans, fun _ =>
        ⟨{ oob with reallen := (oob.data s.mem).length + 1 }, ?_, rfl, hpost, rfl,
          Nat.succ_pos _, hload⟩⟩
      have hk : k < s'.oobs.length := by
        rw [htouch.oobs_eq]
        exact (List.getElem?_eq_some_iff.mp hoob).1
      exact List.getElem?_set_self hk
    | dropped s' htouch hfull => omega

/-- The passes of the scan keep the invariant, each time for the callbacks seen so far. -/
theorem ScanInv.passes (h : ScanInv c 0 s) :
    ∀ n, AllSteps (scanPass c) StartOk s (List.range n) →
      ScanInv c n ((List.range n).foldl (scanPass c) s) ∧
        ((List.range n).foldl (scanPass c) s).oobs.length = s.oobs.length
  | 0, _ => ⟨h, rfl⟩
  | n + 1, hall => by
      rw [range_succ, allSteps_append] at hall
      obtain ⟨hinv, hlen⟩ := h.passes n hall.1
      have hframe := (hinv.pass hall.2.1).frame hinv
      rw [range_succ, foldl_append]
      exact ⟨hinv.succ hframe, hframe.length.trans hlen⟩

/-- The byte comes to a callback that is collecting in the pass that is about it. -/
theorem ScanInv.advanced (h : ScanInv c 0 s)
    (hcollecting : Collecting k oobPrefix oobPostfix maxlen data s) (hroom : data.length < maxlen) :
    ∀ n, AllSteps (scanPass c) StartOk s (List.range n) →
      (n ≤ k → Collecting k oobPrefix oobPostfix maxlen data
        ((List.range n).foldl (scanPass c) s)) ∧
      (k < n → Advanced c k oobPrefix oobPostfix maxlen data ((List.range n).foldl (scanPass c) s))
  | 0, _ => ⟨fun _ => hcollecting, fun hk => absurd hk (Nat.not_lt_zero k)⟩
  | n + 1, hall => by
      rw [range_succ, allSteps_append] at hall
      obtain ⟨hinv, -⟩ := h.passes n hall.1
      obtain ⟨hbefore, hafter⟩ := h.advanced hcollecting hroom n hall.1
      have hcase := hinv.pass hall.2.1
      have hframe := hcase.frame hinv
      rw [range_succ, foldl_append]
      refine ⟨fun hk => hframe.collecting (by omega) (hbefore (by omega)), fun hk => ?_⟩
      rcases Nat.lt_succ_iff_lt_or_eq.mp hk with hlt | heq
      · exact hframe.advanced (by omega) (hafter hlt)
      · subst heq
        exact hcase.advanced (hbefore le_rfl) hroom

end Iotkit.At
