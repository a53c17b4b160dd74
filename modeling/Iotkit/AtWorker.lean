/-
# Runs of the AT worker

The line buffer holds the end of what the worker has read, and after each byte it has room for
the next two, or it is full of a delimiter of 511 bytes and the worker takes no byte any more.
A longer delimiter than the buffer holds makes `check_buffer` copy from below the buffer.
-/
import Iotkit.AtOob

namespace Iotkit.At

open FlatMemory GuardedRun List

/-! ## What the runs must meet -/

variable (s : AtParser)

/-- A registration that is accepted clears a buffer in which no callback is collecting. -/
def RegisterOk (a : OobArgs) : Prop :=
  (atRegisterCallback s a).1 = 0 → a.recvbuf ≠ 0 →
    ∀ oob ∈ s.oobs, 0 < oob.reallen →
      Apart a.recvbuf a.bufsize.toNat oob.oobinputdata oob.maxlen

/-- The line buffer holds the delimiters that are kept of it when it is full. -/
def CheckOk : Prop :=
  recvBufferSize - 2 < s.line.length → s.delims.memcpySize ≤ s.line.length

/-- The byte `c` comes to the line buffer. -/
def AtParser.receive (c : UInt8) : AtParser :=
  { s with received := s.received ++ [c], line := s.line ++ [c] }

/-- In a pass of the worker that has room for the byte, the passes of the scan start what they
may start and the delimiters fit the line buffer. -/
def ByteOk (c : UInt8) : Prop :=
  s.line.length + 1 < recvBufferSize →
    AllSteps (scanPass c) StartOk (s.receive c) (List.range s.oobs.length) ∧
      CheckOk (atWorkerTask c (atScanForCallback c (s.receive c)))

/-- What is asked of a step. -/
def AtParserOk : AtEvent → Prop
  | .registerCallback a => RegisterOk s a
  | .taskAdd _ _ => True
  | .taskDel _ => True
  | .byte c => ByteOk s c

instance (s : AtParser) (a : OobArgs) : Decidable (RegisterOk s a) :=
  inferInstanceAs (Decidable ((atRegisterCallback s a).1 = 0 → a.recvbuf ≠ 0 →
    ∀ oob ∈ s.oobs, 0 < oob.reallen →
      Apart a.recvbuf a.bufsize.toNat oob.oobinputdata oob.maxlen))

instance (s : AtParser) (c : UInt8) : Decidable (ByteOk s c) :=
  have (s' : AtParser) : Decidable (CheckOk s') :=
    inferInstanceAs (Decidable (recvBufferSize - 2 < s'.line.length →
      s'.delims.memcpySize ≤ s'.line.length))
  inferInstanceAs (Decidable (s.line.length + 1 < recvBufferSize →
    AllSteps (scanPass c) StartOk (s.receive c) (List.range s.oobs.length) ∧
      CheckOk (atWorkerTask c (atScanForCallback c (s.receive c)))))

instance : ∀ (s : AtParser) (e : AtEvent), Decidable (AtParserOk s e)
  | s, .registerCallback a => inferInstanceAs (Decidable (RegisterOk s a))
  | _, .taskAdd _ _ => .isTrue trivial
  | _, .taskDel _ => .isTrue trivial
  | s, .byte c => inferInstanceAs (Decidable (ByteOk s c))

/-! ## The invariant -/

/-- The line buffer ends with the last byte and has room, or the worker is stuck. -/
def LineOk : Prop :=
  (s.line.length ≤ recvBufferSize - 2 ∧ s.line <:+ s.received) ∨
    (s.line.length = recvBufferSize - 1 ∧ s.delims.memcpySize = recvBufferSize - 1 ∧
      ∀ oob ∈ s.oobs, oob.reallen = 0)

structure AtInv (s : AtParser) : Prop where
  oobs : OobsOk (fun _ => []) s
  line : LineOk s

theorem OobCall.Exact.mono {stream stream' : Bytes} {call : OobCall}
    (h : call.Exact stream) (hstream : stream <:+: stream') : call.Exact stream' := by
  intro oobPostfix hpost
  obtain ⟨data, hdata, hinfix, hspans⟩ := h oobPostfix hpost
  exact ⟨data, hdata, hinfix.trans hstream, hspans⟩

variable {s : AtParser}

theorem OobsOk.receive (h : OobsOk (fun _ => []) s) (c : UInt8) :
    OobsOk (fun _ => [c]) (s.receive c) := by
  refine ⟨fun k oob hoob hpos => ?_, h.apart, h.writes, fun call hcall =>
    (h.calls call hcall).mono (prefix_append _ _).isInfix⟩
  obtain ⟨oobPostfix, hcollect⟩ := h.collects k oob hoob hpos
  have hsuffix := hcollect.suffix
  rw [append_nil] at hsuffix
  obtain ⟨before, hbefore⟩ := hsuffix
  refine ⟨oobPostfix, hcollect.hasPostfix, hcollect.length_le, hcollect.starts, hcollect.awaits,
    before, ?_⟩
  exact (append_assoc _ _ _).symm.trans (congrArg (· ++ [c]) hbefore)

theorem scanInv_receive (h : OobsOk (fun _ => []) s) (hroom : s.line.length ≤ recvBufferSize - 2)
    (hline : s.line <:+ s.received) (c : UInt8) : ScanInv c 0 (s.receive c) := by
  refine ⟨h.receive c, suffix_append _ _, ?_, ?_, fun j _ hj => absurd hj (Nat.not_lt_zero j)⟩
  · obtain ⟨before, hbefore⟩ := hline
    exact ⟨before, by rw [AtParser.receive, ← hbefore, append_assoc]⟩
  · rw [AtParser.receive, length_append, length_singleton]
    simp only [recvBufferSize] at hroom ⊢
    omega

variable {c : UInt8}

/-- After the scan all callbacks have seen the byte, and the line buffer is not full when one is
collecting. -/
theorem scan_done (h : ScanInv c 0 s)
    (hall : AllSteps (scanPass c) StartOk s (List.range s.oobs.length)) :
    OobsOk (fun _ => []) (atScanForCallback c s) ∧
      (atScanForCallback c s).line <:+ (atScanForCallback c s).received ∧
      (atScanForCallback c s).line.length ≤ recvBufferSize - 1 ∧
      ∀ oob ∈ (atScanForCallback c s).oobs, 0 < oob.reallen →
        (atScanForCallback c s).line.length ≤ recvBufferSize - 2 := by
  obtain ⟨hinv, hlen⟩ := h.passes s.oobs.length hall
  refine ⟨⟨fun k oob hoob hpos => ?_, hinv.oobs.apart, hinv.oobs.writes, hinv.oobs.calls⟩,
    hinv.line_suffix, hinv.line_le, fun oob hmem hpos => ?_⟩
  · have hk := (List.getElem?_eq_some_iff.mp hoob).1
    rw [atScanForCallback, hlen] at hk
    simpa [atScanForCallback, hk] using hinv.oobs.collects k oob hoob hpos
  · obtain ⟨k, hoob⟩ := List.getElem?_of_mem hmem
    have hk := (List.getElem?_eq_some_iff.mp hoob).1
    rw [atScanForCallback, hlen] at hk
    exact hinv.room k oob hk hoob hpos

theorem atWorkerTask_eq (c : UInt8) (s : AtParser) :
    ∃ tasks rspBegin delims line, (line = s.line ∨ line = []) ∧
      atWorkerTask c s =
        { s with tasks := tasks, rspBegin := rspBegin, delims := delims, line := line } := by
  unfold atWorkerTask
  cases s.tasks with
  | nil => exact ⟨s.tasks, s.rspBegin, s.delims, s.line, .inl rfl, rfl⟩
  | cons tsk tasks =>
    dsimp only
    split_ifs with hbegun hdone
    · exact ⟨_, _, _, [], .inr rfl, rfl⟩
    · exact ⟨_, _, _, s.line, .inl rfl, rfl⟩
    · exact ⟨_, s.rspBegin, _, s.line, .inl rfl, rfl⟩

theorem checkBuffer_inv {s : AtParser} (h : OobsOk (fun _ => []) s)
    (hline : s.line <:+ s.received) (hle : s.line.length ≤ recvBufferSize - 1)
    (hroom : ∀ oob ∈ s.oobs, 0 < oob.reallen → s.line.length ≤ recvBufferSize - 2)
    (hok : CheckOk s) : AtInv (checkBuffer s) := by
  unfold checkBuffer
  split_ifs with hfull
  · have hkept := hok hfull
    have hlen : s.line.length = recvBufferSize - 1 := by
      simp only [recvBufferSize] at hle hfull ⊢
      omega
    have hzero : s.delims.memcpySize - s.line.length = 0 := by omega
    refine ⟨⟨h.collects, h.apart, h.writes, h.calls⟩, ?_⟩
    rw [hzero, replicate_zero, nil_append]
    have hsize : (s.line.drop (s.line.length - s.delims.memcpySize)).length =
        s.delims.memcpySize := by
      rw [length_drop]
      omega
    rcases Nat.lt_or_ge s.delims.memcpySize (recvBufferSize - 1) with hless | hmore
    · refine .inl ⟨?_, (drop_suffix _ _).trans hline⟩
      dsimp only
      simp only [recvBufferSize] at hless ⊢
      omega
    refine .inr ⟨?_, ?_, fun oob hmem => Nat.eq_zero_of_not_pos fun hpos => ?_⟩
    · dsimp only
      omega
    · dsimp only
      omega
    · have := hroom oob hmem hpos
      omega
  · exact ⟨h, Or.inl ⟨by omega, hline⟩⟩

theorem atWorkerPass_of_room (hroom : s.line.length ≤ recvBufferSize - 2) :
    atWorkerPass s c = checkBuffer (atWorkerTask c (atScanForCallback c (s.receive c))) := by
  have hnot : ¬ recvBufferSize ≤ s.line.length + 1 := by
    simp only [recvBufferSize] at hroom ⊢
    omega
  exact if_neg hnot

theorem atWorkerPass_of_stuck (hlen : s.line.length = recvBufferSize - 1)
    (hsize : s.delims.memcpySize = recvBufferSize - 1) :
    atWorkerPass s c = { s with received := s.received ++ [c] } := by
  have hfull : recvBufferSize ≤ s.line.length + 1 := by
    rw [hlen]
    decide
  have hover : recvBufferSize - 2 < s.line.length := by
    rw [hlen]
    decide
  unfold atWorkerPass
  dsimp only
  rw [if_pos hfull, checkBuffer, if_pos hover]
  simp [hlen, hsize]

theorem AtInv.byte (h : AtInv s) (hok : ByteOk s c) : AtInv (atWorkerPass s c) := by
  rcases h.line with ⟨hroom, hline⟩ | ⟨hlen, hsize, hzero⟩
  · have hspace : s.line.length + 1 < recvBufferSize := by
      simp only [recvBufferSize] at hroom ⊢
      omega
    obtain ⟨hall, hcheck⟩ := hok hspace
    obtain ⟨hoobs, hsuffix, hle, hspare⟩ := scan_done (scanInv_receive h.oobs hroom hline c) hall
    obtain ⟨tasks, rspBegin, delims, line, hempty, heq⟩ :=
      atWorkerTask_eq c (atScanForCallback c (s.receive c))
    have hlineLen : line.length ≤ (atScanForCallback c (s.receive c)).line.length := by
      rcases hempty with rfl | rfl
      · exact le_rfl
      · exact Nat.zero_le _
    rw [atWorkerPass_of_room hroom]
    rw [heq] at hcheck ⊢
    refine checkBuffer_inv ⟨hoobs.collects, hoobs.apart, hoobs.writes, hoobs.calls⟩ ?_
      (hlineLen.trans hle) (fun oob hmem hpos => hlineLen.trans (hspare oob hmem hpos)) hcheck
    rcases hempty with rfl | rfl
    · exact hsuffix
    · exact nil_suffix
  · rw [atWorkerPass_of_stuck hlen hsize]
    refine ⟨⟨fun k oob hoob hpos => ?_, h.oobs.apart, h.oobs.writes, fun call hcall =>
      (h.oobs.calls call hcall).mono (prefix_append _ _).isInfix⟩,
      .inr ⟨hlen, hsize, hzero⟩⟩
    have := hzero oob (mem_of_getElem? hoob)
    omega

/-- What a registration leaves alone. -/
structure RegisterFrame (s s' : AtParser) : Prop where
  oobs : ∃ news, s'.oobs = s.oobs ++ news ∧ ∀ oob ∈ news, oob.reallen = 0
  data : ∀ oob ∈ s.oobs, 0 < oob.reallen → oob.data s'.mem = oob.data s.mem
  writes : ∀ w ∈ s'.writes, w.upto ≤ w.maxlen
  line : s'.line = s.line
  received : s'.received = s.received
  calls : s'.calls = s.calls
  delims : s'.delims = s.delims

theorem OobsOk.registerFrame (h : OobsOk (fun _ => []) s) {a : OobArgs} (hok : RegisterOk s a) :
    RegisterFrame s (atRegisterCallback s a).2 := by
  have hrefused : RegisterFrame s s :=
    ⟨⟨[], (append_nil _).symm, forall_mem_nil _⟩, fun _ _ _ => rfl, h.writes, rfl,
      rfl, rfl, rfl⟩
  unfold RegisterOk at hok
  unfold atRegisterCallback at hok ⊢
  cases hpre : a.oobPrefix with
  | none => exact hrefused
  | some oobPrefix =>
    simp only [hpre] at hok
    dsimp only
    split_ifs at hok ⊢ with hsize hbuf hmax hexists hnull
    · exact hrefused
    · exact hrefused
    · exact hrefused
    · exact hrefused
    · exact ⟨⟨[_], rfl, forall_mem_singleton.mpr rfl⟩, fun _ _ _ => rfl, h.writes, rfl,
        rfl, rfl, rfl⟩
    · have htouch : Touches ⟨oobPrefix, a.oobPostfix, a.recvbuf, 0, a.bufsize.toNat⟩ s
          (s.write ⟨oobPrefix, a.oobPostfix, a.recvbuf, 0, a.bufsize.toNat⟩ 0
            (List.replicate a.bufsize.toNat 0)) := touches_write s (by simp)
      refine ⟨⟨[_], rfl, forall_mem_singleton.mpr rfl⟩, fun oob hmem hpos => ?_,
        htouch.writes h.writes, rfl, rfl, rfl, rfl⟩
      obtain ⟨k, hoob⟩ := List.getElem?_of_mem hmem
      obtain ⟨oobPostfix, hcollect⟩ := h.collects k oob hoob hpos
      exact htouch.data_eq hcollect.length_le (hok rfl hnull oob hmem hpos)

variable {k : ℕ}

theorem RegisterFrame.getElem? {s' : AtParser} (h : RegisterFrame s s') {oob : Oob}
    (hoob : s'.oobs[k]? = some oob) (hpos : 0 < oob.reallen) : s.oobs[k]? = some oob := by
  obtain ⟨news, heq, hnews⟩ := h.oobs
  rw [heq] at hoob
  rcases Nat.lt_or_ge k s.oobs.length with hlt | hge
  · rwa [List.getElem?_append_left hlt] at hoob
  · rw [List.getElem?_append_right hge] at hoob
    have := hnews oob (mem_of_getElem? hoob)
    omega

theorem OobsOk.register {s' : AtParser} (h : OobsOk (fun _ => []) s) (hframe : RegisterFrame s s') :
    OobsOk (fun _ => []) s' := by
  refine ⟨fun k oob hoob hpos => ?_, fun k j oob other hne hoob hother hpos hpos' => ?_,
    hframe.writes, ?_⟩
  · have hold := hframe.getElem? hoob hpos
    obtain ⟨oobPostfix, hcollect⟩ := h.collects k oob hold hpos
    rw [hframe.received]
    exact ⟨oobPostfix, hcollect.congr (hframe.data oob (mem_of_getElem? hold) hpos)⟩
  · exact h.apart k j oob other hne (hframe.getElem? hoob hpos)
      (hframe.getElem? hother hpos') hpos hpos'
  · rw [hframe.calls, hframe.received]
    exact h.calls

theorem AtInv.register {s' : AtParser} (h : AtInv s) (hframe : RegisterFrame s s') : AtInv s' := by
  refine ⟨h.oobs.register hframe, ?_⟩
  unfold LineOk
  rw [hframe.line, hframe.received, hframe.delims]
  refine h.line.imp id fun ⟨hlen, hsize, hzero⟩ => ⟨hlen, hsize, fun oob hmem => ?_⟩
  obtain ⟨news, heq, hnews⟩ := hframe.oobs
  rcases mem_append.mp (heq ▸ hmem) with hold | hnew
  · exact hzero oob hold
  · exact hnews oob hnew

/-- **The step lemma.** -/
theorem AtInv.step (s : AtParser) (e : AtEvent) (h : AtInv s) (hok : AtParserOk s e) :
    AtInv (atParserStep s e) := by
  cases e with
  | registerCallback a => exact h.register (h.oobs.registerFrame hok)
  | taskAdd config rspLen =>
    exact ⟨⟨h.oobs.collects, h.oobs.apart, h.oobs.writes, h.oobs.calls⟩, h.line⟩
  | taskDel i => exact ⟨⟨h.oobs.collects, h.oobs.apart, h.oobs.writes, h.oobs.calls⟩, h.line⟩
  | byte c => exact h.byte hok

theorem atInv_init (mem : Memory) : AtInv (atParserInit mem) :=
  ⟨⟨by simp [atParserInit], by simp [atParserInit], by simp [atParserInit], by simp [atParserInit]⟩,
    .inl ⟨Nat.zero_le _, nil_suffix⟩⟩

/-! ## Calls are made when the postfix comes -/

def AtEvent.byte? : AtEvent → Option UInt8
  | .byte c => some c
  | _ => none

theorem AtEvent.byte?_eq_some {e : AtEvent} : e.byte? = some c ↔ e = .byte c := by
  cases e <;> simp [byte?]

def bytesOf (events : List AtEvent) : Bytes := events.filterMap AtEvent.byte?

theorem oobStart_calls (s : AtParser) (oob : Oob) : (oobStart s oob).1.calls = s.calls := by
  unfold oobStart
  split_ifs <;> rfl

theorem oobTake_calls (c : UInt8) (oobPostfix : Bytes) (s : AtParser) (oob : Oob) :
    s.calls <+: (oobTake c oobPostfix s oob).1.calls := by
  unfold oobTake
  dsimp only
  split_ifs
  · exact prefix_append _ _
  · exact prefix_rfl
  · exact prefix_rfl

theorem scanPass_calls (c : UInt8) (s : AtParser) (k : ℕ) :
    s.calls <+: (scanPass c s k).calls := by
  unfold scanPass
  cases hoob : s.oobs[k]? with
  | none => exact prefix_rfl
  | some oob =>
    dsimp only
    split_ifs
    · cases hpost : oob.oobPostfix with
      | none => exact prefix_append _ _
      | some oobPostfix =>
        dsimp only
        obtain ⟨line, heq, -⟩ := emptyFull_eq
          { (oobTake c oobPostfix (oobStart s oob).1 (oobStart s oob).2).1 with
            oobs := (oobTake c oobPostfix (oobStart s oob).1 (oobStart s oob).2).1.oobs.set k
              (oobTake c oobPostfix (oobStart s oob).1 (oobStart s oob).2).2 }
        rw [heq, ← oobStart_calls s oob]
        exact oobTake_calls c oobPostfix _ _
    · exact prefix_rfl

theorem atParserStep_calls (s : AtParser) (e : AtEvent) :
    s.calls <+: (atParserStep s e).calls := by
  have hcheck : ∀ s : AtParser, (checkBuffer s).calls = s.calls := by
    intro s
    unfold checkBuffer
    split_ifs <;> rfl
  cases e with
  | registerCallback a =>
    simp only [atParserStep]
    unfold atRegisterCallback
    cases a.oobPrefix with
    | none => exact prefix_rfl
    | some oobPrefix =>
      dsimp only
      split_ifs <;> exact prefix_rfl
  | taskAdd config rspLen => exact prefix_rfl
  | taskDel i => exact prefix_rfl
  | byte c =>
    simp only [atParserStep]
    unfold atWorkerPass
    dsimp only
    split_ifs
    · rw [hcheck]
    · obtain ⟨tasks, rspBegin, delims, line, -, heq⟩ :=
        atWorkerTask_eq c (atScanForCallback c (s.receive c))
      have hscan : (s.receive c).calls <+: (atScanForCallback c (s.receive c)).calls :=
        inv_foldl (fun s' => (s.receive c).calls <+: s'.calls)
          (fun s' k h => h.trans (scanPass_calls c s' k)) prefix_rfl _
      rw [hcheck]
      exact (congrArg AtParser.calls heq) ▸ hscan

variable {oobPrefix oobPostfix data : Bytes} {maxlen : ℕ}

theorem AtInv.byte_advanced (h : AtInv s) (hok : ByteOk s c)
    (hcollecting : Collecting k oobPrefix oobPostfix maxlen data s) (hfits : data.length < maxlen) :
    Advanced c k oobPrefix oobPostfix maxlen data (atWorkerPass s c) := by
  obtain ⟨oob, hoob, -, -, -, hpos, -⟩ := id hcollecting
  rcases h.line with ⟨hroom, hline⟩ | ⟨-, -, hzero⟩
  · have hspace : s.line.length + 1 < recvBufferSize := by
      simp only [recvBufferSize] at hroom ⊢
      omega
    have hscan := ((scanInv_receive h.oobs hroom hline c).advanced hcollecting hfits s.oobs.length
      (hok hspace).1).2 (List.getElem?_eq_some_iff.mp hoob).1
    obtain ⟨tasks, rspBegin, delims, line, -, heq⟩ :=
      atWorkerTask_eq c (atScanForCallback c (s.receive c))
    rw [atWorkerPass_of_room hroom, heq]
    unfold checkBuffer
    split_ifs <;> exact hscan
  · have := hzero oob (mem_of_getElem? hoob)
    omega

/-- A callback goes on collecting when something else than a byte comes. -/
theorem AtInv.collecting_of_no_byte (h : AtInv s) {e : AtEvent} (hok : AtParserOk s e)
    (hnone : e.byte? = none) (hcollecting : Collecting k oobPrefix oobPostfix maxlen data s) :
    Collecting k oobPrefix oobPostfix maxlen data (atParserStep s e) := by
  cases e with
  | registerCallback a =>
    obtain ⟨oob, hoob, hpre, hpost, hmax, hpos, hdata⟩ := hcollecting
    have hframe := h.oobs.registerFrame hok
    obtain ⟨news, heq, -⟩ := hframe.oobs
    refine ⟨oob, ?_, hpre, hpost, hmax, hpos,
      (hframe.data oob (mem_of_getElem? hoob) hpos).trans hdata⟩
    simp only [atParserStep]
    rw [heq, List.getElem?_append_left (List.getElem?_eq_some_iff.mp hoob).1]
    exact hoob
  | taskAdd config rspLen => exact hcollecting
  | taskDel i => exact hcollecting
  | byte c => exact nomatch hnone

theorem AtInv.not_spans (h : AtInv s)
    (hcollecting : Collecting k oobPrefix oobPostfix maxlen data s) :
    ¬ Spans oobPrefix oobPostfix data := by
  obtain ⟨oob, hoob, rfl, hpost, -, hpos, rfl⟩ := hcollecting
  obtain ⟨oobPostfix', hcollect⟩ := h.oobs.collects k oob hoob hpos
  obtain rfl := Option.some_inj.mp (hpost.symm.trans hcollect.hasPostfix)
  rintro ⟨mid, heq, -⟩
  exact hcollect.awaits mid (heq ▸ prefix_rfl)

/-- Of two that span from one prefix to the postfix, one of which starts the other, both are
equal. -/
theorem Spans.eq_of_prefix {pre post data' : Bytes} (h : Spans pre post data)
    (h' : Spans pre post data') (hstarts : data <+: data') : data = data' := by
  obtain ⟨mid, rfl, -⟩ := h
  obtain ⟨mid', rfl, honly⟩ := h'
  rw [honly mid hstarts]

/-- **The run lemma.**  A callback that is collecting is called with what it has collected and the
bytes that come next, when these complete the postfix and fit its buffer. -/
theorem called_of_run (events : List AtEvent) (h : AtInv s)
    (hall : AllSteps atParserStep AtParserOk s events)
    (hcollecting : Collecting k oobPrefix oobPostfix maxlen data s)
    (hspans : Spans oobPrefix oobPostfix (data ++ bytesOf events))
    (hfits : (data ++ bytesOf events).length ≤ maxlen) :
    ⟨oobPrefix, some oobPostfix, some (data ++ bytesOf events)⟩ ∈
      (events.foldl atParserStep s).calls := by
  induction events generalizing s data with
  | nil =>
    rw [bytesOf, filterMap_nil, append_nil] at hspans
    exact absurd hspans (h.not_spans hcollecting)
  | cons e events ih =>
    have hnext := h.step s e hall.1
    cases hbyte : e.byte? with
    | none =>
      have hbytes : bytesOf (e :: events) = bytesOf events := filterMap_cons_none hbyte
      rw [hbytes] at hspans hfits ⊢
      exact ih hnext hall.2 (h.collecting_of_no_byte hall.1 hbyte hcollecting) hspans hfits
    | some c =>
      obtain rfl := AtEvent.byte?_eq_some.mp hbyte
      have hbytes : data ++ bytesOf (.byte c :: events) = data ++ [c] ++ bytesOf events := by
        simp [bytesOf, AtEvent.byte?]
      rw [hbytes] at hspans hfits ⊢
      have hroom : data.length < maxlen := by
        simp only [length_append, length_singleton] at hfits
        omega
      have hadvanced := h.byte_advanced hall.1 hcollecting hroom
      by_cases hnow : Spans oobPrefix oobPostfix (data ++ [c])
      · rw [← hnow.eq_of_prefix hspans (prefix_append _ _)]
        have hlater : (atParserStep s (.byte c)).calls <+:
            (events.foldl atParserStep (atParserStep s (.byte c))).calls :=
          inv_foldl (fun s' => (atParserStep s (.byte c)).calls <+: s'.calls)
            (fun s' e' hs' => hs'.trans (atParserStep_calls s' e')) prefix_rfl events
        exact hlater.subset (hadvanced.1 hnow)
      · exact ih hnext hall.2 (hadvanced.2 hnow) hspans hfits

end Iotkit.At
