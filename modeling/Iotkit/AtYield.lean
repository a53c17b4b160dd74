/-
# The receive parser gives the callbacks what is theirs

`at_yield`, which receives in the builds with a single task, scans as the worker does and stops
when its line buffer is full; no callback is collecting then.  The results for both are put
together here.

What can go wrong is that a callback starts whose prefix has no room in its buffer, or that two
callbacks with one buffer collect at the same time.
-/
import Iotkit.AtWorker

namespace Iotkit.At

open FlatMemory GuardedRun

/-! ## A single task -/

/-- What is asked of a step of the parser of a single task. -/
def AtYieldOk (y : AtYield) : YieldEvent → Prop
  | .registerCallback a => RegisterOk y.parser a
  | .byte c =>
    y.ret = none → y.parser.line.length + 1 < recvBufferSize →
      AllSteps (scanPass c) StartOk (y.parser.receive c) (List.range y.parser.oobs.length)
  | .call _ => True
  | .timeout => True

/-- While `at_yield` runs, its line buffer ends with the last byte, and it is not full when a
callback is collecting. -/
structure YieldInv (y : AtYield) : Prop where
  oobs : OobsOk (fun _ => []) y.parser
  line_le : y.parser.line.length ≤ recvBufferSize - 1
  suffix : y.ret = none → y.parser.line <:+ y.parser.received
  room : y.ret = none → ∀ oob ∈ y.parser.oobs, 0 < oob.reallen →
    y.parser.line.length ≤ recvBufferSize - 2

theorem parser_yieldReply (c : UInt8) (y : AtYield) : (yieldReply c y).parser = y.parser := by
  unfold yieldReply
  split_ifs <;> rfl

theorem YieldInv.register {y : AtYield} (h : YieldInv y) {a : OobArgs}
    (hok : RegisterOk y.parser a) :
    YieldInv { y with parser := (atRegisterCallback y.parser a).2 } := by
  have hframe := h.oobs.registerFrame hok
  refine ⟨h.oobs.register hframe, ?_, fun hret => ?_, fun hret oob hmem hpos => ?_⟩
  · rw [hframe.line]
    exact h.line_le
  · rw [hframe.line, hframe.received]
    exact h.suffix hret
  · obtain ⟨k, hoob⟩ := List.getElem?_of_mem hmem
    rw [hframe.line]
    exact h.room hret oob (List.mem_of_getElem? (hframe.getElem? hoob hpos)) hpos

theorem YieldInv.byte {y : AtYield} (h : YieldInv y) {c : UInt8} (hret : y.ret = none)
    (hok : AtYieldOk y (.byte c)) : YieldInv (yieldPass y c) := by
  unfold yieldPass
  dsimp only
  split_ifs with hfull
  -- no callback is collecting when the line buffer is full
  · refine ⟨⟨fun k oob hoob hpos => ?_, h.oobs.apart, h.oobs.writes, fun call hcall =>
      (h.oobs.calls call hcall).mono (List.prefix_append _ _).isInfix⟩, h.line_le,
      fun hnone => (nomatch hnone), fun hnone => (nomatch hnone)⟩
    have hroom := h.room hret oob (List.mem_of_getElem? hoob) hpos
    simp only [recvBufferSize] at hfull hroom
    omega
  · have hspace : y.parser.line.length + 1 < recvBufferSize := Nat.lt_of_not_le hfull
    have hroom : y.parser.line.length ≤ recvBufferSize - 2 := by
      simp only [recvBufferSize] at hspace ⊢
      omega
    obtain ⟨hoobs, hsuffix, hle, hspare⟩ :=
      scan_done (scanInv_receive h.oobs hroom (h.suffix hret) c) (hok hret hspace)
    have hparser := parser_yieldReply c { y with
      parser := atScanForCallback c { y.parser with
        received := y.parser.received ++ [c]
        line := y.parser.line ++ [c] } }
    constructor
    · rw [hparser]
      exact hoobs
    · rw [hparser]
      exact hle
    · rw [hparser]
      exact fun _ => hsuffix
    · rw [hparser]
      exact fun _ => hspare

theorem YieldInv.step (y : AtYield) (e : YieldEvent) (h : YieldInv y) (hok : AtYieldOk y e) :
    YieldInv (atYieldStep y e) := by
  have hreturn : ∀ ret : ℤ, YieldInv { y with ret := some ret } := fun ret =>
    ⟨h.oobs, h.line_le, fun hnone => (nomatch hnone), fun hnone => (nomatch hnone)⟩
  unfold atYieldStep
  cases e with
  | registerCallback a => exact h.register hok
  | call a =>
    dsimp only [yieldCall]
    split_ifs
    · exact h
    · exact hreturn (-1)
    · exact ⟨⟨h.oobs.collects, h.oobs.apart, h.oobs.writes, h.oobs.calls⟩, Nat.zero_le _,
        fun _ => List.nil_suffix, fun _ _ _ _ => Nat.zero_le _⟩
  | byte c =>
    dsimp only
    split_ifs with hret
    · exact h.byte hret hok
    · exact h
  | timeout =>
    dsimp only
    split_ifs
    · exact hreturn (-1)
    · exact h

theorem yieldInv_init (mem : Memory) : YieldInv (atYieldInit mem) :=
  ⟨(atInv_init mem).oobs, Nat.zero_le _, fun hnone => (nomatch hnone), fun hnone => (nomatch hnone)⟩

/-! ## What holds of the parser -/

/-- The offset is in the line buffer, what a callback has collected is in its buffer as is all
that was written there, and a callback with a postfix was called with the bytes from its prefix
up to the first following postfix. -/
structure AtSafe (s : AtParser) : Prop where
  offset : s.line.length ≤ recvBufferSize
  reallen : ∀ oob ∈ s.oobs, oob.reallen ≤ oob.maxlen
  writes : ∀ w ∈ s.writes, w.upto ≤ w.maxlen
  calls : ∀ call ∈ s.calls, call.Exact s.received

theorem OobsOk.safe {s : AtParser} (h : OobsOk (fun _ => []) s)
    (hline : s.line.length ≤ recvBufferSize - 1) : AtSafe s := by
  refine ⟨hline.trans (Nat.sub_le _ _), fun oob hmem => ?_, h.writes, h.calls⟩
  rcases Nat.eq_zero_or_pos oob.reallen with hzero | hpos
  · rw [hzero]
    exact Nat.zero_le _
  · obtain ⟨k, hoob⟩ := List.getElem?_of_mem hmem
    obtain ⟨oobPostfix, hcollect⟩ := h.collects k oob hoob hpos
    exact hcollect.length_le

theorem AtInv.safe {s : AtParser} (h : AtInv s) : AtSafe s := by
  refine h.oobs.safe ?_
  rcases h.line with ⟨hroom, -⟩ | ⟨hlen, -⟩
  · exact hroom.trans (by decide)
  · rw [hlen]

/-- **The callbacks of the receive parser.**  In every run whose steps start callbacks only with
room for their prefix and apart from those that are collecting, and whose delimiters fit the
line buffer when it is full: every state reached is safe, and a callback that is collecting is
called when the bytes that come complete the first postfix and fit its buffer. -/
theorem at_callbacks_exact (mem : Memory) :
    (∀ events : List AtEvent,
      AllSteps atParserStep AtParserOk (atParserInit mem) events →
        AtSafe (events.foldl atParserStep (atParserInit mem)) ∧
          ∀ before after, events = before ++ after →
            ∀ (k : ℕ) (oobPrefix oobPostfix data : Bytes) (maxlen : ℕ),
              Collecting k oobPrefix oobPostfix maxlen data
                (before.foldl atParserStep (atParserInit mem)) →
              Spans oobPrefix oobPostfix (data ++ bytesOf after) →
              (data ++ bytesOf after).length ≤ maxlen →
              ⟨oobPrefix, some oobPostfix, some (data ++ bytesOf after)⟩ ∈
                (events.foldl atParserStep (atParserInit mem)).calls) ∧
      ∀ events : List YieldEvent,
        AllSteps atYieldStep AtYieldOk (atYieldInit mem) events →
          AtSafe (events.foldl atYieldStep (atYieldInit mem)).parser := by
  refine ⟨fun events hall => ⟨?_, ?_⟩, fun events hall => ?_⟩
  · exact (inv_of_allSteps AtInv.step events (atInv_init mem) hall).safe
  · rintro before after rfl k oobPrefix oobPostfix data maxlen hcollecting hspans hfits
    rw [allSteps_append] at hall
    rw [List.foldl_append]
    exact called_of_run after (inv_of_allSteps AtInv.step before (atInv_init mem) hall.1) hall.2
      hcollecting hspans hfits
  · have h := inv_of_allSteps YieldInv.step events (yieldInv_init mem) hall
    exact h.oobs.safe h.line_le

/-- The callback for a line that starts with `+IM`, with room for 20 bytes. -/
def imCallback : OobArgs := ⟨some [0x2b, 0x49, 0x4d], some [0x0d, 0x0a], 1000, 20⟩

theorem at_callbacks_exact_line :
    let events : List AtEvent := .registerCallback imCallback ::
      [0x61, 0x2b, 0x49, 0x4d, 0x31, 0x0d, 0x0a, 0x62].map .byte
    let s := events.foldl atParserStep (atParserInit fun _ => 0)
    AtSafe s ∧ s.calls =
      [⟨[0x2b, 0x49, 0x4d], some [0x0d, 0x0a], some [0x2b, 0x49, 0x4d, 0x31, 0x0d, 0x0a]⟩] := by
  intro events s
  exact ⟨((at_callbacks_exact _).1 events (by decide +kernel)).1, by decide +kernel⟩

/-- A callback with the prefix `+CMTI` and room for 2 bytes is accepted, and when the prefix comes
4 bytes are copied to its buffer. -/
def cmtiCallback : OobArgs :=
  ⟨some [0x2b, 0x43, 0x4d, 0x54, 0x49], some [0x0d, 0x0a], 1000, 2⟩

/-- The callbacks of `mqtt_ica.c` for `+IMQTT` and `OK`, which have one buffer of 400 bytes. -/
def icaCallbacks : List OobArgs :=
  [⟨some [0x2b, 0x49, 0x4d, 0x51, 0x54, 0x54], some [0x0d, 0x0a], 1000, 400⟩,
    ⟨some [0x4f, 0x4b], some [0x0d, 0x0a], 1000, 400⟩]

/-- The bytes of `+IMQTT:OK` and the end of the line. -/
def imqttOk : Bytes := [0x2b, 0x49, 0x4d, 0x51, 0x54, 0x54, 0x3a, 0x4f, 0x4b, 0x0d, 0x0a]

/-- A prefix overruns its buffer, and a callback is called with what another one has written. -/
theorem at_callbacks_exact_broken :
    ¬ AtSafe ((AtEvent.registerCallback cmtiCallback ::
      [0x2b, 0x43, 0x4d, 0x54, 0x49].map AtEvent.byte).foldl atParserStep (atParserInit fun _ => 0)) ∧
    ¬ AtSafe ((icaCallbacks.map AtEvent.registerCallback ++ imqttOk.map AtEvent.byte).foldl atParserStep
      (atParserInit fun _ => 0)) := by
  constructor
  · intro h
    exact absurd (h.writes ⟨2, 4⟩ (by decide +kernel)) (by decide)
  · intro h
    obtain ⟨data, hdata, -, mid, heq, -⟩ := h.calls ⟨[0x2b, 0x49, 0x4d, 0x51, 0x54, 0x54],
      some [0x0d, 0x0a], some [0x4f, 0x4b, 0x0d, 0, 0, 0, 0, 0, 0, 0x0d, 0x0a]⟩
      (by decide +kernel) _ rfl
    obtain rfl := Option.some_inj.mp hdata
    exact absurd (congrArg List.head? heq) (by simp)

end Iotkit.At
