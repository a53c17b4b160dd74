/-
# The subscription list of the AT client (`at_mqtt.c`)

With dynamic memory the entries are linked at the head of a list; else they stand in a table.  Both
builds link before the modem is asked.
-/
import Iotkit.MqttSubscribe

namespace Iotkit.AtSubscribe

open GuardedRun Mqtt List

/-! ## The model -/

/-- `IOTX_MC_SUBHANDLE_LIST_MAX_LEN` and `CONFIG_MQTT_TOPIC_MAXLEN`. -/
structure SubConfig where
  subhandleListMaxLen : ℕ := 5
  topicMaxlen : ℕ := 128

/-- The arguments of `MALMQTTSubscribe`, and what is found around it: the memory for the entry and
for its filter, and the answer of `HAL_AT_MQTT_Subscribe`. -/
structure SubArgs where
  topicFilter : Option CString
  handle : EventHandle
  mallocHandle : Bool
  mallocFilter : Bool
  modem : ℤ

/-- The entry for the arguments, if none of them is `NULL`. -/
def SubArgs.entry (args : SubArgs) : Option TopicHandle :=
  match args.topicFilter with
  | none => none
  | some topicFilter => if args.handle.hFp = 0 then none else some ⟨topicFilter, args.handle⟩

/-- What `MALMQTTSubscribe` returns once the modem was asked. -/
def modemReturn (modem : ℤ) : ℤ := if modem ≠ 0 then failReturn else successReturn

namespace Dynmem

def malmqttSubscribe (first : List TopicHandle) (args : SubArgs) : ℤ × List TopicHandle :=
  match args.entry with
  | none => (failReturn, first)
  | some h =>
    if args.mallocHandle = false then (failReturn, first)
    else if args.mallocFilter = false then (failReturn, first)
    else (modemReturn args.modem, h :: first)

def malmqttUnsubscribe (first : List TopicHandle) (topicFilter : CString) (modem : ℤ) :
    ℤ × List TopicHandle :=
  if modem ≠ 0 then (-1, first)
  else (0, first.filter fun h => ¬ EqualsOrMatches topicFilter.bytes h)

end Dynmem

namespace Table

variable (cfg : SubConfig)

def malmqttSubscribe (table : List (Option TopicHandle)) (args : SubArgs) :
    ℤ × List (Option TopicHandle) :=
  match args.entry with
  | none => (failReturn, table)
  | some h =>
    match table.findIdx? (·.isNone) with
    | none => (failReturn, table)
    | some idx =>
      if h.topicFilter.strlen ≥ cfg.topicMaxlen then (failReturn, table)
      -- an identical entry in another place leaves this one free again
      else if table.any fun slot => slot.any fun h' => iotxMcCheckHandleIsIdentical h' h = 0 then
        (modemReturn args.modem, table)
      else (modemReturn args.modem, table.set idx (some h))

def malmqttUnsubscribe (table : List (Option TopicHandle)) (topicFilter : CString) (modem : ℤ) :
    ℤ × List (Option TopicHandle) :=
  if modem ≠ 0 then (-1, table)
  else (0, table.map (Option.filter fun h => ¬ EqualsOrMatches topicFilter.bytes h))

end Table

def filterStr : Bytes :=
  "\x7b\"method\":\"thing.service.property.set\"".toList.map fun c => UInt8.ofNat c.toNat

/-- The flow control of `iotx_mc_handle_recv_PUBLISH`: whether the message is dropped, and
`time_prev`. -/
def flowControl (timePrev uptimeMs : ℕ) (msg : CString) : Bool × ℕ :=
  if filterStr <+: msg.bytes then
    if max uptimeMs timePrev - timePrev ≤ 50 then (true, timePrev)
    else (false, max uptimeMs timePrev)
  else (false, timePrev)

/-- `iotx_mc_handle_recv_PUBLISH`, on the entries of either build: the handlers that are called with
the message, and `time_prev`. -/
def iotxMcHandleRecvPublish (entries : List TopicHandle) (handleEvent : EventHandle)
    (timePrev uptimeMs : ℕ) (topic msg : CString) : List EventHandle × ℕ :=
  let (dropped, timePrev) := flowControl timePrev uptimeMs msg
  if dropped then ([], timePrev)
  else
    let called := (entries.filter fun h => EqualsOrMatches topic.bytes h ∧ h.handle.hFp ≠ 0).map
      TopicHandle.handle
    if called ≠ [] then (called, timePrev)
    else if handleEvent.hFp ≠ 0 then ([handleEvent], timePrev)
    else ([], timePrev)

/-! ## Runs -/

/-- A call, with what the modem answers. -/
inductive SubCall
  | subscribe (args : SubArgs)
  | unsubscribe (topicFilter : CString) (modem : ℤ)

/-- A build: its calls, its entries, and the entry that a subscription links. -/
structure Build where
  State : Type
  start : State
  call : State → SubCall → ℤ × State
  entries : State → List TopicHandle
  links : State → SubArgs → Option TopicHandle

def Dynmem.build : Build where
  State := List TopicHandle
  start := []
  call first
    | .subscribe args => malmqttSubscribe first args
    | .unsubscribe topicFilter modem => malmqttUnsubscribe first topicFilter modem
  entries first := first
  links _ args := if args.mallocHandle ∧ args.mallocFilter then args.entry else none

/-- The entry that the table takes. -/
def Table.links (cfg : SubConfig) (table : List (Option TopicHandle)) (args : SubArgs) :
    Option TopicHandle :=
  args.entry.filter fun h =>
    none ∈ table ∧ h.topicFilter.strlen < cfg.topicMaxlen ∧ some h ∉ table

def Table.build (cfg : SubConfig) : Build where
  State := List (Option TopicHandle)
  start := List.replicate cfg.subhandleListMaxLen none
  call table
    | .subscribe args => malmqttSubscribe cfg table args
    | .unsubscribe topicFilter modem => malmqttUnsubscribe table topicFilter modem
  entries table := table.reduceOption
  links := links cfg

def Build.step (b : Build) (s : b.State) (call : SubCall) : b.State := (b.call s call).2

def Build.run (b : Build) (calls : List SubCall) : b.State := calls.foldl b.step b.start

/-- What a call does to the entries: a subscription that fails leaves them, and one filter is
unsubscribed. -/
def CallLaw (before after : List TopicHandle) (result : ℤ) : SubCall → Prop
  | .subscribe _ => result ≠ successReturn → after = before
  | .unsubscribe topicFilter _ => result = successReturn →
      ∀ h, h ∈ after ↔ h ∈ before ∧ h.topicFilter ≠ topicFilter

/-- A subscription links no entry that is there already, and none that the modem refuses; and no
other filter matches one that is unsubscribed. -/
def Careful (b : Build) (s : b.State) : SubCall → Prop
  | .subscribe args => ∀ h, b.links s args = some h → h ∉ b.entries s ∧ args.modem = 0
  | .unsubscribe topicFilter modem => modem = 0 → ∀ h ∈ b.entries s,
      iotxMcIsTopicMatched h.topicFilter.bytes topicFilter.bytes → h.topicFilter = topicFilter

/-- What the table can take as the list does: there is memory, and there are a free place and room
for the filter. -/
def Alike (cfg : SubConfig) (table : List (Option TopicHandle)) : SubCall → Prop
  | .subscribe args => ∀ h, args.entry = some h → args.mallocHandle = true ∧
      args.mallocFilter = true ∧ none ∈ table ∧ h.topicFilter.strlen < cfg.topicMaxlen
  | .unsubscribe _ _ => True

/-- A received message is delivered to the same handlers. -/
def SameDelivery (entries entries' : List TopicHandle) : Prop :=
  ∀ handleEvent timePrev uptimeMs topic msg,
    let r := iotxMcHandleRecvPublish entries handleEvent timePrev uptimeMs topic msg
    let r' := iotxMcHandleRecvPublish entries' handleEvent timePrev uptimeMs topic msg
    (∀ handle, handle ∈ r.1 ↔ handle ∈ r'.1) ∧ r.2 = r'.2

/-- In every careful run no two entries are the same, and every call does what it should. -/
def Build.Lawful (b : Build) : Prop :=
  ∀ calls, AllSteps b.step (Careful b) b.start calls → (b.entries (b.run calls)).Nodup ∧
    ∀ call, Careful b (b.run calls) call →
      CallLaw (b.entries (b.run calls)) (b.entries (b.step (b.run calls) call))
        (b.call (b.run calls) call).1 call

/-! ## What the calls do to the entries -/

/-- A build links at most one entry, and takes out those that the filter selects. -/
structure Build.Sound (b : Build) : Prop where
  start : b.entries b.start = []
  linked : ∀ s args h, b.links s args = some h →
    (b.call s (.subscribe args)).1 = modemReturn args.modem ∧
      (b.entries (b.call s (.subscribe args)).2).Perm (h :: b.entries s)
  unlinked : ∀ s args, b.links s args = none →
    b.entries (b.call s (.subscribe args)).2 = b.entries s
  refused : ∀ s topicFilter modem, modem ≠ 0 →
    b.call s (.unsubscribe topicFilter modem) = (-1, s)
  unsubscribed : ∀ s topicFilter, b.entries (b.call s (.unsubscribe topicFilter 0)).2 =
    (b.entries s).filter fun h => ¬ EqualsOrMatches topicFilter.bytes h

theorem Dynmem.sound : Dynmem.build.Sound where
  start := rfl
  linked first args h hlinks := by
    obtain ⟨⟨hhandle, hfilter⟩, hentry⟩ := Option.ite_none_right_eq_some.mp hlinks
    simp only [Dynmem.build, malmqttSubscribe, hentry, hhandle, hfilter, Bool.true_eq_false,
      if_false]
    exact ⟨trivial, .refl _⟩
  unlinked first args hlinks := by
    simp only [Dynmem.build, malmqttSubscribe] at hlinks ⊢
    cases hentry : args.entry with
    | none => rfl
    | some h =>
      rw [hentry] at hlinks
      dsimp only
      split_ifs with hhandle hfilter
      · rfl
      · rfl
      · simp [hhandle, hfilter] at hlinks
  refused first topicFilter modem hmodem := if_pos hmodem
  unsubscribed first topicFilter := rfl

variable {table : List (Option TopicHandle)} {h : TopicHandle}

theorem reduceOption_set {idx : ℕ} (hfree : table[idx]? = some none) :
    (table.set idx (some h)).reduceOption.Perm (h :: table.reduceOption) := by
  induction table generalizing idx with
  | nil => cases hfree
  | cons slot table ih =>
    cases idx with
    | zero =>
      obtain rfl := Option.some.inj hfree
      exact .refl _
    | succ idx =>
      have hrest := ih hfree
      cases slot with
      | none => exact hrest
      | some h' => exact (hrest.cons h').trans (.swap h h' _)

theorem reduceOption_filter (p : TopicHandle → Bool) :
    (table.map (Option.filter p)).reduceOption = table.reduceOption.filter p := by
  induction table with
  | nil => rfl
  | cons slot table ih =>
    cases slot with
    | none => exact ih
    | some h =>
      rw [map_cons, Option.filter_some, reduceOption_cons_of_some, filter_cons]
      split_ifs
      · exact congrArg _ ih
      · exact ih

theorem any_identical :
    (table.any fun slot => slot.any fun h' => iotxMcCheckHandleIsIdentical h' h = 0) ↔
      some h ∈ table := by
  simp only [iotxMcCheckHandleIsIdentical_eq_zero_iff, any_eq_true]
  constructor
  · rintro ⟨slot, hmem, hsame⟩
    cases slot with
    | none => cases hsame
    | some h' => exact of_decide_eq_true hsame ▸ hmem
  · exact fun hmem => ⟨some h, hmem, decide_eq_true rfl⟩

variable {cfg : SubConfig} {args : SubArgs}

theorem Table.links_eq_some : links cfg table args = some h ↔ args.entry = some h ∧
    none ∈ table ∧ h.topicFilter.strlen < cfg.topicMaxlen ∧ some h ∉ table := by
  rw [links, Option.filter_eq_some_iff, decide_eq_true_iff]

theorem Table.getElem?_free {idx : ℕ} (hidx : table.findIdx? (·.isNone) = some idx) :
    table[idx]? = some none := by
  obtain ⟨hlt, hnone, -⟩ := List.findIdx?_eq_some_iff_getElem.mp hidx
  rw [List.getElem?_eq_getElem hlt, Option.isNone_iff_eq_none.mp hnone]

theorem Table.linked (hlinks : links cfg table args = some h) :
    (malmqttSubscribe cfg table args).1 = modemReturn args.modem ∧
      (malmqttSubscribe cfg table args).2.reduceOption.Perm (h :: table.reduceOption) := by
  obtain ⟨hentry, hfree, hlen, hnew⟩ := links_eq_some.mp hlinks
  simp only [malmqttSubscribe, hentry]
  cases hidx : table.findIdx? (·.isNone) with
  | none => exact absurd (List.findIdx?_eq_none_iff.mp hidx none hfree) (by decide)
  | some idx =>
    dsimp only
    rw [if_neg (not_le.mpr hlen), if_neg (any_identical.not.mpr hnew)]
    exact ⟨rfl, reduceOption_set (getElem?_free hidx)⟩

theorem Table.unlinked (hlinks : links cfg table args = none) :
    (malmqttSubscribe cfg table args).2 = table := by
  rw [malmqttSubscribe]
  cases hentry : args.entry with
  | none => rfl
  | some h =>
    cases hidx : table.findIdx? (·.isNone) with
    | none => rfl
    | some idx =>
      dsimp only
      split_ifs with hlen hsame
      · rfl
      · rfl
      · -- nothing stands in the way of the entry
        have hfree : none ∈ table := mem_of_getElem? (getElem?_free hidx)
        have hlinked := links_eq_some.mpr
          ⟨hentry, hfree, not_le.mp hlen, any_identical.not.mp hsame⟩
        exact absurd (hlinks.symm.trans hlinked) (by simp)

theorem Table.sound (cfg : SubConfig) : (Table.build cfg).Sound where
  start := reduceOption_replicate_none
  linked _ _ _ := linked
  unlinked _ _ hlinks := congrArg _ (unlinked hlinks)
  refused _ _ _ hmodem := if_pos hmodem
  unsubscribed _ _ := reduceOption_filter _

variable {b : Build} {s : b.State} {call : SubCall}

theorem Build.Sound.nodup (hb : b.Sound) (hnodup : (b.entries s).Nodup) (hok : Careful b s call) :
    (b.entries (b.step s call)).Nodup := by
  cases call with
  | subscribe args =>
    cases hlinks : b.links s args with
    | none => exact hb.unlinked s args hlinks ▸ hnodup
    | some h =>
      exact (hb.linked s args h hlinks).2.nodup_iff.mpr (nodup_cons.mpr ⟨(hok h hlinks).1, hnodup⟩)
  | unsubscribe topicFilter modem =>
    by_cases hmodem : modem = 0
    · subst hmodem
      exact hb.unsubscribed s topicFilter ▸ hnodup.filter _
    · rw [Build.step, hb.refused s topicFilter modem hmodem]
      exact hnodup

theorem Build.Sound.mem_subscribe (hb : b.Sound) :
    h ∈ b.entries (b.step s (.subscribe args)) ↔ b.links s args = some h ∨ h ∈ b.entries s := by
  cases hlinks : b.links s args with
  | none =>
    rw [Build.step, hb.unlinked s args hlinks, or_iff_right (by simp)]
  | some h' =>
    rw [Build.step, (hb.linked s args h' hlinks).2.mem_iff, mem_cons, Option.some_inj,
      eq_comm]

theorem Build.Sound.mem_unsubscribe (hb : b.Sound) {topicFilter : CString} {modem : ℤ} :
    h ∈ b.entries (b.step s (.unsubscribe topicFilter modem)) ↔
      h ∈ b.entries s ∧ (modem = 0 → ¬ EqualsOrMatches topicFilter.bytes h) := by
  by_cases hmodem : modem = 0
  · subst hmodem
    rw [Build.step, hb.unsubscribed, mem_filter, decide_eq_true_iff, forall_prop_of_true rfl]
  · rw [Build.step, hb.refused s topicFilter modem hmodem]
    exact (and_iff_left fun hzero => absurd hzero hmodem).symm

theorem Build.Sound.callLaw (hb : b.Sound) (hok : Careful b s call) :
    CallLaw (b.entries s) (b.entries (b.step s call)) (b.call s call).1 call := by
  cases call with
  | subscribe args =>
    intro hfailed
    cases hlinks : b.links s args with
    | none => exact hb.unlinked s args hlinks
    | some h =>
      rw [(hb.linked s args h hlinks).1, (hok h hlinks).2] at hfailed
      exact absurd rfl hfailed
  | unsubscribe topicFilter modem =>
    intro hret h
    have hmodem : modem = 0 := by
      by_contra hmodem
      rw [hb.refused s topicFilter modem hmodem] at hret
      exact absurd (show (-1 : ℤ) = successReturn from hret) (by decide)
    rw [hb.mem_unsubscribe, forall_prop_of_true hmodem]
    refine and_congr_right fun hmem => not_congr ⟨?_, fun heq => ?_⟩
    · rintro (hbytes | hmatched)
      · exact CString.ext hbytes
      · exact hok hmodem h hmem hmatched
    · exact .inl (congrArg CString.bytes heq)

theorem Build.Sound.lawful (hb : b.Sound) : b.Lawful := by
  intro calls hok
  refine ⟨?_, fun call => hb.callLaw⟩
  have hstep : ∀ s call, (b.entries s).Nodup → Careful b s call →
      (b.entries (b.step s call)).Nodup := fun s call => hb.nodup
  have hstart : (b.entries b.start).Nodup := hb.start.symm ▸ nodup_nil
  exact inv_of_allSteps hstep calls hstart hok

/-! ## Both builds -/

theorem sameDelivery_of_mem {entries entries' : List TopicHandle}
    (hmem : ∀ h, h ∈ entries ↔ h ∈ entries') : SameDelivery entries entries' := by
  intro handleEvent timePrev uptimeMs topic msg
  simp only [iotxMcHandleRecvPublish]
  generalize hcalled : (entries.filter fun h =>
    EqualsOrMatches topic.bytes h ∧ h.handle.hFp ≠ 0).map TopicHandle.handle = called
  generalize hcalled' : (entries'.filter fun h =>
    EqualsOrMatches topic.bytes h ∧ h.handle.hFp ≠ 0).map TopicHandle.handle = called'
  have hsame : ∀ handle, handle ∈ called ↔ handle ∈ called' := by
    intro handle
    simp only [← hcalled, ← hcalled', mem_map, mem_filter, hmem]
  have hnone : called = [] ↔ called' = [] := by
    simp only [eq_nil_iff_forall_not_mem, hsame]
  by_cases hcase : called = []
  · rw [hcase, hnone.mp hcase]
    exact ⟨fun _ => Iff.rfl, rfl⟩
  · simp only [ne_eq, hcase, hnone.not.mp hcase, not_false_eq_true, if_true]
    split_ifs
    · exact ⟨fun _ => Iff.rfl, rfl⟩
    · exact ⟨hsame, rfl⟩

/-- A call that the table can take as the list does keeps the entries alike. -/
theorem mem_step {s : Dynmem.build.State} {s' : (Table.build cfg).State}
    (hmem : ∀ h, h ∈ Dynmem.build.entries s ↔ h ∈ (Table.build cfg).entries s')
    (hok : Alike cfg s' call) :
    h ∈ Dynmem.build.entries (Dynmem.build.step s call) ↔
      h ∈ (Table.build cfg).entries ((Table.build cfg).step s' call) := by
  cases call with
  | subscribe args =>
    rw [Dynmem.sound.mem_subscribe, (Table.sound cfg).mem_subscribe, hmem]
    by_cases hold : h ∈ (Table.build cfg).entries s'
    · exact iff_of_true (.inr hold) (.inr hold)
    -- what the table does not have is linked in both builds
    rw [or_iff_left hold, or_iff_left hold]
    refine Iff.trans ?_ Table.links_eq_some.symm
    constructor
    · intro hlinks
      obtain ⟨-, hentry⟩ := Option.ite_none_right_eq_some.mp hlinks
      obtain ⟨-, -, hfree, hlen⟩ := hok h hentry
      exact ⟨hentry, hfree, hlen, fun hlisted => hold (reduceOption_mem_iff.mpr hlisted)⟩
    · rintro ⟨hentry, -⟩
      obtain ⟨hhandle, hfilter, -⟩ := hok h hentry
      exact Option.ite_none_right_eq_some.mpr ⟨⟨hhandle, hfilter⟩, hentry⟩
  | unsubscribe topicFilter modem =>
    rw [Dynmem.sound.mem_unsubscribe, (Table.sound cfg).mem_unsubscribe, hmem]

theorem mem_run (calls : List SubCall)
    (hok : AllSteps (Table.build cfg).step (Alike cfg) (Table.build cfg).start calls) :
    ∀ h, h ∈ Dynmem.build.entries (Dynmem.build.run calls) ↔
      h ∈ (Table.build cfg).entries ((Table.build cfg).run calls) := by
  induction calls using List.reverseRecOn with
  | nil =>
    intro h
    exact iff_of_eq (congrArg (h ∈ ·) (Dynmem.sound.start.trans (Table.sound cfg).start.symm))
  | append_singleton calls call ih =>
    obtain ⟨hbefore, hlast, -⟩ := (allSteps_append _ _ _).mp hok
    simp only [Build.run, foldl_append]
    exact fun h => mem_step (ih hbefore) hlast

/-- **The subscription list of the AT client.**  In every careful run of either build no two entries
are the same, a subscription that fails leaves them and one filter is unsubscribed; and in every run
that fits the table both builds deliver to the same handlers. -/
theorem at_subscriptions (cfg : SubConfig) :
    Dynmem.build.Lawful ∧ (Table.build cfg).Lawful ∧
      ∀ calls, AllSteps (Table.build cfg).step (Alike cfg) (Table.build cfg).start calls →
        SameDelivery (Dynmem.build.entries (Dynmem.build.run calls))
          ((Table.build cfg).entries ((Table.build cfg).run calls)) :=
  ⟨Dynmem.sound.lawful, (Table.sound cfg).lawful, fun calls hok =>
    sameDelivery_of_mem (mem_run calls hok)⟩

/-- A subscription that has its memory. -/
def subscribeTo (topicFilter : CString) (modem : ℤ) : SubCall :=
  .subscribe ⟨some topicFilter, ⟨1, 0⟩, true, true, modem⟩

/-- Two filters are subscribed and one of them is unsubscribed. -/
theorem at_subscriptions_unsubscribed :
    let calls := [subscribeTo filterA 0, subscribeTo filterBC 0, .unsubscribe filterA 0]
    (Dynmem.build.entries (Dynmem.build.run calls)).Nodup ∧
      SameDelivery (Dynmem.build.entries (Dynmem.build.run calls))
        ((Table.build {}).entries ((Table.build {}).run calls)) := by
  intro calls
  have hcareful : AllSteps Dynmem.build.step (Careful Dynmem.build) Dynmem.build.start calls := by
    refine ⟨?_, ?_, fun _ => by decide, trivial⟩ <;> rintro _ ⟨⟩ <;> decide
  have halike : AllSteps (Table.build {}).step (Alike {}) (Table.build {}).start calls := by
    refine ⟨?_, ?_, trivial, trivial⟩ <;> rintro _ ⟨⟩ <;>
      exact ⟨rfl, rfl, mem_of_elem_eq_true rfl, by decide⟩
  obtain ⟨hlist, -, hsame⟩ := at_subscriptions {}
  exact ⟨(hlist calls hcareful).1, hsame calls halike⟩

/-- The list has an entry twice, what the modem refuses stays listed, and with `/a` the entry for
`/+` is gone. -/
theorem at_subscriptions_broken :
    ¬ (Dynmem.build.entries
        (Dynmem.build.run [subscribeTo filterA 0, subscribeTo filterA 0])).Nodup ∧
      ∀ b ∈ [Dynmem.build, Table.build {}],
        (b.call b.start (subscribeTo filterA 1)).1 = failReturn ∧
          b.entries (b.run [subscribeTo filterA 1]) ≠ b.entries b.start ∧
          b.entries (b.run [subscribeTo filterPlus 0]) ≠ [] ∧
          b.entries (b.run [subscribeTo filterPlus 0, .unsubscribe filterA 0]) = [] := by
  simp only [forall_mem_cons, not_mem_nil, false_imp_iff, implies_true, and_true]
  decide

end Iotkit.AtSubscribe
