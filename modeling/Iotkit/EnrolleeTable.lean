/-
# The table of enrollees (`awss_registrar.c`)

A registrar reports the devices that it found, the cloud names those that are to be checked in and
gives the key of each, and one at a time is then sent a frame with the network.  The frames, the
replies, the messages of devices and the timers come in any order; what they do is written down.
-/
import Iotkit.GuardedRun
import Iotkit.LibC
import Iotkit.ZeroConfigRoundTrip

namespace Iotkit.ZeroConfig

open GuardedRun LibC

/-! ## The registrar -/

/-- A frame that was sent for an entry; there is none where there was no memory for it. -/
structure SentFrame where
  entry : EnrolleeInfo
  frame : Option Bytes
  deriving DecidableEq

/-- The registrar: a timer is not there yet, stopped or started.  `requested` are the entries
whose keys were asked for, `armed` says of each reply that moved an entry whether it found the
timer and started it, and `orphan` whether a device has bound itself while its frame was there. -/
structure Registrar where
  table : EnrolleeTable
  checkinTimer : Option Bool
  reportTimer : Option Bool
  frame : Option Bytes
  frameLen : ℕ
  moves : List (EnrolleeState × EnrolleeState)
  sent : List SentFrame
  lost : List Bytes
  requested : List (Fin maxEnrolleeNum)
  armed : List Bool
  orphan : Bool

/-- The registrar after `awss_registrar_init`. -/
def registrarStart : Registrar :=
  ⟨fun _ => .zero, none, none, none, 0, [], [], [], [], [], false⟩

/-- `HAL_Timer_Stop` and `HAL_Timer_Start`. -/
def timerStart (timer : Option Bool) : Option Bool := timer.map fun _ => true

/-- A timer that is not there is created first, if that succeeds. -/
def timerCreate (timer : Option Bool) (created : Bool) : Option Bool :=
  if timer = none ∧ created = true then some false else timer

variable (s : Registrar)

def Registrar.setEntry (i : Fin maxEnrolleeNum) (e : EnrolleeInfo) : Registrar :=
  { s with
    table := Function.update s.table i e
    moves :=
      if e.state = (s.table i).state then s.moves else s.moves ++ [((s.table i).state, e.state)] }

/-- `enrollee_put`. -/
def Registrar.put (ready : Bool) (now : UInt32) (enr : EnrolleeInfo) (created : Bool) : Registrar :=
  if ready = false then s
  else
    match firstEntry s.table fun e => e.state ≠ .free && e.isDevice enr.pk enr.devName with
    | some i =>
      let s' : Registrar :=
        if (s.table i).state = .found ∧
            timeElapsed now (s.table i).reportTimestamp (s.table i).interval = true then
          { s with reportTimer := timerStart (timerCreate s.reportTimer created) }
        else s
      if (s.table i).state ≠ .inQueue then s'
      else
        let e := (s.table i).copyHdr enr
        s'.setEntry i { e with rssi := (2 * e.rssi + enr.rssi).tdiv 3 }
    | none =>
      match firstEntry s.table fun e => e.state = .free with
      | none => s
      | some i =>
        { s.setEntry i
            { EnrolleeInfo.zero.copyHdr enr with
              rssi := enr.rssi
              state := .inQueue
              checkinPriority := 1
              interval := registrarTimeout
              checkinTimeout := registrarTimeout } with
          reportTimer := timerStart (timerCreate s.reportTimer created) }

variable (memory : Fin maxEnrolleeNum → Bool)

def reportEntry (now : UInt32) (s : Registrar) (i : Fin maxEnrolleeNum) : Registrar :=
  match (s.table i).state with
  | .found =>
    if timeElapsed now (s.table i).reportTimestamp (s.table i).interval then
      s.setEntry i .zero
    else s
  | .inQueue =>
    if memory i then s.setEntry i { s.table i with state := .found, reportTimestamp := now }
    else s
  | _ => s

def enrolleeReport (now : UInt32) :
    Registrar :=
  (List.finRange maxEnrolleeNum).foldl (reportEntry memory now) s

variable (key devName : Bytes)

/-- The entry of a device in a state, as the handlers of the replies look for it. -/
def entryIn (table : EnrolleeTable) (state : EnrolleeState) (key devName : Bytes) :
    Option (Fin maxEnrolleeNum) :=
  if maxPkLen < key.length ∨ maxDevNameLen < devName.length then none
  else firstEntry table fun e => e.state = state && e.isDevice key devName

/-- `interval <= 0 ? REGISTRAR_TIMEOUT : interval`. -/
def orRegistrarTimeout (seconds : ℤ) : UInt32 :=
  if seconds ≤ 0 then registrarTimeout else UInt32.ofNat seconds.toNat

def awssReportSetInterval (interval : ℤ) (created : Bool) : Registrar :=
  match entryIn s.table .found key devName with
  | none => s
  | some i =>
    { s.setEntry i { s.table i with interval := orRegistrarTimeout interval } with
      checkinTimer := timerStart (timerCreate s.checkinTimer created) }

def enrolleeEnableSomebodyCheckin (timeout : ℤ) (now : UInt32) : Registrar :=
  match entryIn s.table .found key devName with
  | none => s
  | some i =>
    { s.setEntry i
        { s.table i with
          state := .checkinEnable
          checkinPriority := 1
          checkinTimeout := orRegistrarTimeout timeout
          checkinTimestamp := now } with
      checkinTimer := timerStart s.checkinTimer
      armed := s.armed ++ [decide (timerStart s.checkinTimer = some true)] }

def hexvalOfChar (hex : UInt8) : UInt8 :=
  if isDigit hex then hex - 48
  else if 97 ≤ hex ∧ hex ≤ 102 then hex - 97 + 10
  else if 65 ≤ hex ∧ hex ≤ 70 then hex - 65 + 10
  else 0

/-- `LITE_hexstr_convert` into memory that is zero. -/
def hexstrConvert (input : Bytes) (outputLen : ℕ) : Bytes :=
  (List.range outputLen).map fun i =>
    if input.length % 2 = 0 ∧ i < input.length / 2 then
      hexvalOfChar (input.getD (2 * i) 0) <<< 4 ||| hexvalOfChar (input.getD (2 * i + 1) 0)
    else 0

def enrolleeEnableSomebodyCipher (cipher : Bytes) (memory : Bool) : Registrar :=
  match entryIn s.table .checkinEnable key devName with
  | none => s
  | some i =>
    if memory then
      { s.setEntry i
          { s.table i with
            key := (hexstrConvert cipher maxKeyLen).take aesKeyLen ++ (s.table i).key.drop aesKeyLen
            state := .checkinCipher } with
        checkinTimer := timerStart s.checkinTimer
        armed := s.armed ++ [decide (timerStart s.checkinTimer = some true)] }
    else s

def bindEntry (s : Registrar) (i : Fin maxEnrolleeNum) : Registrar :=
  if (s.table i).state = .checkinOngoing ∧ (s.table i).isDevice key devName = true then
    { s.setEntry i { s.table i with state := .free } with orphan := true }
  else s

def onlineDevBindMonitor : Registrar :=
  (List.finRange maxEnrolleeNum).foldl (bindEntry key devName) s

/-! ## Checking in -/

/-- What a tick finds around it: the network, the address of the radio, whether there is memory
for a frame, and the times at which the check-in begins and at which it is looked whether its time
is over. -/
structure CheckinEnv where
  ap : ApInfo
  mac : Bytes
  memory : Bool
  now : UInt32
  later : UInt32

/-- The entry to be checked in next: the first of those with the least priority. -/
def checkinNew (table : EnrolleeTable) : Option (Fin maxEnrolleeNum) :=
  (List.finRange maxEnrolleeNum).foldl (fun new i =>
    if (table i).state = .checkinEnable ∧
        (table i).checkinPriority < new.elim 65536 fun j => (table j).checkinPriority then some i
    else new) none

/-- The last entry that has a key. -/
def getCipher (table : EnrolleeTable) : Option (Fin maxEnrolleeNum) :=
  (List.finRange maxEnrolleeNum).reverse.find? fun i => (table i).state = .checkinCipher

variable (crypto : Crypto)

/-- `registrar_raw_frame_init`: the frame that is there is not released. -/
def rawFrameInit (s : Registrar) (env : CheckinEnv) (enr : EnrolleeInfo) :
    Registrar :=
  { s with
    frame :=
      if env.memory then some (registrarRawFrameInit crypto env.ap env.mac enr) else none
    frameLen := registrarFrameLen env.ap
    lost := s.lost ++ s.frame.toList }

def registrarRawFrameDestroy : Registrar :=
  if s.frameLen = 0 then s else { s with frame := none, frameLen := 0 }

/-- What `enrollee_checkin` does for the entry that is checked in. -/
def checkinOngoing (env : CheckinEnv) (i : Fin maxEnrolleeNum) : Registrar :=
  let s : Registrar := { s with sent := s.sent ++ [⟨s.table i, s.frame⟩] }
  -- the state `ENR_CHECKIN_END` does not outlast the assignment
  let s := if timeElapsed env.later (s.table i).checkinTimestamp (s.table i).checkinTimeout then
    registrarRawFrameDestroy (s.setEntry i .zero) else s
  { s with checkinTimer := timerStart s.checkinTimer }

def enrolleeCheckin (s : Registrar) (env : CheckinEnv) : Registrar :=
  match firstEntry s.table fun e => e.state = .checkinOngoing with
  | some i => checkinOngoing s env i
  | none =>
    match getCipher s.table with
    | some i =>
      let e := { s.table i with state := .checkinOngoing, checkinTimestamp := env.now }
      checkinOngoing (rawFrameInit crypto (s.setEntry i e) env e) env i
    | none =>
      match checkinNew s.table with
      | some i => { s with requested := s.requested ++ [i] }
      | none => s

inductive RegistrarOp where
  | put (ready : Bool) (now : UInt32) (enr : EnrolleeInfo) (created : Bool)
  | report (memory : Fin maxEnrolleeNum → Bool) (now : UInt32)
  | setInterval (key devName : Bytes) (interval : ℤ) (created : Bool)
  | checkin (key devName : Bytes) (timeout : ℤ) (now : UInt32)
  | cipher (key devName cipher : Bytes) (memory : Bool)
  | tick (env : CheckinEnv)
  | bind (key devName : Bytes)

def registrarStep (s : Registrar) : RegistrarOp → Registrar
  | .put ready now enr created => s.put ready now enr created
  | .report memory now => enrolleeReport s memory now
  | .setInterval key devName interval created =>
    awssReportSetInterval s key devName interval created
  | .checkin key devName timeout now => enrolleeEnableSomebodyCheckin s key devName timeout now
  | .cipher key devName cipher memory =>
    enrolleeEnableSomebodyCipher s key devName cipher memory
  | .tick env => enrolleeCheckin crypto s env
  | .bind key devName => onlineDevBindMonitor s key devName

/-! ## What holds in every state -/

/-- From where an entry moves to where. -/
inductive EnrolleeMove : EnrolleeState → EnrolleeState → Prop where
  | put : EnrolleeMove .free .inQueue
  | report : EnrolleeMove .inQueue .found
  | evict : EnrolleeMove .found .free
  | checkin : EnrolleeMove .found .checkinEnable
  | cipher : EnrolleeMove .checkinEnable .checkinCipher
  | ongoing : EnrolleeMove .checkinCipher .checkinOngoing
  | leave : EnrolleeMove .checkinOngoing .free

/-- Two entries are in use for one device. -/
def EnrolleeInfo.Clash (a b : EnrolleeInfo) : Prop :=
  a.state ≠ .free ∧ b.state ≠ .free ∧ a.pk = b.pk ∧ a.devName = b.devName

/-- A frame has been built for an entry. -/
def BuiltFor (frame : Option Bytes) (enr : EnrolleeInfo) : Prop :=
  ∃ ap mac, frame = some (registrarRawFrameInit crypto ap mac enr)

/-- The table is in order: one entry for each device, each moving along; at most one that is checked
in; the frames sent are those of the entries, and none was lost; each reply has started the timer. -/
structure TableOk (crypto : Crypto) (s : Registrar) : Prop where
  distinct : ∀ i j, (s.table i).Clash (s.table j) → i = j
  moves : ∀ m ∈ s.moves, EnrolleeMove m.1 m.2
  single : ∀ i j, (s.table i).state = .checkinOngoing → (s.table j).state = .checkinOngoing → i = j
  sent : ∀ r ∈ s.sent, r.entry.state = .checkinOngoing ∧ BuiltFor crypto r.frame r.entry
  released : s.lost = []
  armed : ∀ b ∈ s.armed, b = true

/-- What else holds: an entry that may be checked in has a timer, the one that is checked in owns the
frame, and without one there is a frame only when a device has bound itself. -/
structure RegistrarInv (crypto : Crypto) (s : Registrar) : Prop extends TableOk crypto s where
  enabled : ∀ i, (s.table i).state = .checkinEnable → s.checkinTimer ≠ none
  owner : ∀ i, (s.table i).state = .checkinOngoing →
    s.orphan = false ∧ s.frameLen ≠ 0 ∧ BuiltFor crypto s.frame (s.table i)
  idle : (∀ i, (s.table i).state ≠ .checkinOngoing) → (s.frame = none ↔ s.orphan = false)

/-- A tick begins to check in an entry. -/
def BeginsCheckin : Prop :=
  firstEntry s.table (fun e => e.state = .checkinOngoing) = none ∧ getCipher s.table ≠ none

/-- A reply that lets an entry be checked in comes when the timer is there; and when a tick begins
to check in an entry, there is memory for the frame and no device has bound itself before the time
of its entry was over. -/
def Orderly : RegistrarOp → Prop
  | .checkin key devName _ _ =>
    entryIn s.table .found key devName ≠ none → s.checkinTimer ≠ none
  | .tick env => BeginsCheckin s → env.memory = true ∧ s.orphan = false
  | _ => True

/-! ## Entries -/

variable {i : Fin maxEnrolleeNum}

theorem entryIn_state {table : EnrolleeTable} {state : EnrolleeState} {key devName : Bytes}
    (h : entryIn table state key devName = some i) : (table i).state = state := by
  unfold entryIn at h
  split_ifs at h
  have hi := firstEntry_some h
  simp only [Bool.and_eq_true, decide_eq_true_eq] at hi
  exact hi.1

theorem getCipher_state {table : EnrolleeTable} (h : getCipher table = some i) :
    (table i).state = .checkinCipher := by
  have hi := List.find?_some h
  simpa using hi

theorem timerStart_ne_none {timer : Option Bool} (h : timer ≠ none) : timerStart timer ≠ none := by
  cases timer with
  | none => exact absurd rfl h
  | some b => simp [timerStart]

theorem timerStart_eq_some_iff (timer : Option Bool) :
    timerStart timer = some true ↔ timer ≠ none := by
  cases timer <;> simp [timerStart]

theorem timerCreate_ne_none {timer : Option Bool} {created : Bool} (h : timer ≠ none) :
    timerCreate timer created ≠ none := by
  rw [timerCreate, if_neg fun hc => h hc.1]
  exact h

/-! ## Setting an entry -/

theorem setEntry_table (i j : Fin maxEnrolleeNum) (e : EnrolleeInfo) :
    (s.setEntry i e).table j = if j = i then e else s.table j := by
  show Function.update s.table i e j = _
  rw [Function.update_apply]

variable {s : Registrar} {e : EnrolleeInfo}

theorem mem_setEntry_moves {m : EnrolleeState × EnrolleeState} (h : m ∈ (s.setEntry i e).moves) :
    m ∈ s.moves ∨ (m = ((s.table i).state, e.state) ∧ e.state ≠ (s.table i).state) := by
  simp only [Registrar.setEntry] at h
  split_ifs at h with he
  · exact .inl h
  · rcases List.mem_append.mp h with h | h
    · exact .inl h
    · exact .inr ⟨List.mem_singleton.mp h, he⟩

/-- The entry that is set is none of another device that is in use. -/
def SameDevice (s : Registrar) (i : Fin maxEnrolleeNum) (e : EnrolleeInfo) : Prop :=
  ∀ j, j ≠ i → ¬ e.Clash (s.table j)

variable {crypto : Crypto}

theorem sameDevice_of_eq (h : TableOk crypto s) (hold : (s.table i).state ≠ .free)
    (hpk : e.pk = (s.table i).pk) (hname : e.devName = (s.table i).devName) : SameDevice s i e := by
  rintro j hj ⟨-, hused, hpk', hname'⟩
  exact hj (h.distinct i j ⟨hold, hused, hpk ▸ hpk', hname ▸ hname'⟩).symm

theorem sameDevice_of_free (s : Registrar) (i : Fin maxEnrolleeNum) (h : e.state = .free) :
    SameDevice s i e :=
  fun _ _ hc => hc.1 h

/-- The parts of `TableOk` that are about the table and the moves, after an entry was set. -/
theorem setEntry_distinct (h : TableOk crypto s) (hsame : SameDevice s i e)
    (j k : Fin maxEnrolleeNum) (hc : ((s.setEntry i e).table j).Clash ((s.setEntry i e).table k)) :
    j = k := by
  rw [setEntry_table, setEntry_table] at hc
  by_cases hj : j = i <;> by_cases hk : k = i
  · rw [hj, hk]
  · rw [if_pos hj, if_neg hk] at hc
    exact absurd hc (hsame k hk)
  · rw [if_neg hj, if_pos hk] at hc
    exact absurd ⟨hc.2.1, hc.1, hc.2.2.1.symm, hc.2.2.2.symm⟩ (hsame j hj)
  · rw [if_neg hj, if_neg hk] at hc
    exact h.distinct j k hc

theorem setEntry_moves (h : TableOk crypto s)
    (hmove : e.state ≠ (s.table i).state → EnrolleeMove (s.table i).state e.state) :
    ∀ m ∈ (s.setEntry i e).moves, EnrolleeMove m.1 m.2 := by
  intro m hm
  rcases mem_setEntry_moves hm with hm | ⟨rfl, hne⟩
  · exact h.moves m hm
  · exact hmove hne

theorem RegistrarInv.setEntry (h : RegistrarInv crypto s) (hsame : SameDevice s i e)
    (hmove : e.state ≠ (s.table i).state → EnrolleeMove (s.table i).state e.state)
    (hold : (s.table i).state ≠ .checkinOngoing) (hnew : e.state ≠ .checkinOngoing)
    (henable : e.state = .checkinEnable → s.checkinTimer ≠ none) :
    RegistrarInv crypto (s.setEntry i e) := by
  -- the entries that are checked in are those of before
  have hongoing : ∀ j, ((s.setEntry i e).table j).state = .checkinOngoing ↔
      (s.table j).state = .checkinOngoing := by
    intro j
    rw [setEntry_table]
    by_cases hj : j = i
    · rw [if_pos hj, hj]
      exact ⟨fun hc => absurd hc hnew, fun hc => absurd hc hold⟩
    · rw [if_neg hj]
  have hkept : ∀ j, (s.table j).state = .checkinOngoing →
      (s.setEntry i e).table j = s.table j := by
    intro j hj
    rw [setEntry_table, if_neg]
    rintro rfl
    exact hold hj
  refine ⟨⟨setEntry_distinct h.toTableOk hsame, setEntry_moves h.toTableOk hmove, ?_, h.sent,
    h.released, h.armed⟩, ?_, ?_, ?_⟩
  · intro j k hj hk
    exact h.single j k ((hongoing j).mp hj) ((hongoing k).mp hk)
  · intro j hj
    rw [setEntry_table] at hj
    by_cases hji : j = i
    · rw [if_pos hji] at hj
      exact henable hj
    · rw [if_neg hji] at hj
      exact h.enabled j hj
  · intro j hj
    have hj' := (hongoing j).mp hj
    rw [hkept j hj']
    exact h.owner j hj'
  · intro hnone
    exact h.idle fun j hj => hnone j ((hongoing j).mpr hj)

theorem RegistrarInv.withTimers (h : RegistrarInv crypto s) {checkin report : Option Bool}
    (hc : s.checkinTimer ≠ none → checkin ≠ none) :
    RegistrarInv crypto { s with checkinTimer := checkin, reportTimer := report } :=
  ⟨⟨h.distinct, h.moves, h.single, h.sent, h.released, h.armed⟩,
    fun i hi => hc (h.enabled i hi), h.owner, h.idle⟩

theorem RegistrarInv.arm (h : RegistrarInv crypto s) (hc : s.checkinTimer ≠ none) :
    RegistrarInv crypto
      { s with
        checkinTimer := timerStart s.checkinTimer
        armed := s.armed ++ [decide (timerStart s.checkinTimer = some true)] } := by
  refine ⟨⟨h.distinct, h.moves, h.single, h.sent, h.released, ?_⟩,
    fun i _ => timerStart_ne_none hc, h.owner, h.idle⟩
  intro b hb
  rcases List.mem_append.mp hb with hb | hb
  · exact h.armed b hb
  · rw [List.mem_singleton.mp hb, decide_eq_true_eq, timerStart_eq_some_iff]
    exact hc

/-! ## The handlers -/

theorem EnrolleeInfo.isDevice_iff (e : EnrolleeInfo) (pk devName : Bytes) :
    e.isDevice pk devName = true ↔ devName = e.devName ∧ pk = e.pk := by
  simp [EnrolleeInfo.isDevice]

section

variable (h : RegistrarInv crypto s)
include h

theorem RegistrarInv.put (ready : Bool) (now : UInt32) (enr : EnrolleeInfo) (created : Bool) :
    RegistrarInv crypto (s.put ready now enr created) := by
  unfold Registrar.put
  by_cases hready : ready = false
  · rw [if_pos hready]
    exact h
  rw [if_neg hready]
  cases hused : firstEntry s.table fun e => e.state ≠ .free && e.isDevice enr.pk enr.devName with
  | some i =>
    have hi := firstEntry_some hused
    simp only [ne_eq, decide_not, Bool.and_eq_true, Bool.not_eq_true', decide_eq_false_iff_not,
      EnrolleeInfo.isDevice_iff] at hi
    obtain ⟨hfree, hname, hpk⟩ := hi
    -- an entry in the queue is refreshed, whether the timer is started or not
    have hset : ∀ s' : Registrar, s'.table = s.table → RegistrarInv crypto s' →
        (s.table i).state = .inQueue →
        ∀ rssi, RegistrarInv crypto
          (s'.setEntry i { (s.table i).copyHdr enr with rssi := rssi }) := by
      intro s' htable hs' hqueue rssi
      apply hs'.setEntry
      · apply sameDevice_of_eq hs'.toTableOk
        · rw [htable]
          exact hfree
        · rw [htable]
          exact hpk
        · rw [htable]
          exact hname
      · intro hne
        rw [htable] at hne
        exact absurd rfl hne
      · rw [htable, hqueue]
        decide
      · show (s.table i).state ≠ .checkinOngoing
        rw [hqueue]
        decide
      · intro hen
        exact hs'.enabled i (by rw [htable]; exact hen)
    dsimp only
    by_cases hstate : (s.table i).state = .inQueue
    · rw [if_neg (not_not.mpr hstate)]
      split_ifs
      · refine hset _ ?_ ?_ hstate _
        · rfl
        · exact h.withTimers id
      · exact hset _ rfl h hstate _
    · rw [if_pos hstate]
      split_ifs
      · exact h.withTimers id
      · exact h
  | none =>
    cases hslot : firstEntry s.table fun e => e.state = .free with
    | none => exact h
    | some i =>
      have hi : (s.table i).state = .free := by simpa using firstEntry_some hslot
      refine RegistrarInv.withTimers (h.setEntry ?_ ?_ ?_ ?_ ?_) id
      · rintro j - ⟨-, hj, hpk, hname⟩
        have hno := firstEntry_none hused j
        have hdev : (s.table j).isDevice enr.pk enr.devName = true :=
          ((s.table j).isDevice_iff _ _).mpr ⟨hname, hpk⟩
        simp [hj, hdev] at hno
      · intro _
        rw [hi]
        exact EnrolleeMove.put
      · rw [hi]
        decide
      · exact fun hc => nomatch hc
      · exact fun hc => nomatch hc

theorem RegistrarInv.reportEntry (memory : Fin maxEnrolleeNum → Bool) (now : UInt32)
    (i : Fin maxEnrolleeNum) : RegistrarInv crypto (reportEntry memory now s i) := by
  unfold ZeroConfig.reportEntry
  cases hstate : (s.table i).state with
  | found =>
    dsimp only
    split_ifs
    · apply h.setEntry (sameDevice_of_free s i rfl)
      · intro _
        rw [hstate]
        exact EnrolleeMove.evict
      · rw [hstate]
        decide
      · exact fun hc => nomatch hc
      · exact fun hc => nomatch hc
    · exact h
  | inQueue =>
    dsimp only
    split_ifs
    · refine h.setEntry (sameDevice_of_eq h.toTableOk (by rw [hstate]; decide) rfl rfl)
        ?_ ?_ ?_ ?_
      · intro _
        rw [hstate]
        exact EnrolleeMove.report
      · rw [hstate]
        decide
      · exact fun hc => nomatch hc
      · exact fun hc => nomatch hc
    · exact h
  | free => exact h
  | checkinEnable => exact h
  | checkinCipher => exact h
  | checkinOngoing => exact h
  | checkinEnd => exact h

theorem RegistrarInv.report (now : UInt32) :
    RegistrarInv crypto (enrolleeReport s memory now) :=
  inv_foldl (RegistrarInv crypto) (fun _ i hs => hs.reportEntry memory now i) h _

theorem RegistrarInv.setInterval (key devName : Bytes) (interval : ℤ) (created : Bool) :
    RegistrarInv crypto (awssReportSetInterval s key devName interval created) := by
  unfold awssReportSetInterval
  cases hentry : entryIn s.table .found key devName with
  | none => exact h
  | some i =>
    have hstate := entryIn_state hentry
    have hset : RegistrarInv crypto
        (s.setEntry i { s.table i with interval := orRegistrarTimeout interval }) := by
      refine h.setEntry (sameDevice_of_eq h.toTableOk (by rw [hstate]; decide) rfl rfl)
        ?_ ?_ ?_ ?_
      · exact fun hne => absurd rfl hne
      · rw [hstate]
        decide
      · rw [hstate]
        decide
      · exact h.enabled i
    exact hset.withTimers fun hc => timerStart_ne_none (timerCreate_ne_none hc)

theorem RegistrarInv.checkin (key devName : Bytes) (timeout : ℤ) (now : UInt32)
    (hok : Orderly s (.checkin key devName timeout now)) :
    RegistrarInv crypto (enrolleeEnableSomebodyCheckin s key devName timeout now) := by
  unfold enrolleeEnableSomebodyCheckin
  cases hentry : entryIn s.table .found key devName with
  | none => exact h
  | some i =>
    have hstate := entryIn_state hentry
    have htimer : s.checkinTimer ≠ none := hok (by rw [hentry]; exact Option.some_ne_none i)
    refine RegistrarInv.arm (h.setEntry
      (sameDevice_of_eq h.toTableOk (by rw [hstate]; decide) rfl rfl) ?_ ?_ ?_ ?_) htimer
    · intro _
      rw [hstate]
      exact EnrolleeMove.checkin
    · rw [hstate]
      decide
    · exact fun hc => nomatch hc
    · exact fun _ => htimer

theorem RegistrarInv.cipher (key devName cipher : Bytes) (memory : Bool) :
    RegistrarInv crypto (enrolleeEnableSomebodyCipher s key devName cipher memory) := by
  unfold enrolleeEnableSomebodyCipher
  cases hentry : entryIn s.table .checkinEnable key devName with
  | none => exact h
  | some i =>
    have hstate := entryIn_state hentry
    split_ifs
    · refine RegistrarInv.arm (h.setEntry
        (sameDevice_of_eq h.toTableOk (by rw [hstate]; decide) rfl rfl) ?_ ?_ ?_ ?_)
        (h.enabled i hstate)
      · intro _
        rw [hstate]
        exact EnrolleeMove.cipher
      · rw [hstate]
        decide
      · exact fun hc => nomatch hc
      · exact fun hc => nomatch hc
    · exact h

end

/-- What is in a state that the entry does not get was in it before. -/
theorem state_of_setEntry {e : EnrolleeInfo} {state : EnrolleeState} (he : e.state ≠ state)
    {j : Fin maxEnrolleeNum} (hj : ((s.setEntry i e).table j).state = state) :
    j ≠ i ∧ (s.table j).state = state := by
  rw [setEntry_table] at hj
  by_cases hji : j = i
  · rw [if_pos hji] at hj
    exact absurd hj he
  · rw [if_neg hji] at hj
    exact ⟨hji, hj⟩

section

variable (h : RegistrarInv crypto s)
include h

theorem RegistrarInv.bindEntry (key devName : Bytes) (i : Fin maxEnrolleeNum) :
    RegistrarInv crypto (bindEntry key devName s i) := by
  unfold ZeroConfig.bindEntry
  split_ifs with hi
  · obtain ⟨hstate, -⟩ := hi
    -- no other entry is checked in
    have hnone : ∀ j, ((s.setEntry i { s.table i with state := .free }).table j).state ≠
        .checkinOngoing := by
      intro j hj
      obtain ⟨hji, hold⟩ := state_of_setEntry EnrolleeState.noConfusion hj
      exact hji (h.single j i hold hstate)
    obtain ⟨-, -, ap, mac, hframe⟩ := h.owner i hstate
    refine ⟨⟨setEntry_distinct h.toTableOk (sameDevice_of_free s i rfl),
      setEntry_moves h.toTableOk ?_, ?_, h.sent, h.released, h.armed⟩, ?_, ?_, ?_⟩
    · intro _
      rw [hstate]
      exact EnrolleeMove.leave
    · exact fun j k hj => absurd hj (hnone j)
    · intro j hj
      exact h.enabled j (state_of_setEntry EnrolleeState.noConfusion hj).2
    · exact fun j hj => absurd hj (hnone j)
    · intro _
      show s.frame = none ↔ true = false
      rw [hframe]
      simp
  · exact h

theorem RegistrarInv.bind (key devName : Bytes) :
    RegistrarInv crypto (onlineDevBindMonitor s key devName) :=
  inv_foldl (RegistrarInv crypto) (fun _ i hs => hs.bindEntry key devName i) h _

/-! ## Ticks -/

/-- An entry that owns the frame is sent it, and leaves with it when its time is over. -/
theorem RegistrarInv.checkinOngoing (env : CheckinEnv) (hi : (s.table i).state = .checkinOngoing) :
    RegistrarInv crypto (checkinOngoing s env i) := by
  obtain ⟨horphan, hlen, hbuilt⟩ := h.owner i hi
  have hsent : RegistrarInv crypto { s with sent := s.sent ++ [⟨s.table i, s.frame⟩] } := by
    refine ⟨⟨h.distinct, h.moves, h.single, ?_, h.released, h.armed⟩, h.enabled, h.owner, h.idle⟩
    exact List.forall_mem_append.mpr ⟨h.sent, List.forall_mem_singleton.mpr ⟨hi, hbuilt⟩⟩
  unfold ZeroConfig.checkinOngoing
  dsimp only
  split_ifs
  · generalize hs' : ({ s with sent := s.sent ++ [⟨s.table i, s.frame⟩] } : Registrar) = s' at hsent
    have htable : s'.table = s.table := by rw [← hs']
    have hi' : (s'.table i).state = .checkinOngoing := by rw [htable]; exact hi
    -- the entry was the only one that was being checked in
    have hnone : ∀ j, ((s'.setEntry i .zero).table j).state ≠ .checkinOngoing := by
      intro j hj
      obtain ⟨hji, hold⟩ := state_of_setEntry EnrolleeState.noConfusion hj
      exact hji (hsent.single j i hold hi')
    have hfree : registrarRawFrameDestroy (s'.setEntry i .zero) =
        { s'.setEntry i .zero with frame := none, frameLen := 0 } := by
      rw [registrarRawFrameDestroy, if_neg]
      rw [← hs']
      exact hlen
    rw [hfree]
    refine RegistrarInv.withTimers (s := { s'.setEntry i .zero with frame := none, frameLen := 0 })
      ⟨⟨setEntry_distinct hsent.toTableOk (sameDevice_of_free s' i rfl),
        setEntry_moves hsent.toTableOk ?_, ?_, hsent.sent, hsent.released, hsent.armed⟩, ?_, ?_, ?_⟩
      timerStart_ne_none
    · intro _
      rw [hi']
      exact EnrolleeMove.leave
    · exact fun j k hj => absurd hj (hnone j)
    · intro j hj
      exact hsent.enabled j (state_of_setEntry EnrolleeState.noConfusion hj).2
    · exact fun j hj => absurd hj (hnone j)
    · intro _
      rw [← hs']
      exact ⟨fun _ => horphan, fun _ => rfl⟩
  · exact hsent.withTimers timerStart_ne_none

theorem RegistrarInv.rawFrameInit (env : CheckinEnv)
    (hidle : ∀ j, (s.table j).state ≠ .checkinOngoing) (hi : (s.table i).state = .checkinCipher)
    (hmem : env.memory = true) (horphan : s.orphan = false) (now : UInt32) :
    RegistrarInv crypto
      (rawFrameInit crypto
        (s.setEntry i { s.table i with state := .checkinOngoing, checkinTimestamp := now }) env
        { s.table i with state := .checkinOngoing, checkinTimestamp := now }) := by
  have hframe : s.frame = none := (h.idle hidle).mpr horphan
  generalize he : { s.table i with state := .checkinOngoing, checkinTimestamp := now } = e
  have hstate : e.state = .checkinOngoing := by rw [← he]
  -- no other entry is being checked in
  have hongoing : ∀ j, ((s.setEntry i e).table j).state = .checkinOngoing → j = i := by
    intro j hj
    by_contra hji
    rw [setEntry_table, if_neg hji] at hj
    exact hidle j hj
  have hsame : SameDevice s i e := by
    apply sameDevice_of_eq h.toTableOk
    · rw [hi]
      decide
    · rw [← he]
    · rw [← he]
  refine ⟨⟨setEntry_distinct h.toTableOk hsame, setEntry_moves h.toTableOk ?_, ?_, h.sent, ?_,
    h.armed⟩, ?_, ?_, ?_⟩
  · intro _
    rw [hi, hstate]
    exact EnrolleeMove.ongoing
  · intro j k hj hk
    rw [hongoing j hj, hongoing k hk]
  · show s.lost ++ s.frame.toList = []
    rw [hframe, h.released]
    rfl
  · intro j hj
    rw [show (ZeroConfig.rawFrameInit crypto (s.setEntry i e) env e).table j = _
      from setEntry_table s i j e] at hj
    by_cases hji : j = i
    · rw [if_pos hji, hstate] at hj
      exact nomatch hj
    · rw [if_neg hji] at hj
      exact h.enabled j hj
  · intro j hj
    rw [hongoing j hj]
    refine ⟨horphan, ?_, env.ap, env.mac, ?_⟩
    · show registrarFrameLen env.ap ≠ 0
      rw [registrarFrameLen]
      exact Nat.ne_of_gt (Nat.add_pos_left (by decide) _)
    · rw [show (ZeroConfig.rawFrameInit crypto (s.setEntry i e) env e).table i = _
        from setEntry_table s i i e, if_pos rfl]
      show (if env.memory = true then _ else none) = _
      rw [if_pos hmem]
  · intro hnone
    refine absurd ?_ (hnone i)
    rw [show (ZeroConfig.rawFrameInit crypto (s.setEntry i e) env e).table i = _
      from setEntry_table s i i e, if_pos rfl]
    exact hstate

theorem RegistrarInv.tick (env : CheckinEnv) (hok : Orderly s (.tick env)) :
    RegistrarInv crypto (enrolleeCheckin crypto s env) := by
  unfold enrolleeCheckin
  cases hongoing : firstEntry s.table fun e => e.state = .checkinOngoing with
  | some i =>
    have hi : (s.table i).state = .checkinOngoing := by simpa using firstEntry_some hongoing
    exact h.checkinOngoing env hi
  | none =>
    have hidle : ∀ j, (s.table j).state ≠ .checkinOngoing := by
      intro j
      simpa using firstEntry_none hongoing j
    cases hcipher : getCipher s.table with
    | some i =>
      obtain ⟨hmem, horphan⟩ := hok ⟨hongoing, by rw [hcipher]; exact Option.some_ne_none i⟩
      have hbuilt := h.rawFrameInit env hidle (getCipher_state hcipher) hmem horphan env.now
      apply hbuilt.checkinOngoing env
      show ((s.setEntry i _).table i).state = .checkinOngoing
      rw [setEntry_table, if_pos rfl]
    | none =>
      cases checkinNew s.table with
      | some i =>
        exact ⟨⟨h.distinct, h.moves, h.single, h.sent, h.released, h.armed⟩, h.enabled, h.owner,
          h.idle⟩
      | none => exact h

end

/-! ## Runs -/

theorem registrarStart_inv (crypto : Crypto) : RegistrarInv crypto registrarStart := by
  refine ⟨⟨?_, ?_, ?_, ?_, rfl, ?_⟩, ?_, ?_, ?_⟩
  · exact fun i j hc => absurd rfl hc.1
  · exact fun m hm => nomatch hm
  · exact fun i j hi => nomatch hi
  · exact fun r hr => nomatch hr
  · exact fun b hb => nomatch hb
  · exact fun i hi => nomatch hi
  · exact fun i hi => nomatch hi
  · exact fun _ => ⟨fun _ => rfl, fun _ => rfl⟩

theorem RegistrarInv.step (h : RegistrarInv crypto s) (op : RegistrarOp) (hok : Orderly s op) :
    RegistrarInv crypto (registrarStep crypto s op) := by
  cases op with
  | put ready now enr created => exact h.put ready now enr created
  | report memory now => exact h.report memory now
  | setInterval key devName interval created => exact h.setInterval key devName interval created
  | checkin key devName timeout now => exact h.checkin key devName timeout now hok
  | cipher key devName cipher memory => exact h.cipher key devName cipher memory
  | tick env => exact h.tick env hok
  | bind key devName => exact h.bind key devName

theorem registrarRawFrameDestroy_kept (s : Registrar) :
    (registrarRawFrameDestroy s).sent = s.sent ∧ (registrarRawFrameDestroy s).lost = s.lost := by
  unfold registrarRawFrameDestroy
  split_ifs <;> exact ⟨rfl, rfl⟩

theorem checkinOngoing_sent (s : Registrar) (env : CheckinEnv) (i : Fin maxEnrolleeNum) :
    (checkinOngoing s env i).sent = s.sent ++ [⟨s.table i, s.frame⟩] ∧
      (checkinOngoing s env i).lost = s.lost := by
  unfold checkinOngoing
  dsimp only
  split_ifs
  · exact registrarRawFrameDestroy_kept _
  · exact ⟨rfl, rfl⟩

/-- A tick that begins to check in an entry sends it what it has built, and loses the frame that
was there. -/
theorem tick_begins (crypto : Crypto) (env : CheckinEnv) (h : BeginsCheckin s) :
    (enrolleeCheckin crypto s env).lost = s.lost ++ s.frame.toList ∧
      ∃ e, (⟨e, if env.memory then some (registrarRawFrameInit crypto env.ap env.mac e) else none⟩ :
        SentFrame) ∈ (enrolleeCheckin crypto s env).sent := by
  obtain ⟨hongoing, hcipher⟩ := h
  obtain ⟨i, hi⟩ := Option.ne_none_iff_exists'.mp hcipher
  simp only [enrolleeCheckin, hongoing, hi]
  generalize { s.table i with state := .checkinOngoing, checkinTimestamp := env.now } = e
  have hentry : (rawFrameInit crypto (s.setEntry i e) env e).table i = e := by
    show (s.setEntry i e).table i = e
    rw [setEntry_table, if_pos rfl]
  obtain ⟨hsent, hlost⟩ := checkinOngoing_sent (rawFrameInit crypto (s.setEntry i e) env e) env i
  refine ⟨hlost, e, ?_⟩
  rw [hsent, hentry]
  exact List.mem_append_right _ (List.mem_singleton.mpr rfl)

theorem orderly_of_tableOk (h : RegistrarInv crypto s) (op : RegistrarOp)
    (hafter : TableOk crypto (registrarStep crypto s op)) : Orderly s op := by
  cases op with
  | checkin key devName timeout now =>
    intro hentry
    obtain ⟨i, hi⟩ := Option.ne_none_iff_exists'.mp hentry
    have harmed := hafter.armed (decide (timerStart s.checkinTimer = some true))
      (by simp [registrarStep, enrolleeEnableSomebodyCheckin, hi])
    rw [decide_eq_true_eq, timerStart_eq_some_iff] at harmed
    exact harmed
  | tick env =>
    intro hbegins
    obtain ⟨hlost, e, he⟩ := tick_begins crypto env hbegins
    constructor
    · by_contra hmem
      obtain ⟨-, ap, mac, hframe⟩ := hafter.sent _ he
      rw [if_neg hmem] at hframe
      exact nomatch hframe
    · have hidle : ∀ j, (s.table j).state ≠ .checkinOngoing := by
        intro j
        simpa using firstEntry_none hbegins.1 j
      have hreleased : s.lost ++ s.frame.toList = [] := hlost ▸ hafter.released
      apply (h.idle hidle).mp
      simpa using (List.append_eq_nil_iff.mp hreleased).2
  | put ready now enr created => trivial
  | report memory now => trivial
  | setInterval key devName interval created => trivial
  | cipher key devName cipher memory => trivial
  | bind key devName => trivial

/-- **The table of enrollees.**  In a run of the handlers in any order, every state has one entry
per device, entries that only move along, at most one that is checked in, frames built for their
entries and released before the next, and replies that found the timer, exactly when each step is
`Orderly`. -/
theorem enrolleeTable_ok_iff (crypto : Crypto) (ops : List RegistrarOp) :
    (∀ pre, pre <+: ops → TableOk crypto (pre.foldl (registrarStep crypto) registrarStart)) ↔
      AllSteps (registrarStep crypto) Orderly registrarStart ops :=
  forall_prefix_iff_allSteps_of (fun _ h => h.toTableOk) (fun _ op h hok => h.step op hok)
    (fun _ op h hafter => orderly_of_tableOk h op hafter) ops (registrarStart_inv crypto)

/-- The frames, the replies and the ticks of a device up to the first frame that it is sent. -/
def checkinRun (dev : EnrolleeInfo) (env : CheckinEnv) : List RegistrarOp :=
  [.put true 0 dev true, .report (fun _ => true) 1, .setInterval dev.pk dev.devName 60 true,
    .checkin dev.pk dev.devName 60 2, .tick env, .cipher dev.pk dev.devName [48, 49] true, .tick env]

/-- The network `ap` without a password. -/
def sampleEnv : CheckinEnv := ⟨⟨⟨[97, 112], by decide⟩, ⟨[], CString.nul_notMem_nil⟩, [2, 0, 0, 0, 0, 9]⟩,
  [2, 0, 0, 0, 0, 2], true, 3, 4⟩

/-- A check-in reply that comes before an interval was set finds no timer; and when a device binds
itself, its frame is lost with the one of the next device. -/
theorem enrolleeTable_broken :
    (let dev := sampleDevice.info sampleCrypto (-40)
     ¬ TableOk sampleCrypto
      ([.put true 0 dev true, .report (fun _ => true) 1, .checkin dev.pk dev.devName 60 2].foldl
        (registrarStep sampleCrypto) registrarStart)) ∧
    (let dev := sampleDevice.info sampleCrypto (-40)
     ¬ TableOk sampleCrypto
      ((checkinRun dev sampleEnv ++ .bind dev.pk dev.devName :: checkinRun dev sampleEnv).foldl
        (registrarStep sampleCrypto) registrarStart)) := by
  constructor
  · intro dev h
    have harmed : false ∈ _ := show false ∈ ([.put true 0 dev true, .report (fun _ => true) 1,
      .checkin dev.pk dev.devName 60 2].foldl (registrarStep sampleCrypto) registrarStart).armed
      by decide +kernel
    exact nomatch h.armed false harmed
  · intro dev h
    have hlost : ((checkinRun dev sampleEnv ++ .bind dev.pk dev.devName ::
        checkinRun dev sampleEnv).foldl (registrarStep sampleCrypto) registrarStart).lost ≠ [] := by
      decide +kernel
    exact hlost h.released

end Iotkit.ZeroConfig
