/-
# Reception through HT control frames (`awss_ht40.c`)

Where only the length, the signal strength and a filter of a frame are seen, the receiver is
locked by two hint frames of one channel.  Groups come in a chain, each 8 after the one before.
The test of the signal strength drops next to nothing, and no check bounds a position by the
table: the chain leads to group 120 and on to 128.
-/
import Iotkit.ZconfigRecv

namespace Iotkit.Awss

open AccessLog GuardedRun Logged

/-! ## The receiver -/

/-- The variables of the file, with the data that they are kept beside. -/
structure Ht40 where
  zconfigData : ZconfigData
  hintFrameCnt : ℕ → ℕ
  filter : ℕ
  rssiLow : ℤ
  rssiHigh : ℤ
  timestamp : ℕ
  channel : ℕ → ℕ
  channelFilter : ℕ → ℕ
  state : ZcState

/-- What `zconfig_init` and `ht40_init` leave. -/
def ht40Init : Ht40 :=
  ⟨zeroZconfigData, fun _ => 0, 0, 0, 0, 0, fun _ => 0, fun _ => 0, .chnScanning⟩

/-- A frame as it is handed to the callback.  `now` is the time at its start, and `lockTime`
that at which it is taken when it starts the reception. -/
structure HtFrame where
  rssi : ℤ
  filter : ℕ
  dataLen : ℕ
  channel : ℕ
  now : ℕ
  lockTime : ℕ
  env : RecvEnv

abbrev ht40RssiRange : ℤ := 15
abbrev hitFramePerChannel : ℕ := 2
abbrev ieee80211MinHdrlen : ℕ := 24

namespace Ht40

/-- The data of the direction that is used, `tods = 1`. -/
def side (s : Ht40) : ZcSide := s.zconfigData.data true

def setSide (s : Ht40) (f : ZcSide → ZcSide) : Ht40 :=
  { s with zconfigData := s.zconfigData.setSide true f }

end Ht40

/-- An array with one entry changed. -/
def setEntry (a : ℕ → ℕ) (n v : ℕ) : ℕ → ℕ := fun i => if i = n then v else a i

variable (s : Ht40)

def ht40LockChannel (channel filter : ℕ) : Bool × Ht40 :=
  if channel < 1 ∨ channel > 14 then (false, s)
  else
    let hits := s.channel channel
    let s :=
      if hits = 0 then
        { s with
          channel := setEntry s.channel channel 1
          channelFilter := setEntry s.channelFilter channel filter }
      else if filter = s.channelFilter channel then
        { s with channel := setEntry s.channel channel (toUInt8 (hits + 1)) }
      else { s with channel := setEntry s.channel channel (hits - 1) }
    (s.channel channel ≥ hitFramePerChannel, s)

/-- The hint frames that the length of a frame is compared with: the position that is counted,
and the length. -/
def hintLengths : List (ℕ × ℕ) :=
  [1, 0].flatMap fun i => [3, 2, 1, 0].flatMap fun j => (List.range 8).map fun k =>
    (i * 32 + j * 8 + k, zconfigHintFrame.getD k 0 + zconfigFixedOffset j + i * 2)

/-- What the loop of `ht40_scanning_hint_frame` has found so far. -/
structure HintScan where
  ht40 : Ht40
  hintPos : Option ℕ
  nextLoop : Bool
  channelLocked : Bool

/-- A pass of the loop of `ht40_scanning_hint_frame`. -/
def hintPass (filter length channel : ℕ) (scan : HintScan) (hint : ℕ × ℕ) : HintScan :=
  if hint.2 ≠ length then scan
  else
    let locked := if scan.nextLoop then (scan.channelLocked, scan.ht40)
      else ht40LockChannel scan.ht40 channel filter
    let s := if scan.nextLoop = false ∧ locked.1 then
        { locked.2 with
          zconfigData := locked.2.zconfigData.setState true .chnLockedByBr }
      else locked.2
    ⟨{ s with hintFrameCnt := setEntry s.hintFrameCnt hint.1 (toUInt8 (s.hintFrameCnt hint.1 + 1)) },
      some hint.1, true, locked.1⟩

def ht40ScanningHintFrame (filter : ℕ) (rssi : ℤ) (length channel : ℕ) :
    Option ℕ × Ht40 :=
  if s.state ≠ .chnScanning then (none, s)
  else if length > startFrame + zconfigFixedOffset 2 + 2 ∨
      length ≤ groupFrame + zconfigFixedOffset 0 then (none, s)
  else
    let scan := hintLengths.foldl (hintPass filter length channel) ⟨s, none, false, false⟩
    if scan.channelLocked then
      let high := toChar (rssi + ht40RssiRange)
      (scan.hintPos, { scan.ht40 with
        rssiHigh := if high > -1 then -1 else high
        rssiLow := toChar (rssi - ht40RssiRange)
        filter := filter })
    else (scan.hintPos, scan.ht40)

/-- The counters of `ht40_get_qos_auth_group_info`. -/
structure HintCount where
  maxCount : ℕ
  maxCountPos : ℕ
  maxContinues : ℕ
  maxContinuesPos : ℕ
  secondContinues : ℕ

/-- The inner loop of `ht40_get_qos_auth_group_info`, over the 8 positions of a row. -/
def countRow (cnt : ℕ → ℕ) (h : HintCount) (row : ℕ) : HintCount :=
  ((List.range 8).foldl (fun (c : HintCount × ℕ × ℕ) k =>
    let pos := row + k
    if cnt pos = 0 then c
    else
      let count := c.2.1 + cnt pos
      let continues := c.2.2 + 1
      let h := if count > c.1.maxCount then { c.1 with maxCount := count, maxCountPos := pos }
        else c.1
      (if continues ≥ h.maxContinues then
          { h with
            secondContinues := h.maxContinues
            maxContinues := continues
            maxContinuesPos := pos }
        else h, count, continues)) (h, 0, 0)).1

def ht40GetQosAuthGroupInfo (length lockTime : ℕ) : Ht40 :=
  if s.side.stateMachine ≠ .chnLockedByBr ∨ s.state ≠ .chnScanning then s
  else
    let h := [56, 48, 40, 32, 24, 16, 8, 0].foldl (countRow s.hintFrameCnt) ⟨0, 0, 0, 0, 0⟩
    if h.maxContinues > h.secondContinues ∧ h.maxCountPos = h.maxContinuesPos then
      let qos := h.maxCountPos / 32
      let auth := h.maxCountPos % 32 / 8
      let s := s.setSide fun d => { d with frameOffset := zconfigFixedOffset auth + qos * 2 }
      let length := (length - s.side.frameOffset) % 2 ^ 16
      if isStartFrame length ∨ isGroupFrame length then
        let group := getGroupIndex length
        { s.setSide fun d =>
            { d with groupPos := group, curPos := group, scoreUplimit := scoreMid } with
          timestamp := lockTime
          state := .rcvInProgress }
      else s
    else s

variable (f : HtFrame)

/-- What is done with a data frame that has passed the checks: the package is saved, and the
name and the password are read when they are complete. -/
def ht40SavePackage (pos len : ℕ) :
    Logged TableUse (PkgType × Ht40) := do
  let score := toUInt8 ((s.side.scoreUplimit : ℤ) - ((pos : ℤ) - s.side.curPos - 1))
  let stored ← s.zconfigData.pkgLen true pos
  let last ← s.zconfigData.pkgScore true pos
  let z ←
    if (score : ℤ) > last then s.zconfigData.setPkgScore true pos score
    else if (score : ℤ) = last then
      s.zconfigData.setPkgScore true pos (if stored = len then last + 1 else last - 1)
    else pure s.zconfigData
  let z ← if (score : ℤ) > last ∧ stored ≠ len then z.setPkgLen true pos len else pure z
  let z := z.setSide true fun d =>
    { d with
      scoreUplimit := score
      replace := d.replace || decide ((score : ℤ) > last ∧ stored ≠ len)
      curPos := toUInt8 pos
      maxPos := if d.maxPos < toUInt8 pos then toUInt8 pos else d.maxPos }
  if (z.data true).replace = false then
    pure (.dataFrame, { s with zconfigData := z, timestamp := f.now })
  else do
    let received ← zconfigRecvCompleted z true f.env.encodeMemory
    if received.1 = false then
      pure (.dataFrame, { s with zconfigData := received.2, timestamp := f.now })
    else do
      let got ← zconfigGetSsidPasswd (received.2.setSide true fun d => { d with replace := false })
        true f.env
      if got.1 then pure (.pkgEnd, { s with zconfigData := got.2.setState true .rcvDone })
      else pure (.dataFrame, { s with zconfigData := got.2, timestamp := f.now })

/-- A data frame of the receiver that is locked. -/
def ht40DataFrame (len : ℕ) : Logged TableUse (PkgType × Ht40) :=
  let pos := s.side.groupPos + getDataIndex len
  if elapsed f.now s.timestamp > timeInterval then pure (.invalid, s)
  else if pos < s.side.curPos then pure (.invalid, s)
  else if pos = s.side.curPos then do
    let stored ← s.zconfigData.pkgLen true s.side.curPos
    if len ≠ stored then do
      let last ← s.zconfigData.pkgScore true pos
      let z ← s.zconfigData.setPkgScore true pos (last - 1)
      pure (.invalid, { s with zconfigData := z })
    else ht40SavePackage s f pos len
  else if pos > s.side.curPos + 4 then pure (.invalid, s)
  else ht40SavePackage s f pos len

/-- A start frame or a group frame of the receiver that is locked. -/
def ht40GroupFrame (len : ℕ) : Logged TableUse (PkgType × Ht40) :=
  let group := getGroupIndex len
  if group = 0 ∨ group = s.side.groupPos + 8 then do
    let z ←
      if s.side.curPos + 1 = group then do
        let last ← s.zconfigData.pkgScore true s.side.curPos
        s.zconfigData.setPkgScore true s.side.curPos (last + 1)
      else pure s.zconfigData
    pure (.startFrame, { s with
      zconfigData := z.setSide true fun d =>
        { d with groupPos := group, scoreUplimit := scoreMid, curPos := group }
      timestamp := f.now })
  else pure (.invalid, s)

/-- The frames that a receiver that is locked goes on with.  The two comparisons of the signal
strength are as in the source. -/
def Ht40.Accepts : Prop :=
  s.state = .rcvInProgress ∧ ¬ (f.rssi ≤ s.rssiLow ∧ f.rssi ≥ s.rssiHigh) ∧
    f.filter = s.filter ∧ f.dataLen - ieee80211MinHdrlen > s.side.frameOffset

instance (s : Ht40) (f : HtFrame) : Decidable (s.Accepts f) :=
  inferInstanceAs (Decidable (_ ∧ _ ∧ _ ∧ _))

def awssRecvCallbackHtCtrl : Logged TableUse (PkgType × Ht40) :=
  if ¬ f.dataLen > ieee80211MinHdrlen then pure (.invalid, s)
  else
    let length := f.dataLen - ieee80211MinHdrlen
    match ht40ScanningHintFrame s f.filter f.rssi length f.channel with
    | (some _, s) => pure (.groupFrame, ht40GetQosAuthGroupInfo s length f.lockTime)
    | (none, s) =>
      if s.Accepts f then
        let len := length - s.side.frameOffset
        if isDataFrame len then ht40DataFrame s f len
        else if isStartFrame len ∨ isGroupFrame len then ht40GroupFrame s f len
        else pure (.invalid, s)
      else pure (.invalid, s)

/-! ## The indices used, and what a data frame changes -/

/-- The receiver after a frame. -/
def ht40Step : Ht40 := (awssRecvCallbackHtCtrl s f).val.2

/-- An index from 1 on into the table of packages.  Index 0 is not used, not for a start frame
either. -/
def Ht40Bound : TableUse → Prop
  | .pkg n => 1 ≤ n ∧ n < maxPkgNums
  | .tmp _ => False

theorem messageBound_ht40 : MessageBound Ht40Bound := fun _ hpos hlt => ⟨hpos, hlt⟩

/-- The length of the frame is that of a data frame, for a receiver that is locked. -/
def Ht40.IsData : Prop :=
  s.state = .rcvInProgress ∧
    isDataFrame (f.dataLen - ieee80211MinHdrlen - s.side.frameOffset) = true

/-- The position of a data frame. -/
def Ht40.pos : ℕ :=
  s.side.groupPos + getDataIndex (f.dataLen - ieee80211MinHdrlen - s.side.frameOffset)

/-- The receiver takes the frame as a data frame that is in time and in order. -/
def Ht40.Takes : Prop :=
  s.IsData f ∧ s.Accepts f ∧ elapsed f.now s.timestamp ≤ timeInterval ∧
    s.side.curPos ≤ s.pos f ∧ s.pos f ≤ s.side.curPos + 4

/-- The signal strength is in the window of the receiver. -/
def Ht40.InWindow : Prop := s.rssiLow ≤ f.rssi ∧ f.rssi ≤ s.rssiHigh

/-- A data frame that is taken comes neither in the group 128, which is behind the table, nor with
the index 8 in the group before it. -/
def Ht40.InTable : Prop :=
  s.Takes f → s.side.groupPos ≠ maxPkgNums ∧
    ¬ (s.side.groupPos = maxPkgNums - groupNumber ∧
      getDataIndex (f.dataLen - ieee80211MinHdrlen - s.side.frameOffset) = groupNumber)

/-- A data frame with the filter of the receiver, in time and in order, has a signal strength in
the window, or one that the test as it is written drops. -/
def Ht40.Heard : Prop :=
  s.IsData f → f.filter = s.filter → elapsed f.now s.timestamp ≤ timeInterval →
    s.side.curPos ≤ s.pos f → s.pos f ≤ s.side.curPos + 4 →
      s.InWindow f ∨ f.rssi ≤ s.rssiLow ∧ f.rssi ≥ s.rssiHigh

/-- The packages change on a data frame only when its signal strength and its filter are those of
the receiver. -/
def Ht40.Windowed : Prop :=
  s.IsData f → (ht40Step s f).zconfigData.pkg ≠ s.zconfigData.pkg →
    s.InWindow f ∧ f.filter = s.filter

variable {s : Ht40}

theorem ht40ScanningHintFrame_locked (h : s.state = .rcvInProgress) (filter : ℕ) (rssi : ℤ)
    (length channel : ℕ) : ht40ScanningHintFrame s filter rssi length channel = (none, s) := by
  rw [ht40ScanningHintFrame, if_pos (by rw [h]; decide)]

theorem awssRecvCallbackHtCtrl_locked (h : s.state = .rcvInProgress) (f : HtFrame) :
    awssRecvCallbackHtCtrl s f = if f.dataLen > ieee80211MinHdrlen ∧ s.Accepts f then
        let len := f.dataLen - ieee80211MinHdrlen - s.side.frameOffset
        if isDataFrame len then ht40DataFrame s f len
        else if isStartFrame len ∨ isGroupFrame len then ht40GroupFrame s f len
        else pure (.invalid, s)
      else pure (.invalid, s) := by
  unfold awssRecvCallbackHtCtrl
  by_cases hlen : f.dataLen > ieee80211MinHdrlen
  · simp [hlen, ht40ScanningHintFrame_locked h]
  · simp [hlen]

theorem ht40LockChannel_state (s : Ht40) (channel filter : ℕ) :
    (ht40LockChannel s channel filter).2.state = s.state := by
  unfold ht40LockChannel
  dsimp only
  split_ifs <;> rfl

theorem hintPass_state (filter length channel : ℕ) (scan : HintScan) (hint : ℕ × ℕ) :
    (hintPass filter length channel scan hint).ht40.state = scan.ht40.state := by
  have hlock := ht40LockChannel_state scan.ht40 channel filter
  unfold hintPass
  by_cases hlength : hint.2 ≠ length
  · rw [if_pos hlength]
  rw [if_neg hlength]
  dsimp only
  split_ifs
  all_goals first
    | rfl
    | exact hlock

theorem ht40ScanningHintFrame_state (s : Ht40) (filter : ℕ) (rssi : ℤ) (length channel : ℕ) :
    (ht40ScanningHintFrame s filter rssi length channel).2.state = s.state := by
  have hscan : (hintLengths.foldl (hintPass filter length channel)
      ⟨s, none, false, false⟩).ht40.state = s.state :=
    inv_foldl (fun scan : HintScan => scan.ht40.state = s.state)
      (fun scan hint h => (hintPass_state filter length channel scan hint).trans h) rfl hintLengths
  unfold ht40ScanningHintFrame
  dsimp only
  split_ifs
  all_goals first
    | rfl
    | exact hscan

theorem zconfigData_ht40LockChannel (s : Ht40) (channel filter : ℕ) :
    (ht40LockChannel s channel filter).2.zconfigData = s.zconfigData := by
  rw [ht40LockChannel]
  dsimp only
  split_ifs <;> rfl

/-- The score of a data frame at a position, before it is put into 8 bits. -/
def Ht40.dataScore (s : Ht40) (pos : ℕ) : ℤ :=
  (s.side.scoreUplimit : ℤ) - ((pos : ℤ) - s.side.curPos - 1)

/-! ## What handling a frame keeps -/

/-- What the callback writes beside the scores does not break `P`. -/
structure KeptByHt40 (P : ZconfigData → Prop) : Prop extends KeptByReading P where
  state : ∀ {z}, P z → ∀ state, P (z.setState true state)
  clear : ∀ {z}, P z → P (z.setSide true fun d => { d with replace := false })
  offset : ∀ {z}, P z → ∀ offset, P (z.setSide true fun d => { d with frameOffset := offset })
  group : ∀ {z}, P z → ∀ {len}, isStartFrame len = true ∨ isGroupFrame len = true →
    P (z.setSide true fun d => { d with
      groupPos := getGroupIndex len, curPos := getGroupIndex len, scoreUplimit := scoreMid })

section Kept

variable {P : ZconfigData → Prop} {s : Ht40} {f : HtFrame}

/-- A data frame keeps `P` when lowering the score of a package that it differs from does, and
saving its package. -/
theorem ht40DataFrame_keeps (h : P s.zconfigData) (hdata : s.IsData f) (hacc : s.Accepts f)
    (hlower : s.Takes f → s.pos f = s.side.curPos →
      f.dataLen - ieee80211MinHdrlen - s.side.frameOffset ≠ (s.zconfigData.pkg true (s.pos f)).len →
      P (s.zconfigData.setPkgScore true (s.pos f)
        ((s.zconfigData.pkg true (s.pos f)).score - 1)).val)
    (hsave : s.Takes f → (s.pos f = s.side.curPos →
        f.dataLen - ieee80211MinHdrlen - s.side.frameOffset
          = (s.zconfigData.pkg true (s.pos f)).len) →
      (ht40SavePackage s f (s.pos f) (f.dataLen - ieee80211MinHdrlen - s.side.frameOffset)).Yields
          fun r => P r.2.zconfigData) :
    (ht40DataFrame s f (f.dataLen - ieee80211MinHdrlen - s.side.frameOffset)).Yields fun r =>
      P r.2.zconfigData := by
  rw [ht40DataFrame, ← Ht40.pos, yields_ite]
  refine ⟨fun _ => h, fun htime => ?_⟩
  rw [yields_ite]
  refine ⟨fun _ => h, fun hlow => ?_⟩
  have htakes (hhigh : s.pos f ≤ s.side.curPos + 4) : s.Takes f :=
    ⟨hdata, hacc, not_lt.mp htime, not_lt.mp hlow, hhigh⟩
  rw [yields_ite]
  refine ⟨fun hcur => ?_, fun hcur => ?_⟩
  · have htaken := htakes (hcur.le.trans (Nat.le_add_right _ 4))
    rw [yields_bind, yields_ite, ← hcur]
    refine ⟨fun hne => ?_, fun heq => hsave htaken fun _ => not_not.mp heq⟩
    rw [yields_bind, yields_bind, yields_pure]
    exact hlower htaken hcur hne
  · rw [yields_ite]
    exact ⟨fun _ => h, fun hhigh => hsave (htakes (not_lt.mp hhigh)) fun heq => absurd heq hcur⟩

variable (hP : KeptByHt40 P)
include hP

theorem KeptByHt40.received {z : ZconfigData} (h : P z) :
    (if (z.data true).replace = false then
        pure (.dataFrame, { s with zconfigData := z, timestamp := f.now })
      else do
        let received ← zconfigRecvCompleted z true f.env.encodeMemory
        if received.1 = false then
          pure (.dataFrame, { s with zconfigData := received.2, timestamp := f.now })
        else do
          let got ← zconfigGetSsidPasswd
            (received.2.setSide true fun d => { d with replace := false }) true f.env
          if got.1 then pure (.pkgEnd, { s with zconfigData := got.2.setState true .rcvDone })
          else pure (.dataFrame, { s with zconfigData := got.2, timestamp := f.now }) :
      Logged TableUse (PkgType × Ht40)).Yields fun r => P r.2.zconfigData := by
  have hreceived := hP.zconfigRecvCompleted h true f.env.encodeMemory
  rw [yields_ite]
  refine ⟨fun _ => h, fun _ => ?_⟩
  rw [yields_bind, yields_ite]
  refine ⟨fun _ => hreceived, fun _ => ?_⟩
  have hgot := hP.zconfigGetSsidPasswd (hP.clear hreceived) true f.env
  rw [yields_bind, yields_ite]
  exact ⟨fun _ => hP.state hgot _, fun _ => hgot⟩

/-- A package that is saved keeps `P` when its score and the limit for new scores do. -/
theorem KeptByHt40.savePackage (h : P s.zconfigData) {pos len score : ℕ}
    (hscore : toUInt8 (s.dataScore pos) = score)
    (hnew : P (s.zconfigData.setPkgScore true pos score).val)
    (hagain : (score : ℤ) = (s.zconfigData.pkg true pos).score →
      P (s.zconfigData.setPkgScore true pos (if (s.zconfigData.pkg true pos).len = len then
        (s.zconfigData.pkg true pos).score + 1 else (s.zconfigData.pkg true pos).score - 1)).val)
    (huplimit : ∀ z, P z → ∀ replace : ZcSide → Bool, P (z.setSide true fun d =>
      { d with
        scoreUplimit := score
        replace := replace d
        curPos := toUInt8 pos
        maxPos := if d.maxPos < toUInt8 pos then toUInt8 pos else d.maxPos })) :
    (ht40SavePackage s f pos len).Yields fun r => P r.2.zconfigData := by
  have hrest := fun z hz replace => hP.received (s := s) (f := f) (huplimit z hz replace)
  rw [ht40SavePackage, yields_bind, yields_bind]
  dsimp only
  rw [← Ht40.dataScore, hscore, yields_ite]
  refine ⟨fun _ => ?_, fun _ => ?_⟩
  · rw [yields_bind]
    exact yields_ite_bind (hP.len hnew ..) hnew fun z hz => hrest z hz _
  · rw [yields_ite]
    refine ⟨fun hsame => ?_, fun _ => ?_⟩
    · rw [yields_bind]
      exact yields_ite_bind (hP.len (hagain hsame) ..) (hagain hsame)
        fun z hz => hrest z hz _
    · rw [yields_bind]
      exact yields_ite_bind (hP.len h ..) h fun z hz => hrest z hz _

theorem KeptByHt40.groupFrame (h : P s.zconfigData) {len : ℕ}
    (hlen : isStartFrame len = true ∨ isGroupFrame len = true)
    (hraise : getGroupIndex len = 0 ∨ getGroupIndex len = s.side.groupPos + 8 →
      s.side.curPos + 1 = getGroupIndex len →
        P (s.zconfigData.setPkgScore true s.side.curPos
          ((s.zconfigData.pkg true s.side.curPos).score + 1)).val) :
    (ht40GroupFrame s f len).Yields fun r => P r.2.zconfigData := by
  rw [ht40GroupFrame, yields_ite]
  refine ⟨fun hnext => ?_, fun _ => h⟩
  rw [yields_ite]
  refine ⟨fun hcur => ?_, fun _ => ?_⟩
  · rw [yields_bind, yields_bind, yields_pure]
    exact hP.group (hraise hnext hcur) hlen
  · rw [yields_bind, yields_pure]
    exact hP.group h hlen

theorem KeptByHt40.scanningHintFrame (h : P s.zconfigData) (filter : ℕ) (rssi : ℤ)
    (length channel : ℕ) :
    P (ht40ScanningHintFrame s filter rssi length channel).2.zconfigData := by
  have hpass (scan : HintScan) (hint : ℕ × ℕ) (hscan : P scan.ht40.zconfigData) :
      P (hintPass filter length channel scan hint).ht40.zconfigData := by
    have hlock : P (ht40LockChannel scan.ht40 channel filter).2.zconfigData := by
      rw [zconfigData_ht40LockChannel]
      exact hscan
    rw [hintPass]
    by_cases hlength : hint.2 ≠ length
    · rw [if_pos hlength]
      exact hscan
    rw [if_neg hlength]
    dsimp only
    split_ifs
    all_goals first
      | exact hscan
      | exact hlock
      | exact hP.state hscan _
      | exact hP.state hlock _
  have hscan : P (hintLengths.foldl (hintPass filter length channel)
      ⟨s, none, false, false⟩).ht40.zconfigData :=
    inv_foldl (fun scan : HintScan => P scan.ht40.zconfigData) hpass h hintLengths
  rw [ht40ScanningHintFrame]
  dsimp only
  split_ifs
  · exact h
  · exact h
  · exact hscan
  · exact hscan
  · exact hscan

theorem KeptByHt40.getQosAuthGroupInfo (h : P s.zconfigData) (length lockTime : ℕ) :
    P (ht40GetQosAuthGroupInfo s length lockTime).zconfigData := by
  rw [ht40GetQosAuthGroupInfo]
  dsimp only
  split_ifs with _ _ hgroup
  · exact h
  · exact hP.group (hP.offset h _) hgroup
  · exact hP.offset h _
  · exact h

/-- **What a frame keeps.**  A step keeps `P` when the data frames and the group frames of a
receiver that is locked do. -/
theorem KeptByHt40.step (h : P s.zconfigData)
    (hdata : s.IsData f → s.Accepts f →
      (ht40DataFrame s f (f.dataLen - ieee80211MinHdrlen - s.side.frameOffset)).Yields
        fun r => P r.2.zconfigData)
    (hgroup : s.Accepts f →
      (isStartFrame (f.dataLen - ieee80211MinHdrlen - s.side.frameOffset) = true ∨
        isGroupFrame (f.dataLen - ieee80211MinHdrlen - s.side.frameOffset) = true) →
      (ht40GroupFrame s f (f.dataLen - ieee80211MinHdrlen - s.side.frameOffset)).Yields
        fun r => P r.2.zconfigData) : P (ht40Step s f).zconfigData := by
  by_cases hstate : s.state = .rcvInProgress
  · rw [ht40Step, awssRecvCallbackHtCtrl_locked hstate]
    by_cases hacc : f.dataLen > ieee80211MinHdrlen ∧ s.Accepts f
    · rw [if_pos hacc]
      dsimp only
      split_ifs with hisData hisGroup
      · exact hdata ⟨hstate, hisData⟩ hacc.2
      · exact hgroup hacc.2 hisGroup
      · exact h
    · rw [if_neg hacc]
      exact h
  · have hscan := hP.scanningHintFrame h f.filter f.rssi (f.dataLen - ieee80211MinHdrlen) f.channel
    have hsame := ht40ScanningHintFrame_state s f.filter f.rssi
      (f.dataLen - ieee80211MinHdrlen) f.channel
    rw [ht40Step, awssRecvCallbackHtCtrl]
    by_cases hlen : f.dataLen > ieee80211MinHdrlen
    · rw [if_neg (not_not.mpr hlen)]
      dsimp only
      split
      · next heq =>
        rw [heq] at hscan
        exact hP.getQosAuthGroupInfo hscan _ _
      · next heq =>
        rw [heq] at hscan hsame
        rw [if_neg fun hacc => hstate (hsame.symm.trans hacc.1)]
        exact hscan
    · rw [if_pos hlen]
      exact h

end Kept

/-! ## Where groups start -/

/-- The position of a start frame or of a group frame: one that is divided by 8, up to the end of
the table, which is included. -/
def GroupStart (n : ℕ) : Prop := groupNumber ∣ n ∧ n ≤ maxPkgNums

theorem groupStart_getGroupIndex {len : ℕ}
    (h : isStartFrame len = true ∨ isGroupFrame len = true) : GroupStart (getGroupIndex len) := by
  rcases h with hstart | hgroup
  · rw [getGroupIndex, if_pos hstart]
    exact ⟨dvd_zero _, Nat.zero_le _⟩
  refine ⟨?_, (getGroupIndex_bounds hgroup).2⟩
  rw [getGroupIndex]
  split_ifs
  · exact dvd_zero _
  · simp only [toUInt8, groupNumber]
    omega

/-- The receiver is in a group that starts where groups do. -/
def InGroup (z : ZconfigData) : Prop := GroupStart (z.data true).groupPos

theorem InGroup.setSide {z : ZconfigData} {g : ZcSide → ZcSide}
    (h : GroupStart (g (z.data true)).groupPos) : InGroup (z.setSide true g) := h

theorem keptByHt40_inGroup : KeptByHt40 InGroup where
  score := fun h _ _ => h
  len := fun h _ _ _ => h
  disable := fun h => h
  halve := fun h _ _ => h
  ssid := fun h _ => h
  zero := ⟨dvd_zero _, Nat.zero_le _⟩
  state := by
    intro z h state
    apply InGroup.setSide
    split_ifs
    · exact h
    · exact h
  clear := fun h => h
  offset := fun h _ => h
  group := fun _ _ hlen => InGroup.setSide (groupStart_getGroupIndex hlen)

theorem InGroup.step {s : Ht40} (h : InGroup s.zconfigData) (f : HtFrame) :
    InGroup (ht40Step s f).zconfigData := by
  refine keptByHt40_inGroup.step h (fun hdata hacc => ?_) fun _ hlen => ?_
  · refine ht40DataFrame_keeps h hdata hacc (fun _ _ _ => h) fun _ _ => ?_
    exact keptByHt40_inGroup.savePackage h rfl h (fun _ => h) fun _ hz _ => InGroup.setSide hz
  · exact keptByHt40_inGroup.groupFrame h hlen fun _ _ => h

/-- A data frame has its position in the table unless it is behind the last group, or the eighth of
that group. -/
theorem InGroup.pos_lt_iff {s : Ht40} (h : InGroup s.zconfigData) {f : HtFrame}
    (hdata : s.IsData f) :
    s.pos f < maxPkgNums ↔ s.side.groupPos ≠ maxPkgNums ∧
      ¬ (s.side.groupPos = maxPkgNums - groupNumber ∧
        getDataIndex (f.dataLen - ieee80211MinHdrlen - s.side.frameOffset) = groupNumber) := by
  have hindex := getDataIndex_bounds hdata.2
  obtain ⟨⟨k, hk⟩, hle⟩ : GroupStart s.side.groupPos := h
  rw [Ht40.pos]
  simp only [groupNumber, maxPkgNums] at *
  omega

/-! ## The indices of a step -/

theorem within_awssRecvCallbackHtCtrl_unlocked (h : s.state ≠ .rcvInProgress) (f : HtFrame) :
    (awssRecvCallbackHtCtrl s f).Within Ht40Bound := by
  have hstate := ht40ScanningHintFrame_state s f.filter f.rssi
    (f.dataLen - ieee80211MinHdrlen) f.channel
  unfold awssRecvCallbackHtCtrl
  simp only [within_ite, within_pure, implies_true, true_and]
  intro _
  split
  · exact within_pure _
  · next s' hscan =>
      rw [hscan] at hstate
      have hnot : ¬ s'.Accepts f := fun hacc => h (hstate ▸ hacc.1)
      rw [if_neg hnot]
      exact within_pure _

theorem within_ht40SavePackage (s : Ht40) (f : HtFrame) {pos : ℕ} (hpos : 1 ≤ pos)
    (hlt : pos < maxPkgNums) (len : ℕ) : (ht40SavePackage s f pos len).Within Ht40Bound := by
  have hP : Ht40Bound (.pkg pos) := ⟨hpos, hlt⟩
  simp only [ht40SavePackage, within_bind, within_ite, within_pure,
    ZconfigData.within_pkgLen, ZconfigData.within_pkgScore, ZconfigData.within_setPkgScore,
    ZconfigData.within_setPkgLen, within_zconfigRecvCompleted messageBound_ht40,
    within_zconfigGetSsidPasswd messageBound_ht40, hP, implies_true, and_true]

theorem within_ht40GroupFrame (s : Ht40) (f : HtFrame) {len : ℕ}
    (hlen : isStartFrame len = true ∨ isGroupFrame len = true) :
    (ht40GroupFrame s f len).Within Ht40Bound := by
  have hP (hnext : s.side.curPos + 1 = getGroupIndex len) : Ht40Bound (.pkg s.side.curPos) := by
    rcases hlen with hstart | hgroup
    · rw [getGroupIndex, if_pos hstart] at hnext
      omega
    · have hle := getGroupIndex_bounds hgroup
      simp only [groupNumber, maxPkgNums] at hle
      exact ⟨by omega, by simp only [maxPkgNums]; omega⟩
  simp only [ht40GroupFrame, within_ite, within_bind, within_pure,
    ZconfigData.within_pkgScore, ZconfigData.within_setPkgScore, implies_true, and_true, and_self]
  exact fun _ hnext => hP hnext

/-- A data frame that is taken uses the package at its position. -/
theorem within_ht40DataFrame_iff {f : HtFrame} (hdata : s.IsData f) (hacc : s.Accepts f) :
    (ht40DataFrame s f (f.dataLen - ieee80211MinHdrlen - s.side.frameOffset)).Within Ht40Bound ↔
      (s.Takes f → s.pos f < maxPkgNums) := by
  have hpos : 1 ≤ s.pos f := (getDataIndex_bounds hdata.2).1.trans (Nat.le_add_left _ _)
  unfold ht40DataFrame
  rw [← Ht40.pos]
  constructor
  · intro hwithin htakes
    obtain ⟨-, -, htime, hlow, hhigh⟩ := htakes
    rw [if_neg (not_lt.mpr htime), if_neg (not_lt.mpr hlow)] at hwithin
    by_cases heq : s.pos f = s.side.curPos
    · rw [if_pos heq, within_bind, ZconfigData.within_pkgLen, ← heq] at hwithin
      exact hwithin.1.2
    · rw [if_neg heq, if_neg (not_lt.mpr hhigh), ht40SavePackage, within_bind,
        ZconfigData.within_pkgLen] at hwithin
      exact hwithin.1.2
  · intro hlt
    simp only [within_ite, within_pure, within_bind, implies_true, true_and,
      ZconfigData.within_pkgLen, ZconfigData.within_pkgScore, ZconfigData.within_setPkgScore,
      and_true]
    intro htime hlow
    have htaken (hhigh : s.pos f ≤ s.side.curPos + 4) : s.pos f < maxPkgNums :=
      hlt ⟨hdata, hacc, not_lt.mp htime, not_lt.mp hlow, hhigh⟩
    refine ⟨fun heq => ?_, fun hne hhigh => ?_⟩
    · have hin := htaken (by omega)
      have hP : Ht40Bound (.pkg (s.pos f)) := ⟨hpos, hin⟩
      have hsave := within_ht40SavePackage s f hpos hin
      simp only [← heq, hP, hsave, implies_true, and_self]
    · exact within_ht40SavePackage s f hpos (htaken (not_lt.mp hhigh)) _

theorem ht40DataFrame_not_taken {f : HtFrame} (hdata : s.IsData f) (hacc : s.Accepts f)
    (hnot : ¬ s.Takes f) :
    (ht40DataFrame s f (f.dataLen - ieee80211MinHdrlen - s.side.frameOffset)).val.2 = s := by
  unfold ht40DataFrame
  rw [← Ht40.pos]
  by_cases htime : elapsed f.now s.timestamp > timeInterval
  · rw [if_pos htime, val_pure]
  rw [if_neg htime]
  by_cases hlow : s.pos f < s.side.curPos
  · rw [if_pos hlow, val_pure]
  · have hhigh : s.pos f > s.side.curPos + 4 := by
      by_contra hhigh
      exact hnot ⟨hdata, hacc, not_lt.mp htime, not_lt.mp hlow, not_lt.mp hhigh⟩
    rw [if_neg hlow, if_neg (show ¬ s.pos f = s.side.curPos by omega), if_pos hhigh,
      val_pure]

/-- A step uses indices of the table exactly when the frame, if it is taken, is in the table. -/
theorem InGroup.within_iff {s : Ht40} (h : InGroup s.zconfigData) (f : HtFrame) :
    (awssRecvCallbackHtCtrl s f).Within Ht40Bound ↔ s.InTable f := by
  by_cases hstate : s.state = .rcvInProgress
  · have hpos : (s.Takes f → s.pos f < maxPkgNums) ↔ s.InTable f :=
      forall_congr' fun htakes => h.pos_lt_iff htakes.1
    rw [awssRecvCallbackHtCtrl_locked hstate]
    simp only [within_ite, within_pure, implies_true, and_true]
    constructor
    · intro hwithin
      refine hpos.mp fun htakes => ?_
      obtain ⟨hdata, hacc, -⟩ := id htakes
      have hlen : f.dataLen > ieee80211MinHdrlen :=
        Nat.lt_of_sub_pos (Nat.lt_of_le_of_lt (Nat.zero_le _) hacc.2.2.2)
      exact (within_ht40DataFrame_iff hdata hacc).mp ((hwithin ⟨hlen, hacc⟩).1 hdata.2) htakes
    · rintro hin ⟨-, hacc⟩
      exact ⟨fun hdata => (within_ht40DataFrame_iff ⟨hstate, hdata⟩ hacc).mpr (hpos.mpr hin),
        fun _ hlen => within_ht40GroupFrame s f hlen⟩
  · exact iff_of_true (within_awssRecvCallbackHtCtrl_unlocked hstate f)
      fun htakes => absurd htakes.1.1 hstate

/-- Only a data frame that is taken changes the packages. -/
theorem Ht40.takes_of_changed {f : HtFrame} (hdata : s.IsData f)
    (hchange : (ht40Step s f).zconfigData.pkg ≠ s.zconfigData.pkg) : s.Takes f := by
  by_contra hnot
  refine hchange ?_
  rw [ht40Step, awssRecvCallbackHtCtrl_locked hdata.1 f]
  by_cases hacc : f.dataLen > ieee80211MinHdrlen ∧ s.Accepts f
  · rw [if_pos hacc]
    simp only [hdata.2, if_true, ht40DataFrame_not_taken hdata hacc.2 hnot]
  · rw [if_neg hacc]
    rfl

/-- A frame that is heard passes the test of the signal strength only in the window. -/
theorem Ht40.Heard.windowed {f : HtFrame} (h : s.Heard f) : s.Windowed f := by
  intro hdata hchange
  obtain ⟨-, ⟨-, hrssi, hfilter, -⟩, htime, hlow, hhigh⟩ := Ht40.takes_of_changed hdata hchange
  exact ⟨(h hdata hfilter htime hlow hhigh).resolve_right hrssi, hfilter⟩

/-- **Reception stays in range.**  In every run the indices are in the table exactly as long as no
data frame that is taken comes in the group 128, or as the eighth of the group 120; and a data
frame changes the packages only with a signal strength in the window and the filter of the
receiver, as long as the frames that are in time, in order and of its filter are heard in the
window, or dropped by the test of the strength as it is written. -/
theorem ht40_in_range (frames : List HtFrame) :
    (AllSteps ht40Step (fun s f => (awssRecvCallbackHtCtrl s f).Within Ht40Bound) ht40Init frames ↔
        AllSteps ht40Step Ht40.InTable ht40Init frames) ∧
      (AllSteps ht40Step Ht40.Heard ht40Init frames →
        AllSteps ht40Step Ht40.Windowed ht40Init frames) := by
  refine ⟨?_, fun hheard => hheard.mono fun _ _ h => h.windowed⟩
  have hinit : InGroup ht40Init.zconfigData := keptByHt40_inGroup.zero
  have hstep : ∀ (s : Ht40) f, InGroup s.zconfigData → s.InTable f →
      InGroup (ht40Step s f).zconfigData := fun _ f h _ => h.step f
  exact allSteps_congr (fun _ f h => h.within_iff f) hstep hinit frames

/-- Two hints lock the receiver, and a data frame in its window fills the first package. -/
theorem ht40_in_range_first :
    let frame (rssi : ℤ) (len : ℕ) : HtFrame :=
      ⟨rssi, 7, 24 + 36 + len, 6, 0, 0, ⟨true, true, [], true⟩⟩
    let frames := [frame (-50) startFrame, frame (-50) startFrame, frame (-40) 0x100]
    AllSteps ht40Step (fun s f => (awssRecvCallbackHtCtrl s f).Within Ht40Bound) ht40Init frames ∧
      AllSteps ht40Step Ht40.Windowed ht40Init frames ∧
      ((frames.foldl ht40Step ht40Init).zconfigData.pkg true 1).len = 0x100 := by
  intro frame frames
  refine ⟨(ht40_in_range frames).1.mpr ⟨fun h => ?_, fun h => ?_, fun _ => ?_, trivial⟩,
    (ht40_in_range frames).2 ⟨fun h => ?_, fun h => ?_, fun _ _ _ _ _ => .inl ?_, trivial⟩,
    by decide⟩
  · exact absurd h.1.1 (by decide)
  · exact absurd h.1.1 (by decide)
  · exact ⟨by decide, by decide⟩
  · exact absurd h.1 (by decide)
  · exact absurd h.1 (by decide)
  · exact ⟨by decide, by decide⟩

/-- A receiver that two hints of -50 have locked saves the package of a frame of -10, which is
not in its window from -65 to -35; and when the chain of groups has come to 128, the next data
frame uses index 129. -/
theorem ht40_in_range_broken :
    let frame (rssi : ℤ) (len : ℕ) : HtFrame :=
      ⟨rssi, 7, 24 + 36 + len, 6, 0, 0, ⟨true, true, [], true⟩⟩
    let s := [frame (-50) startFrame, frame (-50) startFrame].foldl ht40Step ht40Init
    let chain := (List.range 16).map fun k => frame (-50) (groupFrame + 1 + k)
    (¬ s.Windowed (frame (-10) 0x100)) ∧
      ¬ (awssRecvCallbackHtCtrl (chain.foldl ht40Step s) (frame (-50) 0x100)).Within Ht40Bound := by
  intro frame s chain
  constructor
  · intro hwindowed
    have hdata : s.IsData (frame (-10) 0x100) := ⟨by decide, by decide⟩
    have hchange : (ht40Step s (frame (-10) 0x100)).zconfigData.pkg ≠ s.zconfigData.pkg := by
      intro heq
      have hlen : ((ht40Step s (frame (-10) 0x100)).zconfigData.pkg true 1).len =
          (s.zconfigData.pkg true 1).len := by rw [heq]
      exact absurd hlen (by decide)
    exact absurd (hwindowed hdata hchange).1.2 (by decide)
  · intro hwithin
    have hused : TableUse.pkg 129 ∈
        (awssRecvCallbackHtCtrl (chain.foldl ht40Step s) (frame (-50) 0x100)).log := by
      decide +kernel
    exact absurd (hwithin _ hused).2 (by decide)

end Iotkit.Awss
