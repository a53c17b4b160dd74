/-
# Reception of broadcast frames (`awss_smartconfig.c`)

The group frames of a direction give the position of the group, its data frames the packages of
the group.  When the index of a data frame falls back, the packages are kept in a second table of
one group, and `try_to_sync_pos` looks for the group that they match best, up to
`zconfig_get_data_len`, which may be 120 to 127; package 8 of the group at 120 has the index 128.
-/
import Iotkit.ZconfigRecv

namespace Iotkit.Awss

open AccessLog GuardedRun List Logged

/-! ## Frames and their order -/

/-- A broadcast frame as it is handed to the callback.  `ap` is the name of the access point
that `zconfig_get_apinfo` finds for its `bssid`. -/
structure BrFrame where
  src : Mac
  dst : Mac
  bssid : Mac
  tods : Bool
  sn : ℕ
  len : ℕ
  encry : ℕ
  timestamp : ℕ
  ap : Option Bytes
  env : RecvEnv

def brMac : Mac := fun _ => 0xff

def zeroMac : Mac := fun _ => 0

def snMinus (a b : ℕ) : ℕ := (((a : ℤ) - b) % 2 ^ 12).toNat

def snCompare (a b : ℕ) : ℤ := if snMinus a b < 1000 then snMinus a b else -1

variable (z : ZconfigData) (f : BrFrame)

/-- The addresses that a hint frame locks the reception to, in `is_hint_frame`. -/
def hintAddresses : Option ZconfigData :=
  if z.bssid = zeroMac then some { z with bssid := f.bssid, srcMac := f.src }
  else if z.srcMac ≠ f.src then none
  else if z.bssid = f.bssid then some z
  else if f.tods then
    some { z.setSide false fun d =>
        if d.stateMachine = .chnLockedByBr then { d with stateMachine := .chnScanning } else d with
      bssid := f.bssid
      srcMac := f.src }
  else none

/-- `is_hint_frame`, with the data that it leaves when it returns 1. -/
def isHintFrame : Option ZconfigData :=
  if f.encry > zcEncTypeMax.toNat then none
  else
    match zconfigHintFrame.findIdx? fun hint => hint + zconfigFixedOffset f.encry = f.len with
    | none => none
    | some i =>
      (hintAddresses z f).map fun z =>
        { z.setSide f.tods fun d =>
            { d with
              frameOffset := zconfigFixedOffset f.encry
              groupPos := i * groupNumber
              curPos := i * groupNumber
              groupSn := f.sn
              prevSn := f.sn
              scoreUplimit := scoreMax } with
          ssid := (f.ap.getD []).take (zcMaxSsidLen - 1) }

def scoreLevel : List (ℕ × ℕ) :=
  [(0, 0), (1, 2), (4, 8), (8, 16), (15, 30), (40, 40), (0xFFFF, scoreMax)]

def getDataScore (d : ZcSide) (snNow indexNow : ℕ) : ℕ :=
  let delta : ℤ := (((snMinus snNow d.groupSn : ℕ) : ℤ) - 1 +
    ((indexNow : ℤ) - d.curPos - 1)) % 2 ^ 16
  if snCompare snNow d.groupSn ≤ 0 ∨ snCompare snNow d.prevSn ≤ 0 then scoreMin
  else if indexNow ≤ d.curPos then scoreMin
  else
    let res := ((scoreLevel.find? fun level => delta ≤ level.1).map Prod.snd).getD 0
    if d.scoreUplimit > res then d.scoreUplimit - res else scoreLow

/-! ## Resynchronisation -/

/-- The inner loop of `try_to_sync_pos` over the packages of the group at `i`: how many match,
the score, and the package at which it stops. -/
def matchLoop (z : ZconfigData) (tods emptyMatch : Bool) (i : ℕ) :
    List ℕ → ℕ → ℤ → Logged TableUse (ℕ × ℤ × ℕ)
  | [], found, score => pure (found, score, groupNumber)
  | j :: js, found, score => do
      let tmpScore ← z.tmpScore tods j
      if tmpScore = 0 then matchLoop z tods emptyMatch i js found score
      else if emptyMatch then do
        let pkgScore ← z.pkgScore tods (i + j)
        if pkgScore ≤ 1 then matchLoop z tods emptyMatch i js (found + 1) 1
        else matchLoop z tods emptyMatch i js found score
      else do
        let pkgLen ← z.pkgLen tods (i + j)
        if pkgLen = 0 then matchLoop z tods emptyMatch i js found score
        else do
          let tmpLen ← z.tmpLen tods j
          if pkgLen = tmpLen then do
            let pkgScore ← z.pkgScore tods (i + j)
            matchLoop z tods emptyMatch i js (found + 1)
              (if score > pkgScore then pkgScore else score)
          else pure (found, score, j - 1)

/-- What `try_to_sync_pos` has found: `match_group` is not there as long as nothing matches. -/
structure SyncMatch where
  maxMatch : ℕ
  matchGroup : Option ℕ
  matchEnd : ℕ
  matchScore : ℤ

def groupIndices : List ℕ := List.range' 1 groupNumber

/-- The outer loop of `try_to_sync_pos`.  What bounds it does not change in it. -/
def matchGroups (tods emptyMatch : Bool) (best : SyncMatch) :
    Logged TableUse SyncMatch := do
  let dataLen ← zconfigGetDataLen z
  (List.range (dataLen / groupNumber + 1)).foldlM (fun best k =>
    matchLoop z tods emptyMatch (k * groupNumber) groupIndices 0 scoreMax >>= fun found =>
      pure (if found.1 > best.maxMatch then
        ⟨found.1, some (k * groupNumber), found.2.2, found.2.1⟩ else best)) best

/-- The group that the next group frame points to; nothing where there is no such frame. -/
def guessPos (groupPos : Option ℕ) : Logged TableUse (Option ℕ) :=
  match groupPos with
  | none => pure none
  | some groupPos =>
    if groupPos < groupNumber then do
      let dataLen ← zconfigGetDataLen z
      pure (some (dataLen / groupNumber * groupNumber))
    else pure (some (groupPos - groupNumber))

/-- Where `try_to_sync_pos` puts the packages: the position, the last of them and the score. -/
def finalPos (best : SyncMatch) (emptyMatch : Bool) (guess : Option ℕ) : Option (ℕ × ℕ × ℤ) :=
  if guess.isSome ∧ (best.maxMatch = 0 ∨ emptyMatch) then
    guess.map fun pos => (pos, best.matchEnd, 2)
  else if best.maxMatch = 0 then none
  else
    let cap : ℤ := if best.maxMatch = 1 then 10 else if best.maxMatch = 2 then 20 else 30
    let score := if best.matchScore > cap then cap else best.matchScore
    match guess with
    | none => best.matchGroup.map fun pos => (pos, best.matchEnd, score)
    | some pos =>
      if best.matchGroup = some pos then some (pos, groupNumber, score + 2)
      else if best.maxMatch ≥ 2 ∧ emptyMatch = false then
        best.matchGroup.map fun group => (group, best.matchEnd, score)
      else some (pos, best.matchEnd, score)

/-- The loop of `try_to_sync_pos` that moves `n` packages from `j` on to those from `i` on. -/
def movePackages (tods : Bool) (matchScore : ℤ) :
    ℕ → ℕ → ℕ → ZconfigData → Logged TableUse ZconfigData
  | 0, _, _, z => pure z
  | n + 1, i, j, z =>
    if j > groupNumber ∨ i ≥ maxPkgNums then pure z
    else do
      let pkgScore ← z.pkgScore tods i
      if ¬ pkgScore < matchScore then movePackages tods matchScore n (i + 1) (j + 1) z
      else do
        let tmpScore ← z.tmpScore tods j
        if tmpScore = 0 then movePackages tods matchScore n (i + 1) (j + 1) z
        else do
          let tmpLen ← z.tmpLen tods j
          let z ← z.setPkgLen tods i tmpLen
          let z ← z.setPkgScore tods i
            (if matchScore > tmpScore - 1 then matchScore - (tmpScore - 1) else matchScore)
          movePackages tods matchScore n (i + 1) (j + 1) (z.setSide tods fun d =>
            { d with replace := true, maxPos := if d.maxPos < i then i else d.maxPos })

/-- What `try_to_sync_pos` ends with. -/
def clearTmp (tods : Bool) : ZconfigData :=
  { z.setSide tods fun d => { d with posUnsync := 0 } with
    tmpPkg := fun t n => if t = tods then ⟨0, 0⟩ else z.tmpPkg t n }

/-- The packages that wait are moved to where they belong, if a place was found. -/
def placePackages (tods : Bool) :
    Option (ℕ × ℕ × ℤ) → Logged TableUse ZconfigData
  | none => pure (clearTmp z tods)
  | some (pos, matchEnd, matchScore) => do
      let z ← movePackages tods matchScore matchEnd (pos + 1) 1 z
      pure (clearTmp z tods)

/-- `try_to_sync_pos`.  `groupPos` is that of the group frame that has come, or nothing for -1.
The places with no package are tried when no package matches. -/
def tryToSyncPos (tods : Bool) (groupPos : Option ℕ) :
    Logged TableUse ZconfigData := do
  let first ← matchGroups z tods false ⟨0, none, groupNumber, 0⟩
  let emptyMatch := decide (first.maxMatch = 0)
  let best ← if emptyMatch then matchGroups z tods true first else pure first
  let guess ← guessPos z groupPos
  placePackages z tods (finalPos best emptyMatch guess)

/-- `try_to_replace_same_pos`, and what it returns. -/
def tryToReplaceSamePos (tods : Bool) (pos newLen : ℕ) :
    Logged TableUse (Bool × ZconfigData) := do
  let dataLen ← zconfigGetDataLen z
  let last ← z.pkgLen tods pos
  let found ← ((List.range (dataLen + 1)).filter (· % groupNumber = pos % groupNumber)).foldlM
    (fun (found : Bool × Bool) i => do
      let len ← z.pkgLen tods i
      pure (found.1 || (i ≠ pos ∧ len = last : Bool), found.2 || (len = newLen : Bool)))
    (false, false)
  if (found.1 ∧ found.2 = false) ∨ tods = false then do
    let z ← z.setPkgLen tods pos newLen
    pure (true, z)
  else pure (false, z)

/-! ## The callback -/

/-- What a frame is for a direction that is locked. -/
inductive LockedFrame where
  | drop
  | stale
  | data (len : ℕ) (timeout : Bool)
  | group (len : ℕ)

/-- The checks of the callback up to those of the length, for a direction that is locked. -/
def lockedFrame : LockedFrame :=
  let d := z.data f.tods
  if f.src ≠ z.srcMac ∨ f.dst ≠ brMac ∨ f.bssid ≠ z.bssid then .drop
  else
    let timeout := decide (elapsed f.timestamp d.timestamp > timeInterval)
    let ret := snCompare f.sn d.prevSn
    if ret = 0 then .drop
    else if ret < 0 ∧ timeout = false then .stale
    else if f.len ≤ d.frameOffset then .drop
    else
      let len := f.len - d.frameOffset
      if isDataFrame len then
        if getDataIndex len > groupNumber ∨ d.groupPos + getDataIndex len ≥ maxPkgNums then .drop
        else .data len timeout
      else if isStartFrame len ∨ isGroupFrame len then .group len
      else .drop

/-- A frame that is sent again updates the time at once. -/
def touchRetry : ZconfigData :=
  if f.src = z.srcMac ∧ f.dst = brMac ∧ f.bssid = z.bssid ∧
      snCompare f.sn (z.data f.tods).prevSn ≤ 0 then
    z.setSide f.tods fun d => { d with timestamp := f.timestamp }
  else z

/-- What stands under `update_sn`. -/
def updateSn (index len : ℕ) : ZconfigData :=
  z.setSide f.tods fun d =>
    { d with prevSn := f.sn, timestamp := f.timestamp, lastIndex := index, lastLen := len }

/-- What stands under `is_recv_completed`. -/
def recvCompletedPart (pkgType : PkgType) (index len : ℕ) :
    Logged TableUse (PkgType × ZconfigData) :=
  let z := z.setSide f.tods fun d =>
    { d with maxPos := if d.maxPos < d.curPos then d.curPos else d.maxPos }
  if (z.data f.tods).replace = false then pure (pkgType, updateSn z f index len)
  else do
    let received ← zconfigRecvCompleted z f.tods f.env.encodeMemory
    if received.1 = false then pure (pkgType, updateSn received.2 f index len)
    else do
      let got ← zconfigGetSsidPasswd
        { received.2.setSide f.tods fun d => { d with replace := false } with bssid := f.bssid }
        f.tods f.env
      if got.1 then pure (.pkgEnd, got.2.setState f.tods .rcvDone)
      else pure (pkgType, updateSn got.2 f index len)

/-- What stands under `pos_unsync` when the position is not known. -/
def unsyncPart (index len : ℕ) :
    Logged TableUse (PkgType × ZconfigData) := do
  let d := z.data f.tods
  let z ← z.setTmpLen f.tods index len
  let z ← z.setTmpScore f.tods index (if d.posUnsync = 1 then 1 else (f.sn : ℤ) - d.prevSn)
  pure (.dataFrame, updateSn
    (z.setSide f.tods fun d => { d with posUnsync := toUInt8 (d.posUnsync + 1) }) f index len)

/-- The body of the loop of the callback over the two directions, and whether it leaves for
`pos_unsync`. -/
def savePackage (t : Bool) (pos len score : ℕ) :
    Logged TableUse (Bool × ZconfigData) := do
  let stored ← z.pkgLen t pos
  let last ← z.pkgScore t pos
  if (score : ℤ) > last then do
    let z ← z.setPkgScore t pos score
    if stored = len then pure (false, z)
    else do
      let z ← z.setPkgLen t pos len
      pure (false, z.setSide t fun d => { d with replace := true })
  else if (score : ℤ) = last then
    if stored = len then do
      let z ← z.setPkgScore t pos (last + 1)
      pure (false, z)
    else do
      let replaced ← tryToReplaceSamePos z t pos len
      if replaced.1 then pure (false, replaced.2)
      else do
        let z ← replaced.2.setPkgScore t pos (last.tdiv 2)
        pure (false, z)
  else if t = f.tods then
    if stored ≠ len then
      if (z.data t).posUnsync ≠ 0 then pure (false, z)
      else pure (true, z.setSide t fun d => { d with posUnsync := 1 })
    else if (z.data t).scoreUplimit ≥ scoreMid ∧ last - score < 10 then
      pure (false, z.setSide t fun d =>
        { d with scoreUplimit := toUInt8 (((d.scoreUplimit : ℤ) + last).tdiv 2) })
    else pure (false, z)
  else pure (false, z)

def syncedData (len : ℕ) :
    Logged TableUse (PkgType × ZconfigData) :=
  let d := z.data f.tods
  let index := getDataIndex len
  let pos := d.groupPos + index
  let score := getDataScore d f.sn (toUInt8 pos)
  if score = scoreMin then pure (.dataFrame, updateSn z f index len)
  else
    let z := z.setSide f.tods fun d =>
      { d with
        scoreUplimit := if d.scoreUplimit > score then score else d.scoreUplimit
        groupSn := f.sn }
    if pos ≥ maxPkgNums ∨ pos ≤ 0 then pure (.invalid, z)
    else do
      let z := z.setSide f.tods fun d => { d with curPos := pos }
      let fromds ← savePackage z f false pos len score
      if fromds.1 then unsyncPart fromds.2 f index len
      else do
        let tods ← savePackage fromds.2 f true pos len score
        if tods.1 then unsyncPart tods.2 f index len
        else recvCompletedPart tods.2 f .dataFrame index len

/-- The index of a data frame falls back, or the frame comes too late. -/
def Rollback (d : ZcSide) (len : ℕ) (timeout : Bool) : Prop :=
  getDataIndex len < d.lastIndex ∨ (getDataIndex len = d.lastIndex ∧ len ≠ d.lastLen) ∨
    timeout = true

instance (d : ZcSide) (len : ℕ) (timeout : Bool) : Decidable (Rollback d len timeout) :=
  inferInstanceAs (Decidable (_ ∨ _ ∨ _))

/-- A data frame at which the position is lost, once more when `pos_unsync` is set already. -/
def rollbackPart : Logged TableUse ZconfigData := do
  let z ← if (z.data f.tods).posUnsync ≠ 0 then tryToSyncPos z f.tods none else pure z
  pure (z.setSide f.tods fun d => { d with posUnsync := 1 })

def dataPart (len : ℕ) (timeout : Bool) :
    Logged TableUse (PkgType × ZconfigData) :=
  if Rollback (z.data f.tods) len timeout then do
    let z ← rollbackPart z f
    unsyncPart z f (getDataIndex len) len
  else if (z.data f.tods).posUnsync ≠ 0 then unsyncPart z f (getDataIndex len) len
  else syncedData z f len

def groupPart (len : ℕ) :
    Logged TableUse (PkgType × ZconfigData) := do
  let group := getGroupIndex len
  let z ← if (z.data f.tods).posUnsync ≠ 0 then tryToSyncPos z f.tods (some group) else pure z
  let z := z.setSide f.tods fun d =>
    { d with curPos := group, groupPos := group, groupSn := f.sn, scoreUplimit := scoreMax }
  recvCompletedPart (z.setState f.tods .chnLockedByBr) f .startFrame 0 len

def awssRecvCallbackSmartconfig :
    Logged TableUse (PkgType × ZconfigData) :=
  match (z.data f.tods).stateMachine with
  | .chnLockedByP2p | .chnScanning =>
    match isHintFrame z f with
    | some z => pure (.startFrame, updateSn (z.setState f.tods .chnLockedByBr) f 0 f.len)
    | none => pure (.invalid, updateSn z f 0 f.len)
  | .chnLockedByBr =>
    match lockedFrame z f with
    | .drop => pure (.invalid, touchRetry z f)
    | .stale => pure (.invalid, updateSn z f 0 f.len)
    | .data len timeout => dataPart (touchRetry z f) f len timeout
    | .group len => groupPart (touchRetry z f) f len
  | _ => pure (.invalid, updateSn z f 0 f.len)

/-! ## What resynchronisation reads -/

/-- The index is one of the table that it is used for. -/
def InTables : TableUse → Prop
  | .pkg n => n < maxPkgNums
  | .tmp n => n ≤ groupNumber

theorem messageBound_inTables : MessageBound InTables := fun _ _ hlt => hlt

namespace ZconfigData

variable (z : ZconfigData) (tods : Bool)

/-- A package that waits is in the place of another in the group at `i`. -/
def Mismatch (i j : ℕ) : Prop :=
  (z.tmpPkg tods j).score ≠ 0 ∧ (z.pkg tods (i + j)).len ≠ 0 ∧
    (z.pkg tods (i + j)).len ≠ (z.tmpPkg tods j).len

/-- A package that waits is in its place in the group at `i`. -/
def Match (i j : ℕ) : Prop :=
  (z.tmpPkg tods j).score ≠ 0 ∧ (z.pkg tods (i + j)).len ≠ 0 ∧
    (z.pkg tods (i + j)).len = (z.tmpPkg tods j).len

/-- The group at `i` has a package that matches, with none before it in the place of another. -/
def GroupMatch (i : ℕ) : Prop :=
  ∃ j, 1 ≤ j ∧ j ≤ groupNumber ∧ z.Match tods i j ∧ ∀ k, 1 ≤ k → k < j → ¬ z.Mismatch tods i k

/-- Resynchronisation stays in the table: the group at 120 is not tried, or no package waits
for its last place, or a package is found in the place of another before that, and the places
with no package are not tried. -/
def SyncFits : Prop :=
  (zconfigGetDataLen z).val < 120 ∨ (z.tmpPkg tods groupNumber).score = 0 ∨
    ((∃ j, 1 ≤ j ∧ j < groupNumber ∧ z.Mismatch tods 120 j) ∧
      ∃ k, k ≤ (zconfigGetDataLen z).val / groupNumber ∧ z.GroupMatch tods (k * groupNumber))

end ZconfigData

section MatchLoop

variable (z : ZconfigData) (tods : Bool) (i : ℕ)

/-- A pass over a group stops at a package in the place of another, and goes on from any other:
the package is read where one waits, and counted where it matches. -/
theorem matchLoop_cons (j : ℕ) (js : List ℕ) (found : ℕ) (score : ℤ) :
    ((z.Mismatch tods i j ∧
        (matchLoop z tods false i (j :: js) found score).val = (found, score, j - 1)) ∧
        ((matchLoop z tods false i (j :: js) found score).Within InTables ↔
          j ≤ groupNumber ∧ i + j < maxPkgNums)) ∨
      (¬ z.Mismatch tods i j ∧ ∃ found' score',
        (found' = found + 1 ∧ z.Match tods i j ∨ found' = found ∧ ¬ z.Match tods i j) ∧
        (matchLoop z tods false i (j :: js) found score).val =
          (matchLoop z tods false i js found' score').val ∧
        ((matchLoop z tods false i (j :: js) found score).Within InTables ↔
          j ≤ groupNumber ∧ ((z.tmpPkg tods j).score ≠ 0 → i + j < maxPkgNums) ∧
            (matchLoop z tods false i js found' score').Within InTables)) := by
  by_cases htmp : (z.tmpPkg tods j).score = 0
  · refine .inr ⟨fun h => h.1 htmp, found, score, .inr ⟨rfl, fun h => h.1 htmp⟩, ?_, ?_⟩
    · simp [matchLoop, htmp]
    · simp [matchLoop, htmp, InTables]
  by_cases hlen : (z.pkg tods (i + j)).len = 0
  · refine .inr ⟨fun h => h.2.1 hlen, found, score, .inr ⟨rfl, fun h => h.2.1 hlen⟩, ?_, ?_⟩
    · simp [matchLoop, htmp, hlen]
    · simp [matchLoop, htmp, hlen, InTables]
  by_cases heq : (z.pkg tods (i + j)).len = (z.tmpPkg tods j).len
  · refine .inr ⟨fun h => h.2.2 heq, found + 1,
      if score > (z.pkg tods (i + j)).score then (z.pkg tods (i + j)).score else score,
      .inl ⟨rfl, htmp, hlen, heq⟩, ?_, ?_⟩
    · simp [matchLoop, htmp, heq, heq ▸ hlen]
      rfl
    · simp [matchLoop, htmp, heq, heq ▸ hlen, InTables]
      tauto
  · refine .inl ⟨⟨⟨htmp, hlen, heq⟩, ?_⟩, ?_⟩
    · simp [matchLoop, htmp, hlen, heq]
    · simp [matchLoop, htmp, hlen, heq, InTables]
      tauto

/-- A pass from `s` on reads the last package of the group unless it stops before. -/
theorem within_matchLoop_iff {i : ℕ} (hi : i + groupNumber ≤ maxPkgNums) :
    ∀ (n s found : ℕ) (score : ℤ), s + n = groupNumber →
      ((matchLoop z tods false i (List.range' s (n + 1)) found score).Within InTables ↔
        ((∀ j, s ≤ j → j < groupNumber → ¬ z.Mismatch tods i j) →
          (z.tmpPkg tods groupNumber).score ≠ 0 → i + groupNumber < maxPkgNums))
  | 0, s, found, score, hs => by
      obtain rfl : s = groupNumber := hs
      rw [range'_one]
      rcases matchLoop_cons z tods i groupNumber [] found score with
        ⟨⟨hmis, -⟩, hwithin⟩ | ⟨-, found', score', -, -, hwithin⟩
      · rw [hwithin]
        exact ⟨fun h _ _ => h.2, fun h => ⟨le_rfl, h (fun j hle hlt => by omega) hmis.1⟩⟩
      · rw [hwithin]
        have hnil : (matchLoop z tods false i [] found' score').Within InTables :=
          within_pure _
        exact ⟨fun h _ htmp => h.2.1 htmp,
          fun h => ⟨le_rfl, h fun j hle hlt => by omega, hnil⟩⟩
  | n + 1, s, found, score, hs => by
      have hlt : i + s < maxPkgNums := by simp only [groupNumber, maxPkgNums] at *; omega
      have hle : s ≤ groupNumber := by omega
      rw [range'_succ]
      rcases matchLoop_cons z tods i s (List.range' (s + 1) (n + 1)) found score with
        ⟨⟨hmis, -⟩, hwithin⟩ | ⟨hmis, found', score', -, -, hwithin⟩
      · rw [hwithin]
        exact ⟨fun _ hnone => absurd hmis (hnone s le_rfl (by omega)), fun _ => ⟨hle, hlt⟩⟩
      rw [hwithin, within_matchLoop_iff hi n (s + 1) found' score' (by omega)]
      constructor
      · rintro ⟨-, -, hrest⟩ hnone
        exact hrest fun j hj => hnone j (by omega)
      · intro hrest
        refine ⟨hle, fun _ => hlt, fun hnone => hrest fun j hj hjlt => ?_⟩
        rcases Nat.lt_or_eq_of_le hj with hj | rfl
        · exact hnone j hj hjlt
        · exact hmis

/-- A pass counts a package when one matches before it stops. -/
theorem lt_matchLoop_iff (i : ℕ) : ∀ (n s found : ℕ) (score : ℤ),
    found ≤ (matchLoop z tods false i (List.range' s n) found score).val.1 ∧
      (found < (matchLoop z tods false i (List.range' s n) found score).val.1 ↔
        ∃ j, s ≤ j ∧ j < s + n ∧ z.Match tods i j ∧
          ∀ k, s ≤ k → k < j → ¬ z.Mismatch tods i k)
  | 0, s, found, score => by
      refine ⟨le_rfl, fun h => absurd h (lt_irrefl found), ?_⟩
      rintro ⟨j, hle, hlt, -⟩
      omega
  | n + 1, s, found, score => by
      rw [range'_succ]
      rcases matchLoop_cons z tods i s (List.range' (s + 1) n) found score with
        ⟨⟨hmis, hval⟩, -⟩ | ⟨hmis, found', score', hfound, hval, -⟩
      · rw [hval]
        refine ⟨le_rfl, fun h => absurd h (lt_irrefl found), ?_⟩
        rintro ⟨j, hle, -, hmatch, hnone⟩
        rcases Nat.lt_or_eq_of_le hle with hlt | rfl
        · exact absurd hmis (hnone s le_rfl hlt)
        · exact absurd hmatch.2.2 hmis.2.2
      obtain ⟨hmono, hiff⟩ := lt_matchLoop_iff i n (s + 1) found' score'
      rw [hval]
      rcases hfound with ⟨rfl, hmatch⟩ | ⟨rfl, hmatch⟩
      · refine ⟨by omega, fun _ => ⟨s, le_rfl, by omega, hmatch, fun k hle hlt => by omega⟩, ?_⟩
        exact fun _ => by omega
      refine ⟨hmono, hiff.trans ⟨?_, ?_⟩⟩
      · rintro ⟨j, hle, hlt, hj, hnone⟩
        refine ⟨j, by omega, by omega, hj, fun k hk hkj => ?_⟩
        rcases Nat.lt_or_eq_of_le hk with hk | rfl
        · exact hnone k hk hkj
        · exact hmis
      · rintro ⟨j, hle, hlt, hj, hnone⟩
        rcases Nat.lt_or_eq_of_le hle with hle | rfl
        · exact ⟨j, hle, by omega, hj, fun k hk => hnone k (by omega)⟩
        · exact absurd hj hmatch

/-- A pass over the places with no package does not stop. -/
theorem within_matchLoop_empty (i : ℕ) : ∀ (js : List ℕ) (found : ℕ) (score : ℤ),
    (matchLoop z tods true i js found score).Within InTables ↔
      ∀ j ∈ js, j ≤ groupNumber ∧ ((z.tmpPkg tods j).score ≠ 0 → i + j < maxPkgNums)
  | [], _, _ => by simp [matchLoop]
  | j :: js, found, score => by
      rw [forall_mem_cons]
      by_cases htmp : (z.tmpPkg tods j).score = 0
      · simp [matchLoop, htmp, InTables, within_matchLoop_empty i js]
      · by_cases hpkg : (z.pkg tods (i + j)).score ≤ 1 <;>
          simp [matchLoop, htmp, hpkg, InTables, within_matchLoop_empty i js, and_assoc]

theorem groupMatch_iff (i : ℕ) : 0 < (matchLoop z tods false i groupIndices 0 scoreMax).val.1 ↔
    z.GroupMatch tods i := by
  rw [groupIndices, (lt_matchLoop_iff z tods i groupNumber 1 0 scoreMax).2]
  simp only [ZconfigData.GroupMatch, Nat.lt_add_one_iff, Nat.add_comm 1]

end MatchLoop

section MatchGroups

variable (z : ZconfigData) (tods : Bool)

theorem within_matchGroups_iff (emptyMatch : Bool) (best : SyncMatch) :
    (matchGroups z tods emptyMatch best).Within InTables ↔
      ∀ k ≤ (zconfigGetDataLen z).val / groupNumber,
        (matchLoop z tods emptyMatch (k * groupNumber) groupIndices 0 scoreMax).Within InTables := by
  rw [matchGroups, within_bind, within_foldlM_iff]
  simp only [within_zconfigGetDataLen messageBound_inTables, true_and, mem_range,
    Nat.lt_add_one_iff]

/-- The groups before the last of the table have all of their packages in it. -/
theorem group_bounds {k : ℕ} (hk : k ≤ (zconfigGetDataLen z).val / groupNumber) :
    k * groupNumber + groupNumber < maxPkgNums ∨
      k = 15 ∧ 120 ≤ (zconfigGetDataLen z).val := by
  have hlt := zconfigGetDataLen_lt z
  simp only [maxPkgNums, groupNumber] at *
  omega

theorem within_matchGroups_false_iff (best : SyncMatch) :
    (matchGroups z tods false best).Within InTables ↔
      (zconfigGetDataLen z).val < 120 ∨ (z.tmpPkg tods groupNumber).score = 0 ∨
        ∃ j, 1 ≤ j ∧ j < groupNumber ∧ z.Mismatch tods 120 j := by
  have hpass {i : ℕ} (hi : i + groupNumber ≤ maxPkgNums) :=
    within_matchLoop_iff z tods hi 7 1 0 scoreMax rfl
  rw [within_matchGroups_iff]
  constructor
  · intro h
    by_contra! hnot
    obtain ⟨hlen, htmp, hnone⟩ := hnot
    have hlast := (hpass (by decide)).mp (h 15 (by simp only [groupNumber]; omega))
    exact absurd (hlast (fun j hj hlt => hnone j hj hlt) htmp) (by decide)
  · intro h k hk
    rcases group_bounds z hk with hlt | ⟨rfl, hlen⟩
    · exact (hpass hlt.le).mpr fun _ _ => hlt
    · refine (hpass (by decide)).mpr fun hnone htmp => ?_
      rcases h with h | h | ⟨j, hj, hlt, hmis⟩
      · omega
      · exact absurd h htmp
      · exact absurd hmis (hnone j hj hlt)

theorem within_matchGroups_true_iff (best : SyncMatch) :
    (matchGroups z tods true best).Within InTables ↔
      (zconfigGetDataLen z).val < 120 ∨ (z.tmpPkg tods groupNumber).score = 0 := by
  rw [within_matchGroups_iff]
  simp only [within_matchLoop_empty, groupIndices, mem_range'_1]
  constructor
  · intro h
    by_contra! hnot
    have hlast := (h 15 (by simp only [groupNumber]; omega) groupNumber (by decide)).2 hnot.2
    exact absurd hlast (by decide)
  · intro h k hk j hj
    refine ⟨by omega, fun htmp => ?_⟩
    rcases group_bounds z hk with hlt | ⟨rfl, hlen⟩
    · omega
    · have hne : j ≠ groupNumber := by
        rintro rfl
        exact htmp (h.resolve_left (by omega))
      simp only [groupNumber, maxPkgNums] at *
      omega

theorem maxMatch_matchGroups_eq_zero_iff (matchEnd : ℕ) (score : ℤ) :
    (matchGroups z tods false ⟨0, none, matchEnd, score⟩).val.maxMatch = 0 ↔
      ∀ k ≤ (zconfigGetDataLen z).val / groupNumber, ¬ z.GroupMatch tods (k * groupNumber) := by
  have hloop (l : List ℕ) (best : SyncMatch) : (l.foldlM (fun best k =>
        matchLoop z tods false (k * groupNumber) groupIndices 0 scoreMax >>= fun found =>
          pure (if found.1 > best.maxMatch then
            ⟨found.1, some (k * groupNumber), found.2.2, found.2.1⟩ else best)) best :
        Logged TableUse SyncMatch).val.maxMatch = 0 ↔
        best.maxMatch = 0 ∧ ∀ k ∈ l, ¬ z.GroupMatch tods (k * groupNumber) := by
    induction l generalizing best with
    | nil => simp
    | cons k l ih =>
      rw [foldlM_cons, val_bind, ih, forall_mem_cons, ← and_assoc]
      refine and_congr_left fun _ => ?_
      rw [← groupMatch_iff, val_bind, val_pure]
      split_ifs with hmore
      · simp only
        omega
      · omega
  rw [matchGroups, val_bind, hloop]
  simp only [mem_range, Nat.lt_add_one_iff, true_and]

end MatchGroups

/-! ## The indices used -/

variable (z : ZconfigData)

theorem within_guessPos (groupPos : Option ℕ) :
    (guessPos z groupPos).Within InTables := by
  unfold guessPos
  split
  · exact within_pure _
  · simp [within_zconfigGetDataLen messageBound_inTables]

theorem within_movePackages (tods : Bool) (matchScore : ℤ) : ∀ (n i j : ℕ) (z : ZconfigData),
    (movePackages tods matchScore n i j z).Within InTables
  | 0, _, _, z => within_pure z
  | n + 1, i, j, z => by
      have hrest := within_movePackages tods matchScore n (i + 1) (j + 1)
      unfold movePackages
      by_cases hend : j > groupNumber ∨ i ≥ maxPkgNums
      · rw [if_pos hend]
        exact within_pure z
      rw [if_neg hend]
      obtain ⟨hj, hi⟩ := not_or.mp hend
      have hpkg : InTables (.pkg i) := not_le.mp hi
      have htmp : InTables (.tmp j) := not_lt.mp hj
      simp only [within_bind, within_ite, ZconfigData.within_pkgScore,
        ZconfigData.within_tmpScore, ZconfigData.within_tmpLen, ZconfigData.within_setPkgLen,
        ZconfigData.within_setPkgScore, hpkg, htmp, hrest, implies_true, and_self]

theorem within_placePackages (tods : Bool) (place : Option (ℕ × ℕ × ℤ)) :
    (placePackages z tods place).Within InTables := by
  rcases place with _ | ⟨pos, matchEnd, matchScore⟩
  · exact within_pure _
  · simp [placePackages, within_movePackages]

/-- **Resynchronisation stays in the tables** exactly when it fits. -/
theorem within_tryToSyncPos_iff (tods : Bool) (groupPos : Option ℕ) :
    (tryToSyncPos z tods groupPos).Within InTables ↔ z.SyncFits tods := by
  have hzero := maxMatch_matchGroups_eq_zero_iff z tods groupNumber 0
  unfold tryToSyncPos ZconfigData.SyncFits
  rw [within_bind, within_matchGroups_false_iff]
  by_cases hnone : (matchGroups z tods false ⟨0, none, groupNumber, 0⟩).val.maxMatch = 0
  · have hgroup := hzero.mp hnone
    simp only [hnone, decide_true, if_true, within_bind, within_matchGroups_true_iff,
      within_guessPos, within_placePackages, and_true]
    constructor
    · rintro ⟨-, hlen | htmp⟩
      · exact .inl hlen
      · exact .inr (.inl htmp)
    · rintro (hlen | htmp | ⟨-, k, hk, hmatch⟩)
      · exact ⟨.inl hlen, .inl hlen⟩
      · exact ⟨.inr (.inl htmp), .inr htmp⟩
      · exact absurd hmatch (hgroup k hk)
  · have hgroup : ∃ k ≤ (zconfigGetDataLen z).val / groupNumber,
        z.GroupMatch tods (k * groupNumber) := by
      by_contra! hall
      exact hnone (hzero.mpr hall)
    simp only [hnone, decide_false, Bool.false_eq_true, if_false, within_bind,
      within_pure, within_guessPos, within_placePackages, and_true, hgroup]

theorem within_tryToReplaceSamePos (tods : Bool) {pos : ℕ}
    (hpos : pos < maxPkgNums) (newLen : ℕ) :
    (tryToReplaceSamePos z tods pos newLen).Within InTables := by
  have hP : InTables (.pkg pos) := hpos
  have hloop (last : ℕ) (l : List ℕ) (hl : ∀ i ∈ l, i < maxPkgNums) (found : Bool × Bool) :
      (l.foldlM (fun (found : Bool × Bool) i => do
        let len ← z.pkgLen tods i
        pure (found.1 || (i ≠ pos ∧ len = last : Bool), found.2 || (len = newLen : Bool)))
        found).Within InTables := by
    refine within_foldlM (fun i hi found => ?_) found
    have hi' : InTables (.pkg i) := hl i hi
    simp [hi']
  have hrange : ∀ i ∈ (List.range ((zconfigGetDataLen z).val + 1)).filter
      (· % groupNumber = pos % groupNumber), i < maxPkgNums := by
    intro i hi
    have hlt := zconfigGetDataLen_lt z
    have hi' := mem_range.mp (mem_of_mem_filter hi)
    omega
  simp only [tryToReplaceSamePos, within_bind, within_ite, within_pure,
    within_zconfigGetDataLen messageBound_inTables, ZconfigData.within_pkgLen,
    ZconfigData.within_setPkgLen, hP, hloop _ _ hrange, implies_true, and_self]

variable (f : BrFrame)

theorem within_savePackage (t : Bool) {pos : ℕ}
    (hpos : pos < maxPkgNums) (len score : ℕ) :
    (savePackage z f t pos len score).Within InTables := by
  have hP : InTables (.pkg pos) := hpos
  simp only [savePackage, within_bind, within_ite, within_pure,
    ZconfigData.within_pkgLen, ZconfigData.within_pkgScore, ZconfigData.within_setPkgScore,
    ZconfigData.within_setPkgLen, within_tryToReplaceSamePos _ _ hpos, hP, implies_true, and_self]

theorem within_unsyncPart {index : ℕ}
    (hindex : index ≤ groupNumber) (len : ℕ) : (unsyncPart z f index len).Within InTables := by
  have hP : InTables (.tmp index) := hindex
  simp [unsyncPart, hP]

theorem within_recvCompletedPart (pkgType : PkgType)
    (index len : ℕ) : (recvCompletedPart z f pkgType index len).Within InTables := by
  simp only [recvCompletedPart, within_bind, within_ite, within_pure,
    within_zconfigRecvCompleted messageBound_inTables,
    within_zconfigGetSsidPasswd messageBound_inTables, implies_true, and_self]

theorem within_syncedData {len : ℕ}
    (hindex : getDataIndex len ≤ groupNumber) : (syncedData z f len).Within InTables := by
  simp only [syncedData, within_ite, within_pure, implies_true, true_and]
  intro _ hpos
  have hlt : (z.data f.tods).groupPos + getDataIndex len < maxPkgNums :=
    not_le.mp (not_or.mp hpos).1
  simp only [within_bind, within_ite, within_savePackage _ _ _ hlt,
    within_unsyncPart _ _ hindex, within_recvCompletedPart, implies_true, and_self]

/-! ## Runs -/

def smartconfigStep (z : ZconfigData) (f : BrFrame) : ZconfigData :=
  (awssRecvCallbackSmartconfig z f).val.2

/-- The frame ends a stretch of packages whose group is not known. -/
def Resyncs (z : ZconfigData) (f : BrFrame) : Prop :=
  (z.data f.tods).stateMachine = .chnLockedByBr ∧ (z.data f.tods).posUnsync ≠ 0 ∧
    match lockedFrame z f with
    | .data len timeout => Rollback (z.data f.tods) len timeout
    | .group _ => True
    | _ => False

/-- The time of a frame that is sent again does not bear on the rest. -/
theorem touchRetry_spec :
    (∀ len timeout, Rollback ((touchRetry z f).data f.tods) len timeout ↔
      Rollback (z.data f.tods) len timeout) ∧
      ((touchRetry z f).data f.tods).posUnsync = (z.data f.tods).posUnsync ∧
      ((touchRetry z f).SyncFits f.tods ↔ z.SyncFits f.tods) := by
  unfold touchRetry
  split_ifs
  · have hmax (t : Bool) : ((z.setSide f.tods fun d =>
        { d with timestamp := f.timestamp }).data t).maxPos = (z.data t).maxPos := by
      simp only [ZconfigData.setSide]
      split_ifs <;> rfl
    have hlen : (zconfigGetDataLen (z.setSide f.tods fun d =>
        { d with timestamp := f.timestamp })).val = (zconfigGetDataLen z).val := by
      simp only [zconfigGetDataLen, val_bind, val_pure, hmax]
      rfl
    refine ⟨fun len timeout => ?_, ?_, ?_⟩
    · simp [Rollback, ZconfigData.setSide]
    · simp [ZconfigData.setSide]
    · simp only [ZconfigData.SyncFits, hlen]
      rfl
  · exact ⟨fun _ _ => Iff.rfl, rfl, Iff.rfl⟩

theorem getDataIndex_of_lockedFrame {z : ZconfigData} {f : BrFrame} {len : ℕ} {timeout : Bool}
    (h : lockedFrame z f = .data len timeout) : getDataIndex len ≤ groupNumber := by
  unfold lockedFrame at h
  dsimp only at h
  split_ifs at h with _ _ _ _ _ hpos
  obtain ⟨rfl, -⟩ := LockedFrame.data.inj h
  exact not_lt.mp (not_or.mp hpos).1

theorem within_dataPart_iff {len : ℕ} (timeout : Bool)
    (hindex : getDataIndex len ≤ groupNumber) :
    (dataPart z f len timeout).Within InTables ↔
      ((z.data f.tods).posUnsync ≠ 0 → Rollback (z.data f.tods) len timeout →
        z.SyncFits f.tods) := by
  unfold dataPart
  by_cases hback : Rollback (z.data f.tods) len timeout
  · by_cases hunsync : (z.data f.tods).posUnsync = 0
    · simp [hback, hunsync, rollbackPart, within_unsyncPart _ _ hindex]
    · simp [hback, hunsync, rollbackPart, within_unsyncPart _ _ hindex, within_tryToSyncPos_iff]
  · by_cases hunsync : (z.data f.tods).posUnsync = 0
    · simp [hback, hunsync, within_syncedData z f hindex]
    · simp [hback, hunsync, within_unsyncPart _ _ hindex]

theorem within_groupPart_iff (len : ℕ) :
    (groupPart z f len).Within InTables ↔
      ((z.data f.tods).posUnsync ≠ 0 → z.SyncFits f.tods) := by
  unfold groupPart
  by_cases hunsync : (z.data f.tods).posUnsync = 0
  · simp [hunsync, within_recvCompletedPart]
  · simp [hunsync, within_recvCompletedPart, within_tryToSyncPos_iff]

/-- A frame uses indices of the tables exactly when resynchronisation fits at its start. -/
theorem within_awssRecvCallbackSmartconfig_iff :
    (awssRecvCallbackSmartconfig z f).Within InTables ↔ (Resyncs z f → z.SyncFits f.tods) := by
  obtain ⟨hback, hunsync, hfits⟩ := touchRetry_spec z f
  by_cases hbr : (z.data f.tods).stateMachine = .chnLockedByBr
  · simp only [awssRecvCallbackSmartconfig, Resyncs, hbr, true_and]
    cases hframe : lockedFrame z f with
    | drop => simp
    | stale => simp
    | data len timeout =>
      have hindex := getDataIndex_of_lockedFrame hframe
      simp only [within_dataPart_iff _ _ _ hindex, hback, hunsync, hfits, and_imp]
    | group len => simp only [within_groupPart_iff, hunsync, hfits, and_true]
  · have hout : (awssRecvCallbackSmartconfig z f).Within InTables := by
      unfold awssRecvCallbackSmartconfig
      cases hstate : (z.data f.tods).stateMachine with
      | chnLockedByBr => exact absurd hstate hbr
      | chnLockedByP2p | chnScanning =>
        dsimp only
        split <;> exact within_pure _
      | gotBeacon | rcvInProgress | rcvComplete | rcvDone => exact within_pure _
    exact iff_of_true hout fun h => absurd h.1 hbr

/-- **Reassembly stays in its tables.**  A run uses indices of the tables alone exactly when
resynchronisation fits at each frame that brings it about. -/
theorem smartconfig_in_tables (frames : List BrFrame) :
    AllSteps smartconfigStep (fun z f => (awssRecvCallbackSmartconfig z f).Within InTables)
        zeroZconfigData frames ↔
      AllSteps smartconfigStep (fun z f => Resyncs z f → z.SyncFits f.tods)
        zeroZconfigData frames :=
  allSteps_congr (fun z f (_ : True) => within_awssRecvCallbackSmartconfig_iff z f)
    (fun _ _ _ _ => trivial) trivial frames

/-- The head of a message of 120 packages, a package for the last place of a group that comes
too late, and a start frame: package 128 is read. -/
theorem smartconfig_in_tables_broken :
    let frame (sn len timestamp : ℕ) : BrFrame :=
      ⟨fun _ => 1, brMac, fun _ => 2, true, sn, len + 36, 0, timestamp, none,
        ⟨true, true, [], true⟩⟩
    let z := [frame 10 startFrame 0, frame 11 0x178 0, frame 12 0x485 400].foldl smartconfigStep
      zeroZconfigData
    ¬ (awssRecvCallbackSmartconfig z (frame 13 startFrame 400)).Within InTables := by
  intro frame z hwithin
  have hread : TableUse.pkg 128 ∈
      (awssRecvCallbackSmartconfig z (frame 13 startFrame 400)).log := by
    decide +kernel
  exact absurd (hwithin _ hread) (lt_irrefl 128)

end Iotkit.Awss
