/-
# The packages of a configuration that is broadcast (`zconfig_protocol.h`, `awss_smartconfig.c`)

A phone sends a name and a password in the lengths of broadcast frames, which are collected in a
table of packages for each of two directions, each package with a score.

The tables are read and written through accesses that record the index; nothing is said of a
computation after one past its table.  What is allocated, the name that the packages decode to and
whether the password is UTF-8 are given by the environment.
-/
import Iotkit.AccessLog
import Iotkit.AwssApList

namespace Iotkit.Awss

open AccessLog Logged

/-! ## Frames -/

abbrev maxPkgNums : ℕ := 128

abbrev groupNumber : ℕ := 8

abbrev startFrame : ℕ := 0x4E0
abbrev groupFrame : ℕ := 0x3E0
abbrev groupFrameEnd : ℕ := groupFrame + maxPkgNums / groupNumber
abbrev zcGrpPktIdxStart : ℕ := 2
abbrev zcGrpPktIdxEnd : ℕ := zcGrpPktIdxStart + groupNumber - 1
abbrev payloadBitsCnt : ℕ := 7
abbrev payloadBitsMask : ℕ := 2 ^ payloadBitsCnt - 1

/-- The value of a `uint8_t` expression. -/
def toUInt8 (x : ℤ) : ℕ := (x % 2 ^ 8).toNat

/-- The milliseconds between two readings of a clock of 32 bits. -/
def elapsed (now since : ℕ) : ℕ := (((now : ℤ) - since) % 2 ^ 32).toNat

/-- The value of a `char` expression. -/
def toChar (x : ℤ) : ℤ := x.bmod (2 ^ 8)

/-- A frame that starts a group. -/
def isStartFrame (len : ℕ) : Bool := len = startFrame

/-- A frame that names a group. -/
def isGroupFrame (len : ℕ) : Bool := len > groupFrame ∧ len ≤ groupFrameEnd

/-- Any other frame with an index of a package in its length. -/
def isDataFrame (len : ℕ) : Bool :=
  if isStartFrame len then false
  else if isGroupFrame len then false
  else
    let index := (len >>> payloadBitsCnt) &&& 0xF
    index ≥ zcGrpPktIdxStart ∧ index ≤ zcGrpPktIdxEnd

/-- The position of a group's first package. -/
def getGroupIndex (len : ℕ) : ℕ :=
  if isStartFrame len then 0 else toUInt8 (((len : ℤ) - groupFrame) * groupNumber)

/-- The index of a package in its group. -/
def getDataIndex (len : ℕ) : ℕ :=
  toUInt8 (((len >>> payloadBitsCnt) &&& 0xF : ℕ) - (zcGrpPktIdxStart - 1))

theorem getDataIndex_bounds {len : ℕ} (h : isDataFrame len = true) :
    1 ≤ getDataIndex len ∧ getDataIndex len ≤ groupNumber := by
  unfold isDataFrame at h
  split_ifs at h
  simp only [decide_eq_true_eq, zcGrpPktIdxStart, zcGrpPktIdxEnd,
    groupNumber] at h
  simp only [getDataIndex, toUInt8, zcGrpPktIdxStart, groupNumber]
  omega

/-- A group starts at position 8 at least, and the last that is accepted where the table ends. -/
theorem getGroupIndex_bounds {len : ℕ} (h : isGroupFrame len = true) :
    groupNumber ≤ getGroupIndex len ∧ getGroupIndex len ≤ maxPkgNums := by
  simp only [isGroupFrame, decide_eq_true_eq, groupFrame, groupFrameEnd, maxPkgNums,
    groupNumber] at h
  have hstart : ¬ isStartFrame len = true := by
    simp only [isStartFrame, decide_eq_true_eq, startFrame]
    omega
  rw [getGroupIndex, if_neg hstart]
  simp only [toUInt8, maxPkgNums, groupNumber, groupFrame]
  omega

/-- `zconfig_fixed_offset[encry][0]`, for `encry` up to `ZC_ENC_TYPE_MAX`. -/
def zconfigFixedOffset (encry : ℕ) : ℕ := [36, 44, 56, 52, 56].getD encry 0

/-- `zconfig_hint_frame`, without the zero at its end. -/
def zconfigHintFrame : List ℕ :=
  [startFrame, groupFrame + 1, groupFrame + 2, groupFrame + 3, groupFrame + 4, groupFrame + 5,
    groupFrame + 6, groupFrame + 7]

/-! ## The data -/

/-- `enum state_machine`, in its order. -/
inductive ZcState where
  | chnScanning
  | chnLockedByP2p
  | chnLockedByBr
  | gotBeacon
  | rcvInProgress
  | rcvComplete
  | rcvDone
  deriving DecidableEq

def ZcState.code : ZcState → ℕ
  | .chnScanning => 0
  | .chnLockedByP2p => 1
  | .chnLockedByBr => 2
  | .gotBeacon => 3
  | .rcvInProgress => 4
  | .rcvComplete => 5
  | .rcvDone => 6

/-- What a callback for frames returns. -/
inductive PkgType where
  | invalid
  | bcFrame
  | startFrame
  | dataFrame
  | alinkRouter
  | groupFrame
  | pkgEnd
  deriving DecidableEq

abbrev scoreMax : ℕ := 100
abbrev scoreMid : ℕ := 50
abbrev scoreLow : ℕ := 1
abbrev scoreMin : ℕ := 0

/-- `time_interval`, in milliseconds. -/
abbrev timeInterval : ℕ := 300

/-- A `struct package`. -/
structure Package where
  len : ℕ
  score : ℤ
  deriving DecidableEq

/-- An entry of `data` in a `struct zconfig_data`. -/
structure ZcSide where
  stateMachine : ZcState
  frameOffset : ℕ
  groupPos : ℕ
  curPos : ℕ
  maxPos : ℕ
  lastIndex : ℕ
  replace : Bool
  scoreUplimit : ℕ
  posUnsync : ℕ
  groupSn : ℕ
  prevSn : ℕ
  lastLen : ℕ
  timestamp : ℕ
  deriving DecidableEq

/-- A `struct zconfig_data`.  The directions are `true` for tods and `false` for fromds, and
`ssid` is the string in its array. -/
structure ZconfigData where
  data : Bool → ZcSide
  pkg : Bool → ℕ → Package
  tmpPkg : Bool → ℕ → Package
  srcMac : Mac
  bssid : Mac
  ssid : Bytes
  ssidAutoCompleteDisable : Bool

def zeroZcSide : ZcSide := ⟨.chnScanning, 0, 0, 0, 0, 0, false, 0, 0, 0, 0, 0, 0⟩

/-- What `zconfig_init` and a `memset` leave. -/
def zeroZconfigData : ZconfigData :=
  ⟨fun _ => zeroZcSide, fun _ _ => ⟨0, 0⟩, fun _ _ => ⟨0, 0⟩, fun _ => 0, fun _ => 0, [], false⟩

/-- What the outside gives while a frame is handled: whether the two functions get their
memory, the name that `zconfig_get_ssid_passwd` stores, and whether the password is UTF-8. -/
structure RecvEnv where
  encodeMemory : Bool
  passwdMemory : Bool
  ssid : Bytes
  passwdUtf8 : Bool

/-- An index that is used, into one of the two kinds of tables. -/
inductive TableUse where
  | pkg (n : ℕ)
  | tmp (n : ℕ)
  deriving DecidableEq

namespace ZconfigData

variable (z : ZconfigData) (tods : Bool) (n : ℕ)

def setSide (f : ZcSide → ZcSide) : ZconfigData :=
  { z with data := fun t => if t = tods then f (z.data t) else z.data t }

/-- `zconfig_set_state`; the callbacks to the vendor are left out. -/
def setState (state : ZcState) : ZconfigData :=
  z.setSide tods fun d =>
    if d.stateMachine.code < state.code then { d with stateMachine := state } else d

def setPkg (p : Package) : ZconfigData :=
  { z with pkg := fun t i => if t = tods ∧ i = n then p else z.pkg t i }

def setTmp (p : Package) : ZconfigData :=
  { z with tmpPkg := fun t i => if t = tods ∧ i = n then p else z.tmpPkg t i }

/-! The macros that read and write the tables. -/

def pkgScore : Logged TableUse ℤ := Logged.access (.pkg n) (z.pkg tods n).score

def pkgLen : Logged TableUse ℕ := Logged.access (.pkg n) (z.pkg tods n).len

def tmpScore : Logged TableUse ℤ := Logged.access (.tmp n) (z.tmpPkg tods n).score

def tmpLen : Logged TableUse ℕ := Logged.access (.tmp n) (z.tmpPkg tods n).len

def setPkgScore (score : ℤ) : Logged TableUse ZconfigData :=
  Logged.access (.pkg n) (z.setPkg tods n { z.pkg tods n with score := toChar score })

def setPkgLen (len : ℕ) : Logged TableUse ZconfigData :=
  Logged.access (.pkg n) (z.setPkg tods n { z.pkg tods n with len := len })

def setTmpScore (score : ℤ) : Logged TableUse ZconfigData :=
  Logged.access (.tmp n) (z.setTmp tods n { z.tmpPkg tods n with score := toChar score })

def setTmpLen (len : ℕ) : Logged TableUse ZconfigData :=
  Logged.access (.tmp n) (z.setTmp tods n { z.tmpPkg tods n with len := len })

section Accesses

variable {P : TableUse → Prop} (score : ℤ) (len : ℕ)

@[simp] theorem within_pkgScore : (z.pkgScore tods n).Within P ↔ P (.pkg n) :=
  within_access ..

@[simp] theorem within_pkgLen : (z.pkgLen tods n).Within P ↔ P (.pkg n) := within_access ..

@[simp] theorem within_tmpScore : (z.tmpScore tods n).Within P ↔ P (.tmp n) :=
  within_access ..

@[simp] theorem within_tmpLen : (z.tmpLen tods n).Within P ↔ P (.tmp n) := within_access ..

@[simp] theorem within_setPkgScore : (z.setPkgScore tods n score).Within P ↔ P (.pkg n) :=
  within_access ..

@[simp] theorem within_setPkgLen : (z.setPkgLen tods n len).Within P ↔ P (.pkg n) :=
  within_access ..

@[simp] theorem within_setTmpScore : (z.setTmpScore tods n score).Within P ↔ P (.tmp n) :=
  within_access ..

@[simp] theorem within_setTmpLen : (z.setTmpLen tods n len).Within P ↔ P (.tmp n) :=
  within_access ..

@[simp] theorem val_pkgScore : (z.pkgScore tods n).val = (z.pkg tods n).score := rfl

@[simp] theorem val_pkgLen : (z.pkgLen tods n).val = (z.pkg tods n).len := rfl

@[simp] theorem val_tmpScore : (z.tmpScore tods n).val = (z.tmpPkg tods n).score := rfl

@[simp] theorem val_tmpLen : (z.tmpLen tods n).val = (z.tmpPkg tods n).len := rfl

end Accesses

end ZconfigData

end Iotkit.Awss
