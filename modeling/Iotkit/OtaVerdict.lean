/-
# The integrity checks of an update

What `IOT_OTAG_CHECK_FIRMWARE` and `IOT_OTAG_CHECK_CONFIG` leave in the word of the caller, along
runs of messages, downloads and commands.  Next to the handle stands the `md5` value of the last
firmware message that was accepted.
-/
import Iotkit.GuardedRun
import Iotkit.Ota

namespace Iotkit.Ota

open GuardedRun Option
open List hiding Vector

/-! ## Digests in text (`otalib_MD5Finalize`, `otalib_Sha256Finalize`) -/

def infraHex2char (hex : UInt8) : UInt8 :=
  let hex := hex &&& 0xF
  if hex < 10 then 48 + hex else hex - 10 + 97

/-- The loop of the two functions: two digits for each byte. -/
def digestText (bufOut : Bytes) : Bytes :=
  bufOut.flatMap fun (b : UInt8) => [infraHex2char (b >>> 4), infraHex2char b]

/-- `utils_md5_finish` and `utils_sha256_finish`. -/
structure OtaHash where
  md5Finish : Digest → Vector UInt8 16
  sha256Finish : Digest → Vector UInt8 32

def OtaHash.env (hash : OtaHash) (jsonValueOf : Bytes → String → Option Bytes) :
    OtaEnv where
  jsonValueOf := jsonValueOf
  md5Text ctx := digestText (hash.md5Finish ctx).toList
  sha256Text ctx := digestText (hash.sha256Finish ctx).toList

theorem length_digestText (bufOut : Bytes) : (digestText bufOut).length = 2 * bufOut.length := by
  induction bufOut with
  | nil => rfl
  | cons b bufOut ih =>
    rw [digestText, flatMap_cons, length_append, ← digestText, ih, length_cons]
    exact (Nat.add_comm 2 _)

/-! ## Runs -/

/-- A handle, and the `md5` value of the last firmware message that was accepted. -/
structure VerdictRun where
  ota : OtaStruct
  accepted : Option Bytes

/-- A step, with what the word of the caller holds before it. -/
structure OtaCall where
  op : OtaOp
  word : UInt32

variable (env : OtaEnv)

/-- The `md5` value of a firmware message. -/
def messageMd5 (msg : Bytes) : Option Bytes :=
  (env.jsonValueOf msg "data").bind fun data => env.jsonValueOf data "md5"

def TopicType.isFirmware : TopicType → Bool
  | .deviceRequest => true
  | .deviceUpgrate => true
  | _ => false

variable (r : VerdictRun)

def acceptedAfter : OtaOp → Option Bytes
  | .message memory stack msg type =>
    if type.isFirmware ∧ (otaCallback env memory stack msg type r.ota).1 = 0 then
      messageMd5 env msg
    else r.accepted
  | _ => r.accepted

variable (call : OtaCall)

def verdictStep : VerdictRun :=
  ⟨(otaExec env r.ota call.op).2, acceptedAfter env r call.op⟩

def verdictStart (hasFetchCb hasFetchCotaCb : Bool) : VerdictRun :=
  ⟨iotOtaInit hasFetchCb hasFetchCotaCb, none⟩

/-! ## What the checks are for -/

/-- `Md5` and `Sha256`. -/
abbrev md5Name : Bytes := [77, 100, 53]
abbrev sha256Name : Bytes := [83, 104, 97, 50, 53, 54]

/-- The contexts and strings that a check reads are there: no null pointer is followed. -/
def checkReads (h : OtaStruct) : CmdType → Prop
  | .checkFirmware => h.md5.isSome
  | .checkConfig => h.signMethod.isSome ∧
      (h.signMethod.getD [] <+: md5Name → h.md5.isSome ∧ h.sign.isSome) ∧
      (h.signMethod.getD [] <+: sha256Name → h.sha256.isSome ∧ h.sign.isSome)
  | _ => True

instance decidableCheckReads (h : OtaStruct) (cmd : CmdType) : Decidable (checkReads h cmd) := by
  cases cmd <;> unfold checkReads <;> infer_instance

/-- The word of the caller after a command. -/
def wordAfter (word : UInt32) : IoctlOut → UInt32
  | .word value => value
  | _ => word

/-- The signature of a configuration is right, by one of the two methods. -/
def ConfigSigned (h : OtaStruct) : Prop :=
  h.signMethod = some md5Name ∧ h.md5.map env.md5Text = h.sign ∨
    h.signMethod = some sha256Name ∧ h.sha256.map env.sha256Text = h.sign

instance (env : OtaEnv) (h : OtaStruct) : Decidable (ConfigSigned env h) :=
  inferInstanceAs (Decidable (_ ∨ _))

/-- A check of a firmware that returns 0 leaves 1 only if its digest is the accepted value. -/
def FirmwareLaw : Prop :=
  match call.op with
  | .ioctl .checkFirmware buf =>
    let out := iotOtaIoctl env .checkFirmware buf r.ota
    out.1 = 0 → checkReads r.ota .checkFirmware → wordAfter call.word out.2.1 = 1 →
      r.accepted.isSome ∧ r.ota.md5.map env.md5Text = r.accepted
  | _ => True

/-- A check of a configuration that returns 0 leaves 1 if its signature is right, and else 0. -/
def ConfigLaw : Prop :=
  match call.op with
  | .ioctl .checkConfig buf =>
    let out := iotOtaIoctl env .checkConfig buf r.ota
    out.1 = 0 → checkReads r.ota .checkConfig →
      wordAfter call.word out.2.1 = if ConfigSigned env r.ota then 1 else 0
  | _ => True

/-! ## When they are met -/

/-- The parameters of a firmware are read as far as the `md5` value, which fits its array. -/
structure ReachesMd5 (env : OtaEnv) (memory : ℕ → Bool) (json value : Bytes) : Prop where
  version : (env.jsonValueOf json "version").isSome ∧ memory 0 = true
  url : (env.jsonValueOf json "url").isSome ∧ memory 1 = true
  md5 : env.jsonValueOf json "md5" = some value
  fits : value.length ≤ 32

/-- The size of a firmware is there, and it fits its array. -/
def SizeFits (json : Bytes) : Prop :=
  ∃ size, env.jsonValueOf json "size" = some size ∧ size.length ≤ otaFilesizeStrLen

/-- A firmware message whose `md5` value is stored: with what `md5sum` holds behind it the value does
not make a text of 32 bytes; or it has 32 bytes, and the message is accepted, or has the value of the
one accepted before it. -/
def Md5Ok : Prop :=
  match call.op with
  | .message memory _ msg type =>
    type.isFirmware → r.ota.state ≠ .fetching →
      env.jsonValueOf msg "message" = some [115, 117, 99, 99, 101, 115, 115] →
      ∀ data value, env.jsonValueOf msg "data" = some data → ReachesMd5 env memory data value →
        0 ∈ (value ++ r.ota.md5sum.drop value.length).take 32 ∨
          value.length = 32 ∧ (r.accepted = some value ∨ SizeFits env data ∧ memory 2 = true)
  | _ => True

/-- The method is one of the two; or it is a beginning of their names, and the signature is wrong
for that method; or it is another one, and the word is 0 before the check. -/
def MethodOk (h : OtaStruct) (word : UInt32) : Prop :=
  let signMethod := h.signMethod.getD []
  if signMethod = md5Name ∨ signMethod = sha256Name then True
  else if signMethod <+: sha256Name then h.sha256.map env.sha256Text ≠ h.sign
  else if signMethod <+: md5Name then h.md5.map env.md5Text ≠ h.sign
  else word = 0

/-- The condition on the check of a configuration. -/
def ConfigOk : Prop :=
  match call.op with
  | .ioctl .checkConfig buf =>
    buf.valid → buf.isWord → r.ota.state = .fetched → checkReads r.ota .checkConfig →
      MethodOk env r.ota call.word
  | _ => True

/-! ## One check -/

section Check

variable {env : OtaEnv} {buf : IoctlBuf} {h : OtaStruct}

/-- What both checks ask for first. -/
theorem check_zero {out : ℤ × IoctlOut × OtaStruct}
    (hzero : (if buf.isWord = false then ((-1, .nothing, h) : ℤ × IoctlOut × OtaStruct)
      else if h.state ≠ .fetched then (-1, .nothing, h) else out).1 = 0) :
    buf.isWord ∧ h.state = .fetched := by
  by_cases hword : buf.isWord = false
  · rw [if_pos hword] at hzero
    exact absurd hzero (by decide : (-1 : ℤ) ≠ 0)
  · by_cases hstate : h.state ≠ .fetched
    · rw [if_neg hword, if_pos hstate] at hzero
      exact absurd hzero (by decide : (-1 : ℤ) ≠ 0)
    · exact ⟨eq_true_of_ne_false hword, not_not.mp hstate⟩

theorem ioctl_check_zero {cmd : CmdType} (hcmd : cmd = .checkFirmware ∨ cmd = .checkConfig)
    (hzero : (iotOtaIoctl env cmd buf h).1 = 0) :
    buf.valid ∧ buf.isWord ∧ h.state = .fetched := by
  unfold iotOtaIoctl at hzero
  by_cases hvalid : buf.valid = false
  · rw [if_pos hvalid] at hzero
    exact absurd hzero (by decide : iotOtaeInvalidParam ≠ 0)
  by_cases hinit : h.state = .uninited ∨ h.state = .inited
  · rw [if_neg hvalid, if_pos hinit] at hzero
    exact absurd hzero (by decide : iotOtaeInvalidState ≠ 0)
  · rw [if_neg hvalid, if_neg hinit] at hzero
    refine ⟨eq_true_of_ne_false hvalid, ?_⟩
    rcases hcmd with rfl | rfl
    · exact check_zero hzero
    · exact check_zero hzero

theorem ioctl_checkFirmware (hvalid : buf.valid) (hword : buf.isWord) (hstate : h.state = .fetched) :
    iotOtaIoctl env .checkFirmware buf h =
      (0, .word (if h.md5.map env.md5Text = some (h.md5sum.takeWhile (· ≠ 0)) then 1 else 0),
        { h with md5 := h.md5.map Digest.finalize }) := by
  simp only [iotOtaIoctl, checkFirmware, hvalid, hword, hstate]
  cases h.md5 with
  | none => rfl
  | some ctx => simp

theorem ioctl_checkConfig (hvalid : buf.valid) (hword : buf.isWord) (hstate : h.state = .fetched) :
    (iotOtaIoctl env .checkConfig buf h).1 = 0 ∧
      (iotOtaIoctl env .checkConfig buf h).2.1 = if h.signMethod.getD [] <+: sha256Name then
          .word (signatureOk env.sha256Text h.sha256 h.sign)
        else if h.signMethod.getD [] <+: md5Name then .word (signatureOk env.md5Text h.md5 h.sign)
        else .nothing := by
  simp only [iotOtaIoctl, checkConfig, hvalid, hword, hstate]
  simp

theorem signatureOk_eq {text : Digest → Bytes} {ctx : Option Digest}
    {sign : Option Bytes} (hctx : ctx.isSome) :
    signatureOk text ctx sign = if ctx.map text = sign then 1 else 0 := by
  obtain ⟨ctx, rfl⟩ := isSome_iff_exists.mp hctx
  simp [signatureOk, eq_comm]

theorem wordAfter_signatureOk_eq_zero {word : UInt32} {text : Digest → Bytes}
    {ctx : Option Digest} {sign : Option Bytes} (hctx : ctx.isSome) :
    wordAfter word (.word (signatureOk text ctx sign)) = 0 ↔ ctx.map text ≠ sign := by
  rw [wordAfter, signatureOk_eq hctx]
  split_ifs with hsame
  · exact iff_of_false (by decide) (not_not.mpr hsame)
  · exact iff_of_true rfl hsame

/-- The word after the check of a configuration. -/
def configWord (env : OtaEnv) (h : OtaStruct) (word : UInt32) : UInt32 :=
  wordAfter word
    (if h.signMethod.getD [] <+: sha256Name then .word (signatureOk env.sha256Text h.sha256 h.sign)
    else if h.signMethod.getD [] <+: md5Name then .word (signatureOk env.md5Text h.md5 h.sign)
    else .nothing)

theorem configWord_of_method {word : UInt32} (hreads : checkReads h .checkConfig)
    (hmethod : h.signMethod = some md5Name ∨ h.signMethod = some sha256Name) :
    configWord env h word = if ConfigSigned env h then 1 else 0 := by
  obtain ⟨-, hmd5, hsha256⟩ := hreads
  rcases hmethod with hmethod | hmethod
  · rw [hmethod, getD_some] at hmd5
    have hctx := (hmd5 prefix_rfl).1
    have hsigned : ConfigSigned env h ↔ h.md5.map env.md5Text = h.sign := by
      rw [ConfigSigned, hmethod]
      simp
    rw [configWord, hmethod, getD_some, if_neg (by decide), if_pos prefix_rfl,
      wordAfter, signatureOk_eq hctx]
    simp only [hsigned]
  · rw [hmethod, getD_some] at hsha256
    have hctx := (hsha256 prefix_rfl).1
    have hsigned : ConfigSigned env h ↔ h.sha256.map env.sha256Text = h.sign := by
      rw [ConfigSigned, hmethod]
      simp
    rw [configWord, hmethod, getD_some, if_pos prefix_rfl, wordAfter,
      signatureOk_eq hctx]
    simp only [hsigned]

theorem config_iff {word : UInt32} (hreads : checkReads h .checkConfig) :
    (configWord env h word = if ConfigSigned env h then 1 else 0) ↔ MethodOk env h word := by
  obtain ⟨signMethod, hsome⟩ := isSome_iff_exists.mp hreads.1
  by_cases hmethod : signMethod = md5Name ∨ signMethod = sha256Name
  · have hok : MethodOk env h word := by
      rw [MethodOk, hsome, getD_some]
      exact if_pos hmethod ▸ trivial
    refine iff_of_true (configWord_of_method hreads ?_) hok
    rwa [hsome, some_inj, some_inj]
  -- no other method is right
  have hsigned : ¬ConfigSigned env h := by
    rw [ConfigSigned, hsome, some_inj, some_inj]
    rintro (⟨hmd5, -⟩ | ⟨hsha256, -⟩)
    · exact hmethod (.inl hmd5)
    · exact hmethod (.inr hsha256)
  obtain ⟨-, hmd5, hsha256⟩ := hreads
  rw [hsome, getD_some] at hmd5 hsha256
  rw [if_neg hsigned, configWord, MethodOk, hsome, getD_some, if_neg hmethod]
  by_cases hisSha256 : signMethod <+: sha256Name
  · rw [if_pos hisSha256, if_pos hisSha256]
    exact wordAfter_signatureOk_eq_zero (hsha256 hisSha256).1
  rw [if_neg hisSha256, if_neg hisSha256]
  by_cases hisMd5 : signMethod <+: md5Name
  · rw [if_pos hisMd5, if_pos hisMd5]
    exact wordAfter_signatureOk_eq_zero (hmd5 hisMd5).1
  · rw [if_neg hisMd5, if_neg hisMd5]
    rfl

end Check

/-! ## What is stored of a message -/

section Stored

variable (env : OtaEnv)

variable (memory : ℕ → Bool)

theorem otalibGetParams_md5sum (memory : ℕ → Bool) (json : Bytes) (h : OtaStruct) :
    let r := otalibGetParams env memory json h
    r.2.md5sum = h.md5sum ∧ r.1 = false ∨
      ∃ value, ReachesMd5 env memory json value ∧
        r.2.md5sum = value ++ h.md5sum.drop value.length ∧ (r.1 = true ↔ SizeFits env json) := by
  unfold otalibGetParams getFirmwareVarlenPara getFirmwareFixlenPara
  cases hversion : env.jsonValueOf json "version" with
  | none => exact .inl ⟨rfl, rfl⟩
  | some version =>
  cases hmemory : memory 0 with
  | false => exact .inl ⟨rfl, rfl⟩
  | true =>
  cases hurl : env.jsonValueOf json "url" with
  | none => exact .inl ⟨rfl, rfl⟩
  | some url =>
  cases hmemory' : memory 1 with
  | false => exact .inl ⟨rfl, rfl⟩
  | true =>
  cases hmd5 : env.jsonValueOf json "md5" with
  | none => exact .inl ⟨rfl, rfl⟩
  | some value =>
  by_cases hfits : value.length > 32
  · simp only [if_true, if_pos hfits]
    exact .inl ⟨trivial, trivial⟩
  -- the value is stored whether or not the size follows
  simp only [if_true, if_neg hfits]
  refine Or.inr ⟨value, ⟨⟨by rw [hversion]; rfl, hmemory⟩, ⟨by rw [hurl]; rfl, hmemory'⟩, hmd5,
    not_lt.mp hfits⟩, ?_⟩
  rw [SizeFits]
  cases hsize : env.jsonValueOf json "size" with
  | none => exact ⟨rfl, by simp⟩
  | some size =>
    by_cases hlen : size.length > otaFilesizeStrLen
    · simp only [if_pos hlen]
      exact ⟨trivial, by simpa using hlen⟩
    · simp only [if_neg hlen]
      exact ⟨trivial, by simpa using hlen⟩

theorem otalibGetConfigParams_md5sum (stack json : Bytes) (h : OtaStruct) :
    (otalibGetConfigParams env memory stack json h).2.md5sum = h.md5sum := by
  unfold otalibGetConfigParams
  dsimp only
  repeat' split
  all_goals rfl

theorem configMessage_md5sum (stack params : Bytes) (h : OtaStruct) :
    (configMessage env memory stack params h).2.md5sum = h.md5sum := by
  have hparams := otalibGetConfigParams_md5sum env memory stack params h
  unfold configMessage
  generalize otalibGetConfigParams env memory stack params h = r at hparams ⊢
  obtain ⟨ok, h'⟩ := r
  cases ok with
  | false => exact hparams
  | true =>
    dsimp only
    split_ifs
    · exact hparams
    · exact hparams
    · exact hparams

/-- What a message does to the array `md5sum`: nothing, and a firmware message is refused then; or
its `md5` value is stored, whether or not it is accepted. -/
inductive Md5Case (env : OtaEnv) (memory : ℕ → Bool) (msg : Bytes) (type : TopicType)
    (h : OtaStruct) (r : ℤ × OtaStruct) : Prop
  | kept (hsame : r.2.md5sum = h.md5sum) (hrefused : type.isFirmware → r.1 ≠ 0)
  | stored (htype : type.isFirmware) (hstate : h.state ≠ .fetching)
      (hsuccess : env.jsonValueOf msg "message" = some [115, 117, 99, 99, 101, 115, 115])
      (data value : Bytes) (hdata : env.jsonValueOf msg "data" = some data)
      (hreaches : ReachesMd5 env memory data value)
      (hstored : r.2.md5sum = value ++ h.md5sum.drop value.length)
      (hzero : r.1 = 0 ↔ SizeFits env data ∧ memory 2 = true)

theorem refused_ne_zero : (-1 : ℤ) ≠ 0 := by decide

theorem firmwareMessage_md5sum (msg : Bytes) {type : TopicType} (htype : type.isFirmware)
    {h : OtaStruct} (hstate : h.state ≠ .fetching) :
    Md5Case env memory msg type h (firmwareMessage env memory msg h) := by
  unfold firmwareMessage
  by_cases hsuccess : env.jsonValueOf msg "message" ≠ some [115, 117, 99, 99, 101, 115, 115]
  · rw [if_pos hsuccess]
    exact .kept rfl fun _ => refused_ne_zero
  rw [if_neg hsuccess]
  cases hdata : env.jsonValueOf msg "data" with
  | none => exact .kept rfl fun _ => refused_ne_zero
  | some data =>
    have hparams := otalibGetParams_md5sum env memory data h
    dsimp only
    generalize otalibGetParams env memory data h = params at hparams ⊢
    obtain ⟨ok, h'⟩ := params
    rcases hparams with ⟨hsame, hno⟩ | ⟨value, hreaches, hstored, hok⟩
    · obtain rfl : ok = false := hno
      exact .kept hsame fun _ => refused_ne_zero
    refine .stored htype hstate (not_not.mp hsuccess) data value hdata hreaches ?_ ?_
    · cases ok with
      | false => exact hstored
      | true =>
        dsimp only
        split_ifs
        · exact hstored
        · exact hstored
        · exact hstored
    · cases ok with
      | false => exact iff_of_false refused_ne_zero fun hsize => by simpa using hok.mpr hsize.1
      | true =>
        dsimp only
        by_cases hmemory : memory 2 = false
        · rw [if_pos hmemory]
          exact iff_of_false refused_ne_zero fun hsize => by simp [hmemory] at hsize
        · rw [if_neg hmemory]
          exact iff_of_true rfl ⟨hok.mp rfl, eq_true_of_ne_false hmemory⟩

/-- Only a firmware message that is read as far as its `md5` value changes the array. -/
theorem otaCallback_md5sum (stack msg : Bytes) (type : TopicType) (h : OtaStruct) :
    Md5Case env memory msg type h (otaCallback env memory stack msg type h) := by
  unfold otaCallback
  by_cases hstate : h.state = .fetching
  · rw [if_pos hstate]
    exact .kept rfl fun _ => refused_ne_zero
  rw [if_neg hstate]
  cases type with
  | deviceRequest => exact firmwareMessage_md5sum env memory msg rfl hstate
  | deviceUpgrate => exact firmwareMessage_md5sum env memory msg rfl hstate
  | configGet =>
    refine .kept ?_ fun hne => absurd hne (by decide)
    dsimp only
    split_ifs
    · rfl
    · split
      · rfl
      · exact configMessage_md5sum env memory stack _ h
  | configPush =>
    refine .kept ?_ fun hne => absurd hne (by decide)
    dsimp only
    split
    · rfl
    · exact configMessage_md5sum env memory stack _ h
  | max => exact .kept rfl fun hne => absurd hne (by decide)

theorem finishCall_md5sum (h : OtaStruct) : h.finishCall.md5sum = h.md5sum := by
  unfold OtaStruct.finishCall
  split_ifs <;> rfl

theorem fetchCount_md5sum (buf : Bytes) (h : OtaStruct) :
    (fetchCount buf h).md5sum = h.md5sum := by
  unfold fetchCount
  dsimp only
  split_ifs
  · exact finishCall_md5sum _
  · rfl

theorem iotOtaFetchYield_md5sum (valid : Bool) (fetch : Option Bytes) (memory : ℕ → Bool)
    (h : OtaStruct) : (iotOtaFetchYield valid fetch memory h).2.md5sum = h.md5sum := by
  unfold iotOtaFetchYield
  by_cases hvalid : valid = false
  · rw [if_pos hvalid]
  rw [if_neg hvalid]
  by_cases hstate : h.state ≠ .fetching
  · rw [if_pos hstate]
  rw [if_neg hstate]
  cases fetch with
  | none => exact finishCall_md5sum _
  | some buf =>
    dsimp only
    split_ifs
    · rfl
    · rfl
    · exact fetchCount_md5sum buf _
    · exact fetchCount_md5sum buf _

theorem check_md5sum {buf : IoctlBuf} {h : OtaStruct} {out : ℤ × IoctlOut × OtaStruct}
    (hout : out.2.2.md5sum = h.md5sum) :
    (if buf.isWord = false then ((-1, .nothing, h) : ℤ × IoctlOut × OtaStruct)
      else if h.state ≠ .fetched then (-1, .nothing, h) else out).2.2.md5sum = h.md5sum := by
  split_ifs
  · rfl
  · rfl
  · exact hout

theorem iotOtaIoctl_md5sum (cmd : CmdType) (buf : IoctlBuf) (h : OtaStruct) :
    (iotOtaIoctl env cmd buf h).2.2.md5sum = h.md5sum := by
  unfold iotOtaIoctl
  split_ifs
  · rfl
  · rfl
  · cases cmd with
    | checkFirmware => exact check_md5sum rfl
    | checkConfig => exact check_md5sum rfl
    | _ => rfl

end Stored

/-! ## Steps and runs -/

/-- The array `md5sum` holds the accepted value, or no text of 32 bytes. -/
structure VerdictRun.Kept (r : VerdictRun) : Prop where
  length : r.ota.md5sum.length = 33
  text : r.accepted = some (r.ota.md5sum.take 32) ∨ 0 ∈ r.ota.md5sum.take 32

theorem kept_start (hasFetchCb hasFetchCotaCb : Bool) :
    (verdictStart hasFetchCb hasFetchCotaCb).Kept := by
  refine ⟨rfl, .inr ?_⟩
  show 0 ∈ (List.replicate 33 (0 : UInt8)).take 32
  decide

theorem VerdictRun.Kept.step {env : OtaEnv} {r : VerdictRun} (h : r.Kept) {call : OtaCall}
    (hok : Md5Ok env r call) : (verdictStep env r call).Kept := by
  obtain ⟨op, word⟩ := call
  have hframe {ota : OtaStruct} (hsame : ota.md5sum = r.ota.md5sum) :
      VerdictRun.Kept ⟨ota, r.accepted⟩ := by
    refine ⟨?_, ?_⟩
    · exact hsame ▸ h.length
    · exact hsame ▸ h.text
  cases op with
  | fetchYield valid fetch memory => exact hframe (iotOtaFetchYield_md5sum valid fetch memory r.ota)
  | ioctl cmd buf => exact hframe (iotOtaIoctl_md5sum env cmd buf r.ota)
  | message memory stack msg type =>
    simp only [verdictStep, otaExec, acceptedAfter]
    cases otaCallback_md5sum env memory stack msg type r.ota with
    | kept hsame hrefused =>
      rw [if_neg fun haccepted => hrefused haccepted.1 haccepted.2]
      exact hframe hsame
    | stored htype hstate hsuccess data value hdata hreaches hstored hzero =>
      have hvalue : messageMd5 env msg = some value := by
        rw [messageMd5, hdata]
        exact hreaches.md5
      have hlen := h.length
      have hfits := hreaches.fits
      refine ⟨?_, ?_⟩
      · simp only [hstored, length_append, length_drop]
        omega
      · rw [hstored, hvalue]
        rcases hok htype hstate hsuccess data value hdata hreaches with hshort | ⟨hfull, hlast⟩
        · exact .inr hshort
        left
        dsimp only
        rw [← hfull, take_left]
        by_cases hsize : SizeFits env data ∧ memory 2 = true
        · rw [if_pos ⟨htype, hzero.mpr hsize⟩]
        · rw [if_neg fun haccepted => hsize (hzero.mp haccepted.2)]
          exact hlast.resolve_right hsize

variable {hash : OtaHash} {jsonValueOf : Bytes → String → Option Bytes}

/-- Where `md5sum` holds a text of 32 bytes only if it is the accepted one, no other firmware is
taken for right. -/
theorem VerdictRun.Kept.firmwareLaw {r : VerdictRun} (h : r.Kept) (call : OtaCall) :
    FirmwareLaw (hash.env jsonValueOf) r call := by
  obtain ⟨op, word⟩ := call
  unfold FirmwareLaw
  split
  · intro out hzero hreads hone
    obtain ⟨hvalid, hword, hstate⟩ := ioctl_check_zero (.inl rfl) hzero
    obtain ⟨ctx, hctx⟩ := isSome_iff_exists.mp hreads
    have hout : out = _ := ioctl_checkFirmware hvalid hword hstate
    have htext : r.ota.md5.map (hash.env jsonValueOf).md5Text
        = some (r.ota.md5sum.takeWhile (· ≠ 0)) := by
      by_contra hne
      rw [hout, if_neg hne] at hone
      exact absurd hone (by decide : (0 : UInt32) ≠ 1)
    rw [hctx, map_some] at htext
    have hlength : (r.ota.md5sum.takeWhile (· ≠ 0)).length = 32 := by
      rw [← some_inj.mp htext]
      exact (length_digestText _).trans (by rw [Vector.length_toList])
    have htake : r.ota.md5sum.takeWhile (· ≠ 0) = r.ota.md5sum.take 32 := by
      have hprefix := prefix_iff_eq_take.mp (List.takeWhile_prefix (· ≠ 0) (l := r.ota.md5sum))
      rwa [hlength] at hprefix
    have haccepted := h.text.resolve_right fun hzero => by
      have hnonzero := mem_takeWhile_imp (htake ▸ hzero)
      exact absurd hnonzero (by decide)
    rw [haccepted, hctx, map_some, htext, htake]
    exact ⟨rfl, rfl⟩
  · trivial

theorem configLaw_iff :
    ConfigLaw (hash.env jsonValueOf) r call ↔ ConfigOk (hash.env jsonValueOf) r call := by
  obtain ⟨op, word⟩ := call
  cases op with
  | message memory stack msg type => exact Iff.rfl
  | fetchYield valid fetch memory => exact Iff.rfl
  | ioctl cmd buf =>
    cases cmd with
    | checkConfig =>
      constructor
      · intro hlaw hvalid hword hstate hreads
        obtain ⟨hzero, hout⟩ :
            (iotOtaIoctl (hash.env jsonValueOf) .checkConfig buf r.ota).1 = 0 ∧ _ :=
          ioctl_checkConfig hvalid hword hstate
        have hright := hlaw hzero hreads
        rw [hout] at hright
        exact (config_iff hreads).mp hright
      · intro hok hzero hreads
        obtain ⟨hvalid, hword, hstate⟩ := ioctl_check_zero (.inr rfl) hzero
        have hout : (iotOtaIoctl (hash.env jsonValueOf) .checkConfig buf r.ota).2.1 = _ :=
          (ioctl_checkConfig hvalid hword hstate).2
        rw [hout]
        exact (config_iff hreads).mpr (hok hvalid hword hstate hreads)
    | _ => exact Iff.rfl

/-- **The verdicts of a run.**  In every run of messages, downloads and commands, whatever the word
of the caller holds: a firmware is taken for right only with the accepted digest, as long as every
message keeps `md5sum` to accepted values; and the check of a configuration keeps its law at every
step if and only if each step meets its condition. -/
theorem ota_verdict_iff (hash : OtaHash)
    (jsonValueOf : Bytes → String → Option Bytes) (hasFetchCb hasFetchCotaCb : Bool)
    (calls : List OtaCall) :
    let env := hash.env jsonValueOf
    let start := verdictStart hasFetchCb hasFetchCotaCb
    (AllSteps (verdictStep env) (Md5Ok env) start calls →
      AllSteps (verdictStep env) (FirmwareLaw env) start calls) ∧
    (AllSteps (verdictStep env) (ConfigLaw env) start calls ↔
      AllSteps (verdictStep env) (ConfigOk env) start calls) := by
  intro env start
  refine ⟨fun hok => ?_, ?_⟩
  · have hkept := allSteps_of_guard (fun r call (h : r.Kept) hok => h.step hok)
      (kept_start hasFetchCb hasFetchCotaCb) hok
    exact hkept.mono fun r call h => h.firmwareLaw call
  · have hiff : ∀ r call, True → (ConfigLaw env r call ↔ ConfigOk env r call) :=
      fun r call _ => configLaw_iff r call
    exact allSteps_congr hiff (fun _ _ _ _ => trivial) trivial calls

/-- A reader of messages that are nothing but an `md5` value or a method. -/
def valueReader (json : Bytes) (key : String) : Option Bytes :=
  if key = "message" then some [115, 117, 99, 99, 101, 115, 115]
  else if key = "data" ∨ key = "params" ∨ key = "md5" ∨ key = "signMethod" then some json
  else if key = "sign" then some (List.replicate 64 48)
  else some [49]

/-- Digests that are all zero. -/
def zeroHash : OtaHash := ⟨fun _ => Vector.replicate 16 0, fun _ => Vector.replicate 32 0⟩

def verdictMessage (value : Bytes) (type : TopicType) : OtaCall :=
  ⟨.message (fun _ => true) [] value type, 0⟩

def verdictChunk : OtaCall := ⟨.fetchYield true (some [7]) fun _ => true, 0⟩

def verdictCheck (cmd : CmdType) (word : UInt32) : OtaCall :=
  ⟨.ioctl cmd ⟨true, 4, true, true, true⟩, word⟩

def runsInto (calls : List OtaCall) : VerdictRun :=
  calls.foldl (verdictStep (zeroHash.env valueReader)) (verdictStart true true)

/-- A firmware with the accepted digest is taken for right. -/
theorem ota_verdict_accepted :
    let calls := [verdictMessage (List.replicate 32 48) .deviceUpgrate, verdictChunk]
    let check := verdictCheck .checkFirmware 0
    AllSteps (verdictStep (zeroHash.env valueReader)) (FirmwareLaw (zeroHash.env valueReader))
        (verdictStart true true) (calls ++ [check]) ∧
      (iotOtaIoctl (zeroHash.env valueReader) .checkFirmware ⟨true, 4, true, true, true⟩
        (runsInto calls).ota).2.1 = .word 1 := by
  intro calls check
  refine ⟨(ota_verdict_iff zeroHash valueReader true true _).1 ⟨?_, trivial, trivial, trivial⟩,
    by decide +kernel⟩
  intro _ _ _ data value hdata hreaches
  have hmd5 := hreaches.md5
  simp only [OtaHash.env, valueReader, String.reduceEq, if_true, if_false, some_inj,
    or_true, true_or] at hdata hmd5
  subst hdata
  subst hmd5
  exact .inr ⟨rfl, .inr ⟨⟨[49], rfl, by decide⟩, rfl⟩⟩

/-- The method `S` is taken for `Sha256`, an unknown one leaves the word alone, and the `md5` value
`0` is filled up by that of the message before it. -/
theorem ota_verdict_broken :
    ¬ ConfigLaw (zeroHash.env valueReader) (runsInto [verdictMessage [83] .configPush, verdictChunk])
        (verdictCheck .checkConfig 0) ∧
      ¬ ConfigLaw (zeroHash.env valueReader)
        (runsInto [verdictMessage [67, 114, 99] .configPush, verdictChunk])
        (verdictCheck .checkConfig 1) ∧
      ¬ FirmwareLaw (zeroHash.env valueReader)
        (runsInto [verdictMessage (List.replicate 32 48) .deviceUpgrate, verdictChunk,
          verdictMessage [48] .deviceUpgrate, verdictChunk])
        (verdictCheck .checkFirmware 0) := by
  refine ⟨fun hlaw => ?_, fun hlaw => ?_, fun hlaw => ?_⟩
  · have hword := hlaw (by decide) (by decide)
    exact absurd hword (by decide +kernel)
  · have hword := hlaw (by decide) (by decide)
    exact absurd hword (by decide +kernel)
  · have hword := hlaw (by decide +kernel) (by decide +kernel) (by decide +kernel)
    exact absurd hword.2 (by decide +kernel)

end Iotkit.Ota
