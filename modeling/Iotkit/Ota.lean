/-
# Over-the-air updates (`iotx_ota.c`, `ota_lib.c`, `ota_fetch.c`)

The handle of an update: the messages that start a download of a firmware or a configuration
(`ota_callback`), the downloads of chunks (`IOT_OTA_FetchYield`) and the commands of
`IOT_OTA_Ioctl`.  What `otalib_JsonValueOf` finds under a key and the digests in text are
parameters; a digest is the bytes that were put into it and whether it was finished.  The
last error code and the progress reports are left out.
-/
import Iotkit.LibC

namespace Iotkit.Ota

open LibC

/-! ## The handle -/

/-- `IOT_OTA_State_t`. -/
inductive OtaState
  | uninited
  | inited
  | fetching
  | fetched
  deriving DecidableEq

/-- `IOT_OTA_Type_t`. -/
inductive OtaType
  | none
  | cota
  | fota
  deriving DecidableEq

/-- `iotx_ota_topic_types_t`. -/
inductive TopicType
  | deviceRequest
  | deviceUpgrate
  | configGet
  | configPush
  | max
  deriving DecidableEq

/-- An MD5 or SHA256 context. -/
structure Digest where
  fed : Bytes
  finished : Bool
  deriving DecidableEq

/-- A call of `fetch_cb` or `fetch_cota_cb`, which says whether the download is over. -/
inductive FetchCall
  | fota (isFinish : Bool) (sizeFile : UInt32) (purl version : Option Bytes)
  | cota (isFinish : Bool) (configId : Option Bytes) (configSize : UInt32)
      (sign signMethod cotaUrl getType : Option Bytes)
  deriving DecidableEq

/-- The fields of an `OTA_Struct_t` that these functions use; `chFetch` is the address of the
download channel, and `calls` are the calls of the two callbacks so far. -/
structure OtaStruct where
  state : OtaState
  type : OtaType
  sizeLastFetched : UInt32
  sizeFetched : UInt32
  sizeFile : UInt32
  purl : Option Bytes
  version : Option Bytes
  md5sum : Bytes
  md5 : Option Digest
  sha256 : Option Digest
  chFetch : Option Bytes
  configId : Option Bytes
  configSize : UInt32
  sign : Option Bytes
  signMethod : Option Bytes
  cotaUrl : Option Bytes
  getType : Option Bytes
  hasFetchCb : Bool
  hasFetchCotaCb : Bool
  calls : List FetchCall
  deriving DecidableEq

/-- The code that is not modelled: the JSON reader, and the digests in text. -/
structure OtaEnv where
  jsonValueOf : Bytes → String → Option Bytes
  md5Text : Digest → Bytes
  sha256Text : Digest → Bytes

/-! ## Digests and parameters (`ota_lib.c`) -/

/-- `otalib_MD5Init` and `otalib_Sha256Init`. -/
def digestInit (memory : Bool) : Option Digest := if memory then some ⟨[], false⟩ else none

/-- `otalib_MD5Update` and `otalib_Sha256Update`. -/
def Digest.update (ctx : Digest) (buf : Bytes) : Digest := { ctx with fed := ctx.fed ++ buf }

/-- What `otalib_MD5Finalize` and `otalib_Sha256Finalize` leave. -/
def Digest.finalize (ctx : Digest) : Digest := { ctx with finished := true }

variable (env : OtaEnv)

/-- `otalib_GetFirmwareVarlenPara`: whether it succeeds, and the string at the pointer it leaves. -/
def getFirmwareVarlenPara (memory : Bool) (json : Bytes) (key : String)
    (dest : Option Bytes) : Bool × Option Bytes :=
  match env.jsonValueOf json key with
  | none => (false, dest)
  | some value => if memory then (true, some (value.takeWhile (· ≠ 0))) else (false, none)

/-- `otalib_GetFirmwareFixlenPara`: whether it succeeds, and the array it leaves. -/
def getFirmwareFixlenPara (json : Bytes) (key : String) (dest : Bytes) (destLen : ℕ) :
    Bool × Bytes :=
  match env.jsonValueOf json key with
  | none => (false, dest)
  | some value =>
    if value.length > destLen then (false, dest) else (true, value ++ dest.drop value.length)

abbrev otaFilesizeStrLen : ℕ := 16

/-- The number in the array `file_size_str`, whose last byte is set to zero. -/
def fileSizeOf (fileSizeStr : Bytes) : UInt32 :=
  UInt32.ofInt (atoi (fileSizeStr.take otaFilesizeStrLen))

variable (memory : ℕ → Bool)

/-- `otalib_GetParams`; `memory` says which of its allocations succeed. -/
def otalibGetParams (json : Bytes) (h : OtaStruct) :
    Bool × OtaStruct :=
  match getFirmwareVarlenPara env (memory 0) json "version" h.version with
  | (false, version) => (false, { h with version })
  | (true, version) =>
    match getFirmwareVarlenPara env (memory 1) json "url" h.purl with
    | (false, purl) => (false, { h with version, purl })
    | (true, purl) =>
      match getFirmwareFixlenPara env json "md5" h.md5sum 32 with
      | (false, md5sum) => (false, { h with version, purl, md5sum })
      | (true, md5sum) =>
        match getFirmwareFixlenPara env json "size"
            (List.replicate (otaFilesizeStrLen + 1) 0) otaFilesizeStrLen with
        | (false, _) => (false, { h with version, purl, md5sum })
        | (true, fileSizeStr) =>
          (true, { h with version, purl, md5sum, sizeFile := fileSizeOf fileSizeStr })

/-- `otalib_GetConfigParams`; `stack` is what its array of digits holds before. -/
def otalibGetConfigParams (stack json : Bytes) (h : OtaStruct) : Bool × OtaStruct :=
  match getFirmwareVarlenPara env (memory 0) json "configId" h.configId with
  | (false, configId) => (false, { h with configId })
  | (true, configId) =>
    match getFirmwareFixlenPara env json "configSize" stack otaFilesizeStrLen with
    | (false, _) => (false, { h with configId })
    | (true, fileSizeStr) =>
      let h : OtaStruct := { h with configId, configSize := fileSizeOf fileSizeStr }
      match getFirmwareVarlenPara env (memory 1) json "sign" h.sign with
      | (false, sign) => (false, { h with sign })
      | (true, sign) =>
        match getFirmwareVarlenPara env (memory 2) json "signMethod" h.signMethod with
        | (false, signMethod) => (false, { h with sign, signMethod })
        | (true, signMethod) =>
          match getFirmwareVarlenPara env (memory 3) json "url" h.cotaUrl with
          | (false, cotaUrl) => (false, { h with sign, signMethod, cotaUrl })
          | (true, cotaUrl) =>
            match getFirmwareVarlenPara env (memory 4) json "getType" h.getType with
            | (false, getType) =>
              (false, { h with sign, signMethod, cotaUrl, getType })
            | (true, getType) =>
              (true, { h with sign, signMethod, cotaUrl, getType })

/-! ## Messages (`ota_callback`) -/

/-- `fetch_cb`, if there is one. -/
def OtaStruct.callFetchCb (h : OtaStruct) (isFinish : Bool) : OtaStruct :=
  { h with calls := h.calls ++ [.fota isFinish h.sizeFile h.purl h.version] }

/-- `fetch_cota_cb`, if there is one. -/
def OtaStruct.callFetchCotaCb (h : OtaStruct) (isFinish : Bool) : OtaStruct :=
  { h with
    calls := h.calls ++
      [.cota isFinish h.configId h.configSize h.sign h.signMethod h.cotaUrl h.getType] }

/-- The message of a firmware upgrade, which must say `success`. -/
def firmwareMessage (msg : Bytes) (h : OtaStruct) :
    ℤ × OtaStruct :=
  if env.jsonValueOf msg "message" ≠ some [115, 117, 99, 99, 101, 115, 115] then (-1, h)
  else
    match env.jsonValueOf msg "data" with
    | none => (-1, h)
    | some data =>
      match otalibGetParams env memory data h with
      | (false, h) => (-1, h)
      | (true, h) =>
        if memory 2 = false then (-1, { h with chFetch := none })
        else
          let h : OtaStruct :=
            { h with chFetch := h.purl, type := .fota, state := .fetching }
          (0, if h.hasFetchCb then h.callFetchCb false else h)

/-- The rest of the message of a configuration, from its parameters on. -/
def configMessage (stack params : Bytes) (h : OtaStruct) :
    ℤ × OtaStruct :=
  match otalibGetConfigParams env memory stack params h with
  | (false, h) => (-1, h)
  | (true, h) =>
    let h : OtaStruct :=
      { h with
        sizeFile := h.configSize, sizeFetched := 0
        md5 := digestInit (memory 5), sha256 := digestInit (memory 6) }
    if memory 7 = false then (-1, { h with chFetch := none })
    else
      let h : OtaStruct := { h with chFetch := h.cotaUrl, type := .cota, state := .fetching }
      (0, if h.hasFetchCotaCb then h.callFetchCotaCb false else h)

def otaCallback (stack msg : Bytes) (type : TopicType) (h : OtaStruct) : ℤ × OtaStruct :=
  if h.state = .fetching then (-1, h)
  else
    match type with
    | .deviceRequest => firmwareMessage env memory msg h
    | .deviceUpgrate => firmwareMessage env memory msg h
    | .configGet =>
      if env.jsonValueOf msg "code" ≠ some [50, 48, 48] then (-1, h)
      else
        match env.jsonValueOf msg "data" with
        | none => (-1, h)
        | some data => configMessage env memory stack data h
    | .configPush =>
      match env.jsonValueOf msg "params" with
      | none => (-1, h)
      | some params => configMessage env memory stack params h
    | .max => (-1, h)

/-! ## Downloads (`IOT_OTA_FetchYield`) -/

abbrev iotOtaeInvalidParam : ℤ := -2
abbrev iotOtaeInvalidState : ℤ := -3

/-- The callback at the end of a download, and the removal of its address. -/
def OtaStruct.finishCall (h : OtaStruct) : OtaStruct :=
  if h.hasFetchCb ∧ h.purl.isSome then { h.callFetchCb true with purl := none }
  else if h.hasFetchCotaCb ∧ h.cotaUrl.isSome then { h.callFetchCotaCb true with cotaUrl := none }
  else h

/-- `IOT_OTA_FetchYield` behind its digests: the bytes are put into them and counted. -/
def fetchCount (buf : Bytes) (h : OtaStruct) : OtaStruct :=
  let h : OtaStruct :=
    { h with
      md5 := h.md5.map (·.update buf), sha256 := h.sha256.map (·.update buf)
      sizeLastFetched := UInt32.ofNat buf.length
      sizeFetched := h.sizeFetched + UInt32.ofNat buf.length }
  if h.sizeFile ≤ h.sizeFetched then
    OtaStruct.finishCall { h with type := .none, state := .fetched }
  else h

/-- `IOT_OTA_FetchYield`.  `valid` is whether its arguments are, `fetch` what `ofc_Fetch` brings,
and `memory` says which of the two digests can be allocated. -/
def iotOtaFetchYield (valid : Bool) (fetch : Option Bytes) (memory : ℕ → Bool)
    (h : OtaStruct) : ℤ × OtaStruct :=
  if valid = false then (iotOtaeInvalidParam, h)
  else if h.state ≠ .fetching then (iotOtaeInvalidState, h)
  else
    match fetch with
    | none =>
      (-1, { OtaStruct.finishCall { h with state := .fetched, type := .none } with
        sizeFetched := 0 })
    | some buf =>
      if h.sizeFetched = 0 then
        if memory 0 = false then (-1, { h with md5 := none })
        else if memory 1 = false then (-1, { h with md5 := some ⟨[], false⟩, sha256 := none })
        else
          (buf.length, fetchCount buf
            { h with md5 := some ⟨[], false⟩, sha256 := some ⟨[], false⟩ })
      else (buf.length, fetchCount buf h)

/-! ## Commands (`IOT_OTA_Ioctl`) -/

/-- `IOT_OTA_CmdType_t`. -/
inductive CmdType
  | cotaConfigId
  | cotaConfigSize
  | cotaSign
  | cotaSignMethod
  | cotaUrl
  | cotaGettype
  | otaType
  | fetchedSize
  | fileSize
  | md5sum
  | version
  | checkFirmware
  | checkConfig
  | resetFetchedSize
  | max
  deriving DecidableEq

/-- The buffer given to `IOT_OTA_Ioctl`: whether it is there, its length, whether it is aligned to
four bytes, whether the pointer in it is null, and whether a string for it can be allocated. -/
structure IoctlBuf where
  isThere : Bool
  bufLen : ℕ
  aligned : Bool
  pointsToNull : Bool
  memory : Bool
  deriving DecidableEq

variable (buf : IoctlBuf)

def IoctlBuf.valid : Bool := buf.isThere && buf.bufLen ≠ 0

def IoctlBuf.isWord : Bool := buf.bufLen = 4 && buf.aligned

/-- What a command stores for the caller. -/
inductive IoctlOut
  | nothing
  | word (value : UInt32)
  | string (value : Bytes)
  deriving DecidableEq

def OtaType.toUInt32 : OtaType → UInt32
  | .none => 0
  | .cota => 1
  | .fota => 2

/-- A command that hands out a copy of a string. -/
def ioctlString (field : Option Bytes) : ℤ × IoctlOut :=
  match field with
  | none => (-1, .nothing)
  | some value =>
    if buf.pointsToNull = false ∨ buf.memory = false then (-1, .nothing)
    else (0, .string value)

/-- A command that copies a string into the buffer, cut to what fits before its zero. -/
def ioctlCopy (value : Bytes) : ℤ × IoctlOut :=
  (0, .string (value.take (buf.bufLen - 1)))

/-- A command that hands out a word. -/
def ioctlWord (value : UInt32) : ℤ × IoctlOut :=
  if buf.isWord then (0, .word value) else (-1, .nothing)

def checkFirmware (h : OtaStruct) : ℤ × IoctlOut × OtaStruct :=
  if buf.isWord = false then (-1, .nothing, h)
  else if h.state ≠ .fetched then (-1, .nothing, h)
  else
    let ok := h.md5.any fun ctx => env.md5Text ctx = h.md5sum.takeWhile (· ≠ 0)
    (0, .word (if ok then 1 else 0), { h with md5 := h.md5.map Digest.finalize })

/-- The comparison of a configuration with its signature by one of the two methods. -/
def signatureOk (text : Digest → Bytes) (ctx : Option Digest)
    (sign : Option Bytes) : UInt32 :=
  if ctx.any fun ctx => sign = some (text ctx) then 1 else 0

/-- `IOT_OTAG_CHECK_CONFIG`, where the method of the signature is a prefix of `Md5` or of
`Sha256`; the empty one is both, and then the second comparison decides. -/
def checkConfig (h : OtaStruct) : ℤ × IoctlOut × OtaStruct :=
  if buf.isWord = false then (-1, .nothing, h)
  else if h.state ≠ .fetched then (-1, .nothing, h)
  else
    let byMd5 := (h.signMethod.getD []).isPrefixOf [77, 100, 53]
    let bySha256 := (h.signMethod.getD []).isPrefixOf [83, 104, 97, 50, 53, 54]
    let out : IoctlOut :=
      if bySha256 then .word (signatureOk env.sha256Text h.sha256 h.sign)
      else if byMd5 then .word (signatureOk env.md5Text h.md5 h.sign)
      else .nothing
    (0, out,
      { h with
        md5 := if byMd5 then h.md5.map Digest.finalize else h.md5
        sha256 := if bySha256 then h.sha256.map Digest.finalize else h.sha256 })

/-- `IOT_OTA_Ioctl`: the value returned, what is stored for the caller, and the handle. -/
def iotOtaIoctl (cmd : CmdType) (buf : IoctlBuf) (h : OtaStruct) :
    ℤ × IoctlOut × OtaStruct :=
  if buf.valid = false then (iotOtaeInvalidParam, .nothing, h)
  else if h.state = .uninited ∨ h.state = .inited then (iotOtaeInvalidState, .nothing, h)
  else
    let out (r : ℤ × IoctlOut) : ℤ × IoctlOut × OtaStruct := (r.1, r.2, h)
    match cmd with
    | .cotaConfigId => out (ioctlString buf h.configId)
    | .cotaConfigSize => out (ioctlWord buf h.configSize)
    | .cotaSign => out (ioctlString buf h.sign)
    | .cotaSignMethod => out (ioctlString buf h.signMethod)
    | .cotaUrl => out (ioctlString buf h.cotaUrl)
    | .cotaGettype => out (ioctlString buf h.getType)
    | .otaType => out (ioctlWord buf h.type.toUInt32)
    | .fetchedSize => out (ioctlWord buf h.sizeFetched)
    | .fileSize => out (ioctlWord buf h.sizeFile)
    | .md5sum => out (ioctlCopy buf (h.md5sum.takeWhile (· ≠ 0)))
    | .version => out (ioctlCopy buf (h.version.getD []))
    | .checkFirmware => checkFirmware env buf h
    | .checkConfig => checkConfig env buf h
    | .resetFetchedSize => (0, .nothing, { h with sizeFetched := 0 })
    | .max => (-1, .nothing, h)

/-! ## Runs -/

/-- The handle that `IOT_OTA_Init` returns, with the callbacks that are set. -/
def iotOtaInit (hasFetchCb hasFetchCotaCb : Bool) : OtaStruct where
  state := .inited
  type := .none
  sizeLastFetched := 0
  sizeFetched := 0
  sizeFile := 0
  purl := none
  version := none
  md5sum := List.replicate 33 0
  md5 := some ⟨[], false⟩
  sha256 := some ⟨[], false⟩
  chFetch := none
  configId := none
  configSize := 0
  sign := none
  signMethod := none
  cotaUrl := none
  getType := none
  hasFetchCb := hasFetchCb
  hasFetchCotaCb := hasFetchCotaCb
  calls := []

/-- What happens to a handle: a message comes, a chunk is fetched, or a command is given. -/
inductive OtaOp
  | message (memory : ℕ → Bool) (stack msg : Bytes) (type : TopicType)
  | fetchYield (valid : Bool) (fetch : Option Bytes) (memory : ℕ → Bool)
  | ioctl (cmd : CmdType) (buf : IoctlBuf)

/-- The value that is returned, and the handle after it. -/
def otaExec (h : OtaStruct) : OtaOp → ℤ × OtaStruct
  | .message memory stack msg type => otaCallback env memory stack msg type h
  | .fetchYield valid fetch memory => iotOtaFetchYield valid fetch memory h
  | .ioctl cmd buf => ((iotOtaIoctl env cmd buf h).1, (iotOtaIoctl env cmd buf h).2.2)

/-- A handle and the bytes that have been delivered to the caller since the download of the
current image started. -/
structure OtaRun where
  ota : OtaStruct
  delivered : Bytes

/-- How the bytes delivered change: a message that starts a download sets them back, and a call
of `IOT_OTA_FetchYield` that does not fail adds its chunk. -/
def deliveredAfter (r : OtaRun) (ret : ℤ) (after : OtaStruct) : OtaOp → Bytes
  | .message _ _ _ _ =>
    if r.ota.state ≠ .fetching ∧ after.state = .fetching then [] else r.delivered
  | .fetchYield _ fetch _ => if 0 ≤ ret then r.delivered ++ fetch.getD [] else r.delivered
  | .ioctl _ _ => r.delivered

def otaStep (r : OtaRun) (op : OtaOp) : OtaRun :=
  ⟨(otaExec env r.ota op).2,
    deliveredAfter r (otaExec env r.ota op).1 (otaExec env r.ota op).2 op⟩

def otaStart (hasFetchCb hasFetchCotaCb : Bool) : OtaRun :=
  ⟨iotOtaInit hasFetchCb hasFetchCotaCb, []⟩

end Iotkit.Ota
