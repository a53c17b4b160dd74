/-
# Frames of zero config (`awss_enrollee.c`, `awss_registrar.c`)

The enrollee puts its name, product key, random number and signature in a vendor element of a
probe request, and the registrar answers with one of its own, with the network and the encrypted
password.  A frame is built in front of the frame check sequence of a fixed probe request, and is
read through a pointer; a pointer is what follows it here.  The hashes and the cipher are
parameters.
-/
import Iotkit.InfraDefs

namespace Iotkit.ZeroConfig

/-! ## Constants -/

def maxDevNameLen : ℕ := 64
def maxPkLen : ℕ := 20
def maxKeyLen : ℕ := 32
def randomMaxLen : ℕ := 16
def aesKeyLen : ℕ := 16
def enrolleeSignSize : ℕ := 20
def osMaxSsidLen : ℕ := 33
def osMaxPasswdLen : ℕ := 65
def ethAlen : ℕ := 6
def fcsSize : ℕ := 4
def saPos : ℕ := 10
def wlanEidVendorSpecific : UInt8 := 221
def wlanOuiAlibaba : ℕ := 0xD896E0
def wlanOuiTypeEnrollee : UInt8 := 0xAA
def wlanOuiTypeRegistrar : UInt8 := 0xAB
def deviceTypeVersion : UInt8 := 1
def enrolleeFrameType : UInt8 := 0
def registrarFrameType : UInt8 := 1

/-- The sizes of the elements without the parts of variable length. -/
def enrolleeIeFixLen : ℕ := 14 + randomMaxLen + enrolleeSignSize
def registrarIeFixLen : ℕ := 17

def probeReqFrame : Bytes :=
  [0x40, 0x00, 0x00, 0x00, 0xFF, 0xFF, 0xFF, 0xFF, 0xFF, 0xFF, 0x28, 0xC2, 0xDD, 0x61, 0x68, 0x83,
    0xFF, 0xFF, 0xFF, 0xFF, 0xFF, 0xFF, 0xC0, 0x79, 0x00, 0x00, 0x01, 0x08, 0x82, 0x84, 0x8B, 0x96,
    0x8C, 0x92, 0x98, 0xA4, 0x32, 0x04, 0xB0, 0x48, 0x60, 0x6C, 0x3F, 0x84, 0x10, 0x9E]

/-- SHA-256, HMAC-SHA-1 and AES-128-CFB with a key and an initial vector. -/
structure Crypto where
  sha256 : Bytes → Bytes
  hmacSha1 : Bytes → Bytes → Bytes
  cfbEncrypt : Bytes → Bytes → Bytes → Bytes
  cfbDecrypt : Bytes → Bytes → Bytes → Bytes

/-! ## Elements -/

/-- `cfg80211_find_ie`: the element, and how many bytes there are from it on. -/
def cfg80211FindIe (eid : UInt8) (ies : Bytes) (len : ℤ) : Option (Bytes × ℤ) :=
  if 2 < len ∧ ies.getD 0 0 ≠ eid then
    cfg80211FindIe eid (ies.drop ((ies.getD 1 0).toNat + 2)) (len - ((ies.getD 1 0).toNat + 2))
  else if len < 2 then none
  else if len < 2 + (ies.getD 1 0).toNat then none
  else some (ies, len)
termination_by len.toNat
decreasing_by omega

/-- The first three bytes of a vendor element. -/
def vendorOui (ie : Bytes) : ℕ :=
  (ie.getD 2 0).toNat * 2 ^ 16 + (ie.getD 3 0).toNat * 2 ^ 8 + (ie.getD 4 0).toNat

/-- The loop of `cfg80211_find_vendor_ie`, looking at no more than `fuel` vendor elements. -/
def findVendorIeLoop (oui : ℕ) (ouiType : UInt8) :
    ℕ → Bytes → ℤ → Option (Bytes × ℤ)
  | 0, _, _ => none
  | fuel + 1, pos, len =>
    if len ≤ 0 then none
    else
      match cfg80211FindIe wlanEidVendorSpecific pos len with
      | none => none
      | some (ie, left) =>
        if 6 ≤ (ie.getD 1 0).toNat ∧ vendorOui ie = oui ∧ ie.getD 5 0 = ouiType then
          some (ie, left)
        else
          findVendorIeLoop oui ouiType fuel (ie.drop (2 + (ie.getD 1 0).toNat))
            (left - (2 + (ie.getD 1 0).toNat))

/-- `cfg80211_find_vendor_ie`.  Every element takes two bytes at least. -/
def cfg80211FindVendorIe (oui : ℕ) (ouiType : UInt8) (ies : Bytes) (len : ℤ) :
    Option (Bytes × ℤ) :=
  findVendorIeLoop oui ouiType (len.toNat + 1) ies len

/-- The bytes of a frame with the address of the sender. -/
def osWifiGetMac (frame mac : Bytes) : Bytes :=
  frame.take saPos ++ mac.take ethAlen ++ frame.drop (saPos + ethAlen)

/-- A frame with an element in front of the check sequence. -/
def probeReqWith (ie mac : Bytes) : Bytes :=
  osWifiGetMac (probeReqFrame.take (probeReqFrame.length - fcsSize) ++ ie ++
    probeReqFrame.drop (probeReqFrame.length - fcsSize)) mac

/-! ## The enrollee -/

/-- What a device has: its identity and its secrets, its random number, the type of encryption,
and its address. -/
structure Enrollee where
  productKey : Bytes
  deviceName : Bytes
  productSecret : Bytes
  deviceSecret : Bytes
  aesRandom : Bytes
  encryptType : UInt8
  mac : Bytes

variable (crypto : Crypto) (dev : Enrollee)

/-- The signature of `awss_init_enrollee_info`. -/
def Enrollee.sign : Bytes :=
  crypto.hmacSha1 (dev.aesRandom ++ dev.deviceName ++ dev.productKey)
    (if dev.encryptType = 3 then dev.productSecret else dev.deviceSecret)

/-- `ie_len` of `awss_init_enrollee_info`. -/
def Enrollee.ieLen : ℕ :=
  dev.productKey.length + dev.deviceName.length + enrolleeIeFixLen

/-- The length of the device's frame. -/
def Enrollee.frameLen : ℕ := probeReqFrame.length + dev.ieLen

/-- The element that `awss_init_enrollee_info` writes. -/
def Enrollee.ie : Bytes :=
  [wlanEidVendorSpecific, UInt8.ofNat (dev.ieLen - 2), 0xD8, 0x96, 0xE0, wlanOuiTypeEnrollee,
      deviceTypeVersion] ++
    UInt8.ofNat dev.deviceName.length :: (dev.deviceName ++
      enrolleeFrameType :: UInt8.ofNat dev.productKey.length :: (dev.productKey ++
        UInt8.ofNat randomMaxLen :: (dev.aesRandom ++
          dev.encryptType :: 0 :: UInt8.ofNat enrolleeSignSize :: dev.sign crypto)))

/-- The probe request that the device sends. -/
def awssInitEnrolleeInfo : Bytes :=
  probeReqWith (dev.ie crypto) dev.mac

/-! ## The registrar -/

/-- `enum enrollee_state`. -/
inductive EnrolleeState where
  | free
  | inQueue
  | found
  | checkinEnable
  | checkinCipher
  | checkinOngoing
  | checkinEnd
  deriving DecidableEq

/-- A `struct enrollee_info`; a length is that of its list. -/
structure EnrolleeInfo where
  devTypeVer : UInt8
  devName : Bytes
  frameType : UInt8
  pk : Bytes
  random : Bytes
  security : UInt8
  signMethod : UInt8
  sign : Bytes
  rssi : ℤ
  key : Bytes
  state : EnrolleeState
  checkinPriority : ℕ
  checkinTimestamp : UInt32
  reportTimestamp : UInt32
  interval : UInt32
  checkinTimeout : UInt32
  deriving DecidableEq

/-- An entry that `memset` has set to zero. -/
def EnrolleeInfo.zero : EnrolleeInfo where
  devTypeVer := 0
  devName := []
  frameType := 0
  pk := []
  random := []
  security := 0
  signMethod := 0
  sign := []
  rssi := 0
  key := List.replicate (maxKeyLen + 1) 0
  state := .free
  checkinPriority := 0
  checkinTimestamp := 0
  reportTimestamp := 0
  interval := 0
  checkinTimeout := 0

/-- `memcpy` of `ENROLLEE_INFO_HDR_SIZE` bytes. -/
def EnrolleeInfo.copyHdr (entry source : EnrolleeInfo) : EnrolleeInfo :=
  { entry with
    devTypeVer := source.devTypeVer
    devName := source.devName
    frameType := source.frameType
    pk := source.pk
    random := source.random
    security := source.security
    signMethod := source.signMethod
    sign := source.sign }

/-- `process_enrollee_ie` up to the call of `enrollee_put`: the temporary entry. -/
def processEnrolleeIe (ie : Bytes) (rssi : ℤ) : Option EnrolleeInfo :=
  let ie := ie.drop 6
  if ie.getD 0 0 ≠ deviceTypeVersion then none
  else
    let devTypeVer := ie.getD 0 0
    let ie := ie.drop 1
    let devNameLen := (ie.getD 0 0).toNat
    if maxDevNameLen < devNameLen then none
    else
      let devName := (ie.drop 1).takeD devNameLen 0
      let ie := ie.drop (devNameLen + 1)
      if ie.getD 0 0 ≠ enrolleeFrameType then none
      else
        let frameType := ie.getD 0 0
        let ie := ie.drop 1
        let pkLen := (ie.getD 0 0).toNat
        if maxPkLen < pkLen then none
        else
          let pk := (ie.drop 1).takeD pkLen 0
          let ie := ie.drop (pkLen + 1)
          if (ie.getD 0 0).toNat ≠ randomMaxLen then none
          else
            let random := (ie.drop 1).takeD randomMaxLen 0
            let ie := ie.drop ((ie.getD 0 0).toNat + 1)
            if 5 < ie.getD 0 0 ∨ ie.getD 0 0 < 3 then none
            else if 1 < ie.getD 1 0 then none
            else if (ie.getD 2 0).toNat ≠ enrolleeSignSize then none
            else
              some
                { EnrolleeInfo.zero with
                  devTypeVer := devTypeVer
                  devName := devName
                  frameType := frameType
                  pk := pk
                  random := random
                  security := ie.getD 0 0
                  signMethod := ie.getD 1 0
                  sign := (ie.drop 3).takeD (ie.getD 2 0).toNat 0
                  rssi := rssi }

def mgmtBeacon : UInt8 := 0x80
def mgmtProbeReq : UInt8 := 0x40
def mgmtHdrLen : ℕ := 24

/-- The element that `awss_wifi_mgnt_frame_callback` finds in a buffer: the buffer is an element
when `bufferType` is set. -/
def awssWifiMgntFrameIe (buffer : Bytes) (length : ℤ) (bufferType : Bool) :
    Option Bytes :=
  if bufferType then some buffer
  else if buffer.getD 0 0 = mgmtBeacon then
    let buffer := buffer.drop (mgmtHdrLen + 12)
    let length := length - (mgmtHdrLen + 12)
    if buffer.getD 0 0 ≠ 0 then none
    else
      -- the two bytes in front of the name are not taken from the length
      let len := (buffer.getD 1 0).toNat
      (cfg80211FindVendorIe wlanOuiAlibaba wlanOuiTypeEnrollee (buffer.drop (2 + len))
        (length - len)).map (·.1)
  else if buffer.getD 0 0 = mgmtProbeReq then
    (cfg80211FindVendorIe wlanOuiAlibaba wlanOuiTypeEnrollee (buffer.drop mgmtHdrLen)
      (length - mgmtHdrLen)).map (·.1)
  else none

/-- What `HAL_Wifi_Get_Ap_Info` gives: two strings and an address. -/
structure ApInfo where
  ssid : CString
  passwd : CString
  bssid : Bytes

/-- `ie_len` of `registrar_raw_frame_init` for the lengths of a name and a password. -/
def registrarIeLen (ssidLen passwdLen : ℕ) : ℕ :=
  enrolleeSignSize + ssidLen + passwdLen + registrarIeFixLen

variable (ap : ApInfo)

/-- The name and the password without what is too long. -/
def ApInfo.ssidCut : Bytes := ap.ssid.bytes.take (osMaxSsidLen - 1)

/-- The password as it fits the element. -/
def ApInfo.passwdCut : Bytes := ap.passwd.bytes.take (osMaxPasswdLen - 1)

/-- The length of the registrar's frame. -/
def registrarFrameLen : ℕ :=
  probeReqFrame.length + registrarIeLen ap.ssidCut.length ap.passwdCut.length

/-- The element that `registrar_raw_frame_init` writes. -/
def registrarIe (enr : EnrolleeInfo) : Bytes :=
  [wlanEidVendorSpecific,
      UInt8.ofNat (registrarIeLen ap.ssidCut.length ap.passwdCut.length - 2), 0xD8, 0x96, 0xE0,
      wlanOuiTypeRegistrar, deviceTypeVersion] ++
    UInt8.ofNat enr.sign.length :: (enr.sign ++
      registrarFrameType :: UInt8.ofNat ap.ssidCut.length :: (ap.ssidCut ++
        UInt8.ofNat ap.passwdCut.length ::
          (crypto.cfbEncrypt (enr.key.take aesKeyLen) enr.random ap.passwdCut ++
            ap.bssid.take ethAlen)))

/-- `registrar_raw_frame_init`, when there is memory for the frame. -/
def registrarRawFrameInit (mac : Bytes) (enr : EnrolleeInfo) :
    Bytes :=
  probeReqWith (registrarIe crypto ap enr) mac

/-! ## The table of the registrar -/

def maxEnrolleeNum : ℕ := 5
def registrarTimeout : UInt32 := 60

abbrev EnrolleeTable := Fin maxEnrolleeNum → EnrolleeInfo

/-- The first entry of the table for which a test holds. -/
def firstEntry (table : EnrolleeTable) (test : EnrolleeInfo → Bool) : Option (Fin maxEnrolleeNum) :=
  (List.finRange maxEnrolleeNum).find? fun i => test (table i)

/-- The comparison of the names and the product keys. -/
def EnrolleeInfo.isDevice (e : EnrolleeInfo) (pk devName : Bytes) : Bool :=
  devName = e.devName && pk = e.pk

/-- A `uint32_t` time is over. -/
def timeElapsed (now since seconds : UInt32) : Bool := seconds * 1000 < now - since

/-- `enrollee_put`: what it returns, the table, and whether it starts the timer of
`enrollee_report`.  `ready` says that the network is up and is not that of a provisioning mode. -/
def enrolleePut (table : EnrolleeTable) (ready : Bool) (now : UInt32) (enr : EnrolleeInfo) :
    ℤ × EnrolleeTable × Bool :=
  if ready = false then (-1, table, false)
  else
    match firstEntry table fun e => e.state ≠ .free && e.isDevice enr.pk enr.devName with
    | some i =>
      let report : Bool :=
        (table i).state = .found && timeElapsed now (table i).reportTimestamp (table i).interval
      if (table i).state ≠ .inQueue then (1, table, report)
      else
        let e := (table i).copyHdr enr
        (1, Function.update table i { e with rssi := (2 * e.rssi + enr.rssi).tdiv 3 }, report)
    | none =>
      match firstEntry table fun e => e.state = .free with
      | none => (-1, table, false)
      | some i =>
        (0, Function.update table i
          { EnrolleeInfo.zero.copyHdr enr with
            rssi := enr.rssi
            state := .inQueue
            checkinPriority := 1
            interval := registrarTimeout
            checkinTimeout := registrarTimeout }, true)

/-- `awss_wifi_mgnt_frame_callback`: the table and whether the timer is started. -/
def awssWifiMgntFrameCallback (table : EnrolleeTable) (ready : Bool) (now : UInt32)
    (buffer : Bytes) (length : ℤ) (rssi : ℤ) (bufferType : Bool) : EnrolleeTable × Bool :=
  match (awssWifiMgntFrameIe buffer length bufferType).bind (processEnrolleeIe · rssi) with
  | none => (table, false)
  | some enr => (enrolleePut table ready now enr).2

/-! ## The answer at the enrollee -/

/-- `is_utf8` of the bytes in front of a NUL: characters of one to three bytes. -/
def isUtf8 : Bytes → Bool
  | [] => true
  | a :: rest =>
    if a &&& 0x80 = 0 then isUtf8 rest
    else if a &&& 0xE0 = 0xC0 then
      match rest with
      | b :: rest => b ≠ 0 && b &&& 0xC0 = 0x80 && isUtf8 rest
      | [] => false
    else if a &&& 0xF0 = 0xE0 then
      match rest with
      | b :: c :: rest =>
        b ≠ 0 && c ≠ 0 && b &&& 0xC0 = 0x80 && c &&& 0xC0 = 0x80 && isUtf8 rest
      | _ => false
    else false

/-- The key of a random, from the secret and the random. -/
def calPasswd (key random : Bytes) : Bytes :=
  (crypto.sha256 (key.take 40 ++ 0x2C :: random)).take aesKeyLen

/-- The key that `aes_decrypt_string` takes for a type of encryption. -/
def Enrollee.aesKey : Option Bytes :=
  if dev.encryptType = 3 then some (calPasswd crypto dev.productSecret dev.aesRandom)
  else if dev.encryptType = 4 then some (calPasswd crypto dev.deviceSecret dev.aesRandom)
  else none

/-- `aes_decrypt_string` of binary data in CFB mode, into memory that is zero. -/
def aesDecryptString (cipher : Bytes) : Bytes :=
  match dev.aesKey crypto with
  | none => List.replicate cipher.length 0
  | some key => crypto.cfbDecrypt key dev.aesRandom cipher

/-- The C string in a buffer. -/
def cString (bytes : Bytes) : Bytes := bytes.takeWhile (· ≠ 0)

/-- What the enrollee stores in `zc_ssid`, `zc_passwd` and `zc_bssid`. -/
structure ZcResult where
  ssid : Bytes
  passwd : Bytes
  bssid : Bytes
  deriving DecidableEq

/-- `decrypt_ssid_passwd`.  The signature stands in the frame of the enrollee. -/
def decryptSsidPasswd (ie : Bytes) : Option ZcResult :=
  let devSign := dev.sign crypto ++ probeReqFrame.drop (probeReqFrame.length - fcsSize)
  let ie := ie.drop 6
  if ie.getD 0 0 ≠ deviceTypeVersion then none
  else
    let ie := ie.drop 1
    let signLen := (ie.getD 0 0).toNat
    if devSign.takeD signLen 0 ≠ (ie.drop 1).takeD signLen 0 then none
    else
      let ie := ie.drop (signLen + 1)
      if ie.getD 0 0 ≠ registrarFrameType then none
      else
        let ie := ie.drop 1
        let ssidLen := (ie.getD 0 0).toNat
        if osMaxSsidLen ≤ ssidLen then none
        else
          let ssid := (ie.drop 1).takeD ssidLen 0
          let ie := ie.drop (ssidLen + 1)
          let passwdLen := (ie.getD 0 0).toNat
          if osMaxPasswdLen ≤ passwdLen then none
          else
            let passwd := aesDecryptString crypto dev ((ie.drop 1).takeD passwdLen 0)
            let ie := ie.drop (passwdLen + 1)
            if isUtf8 passwd = false then none
            else
              some
                { ssid := (cString ssid).take (osMaxSsidLen - 1)
                  passwd := (cString passwd).take (osMaxPasswdLen - 1)
                  bssid := ie.takeD ethAlen 0 }

/-- `awss_ieee80211_zconfig_process`: the element of a registrar in a probe request or response,
and the bytes there are from it on.  The elements of a probe response start behind twelve more
bytes, and they are looked for there in either frame. -/
def awssIeee80211ZconfigProcess (finished configPress : Bool) (mgmtHeader : Bytes) (len : ℤ) :
    Option (Bytes × ℤ) :=
  if finished = true ∨ configPress = false then none
  else if mgmtHeader.getD 0 0 &&& 0xFC ≠ 0x40 ∧ mgmtHeader.getD 0 0 &&& 0xFC ≠ 0x50 then none
  else if len < 36 then none
  else
    (cfg80211FindVendorIe wlanOuiAlibaba wlanOuiTypeRegistrar (mgmtHeader.drop 36)
      (len - 36)).map fun (ie, left) => (ie, left % 2 ^ 16)

/-- What the device takes from a vendor element. -/
def awssRecvCallbackZconfig (ie : Bytes) (ieLen : ℤ) :
    Option ZcResult :=
  if ieLen < (ie.getD 1 0).toNat then none else decryptSsidPasswd crypto dev ie

end Iotkit.ZeroConfig
