/-
# Topics of the device model (`dm_msg_process.c`, `dm_client.c`)

A topic is built from a prefix with two places, for the product key and the device name, and the
name of a service.  The table of the client says which topics a device of which type subscribes
to; what the table holds depends on the build.
-/
import Iotkit.InfraDefs

namespace Iotkit.DmUri

/-! ## Prefixes and names -/

def dmUriSysPrefix : String := "/sys/%s/%s/"
def dmUriExtSessionPrefix : String := "/ext/session/%s/%s/"
def dmUriExtNtpPrefix : String := "/ext/ntp/%s/%s/"
def dmUriExtErrorPrefix : String := "/ext/error/%s/%s"
def dmUriOtaDeviceInform : String := "/ota/device/inform/%s/%s"

def dmUriThingModelDownRaw : String := "thing/model/down_raw"
def dmUriThingModelUpRawReply : String := "thing/model/up_raw_reply"
def dmUriRrpcRequestWildcard : String := "rrpc/request/+"
def dmUriThingServicePropertySet : String := "thing/service/property/set"
def dmUriThingServicePropertyGet : String := "thing/service/property/get"
def dmUriThingServiceRequestWildcard : String := "thing/service/+"
def dmUriThingPropertyDesiredGetReply : String := "thing/property/desired/get_reply"
def dmUriThingPropertyDesiredDeleteReply : String := "thing/property/desired/delete_reply"
def dmUriThingEventPostReplyWildcard : String := "thing/event/+/post_reply"
def dmUriThingDeviceinfoUpdateReply : String := "thing/deviceinfo/update_reply"
def dmUriThingDeviceinfoDeleteReply : String := "thing/deviceinfo/delete_reply"
def dmUriThingDynamictslGetReply : String := "thing/dynamicTsl/get_reply"
def dmUriNtpResponse : String := "response"
def dmUriThingTopoAddNotify : String := "thing/topo/add/notify"
def dmUriThingDelete : String := "thing/delete"
def dmUriThingDisable : String := "thing/disable"
def dmUriThingEnable : String := "thing/enable"
def dmUriThingGatewayPermit : String := "thing/gateway/permit"
def dmUriThingSubRegisterReply : String := "thing/sub/register_reply"
def dmUriThingSubUnregisterReply : String := "thing/sub/unregister_reply"
def dmUriThingTopoAddReply : String := "thing/topo/add_reply"
def dmUriThingTopoDeleteReply : String := "thing/topo/delete_reply"
def dmUriThingTopoGetReply : String := "thing/topo/get_reply"
def dmUriThingListFoundReply : String := "thing/list/found_reply"
def dmUriCombineLoginReply : String := "combine/login_reply"
def dmUriCombineLogoutReply : String := "combine/logout_reply"

/-! ## The table of the client -/

def iotxDmDeviceSingle : ℕ := 0x01
def iotxDmDeviceSubdev : ℕ := 0x02
def iotxDmDeviceGateway : ℕ := 0x04
def iotxDmDeviceAll : ℕ := iotxDmDeviceSingle ||| iotxDmDeviceSubdev ||| iotxDmDeviceGateway

/-- The macros `DEVICE_MODEL_RAWDATA_SOLO`, `DEVICE_MODEL_SHADOW` and `DEVICE_MODEL_GATEWAY`. -/
structure Build where
  rawdataSolo : Bool
  shadow : Bool
  gateway : Bool
  deriving DecidableEq

/-- `dm_client_uri_map_t` without the handler. -/
structure UriMap where
  uriName : Option String
  uriPrefix : String
  devType : ℕ
  deriving DecidableEq

def gDmClientUriMap (build : Build) : List UriMap :=
  (if build.rawdataSolo then [] else
      ⟨dmUriThingEventPostReplyWildcard, dmUriSysPrefix, iotxDmDeviceAll⟩ ::
      (if build.shadow then
        [⟨dmUriThingPropertyDesiredDeleteReply, dmUriSysPrefix, iotxDmDeviceAll⟩,
          ⟨dmUriThingPropertyDesiredGetReply, dmUriSysPrefix, iotxDmDeviceAll⟩,
          ⟨dmUriThingServicePropertyGet, dmUriSysPrefix, iotxDmDeviceAll⟩]
        else []) ++
      [⟨dmUriThingServicePropertySet, dmUriSysPrefix, iotxDmDeviceAll⟩,
        ⟨dmUriThingServiceRequestWildcard, dmUriSysPrefix, iotxDmDeviceAll⟩,
        ⟨dmUriThingDeviceinfoUpdateReply, dmUriSysPrefix, iotxDmDeviceAll⟩,
        ⟨dmUriThingDeviceinfoDeleteReply, dmUriSysPrefix, iotxDmDeviceAll⟩,
        ⟨dmUriThingDynamictslGetReply, dmUriSysPrefix, iotxDmDeviceAll⟩,
        ⟨dmUriRrpcRequestWildcard, dmUriSysPrefix, iotxDmDeviceAll⟩,
        ⟨dmUriNtpResponse, dmUriExtNtpPrefix, iotxDmDeviceAll⟩,
        ⟨none, dmUriExtErrorPrefix, iotxDmDeviceAll⟩]) ++
  [⟨dmUriThingModelDownRaw, dmUriSysPrefix, iotxDmDeviceAll⟩,
    ⟨dmUriThingModelUpRawReply, dmUriSysPrefix, iotxDmDeviceAll⟩] ++
  (if build.gateway then
    [⟨dmUriThingTopoAddNotify, dmUriSysPrefix, iotxDmDeviceGateway⟩,
      ⟨dmUriThingGatewayPermit, dmUriSysPrefix, iotxDmDeviceGateway⟩,
      ⟨dmUriThingSubRegisterReply, dmUriSysPrefix, iotxDmDeviceGateway⟩,
      ⟨dmUriThingSubUnregisterReply, dmUriSysPrefix, iotxDmDeviceGateway⟩,
      ⟨dmUriThingTopoAddReply, dmUriSysPrefix, iotxDmDeviceGateway⟩,
      ⟨dmUriThingTopoDeleteReply, dmUriSysPrefix, iotxDmDeviceGateway⟩,
      ⟨dmUriThingTopoGetReply, dmUriSysPrefix, iotxDmDeviceGateway⟩,
      ⟨dmUriThingListFoundReply, dmUriSysPrefix, iotxDmDeviceGateway⟩,
      ⟨dmUriCombineLoginReply, dmUriExtSessionPrefix, iotxDmDeviceGateway⟩,
      ⟨dmUriCombineLogoutReply, dmUriExtSessionPrefix, iotxDmDeviceGateway⟩,
      ⟨dmUriThingDisable, dmUriSysPrefix, iotxDmDeviceGateway⟩,
      ⟨dmUriThingEnable, dmUriSysPrefix, iotxDmDeviceGateway⟩,
      ⟨dmUriThingDelete, dmUriSysPrefix, iotxDmDeviceGateway⟩]
    else [])

end Iotkit.DmUri
