import Iotkit.MqttPacketId
import Iotkit.MqttSubscribeSync
import Iotkit.CoapSoundness
import Iotkit.CoapParseError
import Iotkit.CloudSendList
import Iotkit.HalKv
import Iotkit.AlcsCompletion
import Iotkit.DmReply
import Iotkit.IotxCm
import Iotkit.CmCoap
import Iotkit.MemStats
import Iotkit.AtConn
import Iotkit.AtMqtt
import Iotkit.AtYield
import Iotkit.OtaDigest
import Iotkit.HttpBody
import Iotkit.LinkkitSync
import Iotkit.EnrolleeTable
import Iotkit.MqttOffline
import Iotkit.AwssReport
import Iotkit.CoapMessageId
import Iotkit.CoapUintOption
import Iotkit.CoapLength
import Iotkit.CoapUriPath
import Iotkit.MqttYield
import Iotkit.MqttDelivery
import Iotkit.CoapAes
import Iotkit.AlcsAes
import Iotkit.AlcsReplies
import Iotkit.InfraTimer
import Iotkit.AlcsHeartbeat
import Iotkit.InfraHttpc
import Iotkit.OtaVerdict
import Iotkit.JsonScan
import Iotkit.JsonLookup
import Iotkit.WpaSuites
import Iotkit.AlcsBase64
import Iotkit.DmSubscribe
import Iotkit.DmTopic
import Iotkit.AlcsCredentials
import Iotkit.PackageScores
import Iotkit.ShadowSearch
import Iotkit.Http2Verdict
import Iotkit.ZeroConfigFields
import Iotkit.AwssNotify
import Iotkit.Http2Headers
import Iotkit.HttpReauth
import Iotkit.HttpVerdict
import Iotkit.AtSubscribe
import Iotkit.DevSign
import Iotkit.AtMbox
import Iotkit.AwssCoding
