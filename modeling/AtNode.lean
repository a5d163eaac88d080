import AtNode.Lib.Run
import AtNode.Ch582.CdcTx
import AtNode.Ch582.AtLine
import AtNode.Ch582.ArgStore
import AtNode.Ch582.AtParser
import AtNode.Ch582.AtIsolation
import AtNode.Ch582.BleKeyboard
import AtNode.Ch582.KeyRoute
import AtNode.Ch582.KeyStr
import AtNode.Ch582.SingleLink
import AtNode.Ch582.SlotIdentity
import AtNode.Ch582.SlotPersist
import AtNode.Esp32.KbEngine
import AtNode.Esp32.MqttExec
import AtNode.Esp32.MqttFraming
import AtNode.Esp32.MqttOps
import AtNode.Ch582.Dongle
import AtNode.Ch582.DongleArmed
import AtNode.Ch582.DongleAttempts
import AtNode.Ch582.DongleWait
import AtNode.Ch582.DongleWatch
import AtNode.Esp32.RatholeBackoff
import AtNode.Esp32.RatholeSlots
import AtNode.Esp32.RatholeFraming
import AtNode.Esp32.TunnelSettled
import AtNode.Esp32.MqttCancel
import AtNode.Broker.ManageAcl
import AtNode.Broker.BridgeCalls
import AtNode.Broker.ManageReplies
import AtNode.Esp32.HttpIndices
import AtNode.Esp32.HttpBoot
import AtNode.Esp32.MqttSwitch
import AtNode.Esp32.MqttWhole
import AtNode.Esp32.PubAcks
import AtNode.Esp32.WifiTruth
import AtNode.Esp32.BleReplay
import AtNode.Esp32.BlePairing
import AtNode.Ch582.AtSentLines
import AtNode.Esp32.Api
import AtNode.Esp32.Args
import AtNode.Esp32.FullArgs
import AtNode.Esp32.AtSerial
import AtNode.Esp32.CfgStore
import AtNode.Esp32.MqttTopics
import AtNode.Esp32.MqttSend
import AtNode.Esp32.ChangeDelivery
import AtNode.Broker.QueryCodec
import AtNode.Esp32.ConfigReplies
import AtNode.Esp32.RatholeHandshake
import AtNode.Esp32.BleBoot
import AtNode.Esp32.HttpHws
import AtNode.Arduino.TunnelConfig
import AtNode.Esp32.MqttPanic
import AtNode.Esp32.RequestNarrowing
import AtNode.Esp32.AtLineEnds
import AtNode.Esp32.AtFraming
import AtNode.Esp32.KeyboardFrontEnds
import AtNode.Lib.ArgProgram
import AtNode.Lib.Strtok
import AtNode.Ch582.Node
import AtNode.Ch582.AtTable
import AtNode.Ch582.SlotLabel
import AtNode.Ch582.ScanList
import AtNode.Lib.Occurs
import AtNode.Ch582.NameMatch
import AtNode.Ch582.WatchReports
import AtNode.Ch582.AdvParsing
import AtNode.Ch582.AdvertName
import AtNode.Ch582.AdvertPolicy
import AtNode.Ch582.KeyChord
import AtNode.Broker.KeyAuth
import AtNode.Arduino.ConfigReload
import AtNode.Arduino.TypePoll
import AtNode.Arduino.Infrared
import AtNode.Ch582.CurrentLine
import AtNode.Ch582.FlushResult
import AtNode.Ch582.ResponseFraming
import AtNode.Ch582.UsbEp0
import AtNode.Ch582.UsbReady
import AtNode.Ch582.UsbTransfers
import AtNode.Ch582.FactoryDefaults
import AtNode.Esp32.BondRoundTrip
import AtNode.Esp32.HttpConfig
import AtNode.Esp32.ClearOps
import AtNode.Esp32.ArgLookup
import AtNode.Esp32.TunnelPump
import AtNode.Esp32.PumpDelivery
import AtNode.Esp32.TextPlayback
import AtNode.Ch582.ArgWrap
import AtNode.Esp32.BondCopies
import AtNode.Esp32.LedGrammar
import AtNode.Ch582.SleepDeadline
import AtNode.Ch582.MacArgument
import AtNode.Ch582.KeyPersistence
import AtNode.Ch582.DongleDeferred
import AtNode.Broker.AccessLog
import AtNode.Esp32.StatusLed
import AtNode.Ch582.LedEngine
import AtNode.Ch582.LedLaws
import AtNode.Ch582.HwsTasks
import AtNode.Ch582.BattLevel
import AtNode.Ch582.LongReads
import AtNode.Arduino.TunnelFresh
import AtNode.Arduino.QueryGet
