import Aquilo.ExactFloat
import Aquilo.LeastSquares
import Aquilo.Utf8
import Aquilo.RustStr
import Aquilo.Calibration
import Aquilo.History
import Aquilo.Codec
import Aquilo.Reading
import Aquilo.State
import Aquilo.Config
import Aquilo.Runtime
import Aquilo.RollingWindow
import Aquilo.PumpOutWindow
import Aquilo.Projection
import Aquilo.ClosedForm
import Aquilo.Forgetting
import Aquilo.Placeholder
import Aquilo.StreamFraming
import Aquilo.Varint
import Aquilo.MqttWire
import Aquilo.MqttFraming
import Aquilo.WirePackets
import Aquilo.PublishRoundTrip
import Aquilo.Firmware
import Aquilo.Serve
import Aquilo.OtaBait
import Aquilo.Agreement
import Aquilo.Machine
import Aquilo.LastWrite
import Aquilo.FromPrefixes
import Aquilo.BrokerClient
import Aquilo.BrokerAgreement
import Aquilo.LoopBlocking
import Aquilo.Lifecycle
import Aquilo.RestartTransparency
import Aquilo.Recalibration
import Aquilo.AtomicReplace
import Aquilo.JsonStore
import Aquilo.StartupSave
import Aquilo.KilledSaves
import Aquilo.PowerCuts
import Aquilo.FirstCome
import Aquilo.Facts
import Aquilo.Onboard
import Aquilo.Learn
import Aquilo.Proxy
import Aquilo.LearnRaces
import Aquilo.Landing
import Aquilo.Credentials
import Aquilo.DecimalText
import Aquilo.TomlString
import Aquilo.Toml
import Aquilo.TomlTemplate
import Aquilo.ConfigToml
import Aquilo.ConfigSplicing
import Aquilo.RecoveredConfig
import Aquilo.OneShot
import Aquilo.Finalize
import Aquilo.Interlude
import Aquilo.Observe
import Aquilo.ObserveReplies
import Aquilo.ObserveSessions
import Aquilo.SeedTiming
import Aquilo.PumpOutMargins
import Aquilo.Separated
import Aquilo.RawString
import Aquilo.ReadFallbacks
import Aquilo.Handover
import Aquilo.Args
import Aquilo.DerivedStruct
import Aquilo.StateFormat
import Aquilo.ReadFormat
import Aquilo.LookupTable
import Aquilo.BatteryTable
import Aquilo.FirmwareAgreement
import Aquilo.ConnectRoundTrip
import Aquilo.Panicking
import Aquilo.DecoderSafety
import Aquilo.ServeSafety
import Aquilo.Baseline
import Aquilo.Figures
import Aquilo.Binary64
import Aquilo.BinaryReadings
import Aquilo.BinaryServe
import Aquilo.FlatHistory
import Aquilo.Resync
import Aquilo.LearnsState
import Aquilo.ServerAsCloud
import Aquilo.SubscribeGrammar
import Aquilo.RawCrossCheck
