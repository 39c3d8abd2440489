/-
A server in the cloud's place.  Learn takes what the broker of a server retains for
what the cloud would deliver: the configuration and the state it writes make a
server that serves the same.
-/
import Aquilo.BrokerAgreement
import Aquilo.Handover
import Aquilo.LearnsState

namespace Aquilo

open ExactFloat RustStr LastWrite

namespace Topics

end Topics

section Heard

variable (codec : Codec) (cfg : Config) (state : SensorState) (version : String)

variable {codec cfg state version}

end Heard

/-- A configuration that is a server's own, but for the radar parameters, which may
come too late, and for what does not cross the wire. -/
structure Reproduces (cfg : Config) (state : SensorState) (version : String)
    (g : GeneratedConfig) : Prop where
  receiverId : g.receiverId = cfg.mqttUser
  mqttUser : g.mqttUser = cfg.mqttUser
  mqttPass : g.mqttPass = cfg.mqttPass
  firmwareVersion : g.firmwareVersion = version
  sensorId : g.sensorId = cfg.sensorId
  sensorName : g.sensorName = cfg.sensorName
  radarSkip : g.radarSkip = cfg.radarSkip ∨ g.radarSkip = 9
  radarRepeat : g.radarRepeat = cfg.radarRepeat ∨ g.radarRepeat = 9
  seed : g.seed = state.seed

section Collected

variable {codec : Codec} {cfg : Config} {state : SensorState} {version : String}
variable {store : Store String (List UInt8)} {sources : List Source}

end Collected

theorem Reproduces.state {cfg : Config} {state : SensorState} {version : String}
    {g : GeneratedConfig} (h : Reproduces cfg state version g)
    (hid : state.id = cfg.sensorId) (hname : state.name = cfg.sensorName)
    (now : String) : g.state now = { state with lstRead := now } := by
  have hseed := h.seed
  rw [GeneratedConfig.state, h.sensorId, h.sensorName, hseed, hid, hname]
  rfl

namespace Sample

end Sample

end Aquilo
