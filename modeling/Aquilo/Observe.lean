/-
The stand-in broker of `observe`: one device session, with everything it handles
and everything it writes to the socket.
-/
import Aquilo.Interlude
import Aquilo.Learn

namespace Aquilo

open Interlude RustStr

/-- A packet `observe` writes to its socket. -/
inductive Sent where
  | connack
  | suback (packetId : UInt16) (count : ℕ)
  | puback (packetId : UInt16)
  | pingresp
  | publish (topic : String) (payload : List UInt8)
deriving DecidableEq, Repr

/-- The bytes of a packet; what `observe` publishes is retained. -/
def Sent.bytes : Sent → List UInt8
  | connack => MqttWire.connack
  | suback packetId count => MqttWire.suback packetId count
  | puback packetId => MqttWire.puback packetId
  | pingresp => MqttWire.pingresp
  | publish topic payload => MqttWire.publish topic payload true

def Sent.isSeed : Sent → Bool
  | publish _ _ => true
  | _ => false

/-- A packet handled or written. -/
inductive Activity where
  | handled (p : Packet)
  | sent (m : Sent)
deriving DecidableEq, Repr

def Activity.sent? : Activity → Option Sent
  | handled _ => none
  | sent m => some m

/-- What one read from the socket returns, with the clocks and writes at each of
its packets and the clock after them; an empty read is the end. -/
structure SocketRead where
  bytes : List UInt8
  clock : ℕ → String
  ticks : ℕ → Tick
  now : String

/-- One turn of the session: a packet, or the check after those of a read. -/
inductive ObserveEvent where
  | packet (p : Packet) (now : String) (tick : Tick)
  | seedCheck (now : String)

/-- The session state besides the decoder. -/
structure Observe where
  collector : Learn
  subscribed : Bool
  seeded : Bool

/-- A neutral placeholder, the documented sample. -/
def defaultSeedState (sensor now : String) : SensorState where
  id := sensor
  name := sensor
  lvl := 751 / 5
  pct := 20
  bat := 83
  lstRead := now
  lstEmpty := ""
  daysLeft := 0
  lvlToFull := 110
  «from» := "node-4"

namespace Observe

/-- A new connection: no facts yet, the flag shared with the others. -/
def connected (written : Bool) : Observe where
  collector := { Learn.initial with written }
  subscribed := false
  seeded := false

section Session

variable (codec : Codec) (opts : OnboardOptions)

/-- The three retained messages of a connect. -/
def seedRetained (rid firmware sensor now : String) : List Sent :=
  let topics := Topics.new rid
  let radar : Json := .obj [
    ("sensor", .str sensor), ("skip", .int 9), ("repeat", .int 9)]
  [ .publish topics.version (Utf8.encode firmware),
    .publish topics.radarParams (codec.jsonBytes radar),
    .publish topics.state
      (codec.jsonBytes (defaultSeedState sensor now).toJson) ]

def handlePacket (s : Observe) (p : Packet) (now : String) (tick : Tick) :
    Observe × List Sent :=
  match p with
  | .connect c =>
      ({ s with
          collector := s.collector.step codec opts (.receive (.deviceConnect c)) },
        [.connack])
  | .subscribe sub =>
      ({ s with subscribed := true }, [.suback sub.packetId sub.topics.length])
  | .publish m =>
      let received := s.collector.step codec opts
        (.receive (.devicePublish m.topic m.payload now))
      ({ s with collector := received.step codec opts (.finalize tick) },
        (m.packetId.map Sent.puback).toList)
  | .pingReq => (s, [.pingresp])
  | .disconnect => (s, [])
  | .other _ => (s, [])

/-- Seed once, when subscribed and the receiver and firmware are known. -/
def seedCheck (s : Observe) (now : String) : Observe × List Sent :=
  if s.subscribed && !s.seeded then
    match s.collector.facts.receiverId, s.collector.facts.firmware with
    | some rid, some firmware =>
        let sensor := s.collector.facts.sensorId.getD rid
        ({ s with seeded := true }, seedRetained codec rid firmware sensor now)
    | _, _ => (s, [])
  else (s, [])

def step (s : Observe) : ObserveEvent → Observe × List Activity
  | .packet p now tick =>
      let handled := s.handlePacket codec opts p now tick
      (handled.1, .handled p :: handled.2.map .sent)
  | .seedCheck now =>
      let seeded := s.seedCheck codec now
      (seeded.1, seeded.2.map .sent)

end Session

end Observe

/-- The events of the packets of one read. -/
def SocketRead.packetEvents (r : SocketRead) (packets : List Packet) :
    List ObserveEvent :=
  packets.zipIdx.map fun (p, k) => .packet p (r.clock k) (r.ticks k)

/-- The events of a connection.  The packets of a read are all handled before the
seeds are considered; a DISCONNECT ends the session at once. -/
def observeEvents (d : Decoder) : List SocketRead → List ObserveEvent
  | [] => []
  | r :: reads =>
      if r.bytes = [] then []
      else
        let decoded := d.push r.bytes
        if .disconnect ∈ decoded.1 then
          r.packetEvents (decoded.1.takeWhile (· ≠ .disconnect))
        else
          r.packetEvents decoded.1 ++
            .seedCheck r.now :: observeEvents decoded.2 reads

/-- Everything a connection handles and writes, in order. -/
def observeConnection (codec : Codec) (opts : OnboardOptions) (written : Bool)
    (reads : List SocketRead) : List Activity :=
  said (Observe.step codec opts) (Observe.connected written)
    (observeEvents Decoder.new reads)

namespace Packet

def connect? : Packet → Option Connect
  | connect c => some c
  | _ => none

def isSubscribe : Packet → Bool
  | subscribe _ => true
  | _ => false

/-- The firmware a `/log` publish announces. -/
def announced (codec : Codec) : Packet → Option String
  | publish m =>
      if endsWith m.topic "/log" then firmwareFromLog codec m.payload else none
  | _ => none

/-- The sensor a `/read` publish names. -/
def sensor? (codec : Codec) : Packet → Option String
  | publish m =>
      if endsWith m.topic "/log" then none
      else if endsWith m.topic "/read" then
        (Reading.parse codec m.payload).toOption.map Reading.sensor
      else none
  | _ => none

/-- The replies a packet is owed. -/
def owed : Packet → List Sent
  | connect _ => [.connack]
  | subscribe s => [.suback s.packetId s.topics.length]
  | publish m => (m.packetId.map Sent.puback).toList
  | pingReq => [.pingresp]
  | disconnect => []
  | other _ => []

/-- A packet and the replies to it. -/
def exchange (p : Packet) : List Activity := .handled p :: p.owed.map .sent

end Packet

namespace Observe

open Packet

section Abstract

variable (codec : Codec) (opts : OnboardOptions)

/-- A CONNECT, a SUBSCRIBE and an announced firmware have been heard. -/
def seedDue (heard : List Packet) : Bool :=
  (heard.findSome? Packet.connect?).isSome && heard.any Packet.isSubscribe &&
    (heard.findSome? (Packet.announced codec)).isSome

/-- The seeds for what has been heard. -/
def seeds (heard : List Packet) (now : String) : List Sent :=
  match heard.findSome? Packet.connect?, heard.findSome? (Packet.announced codec)
    with
  | some c, some firmware =>
      seedRetained codec c.receiverId firmware
        ((heard.findSome? (Packet.sensor? codec)).getD c.receiverId) now
  | _, _ => []

/-- An event without its clocks and writes. -/
def view : ObserveEvent → Interlude.Event Packet String
  | .packet p _ _ => .item p
  | .seedCheck now => .pause now

/-- The session state keeps track of the packets heard. -/
structure Tracks (heard : List Packet) (made : Bool) (s : Observe) : Prop where
  receiverId : s.collector.facts.receiverId =
    (heard.findSome? Packet.connect?).map Connect.receiverId
  firmware : s.collector.facts.firmware =
    heard.findSome? (Packet.announced codec)
  sensorId : s.collector.facts.sensorId = heard.findSome? (Packet.sensor? codec)
  subscribed : s.subscribed = heard.any Packet.isSubscribe
  seeded : s.seeded = made

theorem tracks_connected (written : Bool) :
    Tracks codec [] false (connected written) := ⟨rfl, rfl, rfl, rfl, rfl⟩

/-- What a packet does to the facts that seeding looks at. -/
theorem handlePacket_facts (s : Observe) (p : Packet) (now : String)
    (tick : Tick) :
    let f := s.collector.facts
    let f' := (s.handlePacket codec opts p now tick).1.collector.facts
    f'.receiverId = f.receiverId.or (p.connect?.map Connect.receiverId) ∧
      f'.firmware = f.firmware.or (p.announced codec) ∧
      f'.sensorId = f.sensorId.or (p.sensor? codec) := by
  have hsource : ∀ src : Source,
      let f := s.collector.facts
      let f' := f.apply codec src
      f'.receiverId = f.receiverId.or (src.connect?.map Connect.receiverId) ∧
        f'.firmware = f.firmware.or (src.offer codec).firmware ∧
        f'.sensorId = f.sensorId.or (src.offer codec).sensorId := fun src =>
    ⟨(Facts.apply_credentials codec _ src).1,
      (Facts.take_offer_fields codec _ src).1,
      (Facts.take_offer_fields codec _ src).2.1⟩
  cases p with
  | connect c => exact hsource (.deviceConnect c)
  | publish m =>
      have hsensor : ((Source.devicePublish m.topic m.payload now).deviceReading
          codec).map (fun found => found.1.sensor) = (publish m).sensor? codec := by
        simp only [Source.deviceReading, sensor?]
        split
        · rfl
        · split
          · rw [Option.map_map]
            rfl
          · rfl
      have hpublish := hsource (.devicePublish m.topic m.payload now)
      simp only [Source.offer, hsensor] at hpublish
      simp only [handlePacket, Learn.step, Learn.maybeFinalize_facts]
      simpa [Source.connect?, Source.announcedFirmware, Source.cloudFirmware,
        Source.radarParams, Source.cloudSensor, connect?, Packet.announced]
        using hpublish
  | subscribe sub => simp [handlePacket, connect?, Packet.announced, sensor?]
  | pingReq => simp [handlePacket, connect?, Packet.announced, sensor?]
  | disconnect => simp [handlePacket, connect?, Packet.announced, sensor?]
  | other kind => simp [handlePacket, connect?, Packet.announced, sensor?]

theorem Tracks.packet {heard : List Packet} {made : Bool} {s : Observe}
    (h : Tracks codec heard made s) (p : Packet) (now : String) (tick : Tick) :
    Tracks codec (heard ++ [p]) made
      (s.handlePacket codec opts p now tick).1 where
  receiverId := by
    rw [(handlePacket_facts codec opts s p now tick).1, h.receiverId,
      List.findSome?_append, Option.map_or, List.findSome?_singleton]
  firmware := by
    rw [(handlePacket_facts codec opts s p now tick).2.1, h.firmware,
      List.findSome?_append, List.findSome?_singleton]
  sensorId := by
    rw [(handlePacket_facts codec opts s p now tick).2.2, h.sensorId,
      List.findSome?_append, List.findSome?_singleton]
  subscribed := by
    rw [List.any_append, ← h.subscribed]
    cases p <;> simp [handlePacket, isSubscribe]
  seeded := by
    rw [← h.seeded]
    cases p <;> rfl

/-- The check seeds exactly when seeding is due and has not been done. -/
theorem Tracks.seedCheck {heard : List Packet} {made : Bool} {s : Observe}
    (h : Tracks codec heard made s) (now : String) :
    Tracks codec heard (made || seedDue codec heard)
        (s.seedCheck codec now).1 ∧
      (s.seedCheck codec now).2 =
        if !made && seedDue codec heard then seeds codec heard now else [] := by
  have hreceiver := h.receiverId
  have hfirmware := h.firmware
  by_cases hdue : seedDue codec heard = true
  · obtain ⟨⟨hsome, hsubscribe⟩, hannounced⟩ : (_ ∧ _) ∧ _ := by
      simpa only [seedDue, Bool.and_eq_true] using hdue
    obtain ⟨c, hconnect⟩ := Option.isSome_iff_exists.mp hsome
    obtain ⟨firmware, hannounced⟩ := Option.isSome_iff_exists.mp hannounced
    rw [hconnect] at hreceiver
    rw [hannounced] at hfirmware
    cases made with
    | true =>
        simp only [Observe.seedCheck, h.seeded, Bool.not_true, Bool.and_false,
          Bool.false_and, Bool.true_or, Bool.false_eq_true, if_false]
        exact ⟨h, trivial⟩
    | false =>
        simp only [Observe.seedCheck, h.seeded, h.subscribed, hsubscribe, hdue,
          hreceiver, hfirmware, h.sensorId, seeds, hconnect, hannounced,
          Option.map_some, Bool.not_false, Bool.and_self, Bool.or_true, if_true]
        exact ⟨⟨h.receiverId, h.firmware, h.sensorId, hsubscribe.symm, rfl⟩,
          trivial⟩
  · have hstay : s.seedCheck codec now = (s, []) := by
      simp only [Observe.seedCheck]
      split
      · rename_i hopen
        split
        · rename_i rid firmware hrid hfw
          rw [hreceiver] at hrid
          apply absurd _ hdue
          simp only [seedDue, Bool.and_eq_true]
          refine ⟨⟨?_, ?_⟩, ?_⟩
          · rw [← Option.isSome_map (f := Connect.receiverId), hrid]
            rfl
          · rw [← h.subscribed]
            exact (Bool.and_eq_true_iff.mp hopen).1
          · rw [← hfirmware, hfw]
            rfl
        · rfl
      · rfl
    rw [hstay, Bool.eq_false_iff.mpr hdue, Bool.or_false, Bool.and_false]
    exact ⟨h, rfl⟩

/-- A session says what the conversation owes, with the seeds in the first pause
at which they are due. -/
theorem said_eq_output (written : Bool) (events : List ObserveEvent) :
    said (step codec opts) (connected written) events =
      output exchange (seedDue codec)
        (fun heard now => (seeds codec heard now).map .sent) [] false
        (events.map view) := by
  apply Interlude.said_eq_output (Tracks codec)
  · intro heard made s e p h hview
    cases e with
    | packet p' now tick =>
        cases hview
        refine ⟨h.packet codec opts p now tick, ?_⟩
        cases p <;> rfl
    | seedCheck now => cases hview
  · intro heard made s e now h hview
    cases e with
    | packet p' now tick => cases hview
    | seedCheck now' =>
        cases hview
        obtain ⟨htracks, hout⟩ := h.seedCheck codec now
        refine ⟨htracks, ?_⟩
        simp only [step, hout]
        split <;> rfl
  · exact tracks_connected codec written

end Abstract

end Observe

/-- The packets a connection handles: those of the reads before the end of the
stream, up to the first DISCONNECT. -/
def heardPackets (reads : List SocketRead) : List Packet :=
  (Decoder.new.pushAll
    ((reads.map SocketRead.bytes).takeWhile (· ≠ []))).1.takeWhile
      (· ≠ .disconnect)

theorem takeWhile_append_of_mem {α : Type} {p : α → Bool} {xs : List α} {x : α}
    (hx : x ∈ xs) (hp : p x = false) (ys : List α) :
    (xs ++ ys).takeWhile p = xs.takeWhile p := by
  induction xs with
  | nil => cases hx
  | cons y xs ih =>
      rw [List.cons_append, List.takeWhile_cons, List.takeWhile_cons]
      split
      · rename_i hy
        rcases List.mem_cons.mp hx with rfl | hx
        · exact absurd (hp.symm.trans hy) Bool.false_ne_true
        · rw [ih hx]
      · rfl

theorem items_packetEvents (r : SocketRead) (packets : List Packet) :
    items ((r.packetEvents packets).map Observe.view) = packets := by
  have hview : (r.packetEvents packets).map Observe.view =
      packets.map Interlude.Event.item := by
    rw [SocketRead.packetEvents, List.map_map]
    conv_rhs => rw [← List.zipIdx_map_fst 0 packets, List.map_map]
    rfl
  rw [hview, items_map_item]

theorem items_observeEvents (d : Decoder) (reads : List SocketRead) :
    items ((observeEvents d reads).map Observe.view) =
      (d.pushAll ((reads.map SocketRead.bytes).takeWhile (· ≠ []))).1.takeWhile
        (· ≠ .disconnect) := by
  induction reads generalizing d with
  | nil => rfl
  | cons r reads ih =>
      rw [observeEvents, List.map_cons]
      by_cases hend : r.bytes = []
      · rw [if_pos hend, List.takeWhile_cons_of_neg (by simp [hend])]
        rfl
      · rw [if_neg hend, List.takeWhile_cons_of_pos (by simp [hend]),
          Decoder.pushAll]
        dsimp only
        split
        · rename_i hmem
          rw [items_packetEvents, takeWhile_append_of_mem hmem (by simp)]
        · rename_i hmem
          rw [List.map_append, items_append, items_packetEvents, List.map_cons,
            Observe.view, items, ih, List.takeWhile_append_of_pos]
          intro p hp
          simp
          rintro rfl
          exact hmem hp

namespace Observe

section Log

variable (codec : Codec) (opts : OnboardOptions)

/-- What had been heard at the end of the first read at which seeding is due. -/
def seedingPoint (reads : List SocketRead) : Option (List Packet × String) :=
  occasion (seedDue codec) [] ((observeEvents Decoder.new reads).map view)

variable {codec}

theorem exists_of_seedDue {heard : List Packet} (h : seedDue codec heard = true)
    (now : String) :
    ∃ c firmware, heard.findSome? Packet.connect? = some c ∧
      (∃ s, .subscribe s ∈ heard) ∧
      heard.findSome? (Packet.announced codec) = some firmware ∧
      seeds codec heard now = seedRetained codec c.receiverId firmware
        ((heard.findSome? (Packet.sensor? codec)).getD c.receiverId) now := by
  simp only [seedDue, Bool.and_eq_true] at h
  obtain ⟨⟨hconnect, hsubscribe⟩, hannounced⟩ := h
  obtain ⟨c, hc⟩ := Option.isSome_iff_exists.mp hconnect
  obtain ⟨firmware, hfirmware⟩ := Option.isSome_iff_exists.mp hannounced
  refine ⟨c, firmware, hc, ?_, hfirmware, ?_⟩
  · obtain ⟨p, hp, hsub⟩ := List.any_eq_true.mp hsubscribe
    cases p with
    | subscribe s => exact ⟨s, hp⟩
    | _ => cases hsub
  · simp only [seeds, hc, hfirmware]

theorem observeConnection_of_no_seeding {reads : List SocketRead}
    (h : seedingPoint codec reads = none) (written : Bool) :
    observeConnection codec opts written reads =
      (heardPackets reads).flatMap Packet.exchange := by
  rw [observeConnection, said_eq_output, output_of_no_occasion _ _ _ h,
    items_observeEvents, heardPackets]

theorem observeConnection_of_seeding {reads : List SocketRead}
    {done : List Packet} {now : String}
    (h : seedingPoint codec reads = some (done, now)) (written : Bool) :
    seedDue codec done = true ∧ ∃ rest, heardPackets reads = done ++ rest ∧
      observeConnection codec opts written reads =
        done.flatMap Packet.exchange ++ (seeds codec done now).map .sent ++
          rest.flatMap Packet.exchange := by
  obtain ⟨hdue, before, after, hitems, hdone, hout⟩ :=
    output_of_occasion Packet.exchange (seedDue codec)
      (fun heard now => (seeds codec heard now).map .sent) h
  rw [items_observeEvents] at hitems
  obtain rfl : done = before := hdone
  refine ⟨hdue, after, hitems, ?_⟩
  rw [observeConnection, said_eq_output, hout]

end Log

end Observe

end Aquilo
