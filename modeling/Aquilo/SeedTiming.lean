/-
When `observe` seeds.  Any SUBSCRIBE counts as being subscribed, and the three
seeds are sent once, so a device that has not yet subscribed to their topics
misses them.
-/
import Aquilo.Observe

namespace Aquilo

/-- Every seed is written after a SUBSCRIBE to its topic has been handled. -/
def SeedsReceivable (log : List Activity) : Prop :=
  ∀ before topic payload after,
    log = before ++ .sent (.publish topic payload) :: after →
    ∃ s, .handled (.subscribe s) ∈ before ∧ topic ∈ s.topics

/-- The topics of the seeds. -/
def seedTopics (rid : String) : List String :=
  let topics := Topics.new rid
  [topics.version, topics.radarParams, topics.state]

/-- Among packets there is a SUBSCRIBE to each of some topics. -/
def SubscribedTo (heard : List Packet) (topics : List String) : Prop :=
  ∀ topic ∈ topics, ∃ s, .subscribe s ∈ heard ∧ topic ∈ s.topics

theorem handled_mem_exchanges {heard : List Packet} {p : Packet} :
    Activity.handled p ∈ heard.flatMap Packet.exchange ↔ p ∈ heard := by
  simp [Packet.exchange]

/-- No reply is a publish. -/
theorem publish_not_mem_exchanges (heard : List Packet) (topic : String)
    (payload : List UInt8) :
    Activity.sent (.publish topic payload) ∉ heard.flatMap Packet.exchange := by
  intro hmem
  obtain ⟨p, -, hp⟩ := List.mem_flatMap.mp hmem
  cases p with
  | publish m => cases h : m.packetId <;> simp [Packet.exchange, Packet.owed, h] at hp
  | _ => simp [Packet.exchange, Packet.owed] at hp

theorem prefix_of_append_cons {α : Type} {xs ys before after : List α} {x : α}
    (h : xs ++ ys = before ++ x :: after) (hx : x ∉ xs) : xs <+: before := by
  rcases List.prefix_or_prefix_of_prefix ⟨ys, h⟩ (List.prefix_append before _) with
    hpre | ⟨more, rfl⟩
  · exact hpre
  · cases more with
    | nil => exact ⟨[], by simp⟩
    | cons y more =>
        rw [List.append_assoc, List.append_cancel_left_eq] at h
        obtain rfl : y = x := (List.cons.inj h).1
        exact absurd (by simp) hx

/-- The seeds are publishes on the seed topics. -/
theorem mem_seedTopics_iff (codec : Codec) {rid firmware sensor now topic : String} :
    topic ∈ seedTopics rid ↔ ∃ payload, Sent.publish topic payload ∈
      Observe.seedRetained codec rid firmware sensor now := by
  simp [seedTopics, Observe.seedRetained, exists_or]

section Timing

variable {codec : Codec} (opts : OnboardOptions) (written : Bool)
  {reads : List SocketRead}

theorem receivable_of_no_seeding (h : Observe.seedingPoint codec reads = none) :
    SeedsReceivable (observeConnection codec opts written reads) := by
  intro before topic payload after hlog
  rw [Observe.observeConnection_of_no_seeding opts h written] at hlog
  apply absurd _ (publish_not_mem_exchanges (heardPackets reads) topic payload)
  rw [hlog]
  simp

/-- Seeds that are received are subscribed to when they are due. -/
theorem subscribedTo_of_receivable {done : List Packet} {now : String}
    (h : Observe.seedingPoint codec reads = some (done, now))
    (hreceivable : SeedsReceivable (observeConnection codec opts written reads)) :
    ∃ c, done.findSome? Packet.connect? = some c ∧
      SubscribedTo done (seedTopics c.receiverId) := by
  obtain ⟨hdue, rest, -, hlog⟩ := Observe.observeConnection_of_seeding opts h written
  obtain ⟨c, firmware, hc, -, -, hseeds⟩ := Observe.exists_of_seedDue hdue now
  refine ⟨c, hc, ?_⟩
  intro topic htopic
  obtain ⟨payload, hmem⟩ := (mem_seedTopics_iff codec).mp htopic
  obtain ⟨pre, post, hsplit⟩ := List.append_of_mem hmem
  rw [hseeds, hsplit] at hlog
  obtain ⟨s, hs, htopic⟩ := hreceivable
    (done.flatMap Packet.exchange ++ pre.map .sent) topic payload
    (post.map .sent ++ rest.flatMap Packet.exchange) (by rw [hlog]; simp)
  refine ⟨s, ?_, htopic⟩
  rcases List.mem_append.mp hs with hs | hs
  · exact handled_mem_exchanges.mp hs
  · obtain ⟨m, -, hm⟩ := List.mem_map.mp hs
    cases hm

theorem receivable_of_subscribedTo {done : List Packet} {now : String}
    (h : Observe.seedingPoint codec reads = some (done, now)) {c : Connect}
    (hc : done.findSome? Packet.connect? = some c)
    (hsubscribed : SubscribedTo done (seedTopics c.receiverId)) :
    SeedsReceivable (observeConnection codec opts written reads) := by
  obtain ⟨hdue, rest, -, hlog⟩ := Observe.observeConnection_of_seeding opts h written
  obtain ⟨c', firmware, hc', -, -, hseeds⟩ := Observe.exists_of_seedDue hdue now
  obtain rfl := Option.some.inj (hc.symm.trans hc')
  intro before topic payload after hbefore
  rw [hlog, List.append_assoc] at hbefore
  -- the publish is one of the seeds, so all that was done lies before it
  have hpre := prefix_of_append_cons hbefore
    (publish_not_mem_exchanges done topic payload)
  have hmem : Activity.sent (.publish topic payload) ∈
      done.flatMap Packet.exchange ++
        ((Observe.seeds codec done now).map .sent ++
          rest.flatMap Packet.exchange) := by
    rw [hbefore]
    simp
  simp only [List.mem_append, publish_not_mem_exchanges, false_or,
    or_false] at hmem
  obtain ⟨m, hm, heq⟩ := List.mem_map.mp hmem
  obtain rfl := Activity.sent.inj heq
  rw [hseeds] at hm
  obtain ⟨s, hs, htopic⟩ :=
    hsubscribed topic ((mem_seedTopics_iff codec).mpr ⟨payload, hm⟩)
  exact ⟨s, hpre.subset (handled_mem_exchanges.mpr hs), htopic⟩

end Timing

/-- The seeds all come after their subscriptions exactly if, at the end of the
first read by which a CONNECT, any SUBSCRIBE and a firmware have been heard, the
SUBSCRIBEs heard name the topics of all three. -/
theorem seeds_follow_subscriptions_iff (codec : Codec) (opts : OnboardOptions)
    (written : Bool) (reads : List SocketRead) :
    SeedsReceivable (observeConnection codec opts written reads) ↔
      ∀ done now, Observe.seedingPoint codec reads = some (done, now) →
        ∃ c, done.findSome? Packet.connect? = some c ∧
          SubscribedTo done (seedTopics c.receiverId) := by
  constructor
  · intro hreceivable done now hpoint
    exact subscribedTo_of_receivable opts written hpoint hreceivable
  · intro hsubscribed
    cases hpoint : Observe.seedingPoint codec reads with
    | none => exact receivable_of_no_seeding opts written hpoint
    | some point =>
        obtain ⟨done, now⟩ := point
        obtain ⟨c, hc, htopics⟩ := hsubscribed done now hpoint
        exact receivable_of_subscribedTo opts written hpoint hc htopics

namespace Sample

/-- A SUBSCRIBE as an MQTT 3.1.1 client sends it. -/
def subscribeBytes (filters : List String) : List UInt8 :=
  MqttWire.frame 0x82 ([0, 1] ++ filters.flatMap fun f =>
    [0, UInt8.ofNat (Utf8.encode f).length] ++ Utf8.encode f ++ [0])

def socketRead (bytes : List UInt8) : SocketRead :=
  ⟨bytes, fun _ => tick.now, fun _ => tick, tick.now⟩

/-- The device announces its firmware after the first of its SUBSCRIBEs. -/
def announcesEarly : List SocketRead :=
  [ socketRead connectBytes,
    socketRead (subscribeBytes [topics.ping]),
    socketRead (MqttWire.publish topics.log (Utf8.encode "1.7.1.9_sh_en") false),
    socketRead (subscribeBytes (seedTopics "ae83fc")) ]

/-- What has been heard when the seeds go out. -/
def heardEarly : List Packet :=
  [ .connect { clientId := "CieczSensorae83fc", username := some "ae83fc",
               password := some "48007129" },
    .subscribe { packetId := 1, topics := ["/ping"] },
    .publish { topic := topics.log, payload := Utf8.encode "1.7.1.9_sh_en",
               qos := 0, retain := false, packetId := none } ]

theorem seedingPoint_announcesEarly :
    Observe.seedingPoint onboardCodec announcesEarly =
      some (heardEarly, tick.now) := by
  decide +kernel

end Sample

/-- The seeds go out before the device has subscribed to any of them. -/
theorem announcesEarly_misses_seeds :
    ¬ SeedsReceivable (observeConnection Sample.onboardCodec
      Sample.onboardOptions false Sample.announcesEarly) := by
  intro hreceivable
  obtain ⟨c, hc, hsubscribed⟩ := subscribedTo_of_receivable Sample.onboardOptions
    false Sample.seedingPoint_announcesEarly hreceivable
  obtain ⟨s, hs, hversion⟩ := hsubscribed (Topics.new c.receiverId).version
    (by simp [seedTopics])
  obtain rfl : s = { packetId := 1, topics := ["/ping"] } := by
    simpa [Sample.heardEarly] using hs
  cases hc
  revert hversion
  decide

end Aquilo
