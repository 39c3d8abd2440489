/-
From the server's retained state to the facts of a learning proxy: what one
prints, frames and publishes the other unframes, dispatches and reads.
-/
import Aquilo.Onboard
import Aquilo.PublishRoundTrip
import Aquilo.Serve

namespace Aquilo

open ExactFloat RustStr

/-- The retained message a state is published as. -/
def retainedState (codec : Codec) (rid : String) (s : SensorState) : Message where
  topic := (Topics.new rid).state
  payload := codec.jsonBytes s.toJson
  retain := true

theorem not_startsWith_version_state (rid : String) :
    startsWith (Topics.new rid).state "/version/" = false := by
  simp [startsWith, String.toList_append, List.isPrefixOf_cons_cons]

theorem endsWith_state (rid : String) :
    endsWith (Topics.new rid).state "/state" = true := by
  rw [endsWith, Topics.new_state, String.toList_append,
    List.isSuffixOf_iff_suffix]
  exact List.suffix_append _ _

namespace Facts

/-- The keys the proxy reads are the keys the server prints. -/
theorem stateSensor_toJson (s : SensorState) :
    ∃ v, stateSensor s.toJson = some v ∧ (v.index "id").asStr = some s.id ∧
      (v.index "name").asStr = some s.name ∧
      (s.InRange → seedOfState s.toJson v = s.seed) := by
  refine ⟨_, rfl, rfl, rfl, ?_⟩
  intro h
  have hasI64 : ∀ n : ℤ, InI64 n → (Json.int n).asI64.getD 0 = n := by
    intro n hn
    rw [Json.asI64, if_pos hn, Option.getD_some]
  calc seedOfState s.toJson _
      = ⟨s.lvl, (Json.int s.pct).asI64.getD 0, (Json.int s.bat).asI64.getD 0,
          (Json.int s.daysLeft).asI64.getD 0,
          (Json.int s.lvlToFull).asI64.getD 0, s.lstEmpty, s.from⟩ := rfl
    _ = s.seed := by
        rw [hasI64 _ h.pct, hasI64 _ h.bat, hasI64 _ h.daysLeft,
          hasI64 _ h.lvlToFull]
        rfl

theorem applyCloudPublish_state {codec : Codec} {s : SensorState}
    (hrange : s.InRange)
    (hjson : codec.jsonValue (codec.jsonBytes s.toJson) = some s.toJson)
    (rid : String) (f : Facts) :
    f.applyCloudPublish codec (Topics.new rid).state (codec.jsonBytes s.toJson) =
      { f with
        sensorId := f.sensorId.or (some s.id)
        sensorName := f.sensorName.or (some s.name)
        seed := f.seed.or (some s.seed) } := by
  obtain ⟨v, hsensor, hid, hname, hseed⟩ := stateSensor_toJson s
  rw [applyCloudPublish, not_startsWith_version_state, endsWith_state,
    if_neg Bool.false_ne_true, if_pos rfl, applyCloudState, hjson]
  simp only [hsensor, hid, hname, hseed hrange]

/-- What has been collected is kept by all later messages. -/
theorem foldl_apply_keeps (codec : Codec) (f : Facts) (sources : List Source) :
    let f' := sources.foldl (apply codec) f
    (∀ id, f.sensorId = some id → f'.sensorId = some id) ∧
      (∀ name, f.sensorName = some name → f'.sensorName = some name) ∧
      ∀ seed, f.seed = some seed → f'.seed = some seed := by
  refine ⟨?_, ?_, ?_⟩
  · intro id h
    exact FirstCome.slot_foldl_of_some
      (fun f src => (take_offer_fields codec f src).2.1) h sources
  · intro name h
    exact FirstCome.slot_foldl_of_some
      (fun f src => (take_offer_fields codec f src).2.2.1) h sources
  · intro seed h
    exact FirstCome.slot_foldl_of_some
      (fun f src => (take_offer_fields codec f src).2.2.2.2.2) h sources

end Facts

/-- Facts with the identity and the seed of a state lead to that state being
stored, read just now. -/
theorem initialState_of_learned {facts : Facts} {s : SensorState}
    (hid : facts.sensorId = some s.id) (hname : facts.sensorName = some s.name)
    (hseed : facts.seed = some s.seed) {opts : OnboardOptions}
    {g : GeneratedConfig} (h : generatedConfig facts opts = .ok g)
    (now : String) :
    (initialState g now).lastState = some { s with lstRead := now } := by
  obtain ⟨-, -, -, -, hgid, hgseed, hgname, -⟩ := generatedConfig_eq_ok h
  have hid' : g.sensorId = s.id := Option.some.inj (hgid.symm.trans hid)
  have hseed' : g.seed = s.seed := Option.some.inj (hgseed.symm.trans hseed)
  have hname' : g.sensorName = s.name := by rw [hgname, hname, Option.getD_some]
  rw [initialState, hid', hname', hseed']
  rfl

/-- A state published by the server and fed to a decoder in any chunks is one
PUBLISH, from which facts without a sensor and a seed take the state's; once
complete, they store the state itself, read just now. -/
theorem learns_published_state (codec : Codec) (s : SensorState)
    (hrange : s.InRange) (rid : String)
    (hjson : codec.jsonValue (codec.jsonBytes s.toJson) = some s.toJson)
    (hdomain : (retainedState codec rid s).InDomain)
    (chunks : List (List UInt8))
    (hchunks : chunks.flatten = (retainedState codec rid s).encode)
    (f : Facts) (hid : f.sensorId = none) (hname : f.sensorName = none)
    (hseed : f.seed = none) :
    ∃ p : Publish, Decoder.new.pushAll chunks = ([.publish p], Decoder.new) ∧
      let learned := f.applyCloudPublish codec p.topic p.payload
      learned.sensorId = some s.id ∧ learned.sensorName = some s.name ∧
        learned.seed = some s.seed ∧
        ∀ (sources : List Source) opts,
          (sources.foldl (Facts.apply codec) learned).isComplete = true →
          ∃ g, generatedConfig (sources.foldl (Facts.apply codec) learned) opts =
              .ok g ∧
            ∀ now, (initialState g now).lastState =
              some { s with lstRead := now } := by
  have hframes : chunks.flatten =
      [(retainedState codec rid s).wireFrame hdomain.2].flatMap
        WireFrame.bytes := by
    rw [hchunks, List.flatMap_singleton, Message.wireFrame_bytes]
  have hpacket := (retainedState codec rid s).wireFrame_packet_of_inDomain hdomain
  have hpushed := Decoder.pushAll_frames _ hframes
  rw [List.filterMap_cons_some hpacket, List.filterMap_nil] at hpushed
  refine ⟨_, hpushed, ?_⟩
  intro learned
  have hlearned : learned = { f with
      sensorId := some s.id, sensorName := some s.name, seed := some s.seed } := by
    have happly := Facts.applyCloudPublish_state hrange hjson rid f
    rw [hid, hname, hseed] at happly
    exact happly
  have hid' : learned.sensorId = some s.id := by rw [hlearned]
  have hname' : learned.sensorName = some s.name := by rw [hlearned]
  have hseed' : learned.seed = some s.seed := by rw [hlearned]
  refine ⟨hid', hname', hseed', ?_⟩
  intro sources opts hcomplete
  obtain ⟨hkeepId, hkeepName, hkeepSeed⟩ :=
    Facts.foldl_apply_keeps codec learned sources
  obtain ⟨g, hg⟩ := (generatedConfig_ok_iff opts).mpr hcomplete
  exact ⟨g, hg, initialState_of_learned (hkeepId _ hid') (hkeepName _ hname')
    (hkeepSeed _ hseed') hg⟩

namespace Sample

/-- Codecs that print JSON and read back one state. -/
def stateCodec (s : SensorState) : Codec :=
  { printingCodec with
    jsonValue := fun payload =>
      if payload = printingCodec.jsonBytes s.toJson then some s.toJson
      else none }

theorem stateCodec_reads_back (s : SensorState) :
    (stateCodec s).jsonValue ((stateCodec s).jsonBytes s.toJson) =
      some s.toJson := by
  simp only [stateCodec, if_true]

end Sample

/-- Facts that lack only what a state carries. -/
def factsBeforeState : Facts :=
  { Facts.default with
    receiverId := some "ae83fc"
    mqttUser := some "ae83fc"
    mqttPass := some "48007129"
    firmware := some "1.7.1.9_sh_en" }

/-- The seeded state of the sample configuration, cut after seven bytes. -/
theorem learns_seeded_state :
    let s := seedState Sample.config "2026-06-10T20:00:00+02:00"
    let encoded := (retainedState (Sample.stateCodec s) "ae83fc" s).encode
    ∃ p : Publish, Decoder.new.pushAll [encoded.take 7, encoded.drop 7] =
        ([.publish p], Decoder.new) ∧
      ∀ opts, ∃ g, generatedConfig (factsBeforeState.applyCloudPublish
            (Sample.stateCodec s) p.topic p.payload) opts = .ok g ∧
          ∀ now, (initialState g now).lastState =
            some { s with lstRead := now } := by
  intro s encoded
  obtain ⟨p, hpushed, hid, -, hseed, hstored⟩ := learns_published_state
    (Sample.stateCodec s) s ⟨by decide, by decide, by decide, by decide⟩ "ae83fc"
    (Sample.stateCodec_reads_back s) (by decide +kernel)
    [encoded.take 7, encoded.drop 7] (by simp [encoded]) factsBeforeState rfl rfl
    rfl
  refine ⟨p, hpushed, fun opts => hstored [] opts ?_⟩
  rw [List.foldl_nil]
  rw [Facts.applyCloudPublish_eq_take] at hid hseed ⊢
  rw [Facts.isComplete, hid, hseed]
  rfl

namespace Sample

theorem infix_separated {part : List Char} {parts : List (List Char)}
    (h : part ∈ parts) : part <:+: separated parts := by
  induction parts with
  | nil => cases h
  | cons first rest ih =>
      cases rest with
      | nil =>
          rw [List.mem_singleton.mp h, separated, List.intercalate_singleton]
      | cons second rest =>
          rw [separated, List.intercalate_cons_cons]
          rcases List.mem_cons.mp h with rfl | h
          · rw [List.append_assoc]
            exact (List.prefix_append _ _).isInfix
          · exact (ih h).trans (List.suffix_append _ _).isInfix

/-- The text of an object holds the texts of its fields. -/
theorem infix_jsonText_obj {fields : List (String × Json)} {key : String}
    {text : List Char} (h : (key, text) ∈ fieldTexts fields) :
    text <:+: jsonText (.obj fields) := by
  have hsorted := (List.mem_insertionSort fun a b : String × List Char =>
    a.1 ≤ b.1).mpr h
  have hfield := infix_separated (List.mem_map_of_mem
    (f := fun p : String × List Char => quoted p.1 ++ ':' :: p.2) hsorted)
  rw [jsonText]
  refine List.IsInfix.trans ?_ (List.infix_append _ _ _)
  exact (List.suffix_append_of_suffix (List.suffix_cons _ _)).isInfix.trans hfield

theorem jsonBytes_eq (v : Json) :
    printingCodec.jsonBytes v = Utf8.encode (String.ofList (jsonText v)) := rfl

theorem quoted_from_isInfix (s : SensorState) :
    quoted s.from <:+: jsonText s.toJson := by
  have htext : jsonText (.str s.from) = quoted s.from := by rw [jsonText]
  rw [SensorState.toJson]
  refine infix_jsonText_obj (?_ : ("from", _) ∈ _)
  simp only [fieldTexts, htext]
  exact List.mem_cons_of_mem _ List.mem_cons_self

/-- A printed state is at least as long as its origin. -/
theorem length_from_le (s : SensorState) :
    (Utf8.encode s.from).length ≤ (printingCodec.jsonBytes s.toJson).length := by
  have hquoted : s.from.toList <:+: quoted s.from := ⟨['"'], ['"'], rfl⟩
  have hlen := Utf8.length_encode_le_of_isInfix
    (hquoted.trans (quoted_from_isInfix s))
  rwa [String.ofList_toList, ← jsonBytes_eq] at hlen

theorem payload_retainedState (s : SensorState) (rid : String) :
    (retainedState (stateCodec s) rid s).payload =
      printingCodec.jsonBytes s.toJson := by
  rw [retainedState, stateCodec]

/-- No packet comes out of a state whose origin alone is as long as a body can
be. -/
theorem push_retainedState_of_long {s : SensorState}
    (h : 268435455 ≤ (Utf8.encode s.from).length) (rid : String) :
    (Decoder.new.push (retainedState (stateCodec s) rid s).encode).1 = [] := by
  have hpayload := h.trans (length_from_le s)
  rw [← payload_retainedState s rid] at hpayload
  have hmal : Malformed (retainedState (stateCodec s) rid s).encode := by
    apply Message.malformed_encode
    rw [Message.bodyLength]
    omega
  rw [Decoder.push_new,
    wireFramer.run_of_corrupt (wireFramer_next_malformed hmal)]
  rfl

/-- The seeded state with an origin of that many letters. -/
def stateFrom (n : ℕ) : SensorState :=
  { seedState config "2026-06-10T20:00:00+02:00" with «from» := letters n }

theorem stateFrom_inRange (n : ℕ) : (stateFrom n).InRange where
  pct := (by decide : InI64 20)
  bat := (by decide : InI64 83)
  daysLeft := (by decide : InI64 51)
  lvlToFull := (by decide : InI64 110)

theorem length_stateFrom (n : ℕ) : (Utf8.encode (stateFrom n).from).length = n :=
  length_encode_letters n

end Sample

/-- A state in range whose topic fits and whose print is read back, but of which
no packet arrives. -/
theorem longState_not_learned :
    ∃ (codec : Codec) (s : SensorState), s.InRange ∧
      (retainedState codec "ae83fc" s).topicLength ≤ 65535 ∧
      codec.jsonValue (codec.jsonBytes s.toJson) = some s.toJson ∧
      (Decoder.new.push (retainedState codec "ae83fc" s).encode).1 = [] := by
  refine ⟨Sample.stateCodec (Sample.stateFrom 268435455),
    Sample.stateFrom 268435455, Sample.stateFrom_inRange _, ?_,
    Sample.stateCodec_reads_back _,
    Sample.push_retainedState_of_long (Sample.length_stateFrom _).ge _⟩
  rw [Message.topicLength, retainedState]
  decide +kernel

end Aquilo
