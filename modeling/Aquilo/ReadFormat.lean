/-
The JSON of a `/read` payload: the nine fields that are read from it, each of
which may be absent or null.
-/
import Aquilo.Serve
import Aquilo.StateFormat

namespace Aquilo

open DerivedStruct

/-- A field of a payload. -/
def payloadField {α : Type} (key : String) (read : Json → Option α) :
    Field Json (Option α) :=
  .optional key (Json.asOption read)

namespace ReadPayload

def deserialize (v : Json) : Option ReadPayload := do
  let l ← structOf 9 v
  let sensor ← (payloadField "sensor" Json.asStr).get 0 l
  let version ← (payloadField "v" Json.asStr).get 1 l
  let read1 ← (payloadField "read1" Json.asI64).get 2 l
  let battery ← (payloadField "battery" Json.asStr).get 3 l
  let readNo ← (payloadField "readNo" Json.asI64).get 4 l
  let lastSent ← (payloadField "lastSent" Json.asI64).get 5 l
  let amp1 ← (payloadField "amp1" Json.asI64).get 6 l
  let temp ← (payloadField "temp" Json.asI64).get 7 l
  let raw ← (payloadField "raw" Json.asStr).get 8 l
  return { sensor, version, read1, battery, readNo, lastSent, amp1, temp, raw }

/-- The keys that are read. -/
def keys : List String :=
  ["sensor", "v", "read1", "battery", "readNo", "lastSent", "amp1", "temp", "raw"]

end ReadPayload

/-- The values under a key, a null read as none. -/
def present (key : String) (entries : List (String × Json)) : List Json :=
  match under key entries with
  | [.null] => []
  | values => values

section Alike

variable {entries entries' : List (String × Json)}

/-- A field that may be missing cannot tell null from nothing. -/
theorem payloadField_get_keyed {α : Type} (key : String) (read : Json → Option α)
    (i : ℕ) : (payloadField key read).get i (.keyed entries) =
      match present key entries with
      | [] => some none
      | [v] => (read v).map some
      | _ :: _ :: _ => none := by
  have hkey : (payloadField key read).key = key := rfl
  rw [present, Field.get, hkey]
  generalize under key entries = values
  cases values with
  | nil => rfl
  | cons v rest =>
      cases rest with
      | nil => cases v <;> rfl
      | cons v' rest => cases v <;> rfl

theorem payloadField_get_congr {α : Type} {key : String}
    (h : present key entries = present key entries') (read : Json → Option α) (i : ℕ) :
    (payloadField key read).get i (.keyed entries) =
      (payloadField key read).get i (.keyed entries') := by
  rw [payloadField_get_keyed, payloadField_get_keyed, h]

/-- A payload is read by what stands under its keys. -/
theorem ReadPayload.deserialize_congr
    (h : ∀ key ∈ ReadPayload.keys, present key entries = present key entries') :
    ReadPayload.deserialize (.obj entries) =
      ReadPayload.deserialize (.obj entries') := by
  simp only [ReadPayload.keys, List.forall_mem_cons, List.not_mem_nil,
    false_implies, implies_true, and_true] at h
  obtain ⟨hsensor, hversion, hread1, hbattery, hreadNo, hlastSent, hamp1, htemp,
    hraw⟩ := h
  simp only [ReadPayload.deserialize, structOf_obj, Option.bind_eq_bind,
    Option.bind_some, payloadField_get_congr hsensor,
    payloadField_get_congr hversion, payloadField_get_congr hread1,
    payloadField_get_congr hbattery, payloadField_get_congr hreadNo,
    payloadField_get_congr hlastSent, payloadField_get_congr hamp1,
    payloadField_get_congr htemp, payloadField_get_congr hraw]

end Alike

/-- Two payloads that are objects with the same values under the nine keys. -/
def SameFields (text : JsonText) (payload payload' : List UInt8) : Prop :=
  ∃ entries entries', text.parse payload = some (.obj entries) ∧
    text.parse payload' = some (.obj entries') ∧
      ∀ key ∈ ReadPayload.keys, present key entries = present key entries'

/-- Two events that differ at most in how the payload of a reading is laid out. -/
inductive Event.Alike (text : JsonText) (cfg : Config) : Event → Event → Prop where
  | same (e : Event) : Alike text cfg e e
  | read {payload payload' : List UInt8} (h : SameFields text payload payload')
      (now : String) (saved : Bool) :
      Alike text cfg
        (.publish (Topics.new cfg.receiverId).read payload now saved)
        (.publish (Topics.new cfg.receiverId).read payload' now saved)

section Run

variable {codec : Codec} {text : JsonText} {cfg : Config}

theorem SameFields.parse
    (hcodec : ∀ payload, codec.readPayload payload =
      (text.parse payload).bind ReadPayload.deserialize)
    {payload payload' : List UInt8} (h : SameFields text payload payload') :
    Reading.parse codec payload = Reading.parse codec payload' := by
  obtain ⟨entries, entries', hparse, hparse', hkeys⟩ := h
  rw [Reading.parse, Reading.parse, hcodec, hcodec, hparse, hparse',
    Option.bind_some, Option.bind_some, ReadPayload.deserialize_congr hkeys]

theorem Event.Alike.handleEvent
    (hcodec : ∀ payload, codec.readPayload payload =
      (text.parse payload).bind ReadPayload.deserialize)
    {e e' : Event} (h : Event.Alike text cfg e e') (s : Server) :
    Aquilo.handleEvent codec cfg s e = Aquilo.handleEvent codec cfg s e' := by
  cases h with
  | same => rfl
  | read hsame now saved =>
      simp only [Aquilo.handleEvent, handlePublish, if_pos, hsame.parse hcodec]

end Run

/-- Whatever the order of their keys, the keys beside them and the nulls among
them, readings with the same values are the same to the server: over any run, it
asks the broker for the same and ends in the same state. -/
theorem serve_reads_by_keys (codec : Codec) (text : JsonText) (cfg : Config)
    (hcodec : ∀ payload, codec.readPayload payload =
      (text.parse payload).bind ReadPayload.deserialize)
    {events events' : List Event}
    (h : List.Forall₂ (Event.Alike text cfg) events events') (s : Server) :
    requests codec cfg s events = requests codec cfg s events' ∧
      afterEvents codec cfg s events = afterEvents codec cfg s events' := by
  induction h generalizing s with
  | nil => exact ⟨rfl, rfl⟩
  | @cons e e' rest rest' he hrest ih =>
      have hstep := he.handleEvent hcodec s
      obtain ⟨hrequests, hafter⟩ := ih (Aquilo.handleEvent codec cfg s e').1
      constructor
      · rw [requests, requests, hstep, hrequests]
      · simp only [afterEvents, List.foldl_cons, hstep] at hafter ⊢
        exact hafter

namespace Sample

def readEntries : List (String × Json) :=
  [("sensor", .str "ae5058"), ("read1", .int 15280), ("battery", .str "3770")]

/-- The same reading with a signal strength and a null beside its fields. -/
def shuffledEntries : List (String × Json) :=
  [ ("rssi", .int (-61)), ("battery", .str "3770"), ("raw", .null),
    ("read1", .int 15280), ("sensor", .str "ae5058") ]

def shuffledText : String :=
  "\x7b\"rssi\":-61,\"battery\":\"3770\",\"raw\":null," ++
    "\"read1\":15280,\"sensor\":\"ae5058\"\x7d"

/-- The text layer on the two payloads. -/
def readingText : JsonText where
  print _ := none
  parse payload :=
    if payload = Utf8.encode readText then some (.obj readEntries)
    else if payload = Utf8.encode shuffledText then some (.obj shuffledEntries)
    else none

def fieldCodec : Codec :=
  { printingCodec with
    readPayload := fun payload =>
      (readingText.parse payload).bind ReadPayload.deserialize }

theorem shuffledText_sameFields :
    SameFields readingText (Utf8.encode readText) (Utf8.encode shuffledText) := by
  have hne : Utf8.encode shuffledText ≠ Utf8.encode readText := by
    rw [Utf8.encode_injective.ne_iff]
    decide +kernel
  refine ⟨readEntries, shuffledEntries, ?_, ?_, ?_⟩
  · simp only [readingText, ↓reduceIte]
  · simp only [readingText, if_neg hne, ↓reduceIte]
  · simp [ReadPayload.keys, present, readEntries, shuffledEntries]

/-- A server that handles one reading. -/
def readingHandled (text : String) : Server :=
  afterEvents fieldCodec config
    (Server.start config (.ok none) "2026-06-10T20:00:00+02:00" true)
    [.publish (Topics.new config.receiverId).read (Utf8.encode text)
      "2026-06-10T20:44:35+02:00" true]

end Sample

theorem shuffledReading_same :
    (Sample.readingHandled Sample.shuffledText).rt =
        (Sample.readingHandled Sample.readText).rt ∧
      (Sample.readingHandled Sample.readText).rt.current.lvl = 764 / 5 := by
  constructor
  · rw [Sample.readingHandled, Sample.readingHandled]
    rw [← (serve_reads_by_keys Sample.fieldCodec Sample.readingText Sample.config
      (fun _ => rfl) (.cons (.read Sample.shuffledText_sameFields _ _) .nil) _).2]
  · decide +kernel

end Aquilo
