/-
What serve publishes on the version topic.  The `/log` echo repeats the device's
own firmware and the seeding of every connect publishes the configured one, so
the two agree exactly when no connect follows a different announcement.
-/
import Aquilo.Serve

namespace Aquilo

section Announcements

variable (codec : Codec) (cfg : Config)

/-- The firmware an event announces. -/
def announced (e : Event) : Option String :=
  match e with
  | .publish topic payload _ _ =>
      if topic = (Topics.new cfg.receiverId).log then parseFirmware codec payload
      else none
  | _ => none

/-- The firmware announced most recently in a run. -/
def latestAnnounced (events : List Event) : Option String :=
  (events.filterMap (announced codec cfg)).getLast?

/-- What an event publishes on the version topic. -/
def versionPayloads (s : Server) (e : Event) : List (List UInt8) :=
  (handleEvent codec cfg s e).2.filterMap
    (Request.payloadOn (Topics.new cfg.receiverId).version)

/-- Once the device has announced a firmware, every version published is the
one it announced last. -/
def NoOtaBait (s : Server) (events : List Event) : Prop :=
  ∀ pre e post, events = pre ++ e :: post →
    ∀ fw, latestAnnounced codec cfg (pre ++ [e]) = some fw →
      ∀ payload ∈ versionPayloads codec cfg (afterEvents codec cfg s pre) e,
        payload = Utf8.encode fw

variable {codec cfg}

theorem latestAnnounced_append_singleton (pre : List Event) (e : Event) :
    latestAnnounced codec cfg (pre ++ [e]) =
      (announced codec cfg e).or (latestAnnounced codec cfg pre) := by
  rw [latestAnnounced, latestAnnounced, List.filterMap_append]
  cases h : announced codec cfg e with
  | none => simp [h]
  | some fw => simp [h]

/-- A connect publishes the configured version and nothing else there. -/
theorem versionPayloads_connAck (s : Server) :
    versionPayloads codec cfg s .connAck =
      [Utf8.encode cfg.firmwareVersion] := by
  simp [versionPayloads, handleEvent, seedRetained, publishState,
    Request.payloadOn_of_ne (Topics.version_ne_radarParams _),
    Request.payloadOn_of_ne (Topics.version_ne_state _), -Topics.new_version,
    -Topics.new_state, -Topics.new_radarParams]

/-- A `/read` publishes the state, never a version. -/
theorem versionPayloads_read (s : Server) {topic : String}
    (htopic : topic = (Topics.new cfg.receiverId).read) (payload : List UInt8)
    (now : String) (saved : Bool) :
    versionPayloads codec cfg s (.publish topic payload now saved) = [] := by
  subst htopic
  rw [versionPayloads, handleEvent]
  cases hparse : Reading.parse codec payload with
  | ok reading =>
      rw [handlePublish_read_ok _ _ _ _ _ _ _ hparse, handleRead, publishState,
        List.filterMap_cons_none
          (Request.payloadOn_of_ne (Topics.version_ne_state _) _ _ _),
        List.filterMap_nil]
  | error e =>
      rw [handlePublish_read_error _ _ _ _ _ _ _ hparse]
      rfl

/-- Any event but a connect publishes there exactly what it announces. -/
theorem versionPayloads_of_ne_connAck {e : Event} (he : e ≠ .connAck)
    (s : Server) :
    versionPayloads codec cfg s e =
      ((announced codec cfg e).map Utf8.encode).toList := by
  cases e with
  | connAck => exact absurd rfl he
  | publish topic payload now saved =>
      by_cases hread : topic = (Topics.new cfg.receiverId).read
      · have hlog : topic ≠ (Topics.new cfg.receiverId).log := by
          rw [hread]
          exact (Topics.log_ne_read _).symm
        rw [versionPayloads_read s hread, announced, if_neg hlog]
        rfl
      · by_cases hlog : topic = (Topics.new cfg.receiverId).log
        · rw [versionPayloads, handleEvent, announced, if_pos hlog,
            handlePublish_log _ _ _ _ _ _ _ hread hlog]
          cases parseFirmware codec payload with
          | none => rfl
          | some fw => simp [-Topics.new_version]
        · rw [versionPayloads, handleEvent, announced, if_neg hlog,
            handlePublish_other _ _ _ _ _ _ _ hread hlog]
          rfl
  | other => rfl
  | error => rfl
  | ping =>
      rw [versionPayloads, handleEvent, List.filterMap_cons_none
        (Request.payloadOn_of_ne (Topics.version_ne_ping _) _ _ _)]
      rfl

/-- One event keeps to the latest announcement unless it is a connect under a
different configured version. -/
theorem versionPayloads_eq_latest_iff (s : Server) (pre : List Event)
    (e : Event) :
    (∀ fw, latestAnnounced codec cfg (pre ++ [e]) = some fw →
        ∀ payload ∈ versionPayloads codec cfg s e, payload = Utf8.encode fw) ↔
      (e = .connAck → ∀ fw, latestAnnounced codec cfg pre = some fw →
        cfg.firmwareVersion = fw) := by
  by_cases he : e = .connAck
  · subst he
    have hlatest : latestAnnounced codec cfg (pre ++ [.connAck]) =
        latestAnnounced codec cfg pre := by
      rw [latestAnnounced_append_singleton]
      rfl
    rw [hlatest, versionPayloads_connAck]
    simp [Utf8.encode_injective.eq_iff]
  · rw [latestAnnounced_append_singleton, versionPayloads_of_ne_connAck he]
    refine iff_of_true ?_ (fun h => absurd h he)
    intro fw hlatest payload hpayload
    cases hann : announced codec cfg e with
    | none => simp [hann] at hpayload
    | some fw' =>
        rw [hann, Option.some_or, Option.some.injEq] at hlatest
        simpa [hann, hlatest] using hpayload

end Announcements

/-- The version topic is never baited in a run exactly when every connect after
an announcement finds the configured version equal to the latest one. -/
theorem noOtaBait_iff_connects_agree (codec : Codec) (cfg : Config)
    (s : Server) (events : List Event) :
    NoOtaBait codec cfg s events ↔
      ∀ pre post, events = pre ++ .connAck :: post →
        ∀ fw, latestAnnounced codec cfg pre = some fw →
          cfg.firmwareVersion = fw := by
  constructor
  · intro hbait pre post hevents
    exact (versionPayloads_eq_latest_iff _ pre .connAck).mp
      (hbait pre .connAck post hevents) rfl
  · intro hconnects pre e post hevents
    apply (versionPayloads_eq_latest_iff _ pre e).mpr
    rintro rfl
    exact hconnects pre post hevents

namespace Sample

def server : Server where
  rt := seedRuntime config "2026-06-10T20:44:35+02:00"
  disk := .ok none

/-- The device announces a newer firmware, then the broker reconnects. -/
def reconnectAfterUpdate : List Event :=
  [ .connAck,
    .publish (Topics.new config.receiverId).log
      (Utf8.encode "1.8.0.0_sh_en") "2026-06-10T20:44:36+02:00" true,
    .error,
    .connAck ]

end Sample

/-- After the reconnect the configured version is published over the announced
one. -/
theorem reconnect_baits :
    ¬ NoOtaBait Sample.codec Sample.config Sample.server
      Sample.reconnectAfterUpdate := by
  intro hbait
  have hlatest : latestAnnounced Sample.codec Sample.config
      (Sample.reconnectAfterUpdate.take 3 ++ [.connAck]) =
      some "1.8.0.0_sh_en" := by decide +kernel
  have hpayload := hbait (Sample.reconnectAfterUpdate.take 3) .connAck [] rfl
    "1.8.0.0_sh_en" hlatest (Utf8.encode Sample.config.firmwareVersion)
  rw [versionPayloads_connAck] at hpayload
  have heq := Utf8.encode_injective (hpayload (by simp))
  revert heq
  decide

end Aquilo
