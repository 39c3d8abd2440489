/-
Which message wins in the files learn writes.  Every field goes to the first
message that offers it and the outputs are written at the first check with
complete facts, so each precedence the proxy is meant to have holds exactly
when the messages happen to arrive in that order.
-/
import Aquilo.Learn

namespace Aquilo

namespace Learn

section Firmware

variable (codec : Codec)

/-- The firmwares the device announced, oldest first. -/
def announcements (sources : List Source) : List String :=
  sources.filterMap (Source.announcedFirmware codec)

/-- The device announced a firmware before the first cloud version. -/
def DeviceFirst (sources : List Source) : Prop :=
  ∃ pre src post, sources = pre ++ src :: post ∧
    (∀ x ∈ pre, x.cloudFirmware = none) ∧
    (src.announcedFirmware codec).isSome

variable {codec}

theorem offer_firmware_eq_none {src : Source} :
    (src.offer codec).firmware = none ↔
      src.announcedFirmware codec = none ∧ src.cloudFirmware = none :=
  Option.or_eq_none_iff

/-- The first firmware offered is the device's, or it is the first cloud
version. -/
theorem first_firmware_cases {sources : List Source} {fw : String}
    (h : (sources.findSome? fun src => (src.offer codec).firmware) = some fw) :
    (DeviceFirst codec sources ∧ fw ∈ announcements codec sources) ∨
      (¬ DeviceFirst codec sources ∧
        sources.findSome? Source.cloudFirmware = some fw) := by
  obtain ⟨pre, src, post, rfl, hoffer, hpre⟩ := List.findSome?_eq_some_iff.mp h
  have hnone : ∀ x ∈ pre, x.announcedFirmware codec = none ∧
      x.cloudFirmware = none :=
    fun x hx => offer_firmware_eq_none.mp (hpre x hx)
  cases hannounced : src.announcedFirmware codec with
  | some fw' =>
      have heq : fw' = fw := by simpa [Source.offer, hannounced] using hoffer
      subst heq
      refine Or.inl ⟨⟨pre, src, post, rfl, fun x hx => (hnone x hx).2, by
        rw [hannounced, Option.isSome_some]⟩, ?_⟩
      exact List.mem_filterMap.mpr ⟨src, by simp, hannounced⟩
  | none =>
      have hcloud : src.cloudFirmware = some fw := by
        simpa [Source.offer, hannounced] using hoffer
      refine Or.inr ⟨?_, ?_⟩
      · rintro ⟨pre', src', post', heq, hpre', hsome⟩
        -- the cloud version stands before any announcement
        rcases List.append_eq_append_iff.mp heq with
          ⟨mid, rfl, hmid⟩ | ⟨mid, rfl, hmid⟩
        · cases mid with
          | nil =>
              rw [List.nil_append, List.cons.injEq] at hmid
              rw [← hmid.1, hannounced] at hsome
              cases hsome
          | cons m mid =>
              rw [List.cons_append, List.cons.injEq] at hmid
              have := hpre' src (by simp [hmid.1])
              rw [hcloud] at this
              cases this
        · cases mid with
          | nil =>
              rw [List.nil_append, List.cons.injEq] at hmid
              rw [hmid.1, hannounced] at hsome
              cases hsome
          | cons m mid =>
              rw [List.cons_append, List.cons.injEq] at hmid
              have := (hnone src' (by simp [hmid.1])).1
              rw [this] at hsome
              cases hsome
      · rw [List.findSome?_eq_some_iff]
        exact ⟨pre, src, post, rfl, hcloud, fun x hx => (hnone x hx).2⟩

/-- For one write: the firmware is the device's exactly when it announced none,
announced it first, or announced what the cloud sent first as well. -/
theorem firmware_announced_iff {opts : OnboardOptions} {w : Written}
    (h : Faithful codec opts w) :
    (announcements codec w.seen ≠ [] →
        w.config.firmwareVersion ∈ announcements codec w.seen) ↔
      announcements codec w.seen = [] ∨ DeviceFirst codec w.seen ∨
        ∃ version, w.seen.findSome? Source.cloudFirmware = some version ∧
          version ∈ announcements codec w.seen := by
  have hfw := (generatedConfig_eq_ok h.config).2.2.2.1
  rw [Facts.collect_firmware] at hfw
  rcases first_firmware_cases hfw with ⟨hdevice, hmem⟩ | ⟨hcloud, hfirst⟩
  · exact iff_of_true (fun _ => hmem) (Or.inr (Or.inl hdevice))
  · constructor
    · intro hannounced
      by_cases hnil : announcements codec w.seen = []
      · exact Or.inl hnil
      · exact Or.inr (Or.inr ⟨_, hfirst, hannounced hnil⟩)
    · rintro (hnil | hdevice | ⟨version, hversion, hmem⟩) hannounced
      · exact absurd hnil hannounced
      · exact absurd hdevice hcloud
      · rw [hfirst, Option.some.injEq] at hversion
        rwa [hversion]

end Firmware

end Learn

open Learn in
/-- In every run of the proxy, the firmware written is one the device announced
exactly when, before each write, it announced none, announced one before the
first cloud version, or announced that first cloud version too. -/
theorem deviceFirmware_wins_iff (codec : Codec) (opts : OnboardOptions)
    (events : List ProxyEvent) :
    (∀ w ∈ (run codec opts events).writes,
        announcements codec w.seen ≠ [] →
          w.config.firmwareVersion ∈ announcements codec w.seen) ↔
      ∀ w ∈ (run codec opts events).writes,
        announcements codec w.seen = [] ∨ DeviceFirst codec w.seen ∨
          ∃ version, w.seen.findSome? Source.cloudFirmware = some version ∧
            version ∈ announcements codec w.seen := by
  have hinv : Inv codec opts (run codec opts events) := inv_run events
  constructor
  · intro h w hw
    exact (firmware_announced_iff (hinv.faithful w hw)).mp (h w hw)
  · intro h w hw
    exact (firmware_announced_iff (hinv.faithful w hw)).mpr (h w hw)

open Learn in
/-- The cloud's version came first and was written, although the device had
announced another one. -/
theorem versionFirst_writes_cloud_version :
    ¬ ∀ w ∈ (run Sample.onboardCodec Sample.onboardOptions
        Sample.versionFirst).writes,
      announcements Sample.onboardCodec w.seen ≠ [] →
        w.config.firmwareVersion ∈ announcements Sample.onboardCodec w.seen := by
  decide +kernel

/-- What a well-formed cloud `/state` says. -/
structure CloudState where
  id : String
  name : String
  seed : Seed

/-- A cloud `/state` whose first sensor has every field with its type. -/
def Source.cloudState (codec : Codec) (src : Source) : Option CloudState := do
  let (v, s) ← src.cloudSensor codec
  let id ← (s.index "id").asStr
  let lvl ← (s.index "lvl").asF64
  let pct ← (s.index "pct").asI64
  let bat ← (s.index "bat").asI64
  let _lstRead ← (s.index "lstRead").asStr
  let lstEmpty ← (s.index "lstEmpty").asStr
  let daysLeft ← (s.index "daysLeft").asI64
  let name ← (s.index "name").asStr
  let lvlToFull ← (s.index "lvlToFull").asI64
  return {
    id
    name
    seed := { lvl, pct, bat, daysLeft, lvlToFull, lstEmpty,
              «from» := (v.index "from").asStr.getD "node-4" } }

namespace Learn

section State

variable (codec : Codec)

/-- The well-formed cloud states received, oldest first. -/
def cloudStates (sources : List Source) : List CloudState :=
  sources.filterMap (Source.cloudState codec)

/-- The written configuration and state file carry a cloud state verbatim. -/
def Carries (c : CloudState) (config : GeneratedConfig)
    (state : PersistedState) : Prop :=
  config.seed = c.seed ∧ config.sensorName = c.name ∧
    state.lstEmpty = c.seed.lstEmpty ∧
    ∃ last, state.lastState = some last ∧ last.id = c.id ∧
      last.name = c.name ∧ last.seed = c.seed

/-- The first seed, the first sensor name and the first sensor id on offer are
those of one cloud state. -/
def SuppliesFirst (c : CloudState) (sources : List Source) : Prop :=
  (sources.findSome? fun src => (src.offer codec).seed) = some c.seed ∧
    (sources.findSome? fun src => (src.offer codec).sensorName) =
      some c.name ∧
    (sources.findSome? fun src => (src.offer codec).sensorId) = some c.id

/-- The written configuration carries a cloud state's seed and name. -/
def ConfigCarries (c : CloudState) (config : GeneratedConfig) : Prop :=
  config.seed = c.seed ∧ config.sensorName = c.name

/-- The first seed and the first sensor name on offer are those of one cloud
state. -/
def SuppliesSeedFirst (c : CloudState) (sources : List Source) : Prop :=
  (sources.findSome? fun src => (src.offer codec).seed) = some c.seed ∧
    (sources.findSome? fun src => (src.offer codec).sensorName) = some c.name

variable {codec}

/-- A well-formed cloud state offers a sensor name. -/
theorem offer_sensorName_of_cloudState {src : Source} {c : CloudState}
    (h : src.cloudState codec = some c) :
    (src.offer codec).sensorName.isSome := by
  rw [Source.cloudState] at h
  cases hsensor : src.cloudSensor codec with
  | none => simp [hsensor] at h
  | some vs =>
      cases hname : (vs.2.index "name").asStr with
      | none => simp [hsensor, hname] at h
      | some name => simp [Source.offer, hsensor, hname]

theorem configCarries_iff_suppliesSeedFirst {opts : OnboardOptions} {w : Written}
    (h : Faithful codec opts w) {c : CloudState}
    (hc : c ∈ cloudStates codec w.seen) :
    ConfigCarries c w.config ↔ SuppliesSeedFirst codec c w.seen := by
  obtain ⟨-, -, -, -, -, hseed, hname, -⟩ := generatedConfig_eq_ok h.config
  obtain ⟨src, hsrc, hcloud⟩ := List.mem_filterMap.mp hc
  have hsome : ((w.seen.findSome? fun src =>
      (src.offer codec).sensorName)).isSome := by
    rw [List.findSome?_isSome_iff]
    exact ⟨src, hsrc, offer_sensorName_of_cloudState hcloud⟩
  rw [Facts.collect_seed] at hseed
  rw [Facts.collect_sensorName] at hname
  obtain ⟨name, hfirst⟩ := Option.isSome_iff_exists.mp hsome
  rw [hfirst, Option.getD_some] at hname
  rw [ConfigCarries, SuppliesSeedFirst, hseed, hfirst, Option.some.injEq,
    Option.some.injEq, ← hname]

theorem carries_iff_suppliesFirst {opts : OnboardOptions} {w : Written}
    (h : Faithful codec opts w) {state : PersistedState}
    (hstate : w.state = some state) {c : CloudState}
    (hc : c ∈ cloudStates codec w.seen) :
    Carries c w.config state ↔ SuppliesFirst codec c w.seen := by
  obtain ⟨-, -, -, -, hid, -⟩ := generatedConfig_eq_ok h.config
  obtain ⟨now, rfl⟩ := h.state state hstate
  have hconfig := configCarries_iff_suppliesSeedFirst h hc
  rw [Facts.collect_sensorId] at hid
  rw [SuppliesFirst, hid, Option.some.injEq, ← and_assoc, ← SuppliesSeedFirst,
    ← hconfig]
  constructor
  · rintro ⟨hs, hn, -, last, hlast, hi, -, -⟩
    cases hlast
    exact ⟨⟨hs, hn⟩, hi⟩
  · rintro ⟨⟨hs, hn⟩, hi⟩
    exact ⟨hs, hn, by rw [← hs]; rfl, _, rfl, hi, hn, by rw [← hs]; rfl⟩

end State

end Learn

open Learn in
/-- In every run of the proxy, outputs written after a well-formed cloud state
carry one such state verbatim exactly when that state was the first to offer a
seed, a sensor name and a sensor id; a configuration written without its state file
needs the seed and the name alone. -/
theorem cloudState_seeds_iff (codec : Codec) (opts : OnboardOptions)
    (events : List ProxyEvent) :
    ((∀ w ∈ (run codec opts events).writes, ∀ state, w.state = some state →
        cloudStates codec w.seen ≠ [] →
          ∃ c ∈ cloudStates codec w.seen, Carries c w.config state) ↔
      ∀ w ∈ (run codec opts events).writes, w.state.isSome →
        cloudStates codec w.seen ≠ [] →
          ∃ c ∈ cloudStates codec w.seen, SuppliesFirst codec c w.seen) ∧
    ((∀ w ∈ (run codec opts events).writes, cloudStates codec w.seen ≠ [] →
        ∃ c ∈ cloudStates codec w.seen, ConfigCarries c w.config) ↔
      ∀ w ∈ (run codec opts events).writes, cloudStates codec w.seen ≠ [] →
        ∃ c ∈ cloudStates codec w.seen, SuppliesSeedFirst codec c w.seen) := by
  have hinv : Inv codec opts (run codec opts events) := inv_run events
  refine ⟨⟨?_, ?_⟩, ?_⟩
  · intro h w hw hsome hne
    obtain ⟨state, hstate⟩ := Option.isSome_iff_exists.mp hsome
    obtain ⟨c, hc, hcarries⟩ := h w hw state hstate hne
    exact ⟨c, hc, (carries_iff_suppliesFirst (hinv.faithful w hw) hstate hc).mp
      hcarries⟩
  · intro h w hw state hstate hne
    obtain ⟨c, hc, hfirst⟩ := h w hw (by rw [hstate]; rfl) hne
    exact ⟨c, hc, (carries_iff_suppliesFirst (hinv.faithful w hw) hstate hc).mpr
      hfirst⟩
  · refine forall₂_congr fun w hw => imp_congr_right fun _ => exists_congr fun c => ?_
    exact and_congr_right
      (configCarries_iff_suppliesSeedFirst (hinv.faithful w hw))

open Learn in
/-- The device's reading came first: the outputs carry the values computed from
it, with `lstEmpty` set to its arrival. -/
theorem readFirst_overrides_cloud_state :
    ¬ ∀ w ∈ (run Sample.onboardCodec Sample.onboardOptions
        Sample.readFirst).writes, ∀ state, w.state = some state →
      cloudStates Sample.onboardCodec w.seen ≠ [] →
        ∃ c ∈ cloudStates Sample.onboardCodec w.seen,
          Carries c w.config state := by
  intro hcarries
  have hwritten : ∃ w ∈ (run Sample.onboardCodec Sample.onboardOptions
      Sample.readFirst).writes, w.state.isSome ∧
        (cloudStates Sample.onboardCodec w.seen).map (·.seed.lstEmpty) =
          ["2026-05-30T00:17:19+02:00"] ∧
        w.config.seed.lstEmpty = Sample.tick.now := by decide +kernel
  obtain ⟨w, hw, hsome, hstates, hseed⟩ := hwritten
  obtain ⟨state, hstate⟩ := Option.isSome_iff_exists.mp hsome
  have hne : cloudStates Sample.onboardCodec w.seen ≠ [] := by
    intro hnil
    rw [hnil] at hstates
    cases hstates
  obtain ⟨c, hc, hconfig, -⟩ := hcarries w hw state hstate hne
  have hmem : c.seed.lstEmpty ∈
      (cloudStates Sample.onboardCodec w.seen).map (·.seed.lstEmpty) :=
    List.mem_map_of_mem hc
  rw [hstates, ← hconfig, hseed] at hmem
  revert hmem
  decide

/-- Both writes of the outputs succeed. -/
def LearnStep.Succeeds : LearnStep → Prop
  | .receive _ => True
  | .finalize tick => tick.outcome = .ok

/-- Every write of the event succeeds. -/
def ProxyEvent.WritesSucceed : ProxyEvent → Prop
  | .connect => True
  | .device _ _ ticks => ∀ k, (ticks k).outcome = .ok
  | .cloud _ tick => tick.outcome = .ok

theorem Taps.tee_succeeds (taps : Taps) {e : ProxyEvent}
    (hok : e.WritesSucceed) : ∀ a ∈ (taps.tee e).1, a.Succeeds := by
  cases e with
  | connect => simp [tee]
  | device chunk clock ticks =>
      intro a ha
      obtain ⟨⟨packet, k⟩, -, hmem⟩ := List.mem_flatMap.mp ha
      rcases List.mem_append.mp hmem with hreceive | hfinal
      · obtain ⟨src, -, rfl⟩ := Option.map_eq_some_iff.mp
          (Option.mem_toList.mp hreceive)
        trivial
      · rw [List.mem_singleton.mp hfinal]
        exact hok k
  | cloud chunk tick =>
      intro a ha
      rcases List.mem_append.mp ha with hreceive | hfinal
      · obtain ⟨src, -, rfl⟩ := List.mem_map.mp hreceive
        trivial
      · rw [List.mem_singleton.mp hfinal]
        exact hok

theorem Taps.teeAll_succeeds (taps : Taps) {events : List ProxyEvent}
    (hok : ∀ e ∈ events, e.WritesSucceed) :
    ∀ a ∈ taps.teeAll events, a.Succeeds := by
  induction events generalizing taps with
  | nil => simp [teeAll]
  | cons e rest ih =>
      intro a ha
      rcases List.mem_append.mp ha with ha | ha
      · exact taps.tee_succeeds (hok e List.mem_cons_self) a ha
      · exact ih _ (fun e' he' => hok e' (List.mem_cons_of_mem e he')) a ha

namespace Learn

section Radar

variable (codec : Codec)

/-- Some cloud `radarParams` has an integer skip and an integer repeat. -/
def DeliversRadar (sources : List Source) : Prop :=
  ∃ src ∈ sources, (src.offer codec).radarSkip.isSome ∧
    (src.offer codec).radarRepeat.isSome

def firstSkip (sources : List Source) : Option ℤ :=
  sources.findSome? fun src => (src.offer codec).radarSkip

def firstRepeat (sources : List Source) : Option ℤ :=
  sources.findSome? fun src => (src.offer codec).radarRepeat

/-- The messages received by the first check at which the facts are complete. -/
def completionPoint : List Source → List LearnStep → Option (List Source)
  | _, [] => none
  | seen, .receive src :: rest => completionPoint (seen ++ [src]) rest
  | seen, .finalize _ :: rest =>
      if (Facts.collect codec seen).isComplete then some seen
      else completionPoint seen rest

/-- A value that arrives too late is replaced by the default, which can only
be noticed when it differs. -/
def InTime (early final : Option ℤ) : Prop := early.isSome ∨ final = some 9

variable {codec} {opts : OnboardOptions}

/-- Once written, nothing is written again. -/
theorem writes_of_written {s : Learn} (hwritten : s.written = true)
    (steps : List LearnStep) :
    (steps.foldl (Learn.step codec opts) s).writes = s.writes := by
  induction steps generalizing s with
  | nil => rfl
  | cons a rest ih =>
      rw [List.foldl_cons]
      cases a with
      | receive src => exact ih hwritten
      | finalize tick =>
          have hsame : s.maybeFinalize opts tick = s := by
            simp [maybeFinalize, hwritten]
          rw [Learn.step, hsame, ih hwritten]

/-- When every write succeeds, the outputs are written once, at the completion
point. -/
theorem writes_eq_completionPoint {s : Learn} (h : Inv codec opts s)
    (hwritten : s.written = false) (hnil : s.writes = [])
    {steps : List LearnStep} (hok : ∀ a ∈ steps, a.Succeeds) :
    (steps.foldl (Learn.step codec opts) s).writes.map Written.seen =
      (completionPoint codec s.seen steps).toList := by
  induction steps generalizing s with
  | nil => simp [completionPoint, hnil]
  | cons a rest ih =>
      have hrest : ∀ a ∈ rest, a.Succeeds :=
        fun b hb => hok b (List.mem_cons_of_mem a hb)
      rw [List.foldl_cons]
      cases a with
      | receive src => exact ih (h.receive src) hwritten hnil hrest
      | finalize tick =>
          have htick : tick.outcome = .ok := hok _ List.mem_cons_self
          rw [completionPoint, ← h.facts]
          rcases maybeFinalize_cases opts tick s with
            ⟨hincomplete, heq⟩ | ⟨hdone, heq⟩ |
            ⟨hcomplete, -, config, -, ⟨hfail, -⟩ | ⟨hfail, -⟩ | ⟨-, heq⟩⟩
          · rw [Learn.step, heq, hincomplete]
            exact ih h hwritten hnil hrest
          · rw [hwritten] at hdone
            cases hdone
          · rw [htick] at hfail
            cases hfail
          · rw [htick] at hfail
            cases hfail
          · rw [Learn.step, heq, if_pos hcomplete, writes_of_written rfl, hnil]
            rfl

/-- The radar values written are the first ones delivered exactly when those
were delivered in time. -/
theorem radar_first_iff {w : Written} (h : Faithful codec opts w)
    {sources : List Source} (hpre : w.seen <+: sources)
    (hdelivers : DeliversRadar codec sources) :
    (firstSkip codec sources = some w.config.radarSkip ∧
        firstRepeat codec sources = some w.config.radarRepeat) ↔
      InTime (firstSkip codec w.seen) (firstSkip codec sources) ∧
        InTime (firstRepeat codec w.seen) (firstRepeat codec sources) := by
  obtain ⟨-, -, -, -, -, -, -, hskip, hrepeat, -⟩ := generatedConfig_eq_ok h.config
  rw [Facts.collect_radarSkip] at hskip
  rw [Facts.collect_radarRepeat] at hrepeat
  obtain ⟨src, hsrc, hs, hr⟩ := hdelivers
  have hslot : ∀ {offer : Source → Option ℤ} {value : ℤ},
      (offer src).isSome → value = (w.seen.findSome? offer).getD 9 →
      (sources.findSome? offer = some value ↔
        InTime (w.seen.findSome? offer) (sources.findSome? offer)) := by
    intro offer value hoffer hvalue
    cases hearly : w.seen.findSome? offer with
    | some n =>
        rw [hearly, Option.getD_some] at hvalue
        rw [FirstCome.findSome?_of_prefix hpre hearly, hvalue]
        simp [InTime]
    | none =>
        rw [hearly, Option.getD_none] at hvalue
        simp [InTime, hvalue]
  exact and_congr (hslot hs hskip) (hslot hr hrepeat)

end Radar

end Learn

namespace Learn

/-- The configuration left on disk has the first skip and the first repeat the
cloud delivers, if it delivers them in one message. -/
def KeepsRadar (codec : Codec) (opts : OnboardOptions)
    (events : List ProxyEvent) : Prop :=
  let sources := received (Taps.new.teeAll events)
  DeliversRadar codec sources →
    ∀ w, (run codec opts events).writes.getLast? = some w →
      firstSkip codec sources = some w.config.radarSkip ∧
        firstRepeat codec sources = some w.config.radarRepeat

/-- By the time the facts are complete, the skip and the repeat have been
delivered, or those delivered later are the defaults. -/
def RadarInTime (codec : Codec) (events : List ProxyEvent) : Prop :=
  let steps := Taps.new.teeAll events
  let sources := received steps
  DeliversRadar codec sources →
    ∀ point, completionPoint codec [] steps = some point →
      InTime (firstSkip codec point) (firstSkip codec sources) ∧
        InTime (firstRepeat codec point) (firstRepeat codec sources)

end Learn

open Learn in
/-- When every write succeeds, learn keeps the cloud's radar values exactly when
the facts are not complete before those arrive. -/
theorem keepsRadar_iff_radarInTime (codec : Codec) (opts : OnboardOptions)
    (events : List ProxyEvent) (hok : ∀ e ∈ events, e.WritesSucceed) :
    KeepsRadar codec opts events ↔ RadarInTime codec events := by
  have hinv : Inv codec opts (run codec opts events) := inv_run events
  have hwrites : (run codec opts events).writes.map Written.seen =
      (completionPoint codec [] (Taps.new.teeAll events)).toList :=
    writes_eq_completionPoint inv_initial rfl rfl
      (Taps.teeAll_succeeds Taps.new hok)
  have hpre : ∀ w ∈ (run codec opts events).writes,
      w.seen <+: received (Taps.new.teeAll events) := by
    intro w hw
    rw [← run_seen]
    exact hinv.prefixes w hw
  refine imp_congr_right fun hdelivers => ?_
  cases hpoint : completionPoint codec [] (Taps.new.teeAll events) with
  | none =>
      rw [hpoint, Option.toList_none, List.map_eq_nil_iff] at hwrites
      simp [hwrites]
  | some point =>
      rw [hpoint, Option.toList_some, List.map_eq_singleton_iff] at hwrites
      obtain ⟨w, hw, rfl⟩ := hwrites
      have hmem : w ∈ (run codec opts events).writes := by simp [hw]
      have hiff := radar_first_iff (hinv.faithful w hmem) (hpre w hmem) hdelivers
      simpa [hw] using hiff

open Learn in
theorem radarBeforeState_keepsRadar :
    KeepsRadar Sample.onboardCodec Sample.onboardOptions
      Sample.radarBeforeState := by
  have hok : ∀ e ∈ Sample.radarBeforeState, e.WritesSucceed := by
    simp [Sample.radarBeforeState, Sample.fromDevice, Sample.cloudSays,
      ProxyEvent.WritesSucceed, Sample.tick]
  rw [keepsRadar_iff_radarInTime Sample.onboardCodec Sample.onboardOptions
    Sample.radarBeforeState hok]
  have hpoint : (completionPoint Sample.onboardCodec []
      (Taps.new.teeAll Sample.radarBeforeState)).all (fun point =>
        (firstSkip Sample.onboardCodec point).isSome &&
          (firstRepeat Sample.onboardCodec point).isSome) = true := by
    decide +kernel
  intro _ point heq
  rw [heq, Option.all_some, Bool.and_eq_true] at hpoint
  exact ⟨Or.inl hpoint.1, Or.inl hpoint.2⟩

open Learn in
/-- With `radarParams` last, the configuration left on disk has the default
skip. -/
theorem radarLast_loses_radar :
    ¬ KeepsRadar Sample.onboardCodec Sample.onboardOptions
      Sample.radarLast := by
  intro hkept
  have hrun : DeliversRadar Sample.onboardCodec
        (received (Taps.new.teeAll Sample.radarLast)) ∧
      firstSkip Sample.onboardCodec
        (received (Taps.new.teeAll Sample.radarLast)) = some 3 ∧
      (run Sample.onboardCodec Sample.onboardOptions
        Sample.radarLast).writes.getLast?.map (·.config.radarSkip) = some 9 := by
    unfold DeliversRadar
    decide +kernel
  obtain ⟨hdelivers, hskip, hwritten⟩ := hrun
  obtain ⟨w, hw, hconfig⟩ := Option.map_eq_some_iff.mp hwritten
  have hfirst := (hkept hdelivers w hw).1
  rw [hskip, hconfig] at hfirst
  revert hfirst
  decide

end Aquilo
