/-
Where the recovered credentials come from.  Each of the three is filled by the
first CONNECT that has it, and every CONNECT has a receiver id, so they belong
to one packet exactly when the first CONNECT carries them all.
-/
import Aquilo.Learn

namespace Aquilo

open Source

namespace Learn

section Credentials

variable (codec : Codec)

/-- The credentials written were all empty before one CONNECT of the run, and
are that packet's. -/
def FromOneConnect (w : Written) : Prop :=
  ∃ pre c post, w.seen = pre ++ .deviceConnect c :: post ∧
    (Facts.collect codec pre).receiverId = none ∧
    (Facts.collect codec pre).mqttUser = none ∧
    (Facts.collect codec pre).mqttPass = none ∧
    c.receiverId = w.config.receiverId ∧
    c.username = some w.config.mqttUser ∧
    c.password = some w.config.mqttPass

/-- The first CONNECT carries a username and a password. -/
def FirstConnectFull (sources : List Source) : Prop :=
  ∃ c, (connects sources).head? = some c ∧ c.username.isSome ∧
    c.password.isSome

variable {codec}

theorem connects_append (xs ys : List Source) :
    connects (xs ++ ys) = connects xs ++ connects ys := List.filterMap_append

/-- No CONNECT came before the one that filled the receiver id. -/
theorem connects_eq_nil_iff {sources : List Source} :
    (Facts.collect codec sources).receiverId = none ↔ connects sources = [] := by
  rw [Facts.collect_receiverId, Option.map_eq_none_iff, List.head?_eq_none_iff]

theorem fromOneConnect_iff {opts : OnboardOptions} {w : Written}
    (h : Faithful codec opts w) {sources : List Source}
    (hpre : w.seen <+: sources) :
    FromOneConnect codec w ↔ FirstConnectFull sources := by
  obtain ⟨hrid, huser, hpass, -⟩ := generatedConfig_eq_ok h.config
  obtain ⟨later, rfl⟩ := hpre
  constructor
  · rintro ⟨pre, c, post, hseen, hnone, -, -, -, hcuser, hcpass⟩
    refine ⟨c, ?_, by rw [hcuser]; rfl, by rw [hcpass]; rfl⟩
    rw [hseen, connects_append, connects_append,
      connects_eq_nil_iff.mp hnone]
    rfl
  · rintro ⟨c, hfirst, hcuser, hcpass⟩
    rw [Facts.collect_receiverId] at hrid
    rw [Facts.collect_mqttUser] at huser
    rw [Facts.collect_mqttPass] at hpass
    obtain ⟨user, hcuser⟩ := Option.isSome_iff_exists.mp hcuser
    obtain ⟨pass, hcpass⟩ := Option.isSome_iff_exists.mp hcpass
    obtain ⟨c', hc', -⟩ := Option.map_eq_some_iff.mp hrid
    -- the first CONNECT of the run is the first before the write
    have hsame : c' = c := by
      obtain ⟨rest, hrest⟩ := List.head?_eq_some_iff.mp hc'
      rw [connects_append, hrest] at hfirst
      exact Option.some.inj hfirst
    subst hsame
    obtain ⟨rest, hrest⟩ := List.head?_eq_some_iff.mp hc'
    rw [hc', Option.map_some, Option.some.injEq] at hrid
    rw [hrest, List.findSome?_cons, hcuser, Option.some.injEq] at huser
    rw [hrest, List.findSome?_cons, hcpass, Option.some.injEq] at hpass
    rw [connects, List.head?_filterMap, List.findSome?_eq_some_iff] at hc'
    obtain ⟨pre, src, post, hseen, hsrc, hpre⟩ := hc'
    have hnil : connects pre = [] := List.filterMap_eq_nil_iff.mpr hpre
    obtain rfl : src = .deviceConnect c' := by
      cases src with
      | deviceConnect d =>
          cases Option.some.inj hsrc
          rfl
      | devicePublish topic payload now => cases hsrc
      | cloudPublish topic payload => cases hsrc
    refine ⟨pre, c', post, hseen, connects_eq_nil_iff.mpr hnil, ?_, ?_, hrid,
      by rw [hcuser, huser], by rw [hcpass, hpass]⟩
    · rw [Facts.collect_mqttUser, hnil]
      rfl
    · rw [Facts.collect_mqttPass, hnil]
      rfl

end Credentials

end Learn

open Learn in
/-- In every run of the proxy, the credentials written come from one CONNECT
exactly when the first CONNECT of the run has a username and a password. -/
theorem credentials_from_one_connect_iff (codec : Codec) (opts : OnboardOptions)
    (events : List ProxyEvent) (w : Written)
    (hw : w ∈ (run codec opts events).writes) :
    FromOneConnect codec w ↔
      FirstConnectFull (received (Taps.new.teeAll events)) := by
  have hinv : Inv codec opts (run codec opts events) := inv_run events
  apply fromOneConnect_iff (hinv.faithful w hw)
  rw [← run_seen]
  exact hinv.prefixes w hw

namespace Sample

/-- A CONNECT of another client, with a username but no password. -/
def bareConnectBytes : List UInt8 :=
  MqttWire.frame 0x10
    ([0, 4] ++ Utf8.encode "MQTT" ++ [4, 0x82, 0, 60] ++
      [0, 5] ++ Utf8.encode "probe" ++ [0, 5] ++ Utf8.encode "guest")

/-- Another client connects before the device does. -/
def probedFirst : List ProxyEvent :=
  [ .connect, fromDevice bareConnectBytes, .connect, fromDevice connectBytes,
    deviceSays topics.log "1.7.1.9_sh_en", deviceSays topics.read readText ]

/-- The device connects alone. -/
def deviceOnly : List ProxyEvent :=
  [ .connect, fromDevice connectBytes, deviceSays topics.log "1.7.1.9_sh_en",
    deviceSays topics.read readText ]

end Sample

open Learn in
/-- The user of one CONNECT is written with the password of another. -/
theorem probedFirst_mixes_credentials :
    ¬ ∀ w ∈ (run Sample.onboardCodec Sample.onboardOptions
        Sample.probedFirst).writes, FromOneConnect Sample.onboardCodec w := by
  intro hone
  have hrun : (run Sample.onboardCodec Sample.onboardOptions
      Sample.probedFirst).writes.map (fun w => (w.config.mqttUser,
        w.config.mqttPass, connects w.seen)) =
      [("guest", "48007129",
        [⟨"probe", some "guest", none⟩,
          ⟨"CieczSensorae83fc", some "ae83fc", some "48007129"⟩])] := by
    decide +kernel
  obtain ⟨w, hw, hconfig⟩ := List.map_eq_singleton_iff.mp hrun
  obtain ⟨pre, c, post, hseen, -, -, -, -, huser, hpass⟩ :=
    hone w (by rw [hw]; exact List.mem_singleton_self w)
  have hmem : c ∈ connects w.seen :=
    List.mem_filterMap.mpr ⟨.deviceConnect c, by simp [hseen], rfl⟩
  simp only [Prod.mk.injEq] at hconfig
  obtain ⟨hguest, hsecret, hconnects⟩ := hconfig
  rw [hguest] at huser
  rw [hsecret] at hpass
  rw [hconnects, List.mem_cons, List.mem_singleton] at hmem
  rcases hmem with rfl | rfl
  · cases hpass
  · revert huser
    decide

open Learn in
theorem deviceOnly_credentials_from_one_connect :
    ∃ w ∈ (run Sample.onboardCodec Sample.onboardOptions
        Sample.deviceOnly).writes, FromOneConnect Sample.onboardCodec w := by
  have hrun : (run Sample.onboardCodec Sample.onboardOptions
      Sample.deviceOnly).writes ≠ [] ∧
      (connects (received (Taps.new.teeAll Sample.deviceOnly))).head? =
        some ⟨"CieczSensorae83fc", some "ae83fc", some "48007129"⟩ := by
    decide +kernel
  obtain ⟨w, hw⟩ := List.exists_mem_of_ne_nil _ hrun.1
  exact ⟨w, hw, (credentials_from_one_connect_iff Sample.onboardCodec
    Sample.onboardOptions Sample.deviceOnly w hw).mpr ⟨_, hrun.2, rfl, rfl⟩⟩

end Aquilo
