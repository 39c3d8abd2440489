/-
The generated configuration is loaded back as the recovered facts exactly when
no recovered string holds a character that has to be escaped: the strings are
spliced between quotes as they are.
-/
import Aquilo.ConfigToml

namespace Aquilo

open DecimalText ExactFloat Toml

namespace GeneratedConfig

/-- Numbers that the file can hold. -/
structure Writable (g : GeneratedConfig) : Prop where
  radarSkip : InI64 g.radarSkip
  radarRepeat : InI64 g.radarRepeat
  fullDist : IsDecimal g.calibration.fullDist
  emptyDist : IsDecimal g.calibration.emptyDist
  lvl : IsDecimal g.seed.lvl
  pct : InI64 g.seed.pct
  bat : InI64 g.seed.bat
  daysLeft : InI64 g.seed.daysLeft
  lvlToFull : InI64 g.seed.lvlToFull

theorem integer_readable (key : String) {n : ℤ} (hn : InI64 n) :
    (integer key n).Readable := by
  obtain ⟨c, r, heq, -⟩ := intText_head n
  refine ⟨by simp [heq], intText_isNumberChar n, ?_⟩
  rw [numberValue, readNumber_intText]
  exact if_pos hn

theorem float_readable (key : String) {q : ℚ} (hq : IsDecimal q) :
    (float key q).Readable := by
  refine ⟨?_, floatText_isNumberChar q, ?_⟩
  · intro hnil
    have hread := readNumber_floatText hq
    rw [hnil] at hread
    cases hread
  · rw [numberValue, readNumber_floatText hq]

theorem lines_framed (g : GeneratedConfig) :
    g.lines.all Item.framed = true := by
  rfl

theorem lines_sound {g : GeneratedConfig} (hg : g.Writable) :
    ∀ i ∈ g.lines, i.Sound := by
  have hframed := List.all_eq_true.mp (lines_framed g)
  have hreadable : ∀ i ∈ g.lines, i.Readable := by
    simp only [lines, List.forall_mem_cons, List.not_mem_nil, false_implies,
      implies_true, and_true]
    exact ⟨trivial, trivial, trivial, trivial, trivial, trivial, trivial,
      trivial, trivial, trivial, trivial, trivial,
      integer_readable _ hg.radarSkip, integer_readable _ hg.radarRepeat,
      trivial, trivial, integer_readable _ (by decide),
      integer_readable _ (by decide), trivial, trivial,
      integer_readable _ (by decide), integer_readable _ (by decide), trivial,
      trivial, float_readable _ hg.fullDist, float_readable _ hg.emptyDist, trivial,
      trivial, float_readable _ hg.lvl, integer_readable _ hg.pct,
      integer_readable _ hg.bat, integer_readable _ hg.daysLeft,
      integer_readable _ hg.lvlToFull, trivial, trivial⟩
  exact fun i hi => Item.sound_of_framed (hframed i hi) (hreadable i hi)

theorem lines_safe_iff (g : GeneratedConfig) :
    (∀ i ∈ g.lines, i.Safe) ↔ ∀ s ∈ g.strings, ∀ c ∈ s.toList, Plain c := by
  have hfixed : (∀ c ∈ "0.0.0.0".toList, Plain c) = True :=
    eq_true (by simp [Plain])
  simp only [lines, strings, List.forall_mem_cons, List.not_mem_nil,
    false_implies, implies_true, and_true, Item.Safe, comment, header, spliced,
    integer, float, true_and, hfixed]

theorem document_distinct (g : GeneratedConfig) :
    (Item.document g.lines).Distinct := by
  constructor
  · exact of_decide_eq_true rfl
  · exact of_decide_eq_true rfl

theorem ofDocument_lines {g : GeneratedConfig} (hg : g.Writable) :
    Config.ofDocument (Item.document g.lines) = some g.toConfig := by
  have hcalibration : Calibration.ofDocument (Item.document g.lines) =
      some g.calibration := rfl
  have hstate : StateSeed.ofDocument (Item.document g.lines) =
      some g.toConfig.state :=
    StateSeed.ofDocument_eq_some_iff.mpr
      ⟨defaulted_of_find rfl rfl, defaulted_of_find rfl (asI64_int hg.pct),
        defaulted_of_find rfl (asI64_int hg.bat),
        defaulted_of_find rfl (asI64_int hg.daysLeft),
        defaulted_of_find rfl (asI64_int hg.lvlToFull),
        defaulted_of_find rfl (asStr_toList _),
        defaulted_of_find rfl (asStr_toList _)⟩
  exact Config.ofDocument_eq_some_iff.mpr
    ⟨required_of_find rfl (asStr_toList _), required_of_find rfl (asStr_toList _),
      required_of_find rfl (asStr_toList _), required_of_find rfl (asStr_toList _),
      required_of_find rfl (asStr_toList _), required_of_find rfl (asStr_toList _),
      defaulted_of_find rfl (asI64_int hg.radarSkip),
      defaulted_of_find rfl (asI64_int hg.radarRepeat),
      defaulted_of_find rfl (asStr_toList _), defaulted_of_find rfl rfl,
      defaulted_of_find rfl rfl, defaulted_of_find rfl (asStr_toList _),
      defaulted_of_find rfl rfl, defaulted_of_find rfl rfl,
      nested_of_mem rfl (by exact List.mem_cons_self) hcalibration,
      nested_of_not_mem rfl (by exact of_decide_eq_true rfl),
      nested_of_mem rfl (by exact of_decide_eq_true rfl) hstate⟩

theorem entries_lines (g : GeneratedConfig) :
    (Item.document g.lines).entries =
      [ (([], "receiver_id".toList), .str g.receiverId.toList),
        (([], "sensor_id".toList), .str g.sensorId.toList),
        (([], "mqtt_user".toList), .str g.mqttUser.toList),
        (([], "mqtt_pass".toList), .str g.mqttPass.toList),
        (([], "firmware_version".toList), .str g.firmwareVersion.toList),
        (([], "sensor_name".toList), .str g.sensorName.toList),
        (([], "radar_skip".toList), .num (.int g.radarSkip)),
        (([], "radar_repeat".toList), .num (.int g.radarRepeat)),
        (([], "bind_addr".toList), .str "0.0.0.0".toList),
        (([], "listen_port".toList), .num (.int 1883)),
        (([], "ping_interval_secs".toList), .num (.int 1200)),
        (([], "data_dir".toList), .str g.dataDir.toList),
        (([], "history_max_len".toList), .num (.int 500)),
        (([], "pump_out_drop_pct".toList), .num (.int 25)),
        (("calibration".toList, "full_dist".toList),
          .num (.float g.calibration.fullDist)),
        (("calibration".toList, "empty_dist".toList),
          .num (.float g.calibration.emptyDist)),
        (("state".toList, "lvl".toList), .num (.float g.seed.lvl)),
        (("state".toList, "pct".toList), .num (.int g.seed.pct)),
        (("state".toList, "bat".toList), .num (.int g.seed.bat)),
        (("state".toList, "days_left".toList), .num (.int g.seed.daysLeft)),
        (("state".toList, "lvl_to_full".toList), .num (.int g.seed.lvlToFull)),
        (("state".toList, "lst_empty".toList), .str g.seed.lstEmpty.toList),
        (("state".toList, "from".toList), .str g.seed.from.toList)] := rfl

/-- A document that is read as the facts holds each of their strings. -/
theorem agrees_of_ofDocument {g : GeneratedConfig} {d : Document}
    (h : Config.ofDocument d = some g.toConfig) :
    ∀ e ∈ (Item.document g.lines).entries, d.Agrees e := by
  obtain ⟨hrid, hsid, huser, hpass, hfw, hname, -, -, hbind, -, -, hdir, -, -, -,
    -, hstate⟩ := Config.ofDocument_eq_some_iff.mp h
  have hseed : "state".toList ∈ d.tables →
      StateSeed.ofDocument d = some g.toConfig.state := eq_of_nested hstate
  have hempty : ∀ w, d.find "state".toList "lst_empty".toList = some w →
      w = .str g.seed.lstEmpty.toList := by
    intro w hw
    have hread := hseed (Document.mem_tables_of_find hw (by simp))
    exact eq_str_of_defaulted
      (StateSeed.ofDocument_eq_some_iff.mp hread).2.2.2.2.2.1 hw
  have hfrom : ∀ w, d.find "state".toList "from".toList = some w →
      w = .str g.seed.from.toList := by
    intro w hw
    have hread := hseed (Document.mem_tables_of_find hw (by simp))
    exact eq_str_of_defaulted
      (StateSeed.ofDocument_eq_some_iff.mp hread).2.2.2.2.2.2 hw
  rw [entries_lines]
  simp only [List.forall_mem_cons, List.not_mem_nil, false_implies,
    implies_true, and_true]
  have hnum := d.agrees_num
  exact ⟨Document.agrees_str fun _ => eq_str_of_required hrid,
    Document.agrees_str fun _ => eq_str_of_required hsid,
    Document.agrees_str fun _ => eq_str_of_required huser,
    Document.agrees_str fun _ => eq_str_of_required hpass,
    Document.agrees_str fun _ => eq_str_of_required hfw,
    Document.agrees_str fun _ => eq_str_of_required hname, hnum _ _, hnum _ _,
    Document.agrees_str fun _ => eq_str_of_defaulted hbind, hnum _ _, hnum _ _,
    Document.agrees_str fun _ => eq_str_of_defaulted hdir, hnum _ _, hnum _ _,
    hnum _ _, hnum _ _, hnum _ _, hnum _ _, hnum _ _, hnum _ _, hnum _ _,
    Document.agrees_str hempty, Document.agrees_str hfrom⟩

theorem text_toList (g : GeneratedConfig) : g.text.toList = render g.lines :=
  String.toList_ofList

/-- Loaded back as the facts, exactly when no string has to be escaped. -/
theorem parse_text_iff {g : GeneratedConfig} (hg : g.Writable) :
    Config.parse g.text = some g.toConfig ↔
      ∀ s ∈ g.strings, ∀ c ∈ s.toList, Plain c := by
  rw [← lines_safe_iff, Config.parse, text_toList]
  constructor
  · intro h
    obtain ⟨d, hparse, hread⟩ := Option.bind_eq_some_iff.mp h
    exact safe_of_parse (lines_sound hg) (document_distinct g) hparse
      (agrees_of_ofDocument hread)
  · intro hsafe
    rw [parse_render (lines_sound hg) hsafe (document_distinct g),
      Option.bind_some, ofDocument_lines hg]

end GeneratedConfig

end Aquilo
