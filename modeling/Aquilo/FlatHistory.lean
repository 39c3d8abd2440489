/-
A history at one level.  It has no trend, and exact arithmetic projects nothing from
it; in binary64 that is so where the levels are summed exactly, and not in general.
-/
import Aquilo.BinaryServe
import Aquilo.ServeSafety

namespace Aquilo

open ExactFloat LeastSquares Binary64 CheckedServe

variable {parseTs : String → Option ℤ} {t0 : ℤ} {level : ℚ}

section Exact

theorem fitPoints_snd {history : List ReadingRecord} {points : List (ℚ × ℚ)}
    (h : fitPoints parseTs t0 history = some points) :
    points.map Prod.snd = history.map ReadingRecord.lvl := by
  induction history generalizing points with
  | nil =>
      cases Option.some.inj h
      rfl
  | cons r rest ih =>
      simp only [fitPoints, Option.bind_eq_bind, Option.bind_eq_some_iff,
        Option.pure_def, Option.some.injEq] at h
      obtain ⟨t, -, tail, htail, rfl⟩ := h
      rw [List.map_cons, List.map_cons, ih htail]

theorem sxy_flat {points : List (ℚ × ℚ)} (h : ∀ p ∈ points, p.2 = level) :
    sxy points = 0 := by
  rcases eq_or_ne points [] with rfl | hne
  · rfl
  · have hsum : (points.map Prod.snd).sum = points.length * level := by
      have hmap : points.map Prod.snd = points.map fun _ => level :=
        List.map_congr_left h
      rw [hmap, List.map_const', List.sum_replicate, nsmul_eq_mul]
    have hmean : meanY points = level := by
      have hlen : (points.length : ℚ) ≠ 0 := by simpa using hne
      rw [meanY, hsum, mul_div_cancel_left₀ _ hlen]
    rw [sxy, hmean]
    apply List.sum_eq_zero
    intro x hx
    obtain ⟨p, hp, rfl⟩ := List.mem_map.mp hx
    rw [h p hp, sub_self, mul_zero]

/-- A flat history projects nothing. -/
theorem daysLeft_flat {history : List ReadingRecord}
    (hflat : ∀ r ∈ history, r.lvl = level) (fullDist : ℚ) :
    daysLeft parseTs history fullDist = none := by
  cases history with
  | nil => rfl
  | cons first rest =>
      cases ht0 : parseTs first.ts with
      | none => simp [daysLeft, ht0]
      | some t0 =>
          cases hpoints : fitPoints parseTs t0 (first :: rest) with
          | none => simp [daysLeft, ht0, hpoints]
          | some points =>
              apply daysLeft_eq_none_of_rising ht0 hpoints
              apply le_of_eq
              symm
              apply sxy_flat
              intro p hp
              have hmem : p.2 ∈ points.map Prod.snd := List.mem_map_of_mem hp
              rw [fitPoints_snd hpoints] at hmem
              obtain ⟨r, hr, hlvl⟩ := List.mem_map.mp hmem
              rw [← hlvl]
              exact hflat r hr

end Exact

section Binary

/-- The coordinates of a fit in binary64. -/
structure Plotted (history : List ReadingRecord) (points : List (ℚ × ℚ)) : Prop where
  levels : points.map Prod.snd = history.map ReadingRecord.lvl
  days : ∀ p ∈ points, |p.1| ≤ 2 ^ 30

theorem plotted_fitPoints (hts : EpochSeconds parseTs) {ts : String}
    (ht0 : parseTs ts = some t0) {history : List ReadingRecord}
    {points : List (ℚ × ℚ)} (h : BinaryServe.fitPoints parseTs t0 history = some points) :
    Plotted history points := by
  induction history generalizing points with
  | nil =>
      cases Option.some.inj h
      exact ⟨rfl, by simp⟩
  | cons r rest ih =>
      simp only [BinaryServe.fitPoints, Option.bind_eq_bind, Option.bind_eq_some_iff,
        Option.pure_def, Option.some.injEq] at h
      obtain ⟨t, ht, tail, htail, rfl⟩ := h
      have hrest := ih htail
      have hbounds := hts _ _ ht
      have hbounds' := hts _ _ ht0
      have hdays : |((t - t0 : ℤ) : ℚ) / 86400| ≤ 2 ^ 28 := by
        have hspan : |t - t0| ≤ 2 ^ 44 := abs_le.mpr (by constructor <;> omega)
        have hspan' : |((t - t0 : ℤ) : ℚ)| ≤ 2 ^ 44 := by exact_mod_cast hspan
        rw [abs_div, abs_of_pos (show (0 : ℚ) < 86400 by norm_num),
          div_le_iff₀ (by norm_num)]
        norm_num at hspan' ⊢
        linarith
      have hkept : ofInt (t - t0) = (t - t0 : ℤ) :=
        ofInt_eq (abs_lt.mpr (by constructor <;> omega))
      refine ⟨by rw [List.map_cons, List.map_cons, hrest.levels], ?_⟩
      rw [List.forall_mem_cons]
      refine ⟨?_, hrest.days⟩
      rw [hkept]
      calc |nearest (((t - t0 : ℤ) : ℚ) / 86400)|
          ≤ 2 * (|((t - t0 : ℤ) : ℚ) / 86400| + 1) := abs_nearest_le _
        _ ≤ 2 ^ 30 := by linarith

theorem ofInt_natCast {n : ℕ} (hn : n ≤ 2 ^ 50) : ofInt (n : ℤ) = n := by
  have hexact := ofInt_eq (show |(n : ℤ)| < 2 ^ 53 by
    rw [Nat.abs_cast]
    omega)
  rw [hexact, Int.cast_natCast]

theorem mean_bounded {xs : List ℚ} (hne : xs ≠ []) (hlength : xs.length ≤ 2 ^ 50)
    (h : ∀ x ∈ xs, |x| ≤ 2 ^ 30) :
    ∃ mx, BinaryServe.mean xs = .fin mx ∧ |mx| ≤ 2 ^ 33 := by
  obtain ⟨s, hs, hs_le⟩ := sum_bounded (by norm_num) (by norm_num) hlength h
  have hpos : (0 : ℚ) < xs.length := by
    exact_mod_cast List.length_pos_iff.mpr hne
  have hkept := ofInt_natCast hlength
  have hquot : |s / xs.length| ≤ 2 ^ 31 := by
    rw [abs_div, abs_of_pos hpos, div_le_iff₀ hpos]
    linarith
  refine ⟨nearest (s / xs.length), ?_, ?_⟩
  · rw [BinaryServe.mean, hs, hkept, div_fin _ hpos.ne', round_of_le]
    exact hquot.trans (by norm_num)
  · calc |nearest (s / xs.length)| ≤ 2 * (|s / xs.length| + 1) := abs_nearest_le _
      _ ≤ 2 ^ 33 := by linarith

/-- The mean of equal levels that are summed exactly. -/
theorem mean_replicate {m k : ℤ} (hk : -1074 ≤ k) (hk' : k ≤ 100) {n : ℕ}
    (hn : 0 < n) (hm : (|m| + 1) * n ≤ 2 ^ 50) :
    BinaryServe.mean (List.replicate n (m * 2 ^ k)) = .fin (m * 2 ^ k) := by
  have hpos : (0 : ℚ) < n := by exact_mod_cast hn
  have hn' : (0 : ℤ) < n := by exact_mod_cast hn
  have hsplit : |m| * n + n ≤ 2 ^ 50 := by linarith
  have hproduct : 0 ≤ |m| * n := by positivity
  have hcount : n ≤ 2 ^ 50 := by
    have hcount' : (n : ℤ) ≤ 2 ^ 50 := by linarith
    exact_mod_cast hcount'
  have hdigits : |m| < 2 ^ 53 := by nlinarith [abs_nonneg m]
  rw [BinaryServe.mean, sum_replicate hk hk' (by linarith), List.length_replicate,
    ofInt_natCast hcount, div_fin _ hpos.ne', mul_div_cancel_left₀ _ hpos.ne',
    round_eq_self hdigits hk hk']

/-- The squared deviation of a point. -/
def squared (mx : ℚ) (p : ℚ × ℚ) : ℚ :=
  nearest (nearest (p.1 - mx) * nearest (p.1 - mx))

theorem deviation_le {mx : ℚ} (hmx : |mx| ≤ 2 ^ 33) {p : ℚ × ℚ} (hp : |p.1| ≤ 2 ^ 30) :
    |p.1 - mx| ≤ 2 ^ 34 ∧ |nearest (p.1 - mx)| ≤ 2 ^ 36 := by
  have hdiff : |p.1 - mx| ≤ 2 ^ 34 := by
    calc |p.1 - mx| ≤ |p.1| + |mx| := abs_sub _ _
      _ ≤ 2 ^ 34 := by linarith
  refine ⟨hdiff, (abs_nearest_le _).trans ?_⟩
  linarith

theorem squared_le {mx : ℚ} (hmx : |mx| ≤ 2 ^ 33) {p : ℚ × ℚ} (hp : |p.1| ≤ 2 ^ 30) :
    |nearest (p.1 - mx) * nearest (p.1 - mx)| ≤ 2 ^ 72 ∧ |squared mx p| ≤ 2 ^ 74 := by
  obtain ⟨-, hnear⟩ := deviation_le hmx hp
  have hproduct : |nearest (p.1 - mx) * nearest (p.1 - mx)| ≤ 2 ^ 72 := by
    rw [abs_mul]
    calc |nearest (p.1 - mx)| * |nearest (p.1 - mx)| ≤ 2 ^ 36 * 2 ^ 36 :=
          mul_le_mul hnear hnear (abs_nonneg _) (by norm_num)
      _ = 2 ^ 72 := by norm_num
  refine ⟨hproduct, (abs_nearest_le _).trans ?_⟩
  linarith

/-- Around the mean, equal levels add nothing to the second sum. -/
theorem fit_flat {mx : ℚ} (hmx : |mx| ≤ 2 ^ 33) {points : List (ℚ × ℚ)}
    (hdays : ∀ p ∈ points, |p.1| ≤ 2 ^ 30) (hlevels : ∀ p ∈ points, p.2 = level) :
    BinaryServe.fit (.fin mx) (.fin level) points =
      (sum (points.map (squared mx)), .fin 0) := by
  -- from the right, in the order in which the loop adds
  induction points using List.reverseRecOn with
  | nil => rfl
  | append_singleton points p ih =>
      have hlast := List.mem_append_right points (List.mem_singleton_self p)
      have hrest := ih (fun q hq => hdays q (List.mem_append_left _ hq))
        fun q hq => hlevels q (List.mem_append_left _ hq)
      obtain ⟨hdiff, hnear⟩ := deviation_le hmx (hdays p hlast)
      obtain ⟨hproduct, -⟩ := squared_le hmx (hdays p hlast)
      have hdx : sub (.fin p.1) (.fin mx) = .fin (nearest (p.1 - mx)) := by
        rw [sub_fin, round_of_le (hdiff.trans (by norm_num))]
      have hdy : sub (.fin p.2) (.fin level) = .fin 0 := by
        rw [hlevels p hlast, sub_fin, sub_self, round_zero]
      rw [BinaryServe.fit, List.foldl_concat, ← BinaryServe.fit, hrest, List.map_append,
        List.map_singleton, sum_concat]
      dsimp only
      rw [hdx, hdy, mul_fin, mul_fin, mul_zero, round_zero, add_fin, add_zero, round_zero,
        round_of_le (hproduct.trans (by norm_num))]
      rfl

/-- A slope of zero is not a fill rate. -/
theorem isNonpos_slope_zero (a : ℚ) (ha : a ≠ 0) :
    isNonpos (neg (div (.fin 0) (.fin a))) = true := by
  rw [div_fin _ ha, zero_div, round_zero]
  rfl

theorem fit_of_flat (hts : EpochSeconds parseTs) {ts : String}
    (ht0 : parseTs ts = some t0) {first : ReadingRecord} {rest : List ReadingRecord}
    {points : List (ℚ × ℚ)}
    (hpoints : BinaryServe.fitPoints parseTs t0 (first :: rest) = some points)
    {m k : ℤ} (hk : -1074 ≤ k) (hk' : k ≤ 100)
    (hm : (|m| + 1) * (first :: rest).length ≤ 2 ^ 50)
    (hflat : ∀ r ∈ first :: rest, r.lvl = m * 2 ^ k) :
    ∃ a, BinaryServe.fit (BinaryServe.mean (points.map Prod.fst))
      (BinaryServe.mean (points.map Prod.snd)) points = (.fin a, .fin 0) := by
  have hplotted := plotted_fitPoints hts ht0 hpoints
  have hlevels : points.map Prod.snd =
      List.replicate (first :: rest).length (m * 2 ^ k : ℚ) := by
    rw [hplotted.levels, List.eq_replicate_iff, List.length_map]
    refine ⟨rfl, fun y hy => ?_⟩
    obtain ⟨r, hr, rfl⟩ := List.mem_map.mp hy
    exact hflat r hr
  have hlength : points.length = (first :: rest).length := by
    rw [← List.length_map Prod.snd, hlevels, List.length_replicate]
  have hcount : points.length ≤ 2 ^ 50 := by
    have hproduct : 0 ≤ |m| * ((first :: rest).length : ℤ) := by positivity
    have hcount' : ((first :: rest).length : ℤ) ≤ 2 ^ 50 := by linarith
    rw [hlength]
    exact_mod_cast hcount'
  have hne : points.map Prod.fst ≠ [] := by
    rw [← List.length_pos_iff, List.length_map, hlength, List.length_cons]
    omega
  have hdays : ∀ x ∈ points.map Prod.fst, |x| ≤ 2 ^ 30 := by
    intro x hx
    obtain ⟨p, hp, rfl⟩ := List.mem_map.mp hx
    exact hplotted.days p hp
  have hlevel : ∀ p ∈ points, p.2 = m * 2 ^ k := by
    intro p hp
    have hmem : p.2 ∈ points.map Prod.snd := List.mem_map_of_mem hp
    rw [hlevels] at hmem
    exact List.eq_of_mem_replicate hmem
  obtain ⟨mx, hmx, hmx_le⟩ := mean_bounded hne (by rwa [List.length_map]) hdays
  have hsquares : ∀ x ∈ points.map (squared mx), |x| ≤ 2 ^ 74 := by
    intro x hx
    obtain ⟨p, hp, rfl⟩ := List.mem_map.mp hx
    exact (squared_le hmx_le (hplotted.days p hp)).2
  obtain ⟨a, ha, -⟩ := sum_bounded (by norm_num) (by norm_num)
    (show (points.map (squared mx)).length ≤ 2 ^ 50 by rwa [List.length_map]) hsquares
  refine ⟨a, ?_⟩
  rw [hmx, hlevels, mean_replicate hk hk' (by simp) hm, fit_flat hmx_le hplotted.days
    hlevel, ha]

theorem binary_daysLeft_flat (hts : EpochSeconds parseTs) {history : List ReadingRecord}
    {m k : ℤ} (hk : -1074 ≤ k) (hk' : k ≤ 100)
    (hm : (|m| + 1) * history.length ≤ 2 ^ 50)
    (hflat : ∀ r ∈ history, r.lvl = m * 2 ^ k) (fullDist : ℚ) :
    BinaryServe.daysLeft parseTs history fullDist = none := by
  cases history with
  | nil => rfl
  | cons first rest =>
      cases ht0 : parseTs first.ts with
      | none => simp [BinaryServe.daysLeft, ht0]
      | some t0 =>
          cases hpoints : BinaryServe.fitPoints parseTs t0 (first :: rest) with
          | none => simp [BinaryServe.daysLeft, ht0, hpoints]
          | some points =>
              obtain ⟨a, hfit⟩ := fit_of_flat hts ht0 hpoints hk hk' hm hflat
              simp only [BinaryServe.daysLeft, List.head?_cons, Option.bind_eq_bind,
                Option.bind_some, ht0, hpoints, hfit]
              -- all readings at one time, or a slope of zero
              rcases eq_or_ne a 0 with rfl | ha
              · simp
              · simp [isNonpos_slope_zero a ha]

end Binary

section Run

variable {codec : Codec} {cfg : Config}

/-- A level and an estimate that a run keeps. -/
structure Runtime.Flat (level : ℚ) (days : ℤ) (rt : Runtime) : Prop where
  history : ∀ r ∈ rt.history, r.lvl = level
  daysLeft : rt.current.daysLeft = days

/-- Every reading the events bring is of one level. -/
def OneLevel (codec : Codec) (cfg : Config) (level : ℚ) (events : List Event) : Prop :=
  ∀ e ∈ events, ∀ r, acceptedReading codec cfg e = some r → r.1.levelCm = level

theorem flat_trimHistory {history : List ReadingRecord} {r : ReadingRecord}
    (h : ∀ r ∈ history, r.lvl = level) (hr : r.lvl = level) (maxLen : ℕ) :
    ∀ r' ∈ trimHistory maxLen (history ++ [r]), r'.lvl = level := by
  intro r' hr'
  rw [trimHistory_eq_rtake] at hr'
  rcases List.mem_append.mp (List.mem_of_mem_drop hr') with hold | hnew
  · exact h r' hold
  · rw [List.mem_singleton.mp hnew]
    exact hr

theorem length_trimHistory_le (maxLen : ℕ) (history : List ReadingRecord) :
    (trimHistory maxLen history).length ≤ maxLen := by
  rw [trimHistory]
  split_ifs with hlong
  · rw [List.length_drop]
    omega
  · omega

variable {days : ℤ}

theorem Runtime.Flat.applyReading {rt : Runtime} (h : rt.Flat level days) {r : Reading}
    (hr : r.levelCm = level) (now : String) :
    (rt.applyReading codec.parseTs cfg BatteryCurve.default r now).Flat level days := by
  have hflat := flat_trimHistory h.history
    (show (Runtime.record BatteryCurve.default r now).lvl = level from hr)
    cfg.historyMaxLen
  refine ⟨hflat, ?_⟩
  rw [Runtime.applyReading_daysLeft, daysLeft_flat hflat, Option.getD_none, h.daysLeft]

/-- A level that binary64 holds, for every history the cap allows to be summed. -/
structure SummedExactly (cfg : Config) (level : ℚ) (m k : ℤ) : Prop where
  level_eq : level = m * 2 ^ k
  low : -1074 ≤ k
  high : k ≤ 100
  digits : (|m| + 1) * (cfg.historyMaxLen + 1) ≤ 2 ^ 50

theorem SummedExactly.nearest_eq {m k : ℤ} (h : SummedExactly cfg level m k) :
    nearest level = level := by
  have hproduct : 0 ≤ (|m| + 1) * (cfg.historyMaxLen : ℤ) := by positivity
  have hdigits := h.digits
  rw [h.level_eq]
  exact nearest_eq_self (by linarith) h.low

theorem Runtime.Flat.applyReading_binary (hts : EpochSeconds codec.parseTs) {m k : ℤ}
    (hsum : SummedExactly cfg level m k) {rt : Runtime} (h : rt.Flat level days)
    {r : Reading} (hr : r.levelCm = level) (now : String) :
    (BinaryServe.applyReading codec.parseTs (BinaryServe.config cfg)
      BatteryCurve.default r.binary now rt).Flat level days := by
  have hlevel : r.binary.levelCm = level := by
    rw [Reading.binary, hr, hsum.nearest_eq]
  let record : ReadingRecord := ⟨now, r.binary.levelCm,
    BinaryServe.percent BatteryCurve.default r.binary.batteryMv⟩
  let kept := trimHistory cfg.historyMaxLen (rt.history ++ [record])
  have hflat : ∀ r' ∈ kept, r'.lvl = level :=
    flat_trimHistory (r := record) h.history hlevel cfg.historyMaxLen
  refine ⟨hflat, ?_⟩
  have hlength : kept.length ≤ cfg.historyMaxLen + 1 :=
    (length_trimHistory_le cfg.historyMaxLen _).trans (Nat.le_succ _)
  have hdigits : (|m| + 1) * (kept.length : ℤ) ≤ 2 ^ 50 := by
    refine le_trans ?_ hsum.digits
    refine mul_le_mul_of_nonneg_left ?_ (by positivity)
    exact_mod_cast hlength
  have hnone : BinaryServe.daysLeft codec.parseTs kept
      (BinaryServe.config cfg).calibration.fullDist = none :=
    binary_daysLeft_flat hts hsum.low hsum.high hdigits
      (fun r' hr' => (hflat r' hr').trans hsum.level_eq) _
  change (BinaryServe.daysLeft codec.parseTs kept
    (BinaryServe.config cfg).calibration.fullDist).getD rt.current.daysLeft = days
  rw [hnone, Option.getD_none, h.daysLeft]

end Run

/-- While the level stays as it is, the estimate should: in exact arithmetic it does,
whatever the level, and in binary64 where the levels are numbers of few binary digits,
so that every history is summed exactly. -/
theorem flat_runs_keep_estimate (codec : Codec) (hts : EpochSeconds codec.parseTs)
    (cfg : Config) (level : ℚ) (days : ℤ) :
    (∀ (s : Server) (events : List Event), s.rt.Flat level days →
      OneLevel codec cfg level events →
        (afterEvents codec cfg s events).rt.Flat level days) ∧
      ∀ m k : ℤ, SummedExactly cfg level m k → |level| ≤ 10 ^ 13 →
        ∀ (t : Server) (events : List Event), t.rt.Flat level days →
          OneLevel codec cfg level events →
            (BinaryServe.afterEvents codec (BinaryServe.config cfg) t events).rt.Flat
              level days := by
  constructor
  · intro s events h hlevels
    induction events using List.reverseRecOn with
    | nil => exact h
    | append_singleton pre e ih =>
        have hpre := ih fun e' he' => hlevels e' (List.mem_append_left _ he')
        have he := hlevels e (List.mem_append_right _ List.mem_cons_self)
        rw [afterEvents_concat, Client.handleEvent_rt]
        cases hread : acceptedReading codec cfg e with
        | none => exact hpre
        | some r => exact hpre.applyReading (he r hread) r.2
  · intro m k hsum hbound t events h hlevels
    induction events using List.reverseRecOn with
    | nil => exact h
    | append_singleton pre e ih =>
        have hpre := ih fun e' he' => hlevels e' (List.mem_append_left _ he')
        have he := hlevels e (List.mem_append_right _ List.mem_cons_self)
        have hlevel : ∀ r, acceptedReading codec cfg e = some r →
            |r.1.levelCm| ≤ 10 ^ 13 := by
          intro r hr
          rwa [he r hr]
        rw [BinaryServe.afterEvents, List.foldl_concat, ← BinaryServe.afterEvents,
          handleEvent_binary_rt _ hlevel]
        cases hread : acceptedReading codec cfg e with
        | none => exact hpre
        | some r => exact hpre.applyReading_binary hts hsum (he r hread) r.2

namespace Sample

/-- Every twenty minutes. -/
def stamps : List (String × ℤ) :=
  [ ("2026-06-10T20:00:00+02:00", 1781114400),
    ("2026-06-10T20:20:00+02:00", 1781115600),
    ("2026-06-10T20:40:00+02:00", 1781116800),
    ("2026-06-10T21:00:00+02:00", 1781118000),
    ("2026-06-10T21:20:00+02:00", 1781119200),
    ("2026-06-10T21:40:00+02:00", 1781120400),
    ("2026-06-10T22:00:00+02:00", 1781121600),
    ("2026-06-10T22:20:00+02:00", 1781122800),
    ("2026-06-10T22:40:00+02:00", 1781124000),
    ("2026-06-10T23:00:00+02:00", 1781125200) ]

def stampTime (ts : String) : Option DateTime :=
  (List.lookup ts stamps).map fun t => ⟨t, 0⟩

def quarterText : String :=
  "\x7b\"sensor\":\"ae5058\",\"read1\":15025,\"battery\":\"3770\"\x7d"

/-- A sensor at 150.25 cm. -/
def quarterCodec : Codec :=
  { printingCodec with
    readPayload := fun payload =>
      if payload = Utf8.encode quarterText then
        some { sensor := some "ae5058", version := none, read1 := some 15025,
               battery := some "3770", readNo := none, lastSent := none,
               amp1 := none, temp := none, raw := none }
      else none
    parseFromRfc3339 := stampTime }

theorem quarterCodec_epochSeconds : EpochSeconds quarterCodec.parseTs := by
  intro ts t h
  obtain ⟨d, hd, rfl⟩ := Option.map_eq_some_iff.mp h
  obtain ⟨s, hs, rfl⟩ := Option.map_eq_some_iff.mp hd
  obtain ⟨before, after, hsplit, -⟩ := List.lookup_eq_some_iff.mp hs
  have hmem : (ts, s) ∈ stamps := by
    rw [hsplit]
    exact List.mem_append_right _ List.mem_cons_self
  have hall : ∀ p ∈ stamps, -2 ^ 43 ≤ p.2 ∧ p.2 ≤ 2 ^ 43 := by decide +kernel
  exact hall _ hmem

def quarterEvents : List Event :=
  stamps.map fun stamp =>
    .publish (Topics.new config.receiverId).read (Utf8.encode quarterText) stamp.1 true

theorem quarterEvents_oneLevel :
    OneLevel quarterCodec config (601 / 4) quarterEvents := by
  have hall : quarterEvents.all (fun e =>
      ((acceptedReading quarterCodec config e).map fun r => r.1.levelCm).all
        (· = 601 / 4)) = true := by decide +kernel
  intro e he r hr
  have hlevel := List.all_eq_true.mp hall e he
  simpa [hr] using hlevel

/-- Ten readings of 150.2 cm. -/
def flatHistory : List ReadingRecord :=
  stamps.map fun stamp => ⟨stamp.1, nearest (751 / 5), 83⟩

end Sample

open Sample in
/-- The estimate stays at 150.25 cm.  At 150.2 cm, which binary64 does not hold, the
mean of ten readings differs from them, and the estimate becomes the greatest integer. -/
theorem quarterEvents_keep_estimate :
    (BinaryServe.afterEvents quarterCodec (BinaryServe.config config)
        (startedOn (BinaryServe.config config)) quarterEvents).rt.current.daysLeft = 51 ∧
      daysLeft quarterCodec.parseTs flatHistory 40 = none ∧
      BinaryServe.daysLeft quarterCodec.parseTs flatHistory 40 = some i64Max := by
  have hsum : SummedExactly config (601 / 4) 601 (-2) :=
    ⟨by norm_num, by norm_num, by norm_num, by decide⟩
  have hflat := (flat_runs_keep_estimate quarterCodec quarterCodec_epochSeconds config (601 / 4)
    51).2 601 (-2) hsum (by norm_num [abs_of_pos]) (startedOn (BinaryServe.config config))
      quarterEvents ⟨by decide +kernel, by decide +kernel⟩ quarterEvents_oneLevel
  refine ⟨hflat.daysLeft, ?_, ?_⟩
  · decide +kernel
  · decide +kernel

end Aquilo
