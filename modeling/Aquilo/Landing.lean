/-
When the outputs of learn land: at the first check that finds complete facts and
a disk that takes both files, and never again.  Every message is followed by a
check, so none that completes the facts is missed.
-/
import Aquilo.LearnRaces

namespace Aquilo

theorem Facts.isComplete_append {codec : Codec} {sources : List Source}
    (h : (Facts.collect codec sources).isComplete = true) (later : List Source) :
    (Facts.collect codec (sources ++ later)).isComplete = true := by
  induction later using List.reverseRecOn with
  | nil => rwa [List.append_nil]
  | append_singleton later src ih =>
      rw [← List.append_assoc, Facts.collect, List.foldl_concat]
      exact Facts.isComplete_apply codec src ih

namespace Learn

section Landing

variable (codec : Codec) (opts : OnboardOptions)

/-- The messages received and the clock at the first check that finds complete
facts and a disk that takes both files. -/
def landing : List Source → List LearnStep → Option (List Source × String)
  | _, [] => none
  | seen, .receive src :: rest => landing (seen ++ [src]) rest
  | seen, .finalize tick :: rest =>
      if (Facts.collect codec seen).isComplete ∧ tick.outcome = .ok then
        some (seen, tick.now)
      else landing seen rest

/-- What the checks leave on disk: configurations without a state file from the
attempts that failed half way, then both files from the landing. -/
def Leaves (land : Option (List Source × String)) (writes : List Written) : Prop :=
  ∃ attempts : List Written, (∀ w ∈ attempts, w.state = none) ∧
    match land with
    | none => writes = attempts
    | some (seen, now) =>
        ∃ config, generatedConfig (Facts.collect codec seen) opts = .ok config ∧
          writes = attempts ++ [⟨seen, config, some (initialState config now)⟩]

variable {codec opts}

/-- Attempts that failed before leave nothing but configurations. -/
theorem Leaves.prepend {land : Option (List Source × String)}
    {earlier writes : List Written} (h : Leaves codec opts land writes)
    (hearlier : ∀ w ∈ earlier, w.state = none) :
    Leaves codec opts land (earlier ++ writes) := by
  obtain ⟨attempts, hattempts, hland⟩ := h
  refine ⟨earlier ++ attempts, ?_, ?_⟩
  · intro w hw
    rcases List.mem_append.mp hw with hw | hw
    · exact hearlier w hw
    · exact hattempts w hw
  · cases land with
    | none => exact congrArg (earlier ++ ·) hland
    | some landed =>
        obtain ⟨config, hconfig, rfl⟩ := hland
        exact ⟨config, hconfig, (List.append_assoc _ _ _).symm⟩

/-- There is a landing exactly when some check finds complete facts and a disk
that takes both files. -/
theorem landing_isSome_iff {seen : List Source} {steps : List LearnStep} :
    (landing codec seen steps).isSome ↔
      ∃ pre tick, pre ++ [.finalize tick] <+: steps ∧
        (Facts.collect codec (seen ++ received pre)).isComplete = true ∧
        tick.outcome = .ok := by
  induction steps generalizing seen with
  | nil => simp [landing]
  | cons a rest ih =>
      cases a with
      | receive src =>
          rw [landing, ih]
          constructor
          · rintro ⟨pre, tick, hpre, hcomplete, hok⟩
            refine ⟨.receive src :: pre, tick, ?_, ?_, hok⟩
            · exact List.cons_prefix_cons.mpr ⟨rfl, hpre⟩
            · rwa [List.append_assoc] at hcomplete
          · rintro ⟨pre, tick, hpre, hcomplete, hok⟩
            cases pre with
            | nil => simp at hpre
            | cons b pre =>
                obtain ⟨rfl, hrest⟩ := List.cons_prefix_cons.mp hpre
                refine ⟨pre, tick, hrest, ?_, hok⟩
                rwa [List.append_assoc]
      | finalize tick =>
          rw [landing]
          split
          · rename_i hlands
            simp only [Option.isSome_some, true_iff]
            refine ⟨[], tick, List.prefix_append [LearnStep.finalize tick] rest, ?_,
              hlands.2⟩
            rw [received, List.filterMap_nil, List.append_nil]
            exact hlands.1
          · rename_i hnot
            rw [ih]
            constructor
            · rintro ⟨pre, tick', hpre, hcomplete, hok⟩
              exact ⟨.finalize tick :: pre, tick',
                List.cons_prefix_cons.mpr ⟨rfl, hpre⟩, hcomplete, hok⟩
            · rintro ⟨pre, tick', hpre, hcomplete, hok⟩
              cases pre with
              | nil =>
                  obtain ⟨heq, -⟩ := List.cons_prefix_cons.mp hpre
                  cases heq
                  rw [received, List.filterMap_nil, List.append_nil] at hcomplete
                  exact absurd ⟨hcomplete, hok⟩ hnot
              | cons b pre =>
                  obtain ⟨rfl, hrest⟩ := List.cons_prefix_cons.mp hpre
                  exact ⟨pre, tick', hrest, hcomplete, hok⟩

/-- Once set, the flag stays. -/
theorem written_of_written {s : Learn} (hwritten : s.written = true)
    (steps : List LearnStep) :
    (steps.foldl (Learn.step codec opts) s).written = true := by
  induction steps generalizing s with
  | nil => exact hwritten
  | cons a rest ih =>
      apply ih
      cases a with
      | receive src => exact hwritten
      | finalize tick => simp [Learn.step, maybeFinalize, hwritten]

/-- The outputs of a run of the collector, from a state in which they have not
landed. -/
theorem foldl_landing {s : Learn} (h : Inv codec opts s) (hwritten : s.written = false)
    (hattempts : ∀ w ∈ s.writes, w.state = none) (steps : List LearnStep) :
    (steps.foldl (Learn.step codec opts) s).written =
        (landing codec s.seen steps).isSome ∧
      Leaves codec opts (landing codec s.seen steps)
        (steps.foldl (Learn.step codec opts) s).writes := by
  induction steps generalizing s with
  | nil => exact ⟨hwritten, s.writes, hattempts, rfl⟩
  | cons a rest ih =>
      rw [List.foldl_cons]
      cases a with
      | receive src => exact ih (h.receive src) hwritten hattempts
      | finalize tick =>
          rw [landing, ← h.facts, Learn.step]
          rcases maybeFinalize_cases opts tick s with
            ⟨hincomplete, heq⟩ | ⟨hdone, -⟩ |
            ⟨hcomplete, -, config, hconfig, ⟨hfail, heq⟩ | ⟨hfail, heq⟩ | ⟨hok, heq⟩⟩
          · rw [heq, if_neg (by simp [hincomplete])]
            exact ih h hwritten hattempts
          · rw [hwritten] at hdone
            cases hdone
          · rw [heq, if_neg (by simp [hfail])]
            exact ih h hwritten hattempts
          · rw [if_neg (by simp [hfail])]
            have hinv := h.maybeFinalize tick
            rw [heq] at hinv ⊢
            refine ih hinv hwritten ?_
            intro w hw
            rcases List.mem_append.mp hw with hw | hw
            · exact hattempts w hw
            · rw [List.mem_singleton.mp hw]
          · rw [heq, if_pos ⟨hcomplete, hok⟩]
            refine ⟨?_, s.writes, hattempts, config, by rwa [← h.facts], ?_⟩
            · exact written_of_written rfl rest
            · exact writes_of_written rfl rest

/-- The messages of a run are all received before its last check. -/
theorem landing_isSome_of_complete {seen : List Source} {pre : List LearnStep}
    {tick : Tick} (hok : tick.outcome = .ok)
    (hcomplete : (Facts.collect codec
      (seen ++ received (pre ++ [.finalize tick]))).isComplete = true) :
    (landing codec seen (pre ++ [.finalize tick])).isSome := by
  refine landing_isSome_iff.mpr ⟨pre, tick, List.prefix_refl _, ?_, hok⟩
  rw [received, List.filterMap_append] at hcomplete
  simpa [received] using hcomplete

end Landing

end Learn

theorem deviceSteps_concat (clock : ℕ → String) (ticks : ℕ → Tick)
    (packets : List Packet) (p : Packet) :
    ∃ pre, deviceSteps clock ticks (packets ++ [p]) =
      pre ++ [.finalize (ticks packets.length)] := by
  refine ⟨deviceSteps clock ticks packets ++
    ((deviceSource (clock packets.length) p).map LearnStep.receive).toList, ?_⟩
  simp [deviceSteps, List.zipIdx_append]

/-- What a chunk gives rise to, if anything, ends with a check. -/
theorem Taps.tee_ends (taps : Taps) (e : ProxyEvent) :
    (taps.tee e).1 = [] ∨ ∃ pre tick, (taps.tee e).1 = pre ++ [.finalize tick] := by
  cases e with
  | connect => exact Or.inl rfl
  | device chunk clock ticks =>
      rcases List.eq_nil_or_concat (taps.device.push chunk).1 with
        hnil | ⟨packets, p, hpackets⟩
      · left
        rw [tee, hnil]
        rfl
      · right
        obtain ⟨pre, hpre⟩ := deviceSteps_concat clock ticks packets p
        refine ⟨pre, ticks packets.length, ?_⟩
        rw [tee, hpackets, List.concat_eq_append]
        exact hpre
  | cloud chunk tick => exact Or.inr ⟨_, tick, rfl⟩

theorem Taps.teeAll_ends (taps : Taps) (events : List ProxyEvent) :
    taps.teeAll events = [] ∨
      ∃ pre tick, taps.teeAll events = pre ++ [.finalize tick] := by
  induction events generalizing taps with
  | nil => exact Or.inl rfl
  | cons e rest ih =>
      rw [teeAll]
      rcases ih (taps.tee e).2 with hnil | ⟨pre, tick, hpre⟩
      · rw [hnil, List.append_nil]
        exact taps.tee_ends e
      · right
        refine ⟨(taps.tee e).1 ++ pre, tick, ?_⟩
        rw [hpre, List.append_assoc]

open Learn in
/-- Whatever the chunks, the interleaving and the writes that fail, a run of learn
ends with its outputs written exactly when some check came after the facts were
complete and found a disk that took both files; they are those of the first such
check, from the messages received until then, and nothing is written after them.
When every write succeeds, they are written as soon as the messages suffice. -/
theorem learn_lands_iff (codec : Codec) (opts : OnboardOptions)
    (events : List ProxyEvent) :
    let steps := Taps.new.teeAll events
    (run codec opts events).written = (landing codec [] steps).isSome ∧
      Leaves codec opts (landing codec [] steps) (run codec opts events).writes ∧
      ((run codec opts events).written = true ↔
        ∃ pre tick, pre ++ [.finalize tick] <+: steps ∧
          (Facts.collect codec (received pre)).isComplete = true ∧
          tick.outcome = .ok) ∧
      ((∀ e ∈ events, e.WritesSucceed) →
        ((run codec opts events).written = true ↔
          (Facts.collect codec (received steps)).isComplete = true)) := by
  intro steps
  have hfold : (run codec opts events).written = (landing codec [] steps).isSome ∧
      Leaves codec opts (landing codec [] steps) (run codec opts events).writes :=
    foldl_landing inv_initial rfl (by simp [initial]) steps
  obtain ⟨hflag, hleaves⟩ := hfold
  have hlands : (landing codec [] steps).isSome ↔
      ∃ pre tick, pre ++ [.finalize tick] <+: steps ∧
        (Facts.collect codec (received pre)).isComplete = true ∧
        tick.outcome = .ok := landing_isSome_iff
  rw [hflag]
  refine ⟨rfl, hleaves, hlands, fun hsucceed => ⟨?_, ?_⟩⟩
  · intro hsome
    obtain ⟨pre, tick, ⟨later, hsteps⟩, hcomplete, -⟩ := hlands.mp hsome
    rw [← hsteps, received, List.filterMap_append, List.filterMap_append,
      List.append_assoc]
    exact Facts.isComplete_append hcomplete _
  · intro hcomplete
    rcases Taps.new.teeAll_ends events with hnil | ⟨pre, tick, hpre⟩
    · rw [show steps = [] from hnil] at hcomplete
      cases hcomplete
    · have htick : tick.outcome = .ok :=
        Taps.new.teeAll_succeeds hsucceed (.finalize tick) (by simp [hpre])
      rw [show steps = pre ++ [.finalize tick] from hpre] at hcomplete ⊢
      exact landing_isSome_of_complete htick hcomplete

end Aquilo
