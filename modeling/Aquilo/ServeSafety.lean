/-
The serve loop with the checks Rust makes at run time: on indices and slices, and
on integers where overflow is checked.  What the broker delivers cannot crash it.
-/
import Aquilo.BrokerClient
import Aquilo.Panicking

namespace Aquilo

open ExactFloat LeastSquares Panicking

namespace CheckedServe

/-- Subtraction of 64-bit integers. -/
def subI64 : ℤ → ℤ → Checked ℤ := subWithin i64Min i64Max

section Reading

/-- The numeric field at a position of the raw string. -/
def rawNum (parts : List String) (idx : ℕ) : Refusable ReadError ℤ := do
  let field ← (index parts idx : Checked String)
  answer (Aquilo.rawNum idx field)

def rawFrame (raw : String) : Refusable ReadError RawFrame := do
  let parts := rawParts raw
  if parts.length < 8 then throw (.tooFewFields parts.length raw)
  else do
    let version ← (index parts 0 : Checked String)
    let sensor ← (index parts 1 : Checked String)
    let levelMm ← rawNum parts 2
    let batteryMv ← rawNum parts 3
    let amp ← rawNum parts 4
    let temp ← rawNum parts 5
    let readNo ← rawNum parts 6
    let lastSent ← rawNum parts 7
    let trailing ← slice parts 8 parts.length
    let rest ← answer (rawRest trailing)
    return { version, sensor, levelMm, batteryMv, amp, temp, readNo,
             lastSent, rest }

def rawFrame? (p : ReadPayload) : Refusable ReadError (Option RawFrame) :=
  match p.raw with
  | none => return none
  | some raw => do
      let frame ← rawFrame raw
      return some frame

def parse (codec : Codec) (payload : List UInt8) : Refusable ReadError Reading :=
  match codec.readPayload payload with
  | none => throw .invalidJson
  | some p => do
      let raw ← rawFrame? p
      let levelCm ← answer (levelOf p raw)
      let batteryMv ← answer (batteryOf p raw)
      let sensor ← answer (sensorOf p raw)
      return {
        sensor
        version := p.version.or (raw.map RawFrame.version)
        levelCm
        batteryMv
        readNo := p.readNo.or (raw.map RawFrame.readNo)
        lastSent := p.lastSent.or (raw.map RawFrame.lastSent)
        amp1 := p.amp1.or (raw.map RawFrame.amp)
        temp := p.temp.or (raw.map RawFrame.temp)
        raw }

end Reading

section Battery

/-- The loop over neighbouring pairs. -/
def percentWithin (mv final : ℤ) : List (ℤ × ℤ) → Checked ℤ
  | lo :: hi :: rest =>
      if mv ≤ hi.1 then do
        let above ← subI64 mv lo.1
        let width ← subI64 hi.1 lo.1
        let rise ← subI64 hi.2 lo.2
        let t := F64.div (above : ℚ) (width : ℚ)
        return (F64.add (lo.2 : ℚ) (t.mul (rise : ℚ))).roundToI64
      else percentWithin mv final (hi :: rest)
  | _ => .ok final

def percent (points : List (ℤ × ℤ)) (mv : ℤ) : Checked ℤ := do
  let first ← index points 0
  if mv ≤ first.1 then return first.2
  else do
    let last ← index points (← subWord points.length 1)
    if last.1 ≤ mv then return last.2
    else percentWithin mv last.2 points

end Battery

section DaysLeft

variable (parseTs : String → Option ℤ)

/-- The loop that fills the two vectors. -/
def fitLoop (t0 : ℤ) :
    List ReadingRecord → List ℚ × List ℚ → Fallible (List ℚ × List ℚ)
  | [], s => return s
  | r :: rest, s => do
      let t ← ofOption (parseTs r.ts)
      let x ← subI64 t t0
      fitLoop t0 rest (s.1 ++ [(x : ℚ) / 86400], s.2 ++ [r.lvl])

/-- One turn of the loop that adds up the squares. -/
def sumsTurn (xs ys : List ℚ) (meanX meanY : ℚ) (i : ℕ) (s : ℚ × ℚ) :
    Checked (ℚ × ℚ) := do
  let x ← index xs i
  let dx := x - meanX
  let y ← index ys i
  return (s.1 + dx * dx, s.2 + dx * (y - meanY))

def daysLeft (history : List ReadingRecord) (fullDist : ℚ) : Fallible ℤ :=
  if history.length < 2 then failure
  else do
    let first ← (index history 0 : Checked ReadingRecord)
    let t0 ← ofOption (parseTs first.ts)
    let vectors ← fitLoop parseTs t0 history ([], [])
    let xs := vectors.1
    let ys := vectors.2
    let meanX := xs.sum / history.length
    let meanY := ys.sum / history.length
    let sums ← (forRange (sumsTurn xs ys meanX meanY) history.length (0, 0) :
      Checked (ℚ × ℚ))
    if sums.1 = 0 then failure
    else
      let slope := sums.2 / sums.1
      let fillRate := -slope
      if fillRate ≤ 0 then failure
      else do
        let current ← ofOption history.getLast?
        let days := (current.lvl - fullDist) / fillRate
        return saturate (max (roundHalfAway days) 0)

end DaysLeft

section Loop

variable (codec : Codec) (cfg : Config)

def isPumpOut (prevPct newPct dropThresholdPct : ℤ) : Checked Bool := do
  let fall ← subI64 prevPct newPct
  return decide (dropThresholdPct ≤ fall)

/-- Drop the oldest records past the cap. -/
def trimHistory (maxLen : ℕ) (history : List ReadingRecord) :
    Checked (List ReadingRecord) :=
  if maxLen < history.length then do
    let overflow ← subWord history.length maxLen
    drainFront history overflow
  else .ok history

def applyReading (battery : BatteryCurve) (reading : Reading) (now : String)
    (rt : Runtime) : Checked Runtime := do
  let bat ← percent battery.points reading.batteryMv
  let newPct := cfg.calibration.pct reading.levelCm
  let emptied ← isPumpOut rt.current.pct newPct cfg.pumpOutDropPct
  let lstEmpty := if emptied then now else rt.lstEmpty
  let history ← trimHistory cfg.historyMaxLen
    (rt.history ++ [⟨now, reading.levelCm, bat⟩])
  let projected ← (daysLeft codec.parseTs history cfg.calibration.fullDist).run
  let daysLeft := projected.getD rt.current.daysLeft
  let bat ← percent battery.points reading.batteryMv
  let fields := statics cfg lstEmpty daysLeft
  let lvl := reading.levelCm
  let current : SensorState :=
    { id := fields.sensorId
      name := fields.name
      lvl
      pct := cfg.calibration.pct lvl
      bat
      lstRead := now
      lstEmpty := fields.lstEmpty
      daysLeft := fields.daysLeft
      lvlToFull := cfg.calibration.lvlToFull lvl
      «from» := fields.from }
  return { current, history, lstEmpty }

def handleRead (topics : Topics) (battery : BatteryCurve) (reading : Reading)
    (now : String) (saved : Bool) (s : Server) :
    Checked (Server × List Request) := do
  let rt ← applyReading codec cfg battery reading now s.rt
  return (⟨rt, persist cfg rt saved s.disk⟩,
    [publishState codec topics rt.current])

def handlePublish (topics : Topics) (battery : BatteryCurve) (topic : String)
    (payload : List UInt8) (now : String) (saved : Bool) (s : Server) :
    Checked (Server × List Request) :=
  if topic = topics.read then do
    match ← (parse codec payload).run with
    | .ok reading => handleRead codec cfg topics battery reading now saved s
    | .error _ => return (s, [])
  -- Nothing that can panic runs on the other topics.
  else .ok (Aquilo.handlePublish codec cfg topics battery topic payload now saved s)

def handleEvent (s : Server) : Event → Checked (Server × List Request)
  | .publish topic payload now saved =>
      handlePublish codec cfg (Topics.new cfg.receiverId) BatteryCurve.default
        topic payload now saved s
  | e => .ok (Aquilo.handleEvent codec cfg s e)

/-- A run of events: the server after it and what it hands to the broker. -/
def run (s : Server) : List Event → Checked (Server × List Request)
  | [] => .ok (s, [])
  | e :: rest => do
      let handled ← handleEvent codec cfg s e
      let after ← run handled.1 rest
      return (after.1, handled.2 ++ after.2)

end Loop

theorem subI64_ok {a b : ℤ} (h : InI64 (a - b)) : subI64 a b = .ok (a - b) :=
  subWithin_ok h

section Reading

theorem ends_rawNum {parts : List String} {idx : ℕ} {field : String}
    (h : parts[idx]? = some field) :
    Ends (rawNum parts idx) (Aquilo.rawNum idx field) :=
  Ends.ok_bind (index_ok h) (Ends.answer _)

/-- Every position that is read is one of the eight that are there. -/
theorem ends_rawFrame (raw : String) : Ends (rawFrame raw) (RawFrame.parse raw) := by
  rw [rawFrame, RawFrame.parse]
  match hparts : rawParts raw with
  | version :: sensor :: p2 :: p3 :: p4 :: p5 :: p6 :: p7 :: trailing =>
      have hlong : ¬ (version :: sensor :: p2 :: p3 :: p4 :: p5 :: p6 :: p7 ::
          trailing).length < 8 := by
        simp
      rw [if_neg hlong]
      apply Ends.ok_bind (index_ok rfl)
      apply Ends.ok_bind (index_ok rfl)
      apply Ends.bind (ends_rawNum rfl)
      intro levelMm _
      apply Ends.bind (ends_rawNum rfl)
      intro batteryMv _
      apply Ends.bind (ends_rawNum rfl)
      intro amp _
      apply Ends.bind (ends_rawNum rfl)
      intro temp _
      apply Ends.bind (ends_rawNum rfl)
      intro readNo _
      apply Ends.bind (ends_rawNum rfl)
      intro lastSent _
      apply Ends.ok_bind (slice_ok (Nat.le_of_not_lt hlong) le_rfl)
      rw [List.take_length]
      apply Ends.bind (Ends.answer _)
      intro rest _
      exact Ends.pure _
  | [] => exact Ends.throw _
  | [_] => exact Ends.throw _
  | [_, _] => exact Ends.throw _
  | [_, _, _] => exact Ends.throw _
  | [_, _, _, _] => exact Ends.throw _
  | [_, _, _, _, _] => exact Ends.throw _
  | [_, _, _, _, _, _] => exact Ends.throw _
  | [_, _, _, _, _, _, _] => exact Ends.throw _

theorem ends_rawFrame? (p : ReadPayload) :
    Ends (rawFrame? p) (Aquilo.rawFrame? p) := by
  rw [rawFrame?, Aquilo.rawFrame?]
  cases p.raw with
  | none => exact Ends.pure none
  | some raw =>
      have hmap : (RawFrame.parse raw).map some =
          RawFrame.parse raw >>= fun frame => .ok (some frame) := by
        cases RawFrame.parse raw <;> rfl
      change Ends _ ((RawFrame.parse raw).map some)
      rw [hmap]
      apply Ends.bind (ends_rawFrame raw)
      intro frame _
      exact Ends.pure (some frame)

/-- Parsing a payload does not panic, whatever its bytes. -/
theorem ends_parse (codec : Codec) (payload : List UInt8) :
    Ends (parse codec payload) (Reading.parse codec payload) := by
  rw [parse, Reading.parse]
  cases codec.readPayload payload with
  | none => exact Ends.throw _
  | some p =>
      apply Ends.bind (ends_rawFrame? p)
      intro raw _
      apply Ends.bind (Ends.answer _)
      intro levelCm _
      apply Ends.bind (Ends.answer _)
      intro batteryMv _
      apply Ends.bind (Ends.answer _)
      intro sensor _
      exact Ends.pure _

end Reading

section Battery

/-- A breakpoint of a table that no difference overflows. -/
def Breakpoint (p : ℤ × ℤ) : Prop :=
  (0 ≤ p.1 ∧ p.1 ≤ i64Max) ∧ 0 ≤ p.2 ∧ p.2 ≤ i64Max

theorem sub_inI64 {a b : ℤ} (ha : 0 ≤ a ∧ a ≤ i64Max) (hb : 0 ≤ b ∧ b ≤ i64Max) :
    InI64 (a - b) := by
  simp only [InI64, i64Min, i64Max] at *
  omega

theorem percentWithin_eq {mv final : ℤ} (hmv : 0 ≤ mv)
    (points : List (ℤ × ℤ)) (hpoints : ∀ p ∈ points, Breakpoint p) :
    percentWithin mv final points =
      .ok (BatteryCurve.percentWithin mv final points) := by
  induction points with
  | nil => rfl
  | cons lo rest ih =>
      cases rest with
      | nil => rfl
      | cons hi rest =>
          have hlo := hpoints lo (by simp)
          have hhi := hpoints hi (by simp)
          have hrest := ih fun p hp => hpoints p (List.mem_cons_of_mem lo hp)
          rw [percentWithin, BatteryCurve.percentWithin]
          by_cases hle : mv ≤ hi.1
          · have hmv' : 0 ≤ mv ∧ mv ≤ i64Max := ⟨hmv, hle.trans hhi.1.2⟩
            rw [if_pos hle, if_pos hle, ok_bind (subI64_ok (sub_inI64 hmv' hlo.1)),
              ok_bind (subI64_ok (sub_inI64 hhi.1 hlo.1)),
              ok_bind (subI64_ok (sub_inI64 hhi.2 hlo.2))]
            rfl
          · rw [if_neg hle, if_neg hle]
            exact hrest

theorem percent_eq (curve : BatteryCurve) (hpoints : ∀ p ∈ curve.points, Breakpoint p)
    (mv : ℤ) : percent curve.points mv = .ok (curve.percent mv) := by
  have hpos := List.length_pos_iff.mpr curve.nonempty
  have hfirst : curve.points[0]? = some (curve.points.head curve.nonempty) := by
    rw [← List.head?_eq_getElem?, List.head?_eq_some_head curve.nonempty]
  have hlast : curve.points[curve.points.length - 1]? =
      some (curve.points.getLast curve.nonempty) := by
    rw [← List.getLast?_eq_getElem?, List.getLast?_eq_some_getLast curve.nonempty]
  rw [percent, BatteryCurve.percent, ok_bind (index_ok hfirst)]
  by_cases hlow : mv ≤ (curve.points.head curve.nonempty).1
  · rw [if_pos hlow, if_pos hlow]
    rfl
  · rw [if_neg hlow, if_neg hlow, ok_bind (subWord_ok hpos), ok_bind (index_ok hlast)]
    have hhead := hpoints _ (List.head_mem curve.nonempty)
    by_cases hhigh : (curve.points.getLast curve.nonempty).1 ≤ mv
    · rw [if_pos hhigh, if_pos hhigh]
      rfl
    · have hmv : 0 ≤ mv := hhead.1.1.trans (le_of_not_ge hlow)
      rw [if_neg hhigh, if_neg hhigh]
      exact percentWithin_eq hmv curve.points hpoints

end Battery

section DaysLeft

/-- The seconds of a date lie within the years a calendar counts. -/
def EpochSeconds (parseTs : String → Option ℤ) : Prop :=
  ∀ ts t, parseTs ts = some t → -2 ^ 43 ≤ t ∧ t ≤ 2 ^ 43

variable {parseTs : String → Option ℤ}

theorem EpochSeconds.sub_inI64 (h : EpochSeconds parseTs) {ts ts' : String} {t t' : ℤ}
    (ht : parseTs ts = some t) (ht' : parseTs ts' = some t') : InI64 (t - t') := by
  have hbounds := h ts t ht
  have hbounds' := h ts' t' ht'
  simp only [InI64, i64Min, i64Max]
  omega

/-- The loop appends to its vectors the coordinates of the points. -/
theorem finds_fitLoop (h : EpochSeconds parseTs) {ts : String} {t0 : ℤ}
    (ht0 : parseTs ts = some t0) (history : List ReadingRecord) (xs ys : List ℚ) :
    Finds (fitLoop parseTs t0 history (xs, ys))
      ((fitPoints parseTs t0 history).map fun points =>
        (xs ++ points.map Prod.fst, ys ++ points.map Prod.snd)) := by
  induction history generalizing xs ys with
  | nil =>
      rw [fitPoints, Option.map_some, List.map_nil, List.map_nil, List.append_nil,
        List.append_nil]
      exact Finds.pure _
  | cons r rest ih =>
      rw [fitPoints, Option.bind_eq_bind, Option.map_bind]
      apply Finds.bind (Finds.ofOption _)
      intro t ht
      apply Finds.ok_bind (subI64_ok (h.sub_inI64 ht ht0))
      have hrest := ih (xs ++ [((t - t0 : ℤ) : ℚ) / 86400]) (ys ++ [r.lvl])
      cases hpoints : fitPoints parseTs t0 rest with
      | none =>
          rw [hpoints] at hrest
          exact hrest
      | some points =>
          rw [hpoints, Option.map_some, List.append_assoc, List.append_assoc] at hrest
          exact hrest

theorem sum_take_succ {points : List (ℚ × ℚ)} (f : ℚ × ℚ → ℚ) {i : ℕ} {p : ℚ × ℚ}
    (h : points[i]? = some p) :
    ((points.take (i + 1)).map f).sum = ((points.take i).map f).sum + f p := by
  rw [List.take_add_one, h, List.map_append, List.sum_append]
  simp

/-- The indexed loop over the vectors adds up the centred sums. -/
theorem forRange_sumsTurn (points : List (ℚ × ℚ)) (meanX meanY : ℚ) :
    forRange (sumsTurn (points.map Prod.fst) (points.map Prod.snd) meanX meanY)
        points.length (0, 0) =
      .ok ((points.map fun p => (p.1 - meanX) * (p.1 - meanX)).sum,
        (points.map fun p => (p.1 - meanX) * (p.2 - meanY)).sum) := by
  let carried (i : ℕ) : ℚ × ℚ :=
    (((points.take i).map fun p => (p.1 - meanX) * (p.1 - meanX)).sum,
      ((points.take i).map fun p => (p.1 - meanX) * (p.2 - meanY)).sum)
  have hturn : ∀ i < points.length,
      sumsTurn (points.map Prod.fst) (points.map Prod.snd) meanX meanY i
        (carried i) = .ok (carried (i + 1)) := by
    intro i hi
    have hp := List.getElem?_eq_getElem hi
    have hx : (points.map Prod.fst)[i]? = some points[i].1 := by
      rw [List.getElem?_map, hp, Option.map_some]
    have hy : (points.map Prod.snd)[i]? = some points[i].2 := by
      rw [List.getElem?_map, hp, Option.map_some]
    rw [sumsTurn, ok_bind (index_ok hx), ok_bind (index_ok hy)]
    simp only [carried, sum_take_succ _ hp]
    rfl
  have hloop := forRange_eq_ok carried hturn
  simp only [carried, List.take_length] at hloop
  exact hloop

theorem length_fitPoints {t0 : ℤ} {history : List ReadingRecord}
    {points : List (ℚ × ℚ)} (h : fitPoints parseTs t0 history = some points) :
    points.length = history.length := by
  induction history generalizing points with
  | nil =>
      cases h
      rfl
  | cons r rest ih =>
      simp only [fitPoints, Option.bind_eq_bind, Option.bind_eq_some_iff,
        Option.pure_def, Option.some.injEq] at h
      obtain ⟨t, ht, more, hmore, rfl⟩ := h
      rw [List.length_cons, List.length_cons, ih hmore]

/-- The projection with its indices, its two vectors and its accumulators is the
one of the model. -/
theorem finds_daysLeft (h : EpochSeconds parseTs) (history : List ReadingRecord)
    (fullDist : ℚ) :
    Finds (daysLeft parseTs history fullDist)
      (Aquilo.daysLeft parseTs history fullDist) := by
  rw [daysLeft, Aquilo.daysLeft]
  apply Finds.ite (fun _ => Finds.failure)
  intro hlong
  cases history with
  | nil => simp at hlong
  | cons first rest =>
      apply Finds.ok_bind (index_ok rfl)
      apply Finds.bind (Finds.ofOption _)
      intro t0 ht0
      apply Finds.map_bind (finds_fitLoop h ht0 (first :: rest) [] [])
      intro points hpoints
      have hlength := length_fitPoints hpoints
      simp only [List.nil_append]
      rw [← hlength]
      apply Finds.ok_bind (forRange_sumsTurn points _ _)
      apply Finds.ite (fun _ => Finds.failure)
      intro _
      apply Finds.ite (fun _ => Finds.failure)
      intro _
      apply Finds.bind (Finds.ofOption _)
      intro current _
      exact Finds.pure _

end DaysLeft

section Loop

variable (codec : Codec) (cfg : Config)

theorem isPumpOut_ok {prevPct newPct : ℤ} (h : InI64 (prevPct - newPct)) (drop : ℤ) :
    isPumpOut prevPct newPct drop = .ok (Aquilo.isPumpOut prevPct newPct drop) := by
  rw [isPumpOut, ok_bind (subI64_ok h), Aquilo.isPumpOut, wrap_eq_self h]
  rfl

theorem isPumpOut_overflow {prevPct newPct : ℤ} (h : ¬ InI64 (prevPct - newPct))
    (drop : ℤ) : isPumpOut prevPct newPct drop = .error .overflow :=
  error_bind (subWithin_overflow h) _

theorem trimHistory_eq (maxLen : ℕ) (history : List ReadingRecord) :
    trimHistory maxLen history = .ok (Aquilo.trimHistory maxLen history) := by
  rw [trimHistory, Aquilo.trimHistory]
  by_cases hlong : maxLen < history.length
  · rw [if_pos hlong, if_pos hlong, ok_bind (subWord_ok hlong.le)]
    exact drainFront_ok (Nat.sub_le _ _)
  · rw [if_neg hlong, if_neg hlong]

theorem default_breakpoints : ∀ p ∈ BatteryCurve.default.points, Breakpoint p := by
  simp only [BatteryCurve.default, List.forall_mem_cons, Breakpoint, i64Max]
  decide

/-- The fall in fullness that a reading makes is a 64-bit integer. -/
def FallFits (rt : Runtime) (reading : Reading) : Prop :=
  InI64 (rt.current.pct - cfg.calibration.pct reading.levelCm)

variable {cfg} in
theorem fallFits_of_le {rt : Runtime} (hlow : i64Min + 100 ≤ rt.current.pct)
    (hhigh : rt.current.pct ≤ i64Max) (reading : Reading) :
    FallFits cfg rt reading := by
  have hpct := cfg.calibration.zero_le_pct reading.levelCm
  have hpct' := cfg.calibration.pct_le_hundred reading.levelCm
  simp only [FallFits, InI64, i64Min, i64Max] at *
  omega

variable {cfg} in
/-- Once a reading has been taken, the next one cannot overflow. -/
theorem fallFits_applyReading (battery : BatteryCurve) (reading reading' : Reading)
    (now : String) (rt : Runtime) :
    FallFits cfg (rt.applyReading codec.parseTs cfg battery reading now) reading' := by
  have hpct := cfg.calibration.zero_le_pct reading.levelCm
  have hpct' := cfg.calibration.pct_le_hundred reading.levelCm
  apply fallFits_of_le
  · rw [Runtime.applyReading_pct, i64Min]
    omega
  · rw [Runtime.applyReading_pct, i64Max]
    omega

variable {codec cfg}

theorem applyReading_ok (hts : EpochSeconds codec.parseTs) {reading : Reading}
    {rt : Runtime} (hfits : FallFits cfg rt reading) (now : String) :
    applyReading codec cfg BatteryCurve.default reading now rt =
      .ok (rt.applyReading codec.parseTs cfg BatteryCurve.default reading now) := by
  have hbat := percent_eq BatteryCurve.default default_breakpoints reading.batteryMv
  rw [applyReading, ok_bind hbat]
  dsimp only
  rw [ok_bind (isPumpOut_ok hfits _), ok_bind (trimHistory_eq _ _),
    ok_bind (finds_daysLeft hts _ _), ok_bind hbat]
  rfl

theorem applyReading_overflow {reading : Reading} {rt : Runtime}
    (hfits : ¬ FallFits cfg rt reading) (now : String) :
    applyReading codec cfg BatteryCurve.default reading now rt =
      .error .overflow := by
  have hbat := percent_eq BatteryCurve.default default_breakpoints reading.batteryMv
  rw [applyReading, ok_bind hbat]
  exact error_bind (isPumpOut_overflow hfits _) _

/-- An event without an accepted reading passes every check. -/
theorem handleEvent_of_not_accepted (s : Server) {e : Event}
    (h : acceptedReading codec cfg e = none) :
    handleEvent codec cfg s e = .ok (Aquilo.handleEvent codec cfg s e) := by
  cases e with
  | connAck => rfl
  | other => rfl
  | error => rfl
  | ping => rfl
  | publish topic payload now saved =>
      rw [handleEvent, handlePublish, Aquilo.handleEvent]
      by_cases hread : topic = (Topics.new cfg.receiverId).read
      · cases hparse : Reading.parse codec payload with
        | ok reading => simp [acceptedReading, hread, hparse, Except.toOption] at h
        | error err =>
            have hends := ends_parse codec payload
            rw [hparse] at hends
            rw [if_pos hread, ok_bind hends, hread,
              handlePublish_read_error _ _ _ _ _ _ _ hparse]
            rfl
      · rw [if_neg hread]

/-- An accepted reading passes every check if the fall it makes fits; if not, it
panics. -/
theorem handleEvent_of_accepted (hts : EpochSeconds codec.parseTs) (s : Server)
    {e : Event} {r : Runtime.Stamped} (h : acceptedReading codec cfg e = some r) :
    (FallFits cfg s.rt r.1 →
        handleEvent codec cfg s e = .ok (Aquilo.handleEvent codec cfg s e)) ∧
      (¬ FallFits cfg s.rt r.1 →
        handleEvent codec cfg s e = .error .overflow) := by
  cases e with
  | publish topic payload now saved =>
      rw [acceptedReading, Option.ite_none_right_eq_some] at h
      obtain ⟨htopic, h⟩ := h
      cases hparse : Reading.parse codec payload with
      | error err => simp [hparse, Except.toOption] at h
      | ok reading =>
          obtain rfl : (reading, now) = r := by
            simpa [hparse, Except.toOption] using h
          have hends := ends_parse codec payload
          rw [hparse] at hends
          rw [handleEvent, handlePublish, Aquilo.handleEvent, if_pos htopic,
            ok_bind hends, htopic, handlePublish_read_ok _ _ _ _ _ _ _ hparse]
          constructor
          · intro hfits
            exact ok_bind (applyReading_ok hts hfits now) _
          · intro hfits
            exact error_bind (applyReading_overflow hfits now) _
  | connAck => cases h
  | other => cases h
  | error => cases h
  | ping => cases h

theorem fallFits_handleEvent (s : Server) {e : Event} {r : Runtime.Stamped}
    (h : acceptedReading codec cfg e = some r) (reading : Reading) :
    FallFits cfg (Aquilo.handleEvent codec cfg s e).1.rt reading := by
  rw [Client.handleEvent_rt, h]
  exact fallFits_applyReading codec _ r.1 reading r.2 s.rt

/-- Whether the fall that the first reading of a run makes fits. -/
def FirstFits (codec : Codec) (cfg : Config) (s : Server) (events : List Event) :
    Prop :=
  ∀ r ∈ (events.filterMap (acceptedReading codec cfg)).head?,
    FallFits cfg s.rt r.1

theorem run_ok_of_fits (hts : EpochSeconds codec.parseTs) (events : List Event)
    (s : Server) (h : ∀ reading, FallFits cfg s.rt reading) :
    run codec cfg s events =
      .ok (afterEvents codec cfg s events, requests codec cfg s events) := by
  induction events generalizing s with
  | nil => rfl
  | cons e rest ih =>
      rw [run]
      cases haccepted : acceptedReading codec cfg e with
      | none =>
          have hsame := Aquilo.handleEvent_of_not_accepted s haccepted
          have hrest := ih (Aquilo.handleEvent codec cfg s e).1 (by rwa [hsame])
          rw [ok_bind (handleEvent_of_not_accepted s haccepted), ok_bind hrest]
          rfl
      | some r =>
          obtain ⟨hok, -⟩ := handleEvent_of_accepted hts s haccepted
          have hrest := ih (Aquilo.handleEvent codec cfg s e).1
            (fallFits_handleEvent s haccepted)
          rw [ok_bind (hok (h r.1)), ok_bind hrest]
          rfl

theorem run_of_firstFits (hts : EpochSeconds codec.parseTs) (events : List Event)
    (s : Server) :
    (FirstFits codec cfg s events → run codec cfg s events =
        .ok (afterEvents codec cfg s events, requests codec cfg s events)) ∧
      (¬ FirstFits codec cfg s events →
        run codec cfg s events = .error .overflow) := by
  induction events generalizing s with
  | nil => exact ⟨fun _ => rfl, fun h => absurd (by simp [FirstFits]) h⟩
  | cons e rest ih =>
      cases haccepted : acceptedReading codec cfg e with
      | none =>
          have hsame := Aquilo.handleEvent_of_not_accepted s haccepted
          have hfirst : FirstFits codec cfg s (e :: rest) ↔
              FirstFits codec cfg (Aquilo.handleEvent codec cfg s e).1 rest := by
            rw [FirstFits, FirstFits, List.filterMap_cons_none haccepted, hsame]
          obtain ⟨hok, hoverflow⟩ := ih (Aquilo.handleEvent codec cfg s e).1
          rw [hfirst, run, ok_bind (handleEvent_of_not_accepted s haccepted)]
          refine ⟨?_, ?_⟩
          · intro hfits
            rw [ok_bind (hok hfits)]
            rfl
          · intro hfits
            exact error_bind (hoverflow hfits) _
      | some r =>
          have hfirst : FirstFits codec cfg s (e :: rest) ↔
              FallFits cfg s.rt r.1 := by
            simp [FirstFits, haccepted]
          obtain ⟨hok, hoverflow⟩ := handleEvent_of_accepted hts s haccepted
          rw [hfirst, run]
          refine ⟨?_, ?_⟩
          · intro hfits
            -- From here on the percentage is one that was computed.
            have hrest := run_ok_of_fits hts rest (Aquilo.handleEvent codec cfg s e).1
              (fallFits_handleEvent s haccepted)
            rw [ok_bind (hok hfits), ok_bind hrest]
            rfl
          · intro hfits
            exact error_bind (hoverflow hfits) _

instance (codec : Codec) (cfg : Config) (s : Server) (events : List Event) :
    Decidable (FirstFits codec cfg s events) :=
  inferInstanceAs (Decidable (∀ r ∈ (_ : Option Runtime.Stamped), InI64 _))

end Loop

end CheckedServe

open CheckedServe in
/-- Nothing the broker delivers, on any topic and in any order, makes an index, a
slice or an integer of the serve loop fail, and what is computed with the checks is
what is computed without.  The one exception is the state it starts from: a
percentage less than a hundred above the least integer, from a state file or a
configuration, overflows at the first reading whose own is too far from it. -/
theorem serve_panics_iff (codec : Codec) (hts : EpochSeconds codec.parseTs)
    (cfg : Config) (s : Server) (events : List Event) :
    (FirstFits codec cfg s events → CheckedServe.run codec cfg s events =
        .ok (afterEvents codec cfg s events, requests codec cfg s events)) ∧
      (¬ FirstFits codec cfg s events →
        CheckedServe.run codec cfg s events = .error .overflow) ∧
      (i64Min + 100 ≤ s.rt.current.pct → s.rt.current.pct ≤ i64Max →
        FirstFits codec cfg s events) :=
  ⟨(run_of_firstFits hts events s).1, (run_of_firstFits hts events s).2,
    fun hlow hhigh r _ => fallFits_of_le hlow hhigh r.1⟩

namespace Sample

/-- A configuration whose percentage is the least integer. -/
def leastConfig : Config :=
  { config with state := { config.state with pct := i64Min } }

end Sample

open CheckedServe in
theorem oneReading_panics_at_least :
    CheckedServe.run Sample.printingCodec Sample.leastConfig
        (Server.start Sample.leastConfig (.ok none) "2026-06-10T20:00:00+02:00" true)
        Sample.oneReading = .error .overflow ∧
      CheckedServe.run Sample.printingCodec Sample.config Sample.served
          Sample.oneReading =
        .ok (afterEvents Sample.printingCodec Sample.config Sample.served
            Sample.oneReading,
          requests Sample.printingCodec Sample.config Sample.served
            Sample.oneReading) := by
  have hts : EpochSeconds Sample.printingCodec.parseTs := by
    intro ts t h
    cases h
  refine ⟨(serve_panics_iff Sample.printingCodec hts Sample.leastConfig _ _).2.1 ?_,
    (serve_panics_iff Sample.printingCodec hts Sample.config _ _).1 ?_⟩
  · decide +kernel
  · decide +kernel

end Aquilo
