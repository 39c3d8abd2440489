/-
Power cuts.  A save syncs its file but not the directory, so that a cut may undo
the renames since the power came on.  What it takes back is readings, and nothing
else.
-/
import Aquilo.KilledSaves

namespace Aquilo

open AtomicReplace JsonFileStore Aquilo.Runtime

namespace FileServer

/-- One configuration, no save fails by itself, no timestamp is empty. -/
def Steady (cfg : Config) : FileAction → Prop
  | .start cfg' _ => cfg' = cfg
  | .failSave => False
  | .receive r => r.2 ≠ ""
  | _ => True

theorem Matches.steady {cfg : Config} {a : FileAction} {bs : List Aquilo.Action}
    (h : Matches a bs) (ha : Steady cfg a) : ∀ b ∈ bs, System.Steady cfg b := by
  cases h with
  | start cfg' now => simpa [System.Steady] using (show cfg' = cfg from ha)
  | receive r => simpa [System.Steady] using (show r.2 ≠ "" from ha)
  | failSeed => cases ha
  | fail => cases ha
  | _ => simp [System.Steady]

theorem steady_flatten {cfg : Config} {actions : List FileAction}
    {pieces : List (List Aquilo.Action)}
    (h : List.Forall₂ Matches actions pieces)
    (hsteady : ∀ a ∈ actions, Steady cfg a) :
    ∀ b ∈ pieces.flatten, System.Steady cfg b := by
  induction h with
  | nil => exact fun b hb => absurd hb List.not_mem_nil
  | cons hmatch _ ih =>
      rw [List.forall_mem_cons] at hsteady
      rw [List.flatten_cons, List.forall_mem_append]
      exact ⟨hmatch.steady hsteady.1, ih hsteady.2⟩

/-- A run and the whole saves it looks like receive the same readings. -/
theorem received_flatten {actions : List FileAction}
    {pieces : List (List Aquilo.Action)}
    (h : List.Forall₂ Matches actions pieces) :
    pieces.flatten.filterMap Aquilo.Action.reading? =
      actions.filterMap FileAction.reading? := by
  induction h with
  | nil => rfl
  | cons hmatch _ ih =>
      rw [List.flatten_cons, List.filterMap_append, ih]
      cases hmatch <;> rfl

end FileServer

theorem filterMap_concat {α β : Type*} (f : α → Option β) (xs : List α) (x : α) :
    (xs ++ [x]).filterMap f = xs.filterMap f ++ (f x).toList := by
  rw [List.filterMap_append]
  cases hx : f x <;> simp [hx]

namespace System

section Kept

variable {parseTs : String → Option ℤ} {battery : BatteryCurve}

/-- Only received readings are kept, the one being handled last. -/
def KeepsReceived (readings : List Stamped) (s : System) : Prop :=
  match s.process with
  | .applied _ _ r => (s.keptReadings ++ [r]).Sublist readings
  | _ => s.keptReadings.Sublist readings

theorem KeepsReceived.sublist {readings : List Stamped} {s : System}
    (h : KeepsReceived readings s) : s.keptReadings.Sublist readings := by
  rw [KeepsReceived] at h
  split at h
  · exact (List.sublist_append_left _ _).trans h
  · exact h

theorem KeepsReceived.step {readings : List Stamped} {s s' : System}
    {a : Action} (h : KeepsReceived readings s)
    (hstep : s.step parseTs battery a = some s') :
    KeepsReceived (readings ++ a.reading?.toList) s' := by
  have hsub := h.sublist
  rcases step_cases hstep with
    ⟨c, now, rfl, hp, rfl⟩ | ⟨saved, c, rt, rfl, hp, rfl⟩ |
    ⟨c, rt, rfl, hp, rfl⟩ | ⟨r, c, rt, rfl, hp, rfl⟩ |
    ⟨saved, c, rt, r, rfl, hp, rfl⟩ | ⟨c, rt, rfl, hp, rfl⟩ | ⟨rfl, rfl⟩
  · exact hsub.trans (List.sublist_append_left _ _)
  · exact hsub.trans (List.sublist_append_left _ _)
  · rw [KeepsReceived, hp]
    exact hsub.trans (List.sublist_append_left _ _)
  · exact hsub.append (List.Sublist.refl [r])
  · -- the reading saved is the one received last
    rw [KeepsReceived, hp] at h
    have hall := h.trans
      (List.sublist_append_left readings (Action.persist saved).reading?.toList)
    cases saved with
    | true => simpa [KeepsReceived, keptReadings] using hall
    | false => exact (List.sublist_append_left _ _).trans hall
  · exact hsub.trans (List.sublist_append_left _ _)
  · exact hsub.trans (List.sublist_append_left _ _)

/-- A run keeps only what it received, in that order. -/
theorem keepsReceived_run {disk : Disk} {actions : List Action} {s : System}
    (hrun : (initial disk).run parseTs battery actions = some s) :
    KeepsReceived (actions.filterMap Action.reading?) s := by
  have hstep : ∀ {pre : List Action} {s s' : System} {a : Action}, True →
      KeepsReceived (pre.filterMap Action.reading?) s →
      s.step parseTs battery a = some s' →
      KeepsReceived ((pre ++ [a]).filterMap Action.reading?) s' := by
    intro pre s s' a _ h hs'
    rw [filterMap_concat]
    exact h.step hs'
  have hinitial : KeepsReceived [] (initial disk) := List.Sublist.refl _
  exact Machine.run_history
    (P := fun pre => KeepsReceived (pre.filterMap Action.reading?)) hstep
    (fun _ _ => trivial) hinitial hrun

end Kept

end System

/-- The store that was `first` is now `disk`, seen from outside: either it is what it
was and nothing has been published, or some of the readings are kept, in order, a
reload gives the uninterrupted run over them, and the states published are states
of that run, none older than one published before it. -/
def FollowsReadings (parseTs : String → Option ℤ) (battery : BatteryCurve)
    (cfg : Config) (first disk : Disk) (readings : List Stamped)
    (published : List SensorState) : Prop :=
  (disk = first ∧ published = []) ∨
  ∃ (start : String) (kept : List Stamped) (marks : List ℕ),
    let base := loadRuntime cfg first start
    kept.Sublist readings ∧
    (∀ now, loadRuntime cfg disk now =
      base.applyReadings parseTs cfg battery kept) ∧
    marks.Pairwise (· ≤ ·) ∧ (∀ n ∈ marks, n ≤ kept.length) ∧
    published = marks.map fun n =>
      (base.applyReadings parseTs cfg battery (kept.take n)).current

/-- A state of the uninterrupted run over some of the readings. -/
def StateOfReadings (parseTs : String → Option ℤ) (battery : BatteryCurve)
    (cfg : Config) (first : Disk) (readings : List Stamped) (state : SensorState) :
    Prop :=
  ∃ (start : String) (kept : List Stamped), kept.Sublist readings ∧
    state = ((loadRuntime cfg first start).applyReadings parseTs cfg battery
      kept).current

theorem StateOfReadings.mono {parseTs : String → Option ℤ} {battery : BatteryCurve}
    {cfg : Config} {first : Disk} {readings later : List Stamped}
    {state : SensorState}
    (h : StateOfReadings parseTs battery cfg first readings state)
    (hsub : readings.Sublist later) :
    StateOfReadings parseTs battery cfg first later state := by
  obtain ⟨start, kept, hkept, hstate⟩ := h
  exact ⟨start, kept, hkept.trans hsub, hstate⟩

namespace FollowsReadings

variable {parseTs : String → Option ℤ} {battery : BatteryCurve} {cfg : Config}
variable {first mid disk : Disk} {readings later : List Stamped}
variable {published : List SensorState}

theorem refl (first : Disk) (readings : List Stamped) :
    FollowsReadings parseTs battery cfg first first readings [] :=
  Or.inl ⟨rfl, rfl⟩

theorem mono
    (h : FollowsReadings parseTs battery cfg first disk readings published)
    (hsub : readings.Sublist later) :
    FollowsReadings parseTs battery cfg first disk later published := by
  rcases h with hfirst | ⟨start, kept, marks, hkept, hrest⟩
  · exact Or.inl hfirst
  · exact Or.inr ⟨start, kept, marks, hkept.trans hsub, hrest⟩

theorem unpublished
    (h : FollowsReadings parseTs battery cfg first disk readings published) :
    FollowsReadings parseTs battery cfg first disk readings [] := by
  rcases h with ⟨hdisk, -⟩ | ⟨start, kept, marks, hkept, hload, -⟩
  · exact Or.inl ⟨hdisk, rfl⟩
  · exact Or.inr ⟨start, kept, [], hkept, hload, .nil, by simp, rfl⟩

theorem of_mem
    (h : FollowsReadings parseTs battery cfg first disk readings published)
    {state : SensorState} (hstate : state ∈ published) :
    StateOfReadings parseTs battery cfg first readings state := by
  rcases h with ⟨-, rfl⟩ | ⟨start, kept, marks, hkept, -, -, -, rfl⟩
  · cases hstate
  · obtain ⟨n, -, rfl⟩ := List.mem_map.mp hstate
    exact ⟨start, kept.take n, (List.take_sublist n kept).trans hkept, rfl⟩

/-- Going on from a store that was left goes on from the readings it kept. -/
theorem trans (hmid : FollowsReadings parseTs battery cfg first mid readings [])
    (h : FollowsReadings parseTs battery cfg mid disk later published) :
    FollowsReadings parseTs battery cfg first disk (readings ++ later)
      published := by
  rcases hmid with ⟨rfl, -⟩ | ⟨start₀, kept₀, -, hkept₀, hload₀, -⟩
  · exact h.mono (List.sublist_append_right readings later)
  · rcases h with ⟨rfl, rfl⟩ | ⟨start, kept, marks, hkept, hload, hsorted,
        hbound, rfl⟩
    · exact Or.inr ⟨start₀, kept₀, [],
        hkept₀.trans (List.sublist_append_left readings later), hload₀, .nil,
        by simp, rfl⟩
    · refine Or.inr ⟨start₀, kept₀ ++ kept, marks.map (kept₀.length + ·),
        hkept₀.append hkept, ?_, ?_, ?_, ?_⟩
      · intro now
        rw [hload, hload₀, Runtime.applyReadings_append]
      · exact hsorted.map _ fun _ _ h => Nat.add_le_add_left h _
      · intro n hn
        obtain ⟨m, hm, rfl⟩ := List.mem_map.mp hn
        rw [List.length_append]
        exact Nat.add_le_add_left (hbound m hm) _
      · rw [List.map_map]
        refine List.map_congr_left fun n _ => ?_
        rw [Function.comp_apply, List.take_length_add_append,
          Runtime.applyReadings_append, hload₀]

end FollowsReadings

namespace FileServer

section Follows

variable {serde : Serde} {parseTs : String → Option ℤ} {battery : BatteryCurve}
variable {target temp : Option (File UInt8)} {actions : List FileAction}
variable {s : FileServer}

/-- Processes that are killed and never cut off from power follow the readings. -/
theorem follows_run {cfg : Config} (hround : serde.RoundTrips)
    (hsynced : ∀ f, target = some f → f.synced = true)
    (hsteady : ∀ a ∈ actions, Steady cfg a)
    (hrun : (initial target temp).run serde parseTs battery actions = some s) :
    FollowsReadings parseTs battery cfg (load serde true target)
      (load serde true s.files.target) (actions.filterMap FileAction.reading?)
      s.published := by
  obtain ⟨pieces, t, hpieces, hruns, hrefines⟩ :=
    refines_run hround hsynced hrun
  have hall := steady_flatten hpieces hsteady
  have hkept := (System.keepsReceived_run hruns).sublist
  rw [received_flatten hpieces] at hkept
  have htransparent := System.Transparent.of_run hall hruns
  cases horigin : t.origin with
  | none =>
      rw [System.Transparent, horigin] at htransparent
      refine Or.inl ⟨?_, ?_⟩
      · rw [← hrefines.disk, htransparent.disk]
      · rw [← hrefines.published, htransparent.published]
  | some base =>
      rw [System.Transparent, horigin] at htransparent
      obtain ⟨⟨start, rfl⟩, htracks⟩ := htransparent
      obtain ⟨marks, hsorted, hbound, hpublished⟩ := htracks.published
      refine Or.inr ⟨start, t.keptReadings, marks, hkept, ?_, hsorted, hbound, ?_⟩
      · intro now
        rw [← hrefines.disk, htracks.disk]
        exact loadRuntime_snapshot htracks.lstEmpty now
      · rw [← hrefines.published, hpublished]
        rfl

/-- What stands in the state file's place is synced, whatever was renamed. -/
theorem synced_run (hround : serde.RoundTrips)
    (hsynced : ∀ f, target = some f → f.synced = true)
    (hrun : (initial target temp).run serde parseTs battery actions = some s) :
    ∀ f, s.files.target = some f → f.synced = true := by
  obtain ⟨_, _, _, _, hrefines⟩ := refines_run hround hsynced hrun
  exact hrefines.files.target.synced hsynced

end Follows

end FileServer

/-- A machine that runs the processes: what the state file was after each step
since the power came on, oldest first, and the states published before that. -/
structure Host where
  server : FileServer
  versions : List (Option (File UInt8))
  earlier : List SensorState

/-- A power cut leaves some version of the state file, since its renames need not
have reached the disk, and anything beside it. -/
inductive HostAction where
  | act (a : FileAction)
  | powerCut (version : ℕ) (left : Option (List UInt8))

def HostAction.reading? : HostAction → Option Stamped
  | act a => a.reading?
  | powerCut _ _ => none

namespace Host

def powerOn (target temp : Option (File UInt8)) (earlier : List SensorState) :
    Host where
  server := FileServer.initial target temp
  versions := [target]
  earlier := earlier

section Step

variable (serde : Serde) (parseTs : String → Option ℤ) (battery : BatteryCurve)

def step (h : Host) : HostAction → Option Host
  | .act a =>
      (h.server.step serde parseTs battery a).map fun server =>
        { h with server, versions := h.versions ++ [server.files.target] }
  | .powerCut version left =>
      h.versions[version]?.map fun target =>
        powerOn (target.bind (File.afterCrash left))
          (left.map fun contents => ⟨contents, true⟩)
          (h.earlier ++ h.server.published)

def run (h : Host) (actions : List HostAction) : Option Host :=
  Machine.run (step serde parseTs battery) h actions

end Step

/-- While the power stays on, the processes run on their own. -/
theorem run_acts {serde : Serde} {parseTs : String → Option ℤ}
    {battery : BatteryCurve} {server server' : FileServer}
    {actions : List FileAction}
    (hrun : server.run serde parseTs battery actions = some server')
    {versions : List (Option (File UInt8))}
    (hversions : server.files.target ∈ versions) (earlier : List SensorState) :
    ∃ later, server'.files.target ∈ versions ++ later ∧
      run serde parseTs battery ⟨server, versions, earlier⟩ (actions.map .act) =
        some ⟨server', versions ++ later, earlier⟩ := by
  induction actions generalizing server versions with
  | nil =>
      cases Option.some.inj hrun
      exact ⟨[], by rwa [List.append_nil], by rw [List.append_nil]; rfl⟩
  | cons a rest ih =>
      obtain ⟨mid, hmid, hrest⟩ := Option.bind_eq_some_iff.mp hrun
      obtain ⟨later, htarget, hlater⟩ := ih hrest
        (List.mem_append_right versions (List.mem_singleton.mpr rfl))
      rw [List.append_assoc] at htarget hlater
      refine ⟨_, htarget, ?_⟩
      rw [List.map_cons, run, Machine.run_cons, step, hmid, Option.map_some,
        Option.bind_some]
      exact hlater

section Since

variable (serde : Serde) (parseTs : String → Option ℤ) (battery : BatteryCurve)
variable (admissible : FileAction → Prop)
variable (kept : List Stamped → Option (File UInt8) → Prop)
variable (seen : List Stamped → SensorState → Prop)

/-- What the processes keep of the state file and of the states published while
the power stays on; both may speak of the readings received until then. -/
structure KeptByProcesses : Prop where
  synced : ∀ {readings version}, kept readings version →
    ∀ f, version = some f → f.synced = true
  mono : ∀ {readings later version}, kept readings version →
    readings.Sublist later → kept later version
  seen_mono : ∀ {readings later state}, seen readings state →
    readings.Sublist later → seen later state
  run : ∀ {before target temp actions s}, kept before target →
    (∀ a ∈ actions, admissible a) →
    (FileServer.initial target temp).run serde parseTs battery actions = some s →
    kept (before ++ actions.filterMap FileAction.reading?) s.files.target ∧
      ∀ state ∈ s.published,
        seen (before ++ actions.filterMap FileAction.reading?) state

/-- The power came on over `target` and `temp` when the readings `before` had been
received; since then the processes have run on their own. -/
structure Since (target temp : Option (File UInt8)) (before received : List Stamped)
    (h : Host) : Prop where
  ran : ∃ actions, (∀ a ∈ actions, admissible a) ∧
    received = before ++ actions.filterMap FileAction.reading? ∧
    (FileServer.initial target temp).run serde parseTs battery actions =
      some h.server
  target : kept before target
  versions : ∀ version ∈ h.versions, kept received version
  earlier : ∀ state ∈ h.earlier, seen received state

/-- Actions of the processes that are admissible; the power may fail at any time. -/
def Admissible : HostAction → Prop
  | .act a => admissible a
  | .powerCut _ _ => True

variable {serde parseTs battery admissible kept seen}
variable {target temp : Option (File UInt8)} {before received : List Stamped}

theorem Since.now
    (hkept : KeptByProcesses serde parseTs battery admissible kept seen) {h : Host}
    (hsince : Since serde parseTs battery admissible kept seen target temp before
      received h) :
    kept received h.server.files.target ∧
      ∀ state ∈ h.server.published, seen received state := by
  obtain ⟨actions, hadm, rfl, hrun⟩ := hsince.ran
  exact hkept.run hsince.target hadm hrun

theorem Since.act
    (hkept : KeptByProcesses serde parseTs battery admissible kept seen) {h : Host}
    {server : FileServer} {a : FileAction} (ha : admissible a)
    (hsince : Since serde parseTs battery admissible kept seen target temp before
      received h)
    (hstep : h.server.step serde parseTs battery a = some server) :
    Since serde parseTs battery admissible kept seen target temp before
      (received ++ a.reading?.toList)
      { h with server, versions := h.versions ++ [server.files.target] } := by
  have hsub := List.sublist_append_left received a.reading?.toList
  obtain ⟨actions, hadm, hreceived, hrun⟩ := hsince.ran
  have hran : ∃ actions, (∀ b ∈ actions, admissible b) ∧
      received ++ a.reading?.toList =
        before ++ actions.filterMap FileAction.reading? ∧
      (FileServer.initial target temp).run serde parseTs battery actions =
        some server := by
    refine ⟨actions ++ [a], ?_, ?_, ?_⟩
    · rw [List.forall_mem_append]
      exact ⟨hadm, List.forall_mem_singleton.mpr ha⟩
    · rw [hreceived, filterMap_concat, List.append_assoc]
    · rw [FileServer.run, Machine.run_concat]
      rw [FileServer.run] at hrun
      rw [hrun, Option.bind_some, hstep]
  -- the new version is what a run since the power came on left
  have hnext : Since serde parseTs battery admissible kept seen target temp before
      (received ++ a.reading?.toList) { h with server, versions := h.versions } :=
    ⟨hran, hsince.target,
      fun version hv => hkept.mono (hsince.versions version hv) hsub,
      fun state hs => hkept.seen_mono (hsince.earlier state hs) hsub⟩
  refine ⟨hran, hsince.target, ?_, hnext.earlier⟩
  rw [List.forall_mem_append]
  exact ⟨hnext.versions, List.forall_mem_singleton.mpr (hnext.now hkept).1⟩

theorem Since.powerCut
    (hkept : KeptByProcesses serde parseTs battery admissible kept seen) {h : Host}
    {version : Option (File UInt8)}
    (hsince : Since serde parseTs battery admissible kept seen target temp before
      received h)
    (hversion : version ∈ h.versions) (left : Option (List UInt8)) :
    Since serde parseTs battery admissible kept seen version
      (left.map fun contents => ⟨contents, true⟩) received received
      (powerOn version (left.map fun contents => ⟨contents, true⟩)
        (h.earlier ++ h.server.published)) := by
  have hspared := hsince.versions version hversion
  refine ⟨⟨[], by simp, by simp, rfl⟩, hspared,
    List.forall_mem_singleton.mpr hspared, ?_⟩
  rw [powerOn, List.forall_mem_append]
  exact ⟨hsince.earlier, (hsince.now hkept).2⟩

theorem Since.step
    (hkept : KeptByProcesses serde parseTs battery admissible kept seen)
    {h h' : Host} {a : HostAction} (ha : Admissible admissible a)
    (hsince : Since serde parseTs battery admissible kept seen target temp before
      received h)
    (hstep : h.step serde parseTs battery a = some h') :
    ∃ target' temp' before',
      Since serde parseTs battery admissible kept seen target' temp' before'
        (received ++ a.reading?.toList) h' := by
  cases a with
  | act a =>
      obtain ⟨server, hserver, rfl⟩ := Option.map_eq_some_iff.mp hstep
      exact ⟨target, temp, before, hsince.act hkept ha hserver⟩
  | powerCut version left =>
      obtain ⟨target', htarget, rfl⟩ := Option.map_eq_some_iff.mp hstep
      have hmem := List.mem_of_getElem? htarget
      have hcut := hsince.powerCut hkept hmem left
      rw [File.bind_afterCrash (hkept.synced (hsince.versions _ hmem)),
        HostAction.reading?, Option.toList_none, List.append_nil]
      exact ⟨_, _, _, hcut⟩

/-- What the processes keep on their own, they keep across power cuts. -/
theorem since_run
    (hkept : KeptByProcesses serde parseTs battery admissible kept seen)
    {actions : List HostAction} {h : Host} (hfirst : kept [] target)
    (hadm : ∀ a ∈ actions, Admissible admissible a)
    (hrun : (powerOn target temp []).run serde parseTs battery actions = some h) :
    ∃ target' temp' before,
      Since serde parseTs battery admissible kept seen target' temp' before
        (actions.filterMap HostAction.reading?) h := by
  have hinitial : Since serde parseTs battery admissible kept seen target temp [] []
      (powerOn target temp []) :=
    ⟨⟨[], by simp, rfl, rfl⟩, hfirst, List.forall_mem_singleton.mpr hfirst,
      fun _ hs => absurd hs List.not_mem_nil⟩
  let P : List HostAction → Host → Prop := fun pre h =>
    ∃ target' temp' before, Since serde parseTs battery admissible kept seen
      target' temp' before (pre.filterMap HostAction.reading?) h
  have hstep : ∀ {pre : List HostAction} {h h' : Host} {a : HostAction},
      Admissible admissible a → P pre h → h.step serde parseTs battery a = some h' →
      P (pre ++ [a]) h' := by
    rintro pre h h' a ha ⟨target', temp', before, hsince⟩ hh'
    simp only [P, filterMap_concat]
    exact hsince.step hkept ha hh'
  exact Machine.run_history (P := P) hstep hadm ⟨target, temp, [], hinitial⟩ hrun

end Since

/-- A version of the state file that gives back the run over some readings. -/
structure Recoverable (serde : Serde) (parseTs : String → Option ℤ)
    (battery : BatteryCurve) (cfg : Config) (first : Disk)
    (readings : List Stamped) (version : Option (File UInt8)) : Prop where
  synced : ∀ f, version = some f → f.synced = true
  follows : FollowsReadings parseTs battery cfg first (load serde true version)
    readings []

section Follows

variable {serde : Serde} {parseTs : String → Option ℤ} {battery : BatteryCurve}
variable {cfg : Config} {first : Disk}

theorem follows_of_recoverable (hround : serde.RoundTrips)
    {target temp : Option (File UInt8)} {before : List Stamped}
    {actions : List FileAction} {s : FileServer}
    (htarget : Recoverable serde parseTs battery cfg first before target)
    (hsteady : ∀ a ∈ actions, FileServer.Steady cfg a)
    (hrun : (FileServer.initial target temp).run serde parseTs battery actions =
      some s) :
    FollowsReadings parseTs battery cfg first (load serde true s.files.target)
      (before ++ actions.filterMap FileAction.reading?) s.published :=
  htarget.follows.trans
    (FileServer.follows_run hround htarget.synced hsteady hrun)

theorem keptByProcesses (hround : serde.RoundTrips) :
    KeptByProcesses serde parseTs battery (FileServer.Steady cfg)
      (Recoverable serde parseTs battery cfg first)
      (StateOfReadings parseTs battery cfg first) where
  synced h := h.synced
  mono h hsub := ⟨h.synced, h.follows.mono hsub⟩
  seen_mono h hsub := h.mono hsub
  run htarget hsteady hrun := by
    have hfollows := follows_of_recoverable hround htarget hsteady hrun
    exact ⟨⟨FileServer.synced_run hround htarget.synced hrun,
      hfollows.unpublished⟩, fun _ hstate => hfollows.of_mem hstate⟩

end Follows

end Host

namespace Sample

/-- What a server that has handled one reading saves. -/
def oneRead : PersistedState :=
  snapshot config ((seedRuntime config "2026-06-10T20:00:00+02:00").applyReading
    codec.parseTs config BatteryCurve.default (reading 150)
    "2026-06-10T20:01:00+02:00")

def oneReadText : String :=
  stateFileText ("[\n    \x7b\n      \"ts\": \"2026-06-10T20:01:00+02:00\",\n" ++
    "      \"lvl\": 150.0,\n      \"bat\": 83\n    \x7d\n  ]")
    "2026-05-30T00:17:19+02:00" "150.0" "20" "2026-06-10T20:01:00+02:00" "51" "110"

/-- The serialization of that state and of the earlier samples. -/
def readingSerde : Serde where
  toVecPretty state :=
    if state = oneRead then some (Utf8.encode oneReadText)
    else serde.toVecPretty state
  fromSlice bytes :=
    if bytes = Utf8.encode oneReadText then some oneRead else serde.fromSlice bytes

theorem readingSerde_roundTrips : readingSerde.RoundTrips := by
  have hpersisted : persistedText ≠ oneReadText := by decide +kernel
  have hseeded : seededText ≠ oneReadText := by decide +kernel
  have hprinted : ∀ state bytes, serde.toVecPretty state = some bytes →
      bytes ≠ Utf8.encode oneReadText := by
    intro state bytes hprint
    simp only [serde] at hprint
    split at hprint
    · rw [← Option.some.inj hprint]
      exact Utf8.encode_injective.ne hpersisted
    · split at hprint
      · rw [← Option.some.inj hprint]
        exact Utf8.encode_injective.ne hseeded
      · cases hprint
  intro state bytes hprint
  simp only [readingSerde] at hprint ⊢
  split at hprint
  · rename_i hstate
    rw [if_pos (Option.some.inj hprint).symm, hstate]
  · rw [if_neg (hprinted state bytes hprint)]
    exact serde_roundTrips state bytes hprint

theorem readingSerde_seeded :
    readingSerde.toVecPretty seeded = some (Utf8.encode seededText) := by
  have hne : seeded ≠ oneRead := by decide +kernel
  simp only [readingSerde, if_neg hne, serde_seeded]

theorem readingSerde_oneRead :
    readingSerde.toVecPretty oneRead = some (Utf8.encode oneReadText) := if_pos rfl

/-- A connect and a reading that is saved and published. -/
def savedReading (size : ℕ) : List FileAction :=
  [ .connAck, .receive (reading 150, "2026-06-10T20:01:00+02:00") ] ++
    (FileServer.wholeSave size ++ [.publishState])

def nextStart (size : ℕ) : List FileAction :=
  .start config "2026-06-10T20:03:00+02:00" ::
    (FileServer.wholeSave size ++ [.connAck])

/-- After the reading is published the power fails; the server starts again. -/
def lostRenameRun (seedSize readSize version : ℕ) : List HostAction :=
  (firstStart seedSize).map .act ++ ((savedReading readSize).map .act ++
    (.powerCut version none :: (nextStart seedSize).map .act))

section Runs

variable {serde : Serde} {seed read : List UInt8}

theorem savedReading_runs (seed : List UInt8) (hread : serde.toVecPretty oneRead = some read) :
    ∃ s, (seededServer seed).run serde codec.parseTs BatteryCurve.default
        (savedReading read.length) = some s ∧
      s.published.map some = [seeded.lastState, oneRead.lastState] := by
  let rt := seedRuntime config "2026-06-10T20:00:00+02:00"
  let applied : FileServer :=
    { files := ⟨some ⟨seed, true⟩, none, .idle, [seeded]⟩
      process := .applied config
        (rt.applyReading codec.parseTs config BatteryCurve.default (reading 150)
          "2026-06-10T20:01:00+02:00")
        (reading 150, "2026-06-10T20:01:00+02:00")
      published := [rt.current] }
  have hreceived : Machine.run
      (FileServer.step serde codec.parseTs BatteryCurve.default) (seededServer seed)
      [.connAck, .receive (reading 150, "2026-06-10T20:01:00+02:00")] =
      some applied := rfl
  have hsave := FileServer.run_wholeSave codec.parseTs BatteryCurve.default
    (show applied.files.progress = .idle from rfl)
    (show applied.process.toSave = some oneRead from rfl) hread
  rw [FileServer.run] at hsave
  rw [savedReading, FileServer.run, Machine.run_append_of_eq_some hreceived,
    Machine.run_append_of_eq_some hsave]
  exact ⟨_, rfl, rfl⟩

theorem nextStart_runs (hseed : serde.toVecPretty seeded = some seed)
    (hback : serde.fromSlice seed = some seeded) :
    ∃ s, (FileServer.initial (some ⟨seed, true⟩) none).run serde codec.parseTs
        BatteryCurve.default (nextStart seed.length) = some s ∧
      s.published.map some = [seeded.lastState] := by
  have hload : load serde true (some ⟨seed, true⟩) = .ok (some seeded) :=
    load_intact hback
  let begun : FileServer :=
    { files := Store.initial (some ⟨seed, true⟩) none
      process := .loaded config (seedRuntime config "2026-06-10T20:00:00+02:00")
      published := [] }
  have hstart : (FileServer.initial (some ⟨seed, true⟩) none).step serde
      codec.parseTs BatteryCurve.default
      (.start config "2026-06-10T20:03:00+02:00") = some begun := by
    simp only [FileServer.step, FileServer.initial, Store.initial, hload,
      reload_seeded, begun]
  have hsave := FileServer.run_wholeSave codec.parseTs BatteryCurve.default
    (show begun.files.progress = .idle from rfl)
    (show begun.process.toSave = some seeded from rfl) hseed
  rw [FileServer.run] at hsave
  rw [nextStart, FileServer.run, Machine.run_cons, hstart, Option.bind_some,
    Machine.run_append_of_eq_some hsave]
  exact ⟨_, rfl, rfl⟩

theorem lostRenameRun_runs (hseed : serde.toVecPretty seeded = some seed)
    (hread : serde.toVecPretty oneRead = some read)
    (hback : serde.fromSlice seed = some seeded) :
    ∃ version h, (Host.powerOn none none []).run serde codec.parseTs
        BatteryCurve.default (lostRenameRun seed.length read.length version) =
          some h ∧
      h.earlier.map some = [seeded.lastState, oneRead.lastState] ∧
      h.server.published.map some = [seeded.lastState] := by
  obtain ⟨s, hs, hpublished⟩ := savedReading_runs seed hread
  obtain ⟨s', hs', hpublished'⟩ := nextStart_runs hseed hback
  have hinitial : (FileServer.initial none none).files.target ∈
      [(none : Option (File UInt8))] := List.mem_singleton.mpr rfl
  obtain ⟨later, htarget, hfirst⟩ :=
    Host.run_acts (firstStart_runs hseed none) hinitial []
  obtain ⟨later', -, hsecond⟩ := Host.run_acts hs htarget []
  obtain ⟨later'', -, hthird⟩ := Host.run_acts hs'
    (List.mem_singleton.mpr rfl) s.published
  obtain ⟨version, hversion⟩ :=
    List.getElem?_of_mem (List.mem_append_left later' htarget)
  have hcut : Host.step serde codec.parseTs BatteryCurve.default
      ⟨s, [none] ++ later ++ later', []⟩ (.powerCut version none) =
      some (Host.powerOn (some ⟨seed, true⟩) none s.published) := by
    rw [Host.step, hversion]
    rfl
  refine ⟨version, ⟨s', [some ⟨seed, true⟩] ++ later'', s.published⟩, ?_,
    hpublished, hpublished'⟩
  rw [Host.run] at hfirst hsecond hthird
  rw [lostRenameRun, Host.run, Host.powerOn, Machine.run_append_of_eq_some hfirst,
    Machine.run_append_of_eq_some hsecond, Machine.run_cons, hcut, Option.bind_some]
  exact hthird

end Runs

end Sample

/-- Restart transparency down to the files and the power.  However processes are
killed and the power is cut, also inside a save: the file and what is published
since the power came on last follow the received readings, and every state
published before is one of such a run too.  A cut that undoes a rename takes
readings back, so a state published after it can be older than one before it. -/
theorem power_cuts_transparent (serde : Serde) (hround : serde.RoundTrips)
    (parseTs : String → Option ℤ) (battery : BatteryCurve) (cfg : Config)
    (target temp : Option (File UInt8))
    (hsynced : ∀ f, target = some f → f.synced = true)
    (actions : List HostAction)
    (hsteady : ∀ a ∈ actions, Host.Admissible (FileServer.Steady cfg) a) (h : Host)
    (hrun : (Host.powerOn target temp []).run serde parseTs battery actions =
      some h) :
    let first := load serde true target
    let received := actions.filterMap HostAction.reading?
    FollowsReadings parseTs battery cfg first
        (load serde true h.server.files.target) received h.server.published ∧
      ∀ state ∈ h.earlier,
        StateOfReadings parseTs battery cfg first received state := by
  intro first received
  have hfirst : Host.Recoverable serde parseTs battery cfg first [] target :=
    ⟨hsynced, .refl first []⟩
  obtain ⟨_, _, _, hsince⟩ :=
    Host.since_run (Host.keptByProcesses hround) hfirst hsteady hrun
  refine ⟨?_, hsince.earlier⟩
  obtain ⟨sinceOn, hadm, hreceived, hran⟩ := hsince.ran
  rw [show received = _ from hreceived]
  exact Host.follows_of_recoverable hround hsince.target hadm hran

open Sample in
/-- The state with the reading is published, and after the cut the one without. -/
theorem lostRenameRun_transparent :
    ∃ version h, (Host.powerOn none none []).run readingSerde codec.parseTs
        BatteryCurve.default (lostRenameRun (Utf8.encode seededText).length
          (Utf8.encode oneReadText).length version) = some h ∧
      h.earlier.map some = [seeded.lastState, oneRead.lastState] ∧
      h.server.published.map some = [seeded.lastState] ∧
      seeded.lastState ≠ oneRead.lastState ∧
      FollowsReadings codec.parseTs BatteryCurve.default config (.ok none)
        (load readingSerde true h.server.files.target)
        [(reading 150, "2026-06-10T20:01:00+02:00")] h.server.published := by
  obtain ⟨version, h, hrun, hearlier, hpublished⟩ :=
    lostRenameRun_runs readingSerde_seeded readingSerde_oneRead
      (readingSerde_roundTrips _ _ readingSerde_seeded)
  have hsteady : ∀ a ∈ lostRenameRun (Utf8.encode seededText).length
      (Utf8.encode oneReadText).length version,
      Host.Admissible (FileServer.Steady config) a := by
    simp [lostRenameRun, firstStart, savedReading, nextStart, FileServer.wholeSave,
      Host.Admissible, FileServer.Steady]
  exact ⟨version, h, hrun, hearlier, hpublished, by decide +kernel,
    (power_cuts_transparent readingSerde readingSerde_roundTrips codec.parseTs
      BatteryCurve.default config none none (fun _ h => by cases h) _ hsteady h
      hrun).1⟩

end Aquilo
