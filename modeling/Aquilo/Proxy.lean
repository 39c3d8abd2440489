/-
The proxied connection of learn.  Two halves forward bytes verbatim, a chunk at a
time, and show a chunk to the collector once it is forwarded.  They run in one
task, taking turns wherever one of them waits, and the first to end takes the
other down with it.
-/
import Aquilo.Learn
import Aquilo.Machine

namespace Aquilo

/-- The most bytes one read returns. -/
def readCap : ℕ := 4096

/-- The end a half reads from. -/
inductive Side where
  | device
  | cloud
deriving DecidableEq

/-- What a half has read and written in this connection, and the chunk it is
forwarding with what is left of it. -/
structure Half where
  read : List UInt8
  written : List UInt8
  chunk : Option (List UInt8 × List UInt8)

def Half.new : Half := ⟨[], [], none⟩

/-- What of the bytes read is still to be written. -/
def Half.unsent (h : Half) : List UInt8 := (h.chunk.map Prod.snd).getD []

/-- The connection that is up, the decoders and the collector.  Kept for the
record: the chunks shown to the collector and the connections that have ended. -/
structure Proxy where
  halves : Option (Side → Half)
  taps : Taps
  collector : Learn
  teed : List ProxyEvent
  closed : List (Side → Half)

/-- One step of either half; `write` comes with the clocks and writes of the
packets it may complete.  A connection is closed by the end of a stream or a
failed read or write of either half. -/
inductive ProxyAction where
  | connect
  | read (side : Side) (chunk : List UInt8)
  | write (side : Side) (count : ℕ) (clock : ℕ → String) (ticks : ℕ → Tick)
  | close

/-- How a forwarded chunk is shown to the collector. -/
def Side.event (chunk : List UInt8) (clock : ℕ → String) (ticks : ℕ → Tick) :
    Side → ProxyEvent
  | device => .device chunk clock ticks
  | cloud => .cloud chunk (ticks 0)

/-- The decoders after a run of events. -/
def Taps.after (taps : Taps) (events : List ProxyEvent) : Taps :=
  events.foldl (fun taps e => (taps.tee e).2) taps

theorem Taps.after_concat (taps : Taps) (events : List ProxyEvent) (e : ProxyEvent) :
    taps.after (events ++ [e]) = ((taps.after events).tee e).2 := by
  rw [Taps.after, List.foldl_concat]
  rfl

theorem Taps.teeAll_concat (taps : Taps) (events : List ProxyEvent) (e : ProxyEvent) :
    taps.teeAll (events ++ [e]) =
      taps.teeAll events ++ ((taps.after events).tee e).1 := by
  induction events generalizing taps with
  | nil => simp [Taps.teeAll, Taps.after]
  | cons first rest ih =>
      rw [List.cons_append, Taps.teeAll, Taps.teeAll, ih, List.append_assoc]
      rfl

/-- The bytes of one direction in an event. -/
def ProxyEvent.bytes (side : Side) : ProxyEvent → List UInt8
  | .connect => []
  | .device chunk _ _ => if side = .device then chunk else []
  | .cloud chunk _ => if side = .cloud then chunk else []

/-- The bytes of one direction of a connection that the collector was shown. -/
def Side.shown (side : Side) (session : List ProxyEvent) : List UInt8 :=
  session.flatMap (ProxyEvent.bytes side)

/-- How far a half is with the bytes it has read, of which the collector was
shown those given: between two chunks, or partly through one. -/
inductive Half.Forwards : Half → List UInt8 → Prop where
  | idle (bytes : List UInt8) : Half.Forwards ⟨bytes, bytes, none⟩ bytes
  | chunk (bytes sent rest : List UInt8) (h : (sent ++ rest).length ≤ readCap) :
      Half.Forwards ⟨bytes ++ (sent ++ rest), bytes ++ sent, some (sent ++ rest, rest)⟩
        bytes

namespace Half.Forwards

variable {h : Half} {bytes : List UInt8}

theorem shown_isPrefix (hf : h.Forwards bytes) : bytes <+: h.written := by
  cases hf with
  | idle => exact List.prefix_refl bytes
  | chunk bytes sent rest hcap => exact List.prefix_append bytes sent

theorem written_unsent (hf : h.Forwards bytes) :
    h.written ++ h.unsent = h.read := by
  cases hf with
  | idle => exact List.append_nil bytes
  | chunk bytes sent rest hcap => simp [unsent]

theorem lag (hf : h.Forwards bytes) : h.read.length ≤ bytes.length + readCap := by
  cases hf with
  | idle => exact Nat.le_add_right _ _
  | chunk bytes sent rest hcap =>
      rw [List.length_append]
      exact Nat.add_le_add_left hcap _

/-- A chunk is read between two chunks. -/
theorem read (hf : h.Forwards bytes) (hidle : h.chunk = none) {chunk : List UInt8}
    (hcap : chunk.length ≤ readCap) :
    Half.Forwards { h with
      read := h.read ++ chunk
      chunk := some (chunk, chunk) } bytes := by
  cases hf with
  | idle =>
      have hforwards := Half.Forwards.chunk bytes [] chunk hcap
      rwa [List.append_nil] at hforwards
  | chunk bytes sent rest => cases hidle

/-- Some of the chunk is written. -/
theorem write (hf : h.Forwards bytes) {chunk rest : List UInt8}
    (hchunk : h.chunk = some (chunk, rest)) (count : ℕ) :
    Half.Forwards { h with
      written := h.written ++ rest.take count
      chunk := some (chunk, rest.drop count) } bytes := by
  cases hf with
  | idle => cases hchunk
  | chunk bytes sent rest hcap =>
      cases Option.some.inj hchunk
      have hsplit : (sent ++ rest.take count) ++ rest.drop count = sent ++ rest := by
        rw [List.append_assoc, List.take_append_drop]
      have hforwards := Half.Forwards.chunk bytes (sent ++ rest.take count)
        (rest.drop count) (by rwa [hsplit])
      rwa [hsplit, ← List.append_assoc bytes sent (rest.take count)] at hforwards

/-- The chunk has been written. -/
theorem done (hf : h.Forwards bytes) {chunk rest : List UInt8}
    (hchunk : h.chunk = some (chunk, rest)) :
    Half.Forwards { h with
      written := h.written ++ rest
      chunk := none } (bytes ++ chunk) := by
  cases hf with
  | idle => cases hchunk
  | chunk bytes sent rest hcap =>
      cases Option.some.inj hchunk
      have hforwards := Half.Forwards.idle (bytes ++ (sent ++ rest))
      simpa using hforwards

end Half.Forwards

/-- A connection against what the collector was shown of it. -/
structure Relays (halves : Side → Half) (session : List ProxyEvent) : Prop where
  one : ∀ e ∈ session, e ≠ .connect
  forwards : ∀ side, (halves side).Forwards (side.shown session)

theorem ProxyEvent.bytes_event (side other : Side) (chunk : List UInt8)
    (clock : ℕ → String) (ticks : ℕ → Tick) :
    ProxyEvent.bytes other (side.event chunk clock ticks) =
      if other = side then chunk else [] := by
  cases side <;> rfl

theorem Side.event_ne_connect (side : Side) (chunk : List UInt8)
    (clock : ℕ → String) (ticks : ℕ → Tick) :
    side.event chunk clock ticks ≠ .connect := by
  cases side <;> exact ProxyEvent.noConfusion

theorem Side.shown_concat (side : Side) (session : List ProxyEvent) (e : ProxyEvent) :
    side.shown (session ++ [e]) = side.shown session ++ e.bytes side := by
  simp [Side.shown]

namespace Relays

variable {halves : Side → Half} {session : List ProxyEvent}

theorem new : Relays (fun _ => .new) [] where
  one := by simp
  forwards _ := Half.Forwards.idle []

/-- A half moves on without showing anything. -/
theorem update (h : Relays halves session) (side : Side) {half : Half}
    (hhalf : half.Forwards (side.shown session)) :
    Relays (Function.update halves side half) session where
  one := h.one
  forwards other := by
    by_cases hside : other = side
    · subst hside
      rwa [Function.update_self]
    · rw [Function.update_of_ne hside]
      exact h.forwards other

/-- A half has forwarded a chunk, and shows it. -/
theorem shows (h : Relays halves session) (side : Side) {half : Half}
    (chunk : List UInt8) (clock : ℕ → String) (ticks : ℕ → Tick)
    (hhalf : half.Forwards (side.shown session ++ chunk)) :
    Relays (Function.update halves side half)
      (session ++ [side.event chunk clock ticks]) where
  one := by
    intro e he
    rcases List.mem_append.mp he with he | he
    · exact h.one e he
    · rw [List.mem_singleton.mp he]
      exact side.event_ne_connect chunk clock ticks
  forwards other := by
    rw [Side.shown_concat, ProxyEvent.bytes_event]
    by_cases hside : other = side
    · subst hside
      rwa [Function.update_self, if_pos rfl]
    · rw [Function.update_of_ne hside, if_neg hside, List.append_nil]
      exact h.forwards other

end Relays

/-- The connection that is up, if one is, against the last part of what the
collector was shown. -/
inductive Live : Option (Side → Half) → List ProxyEvent → Prop where
  | down : Live none []
  | up {halves : Side → Half} {session : List ProxyEvent}
      (h : Relays halves session) : Live (some halves) (.connect :: session)

namespace Proxy

def initial : Proxy where
  halves := none
  taps := Taps.new
  collector := Learn.initial
  teed := []
  closed := []

section Step

variable (codec : Codec) (opts : OnboardOptions)

/-- Show an event to the decoders and the collector. -/
def tee (s : Proxy) (e : ProxyEvent) : Proxy :=
  { s with
    taps := (s.taps.tee e).2
    collector := (s.taps.tee e).1.foldl (Learn.step codec opts) s.collector
    teed := s.teed ++ [e] }

def step (s : Proxy) : ProxyAction → Option Proxy
  | .connect =>
      match s.halves with
      | none => some { s.tee codec opts .connect with halves := some fun _ => .new }
      | some _ => none
  | .read side chunk =>
      match s.halves with
      | none => none
      | some halves =>
          if (halves side).chunk = none ∧ chunk ≠ [] ∧ chunk.length ≤ readCap then
            let half := { halves side with
              read := (halves side).read ++ chunk
              chunk := some (chunk, chunk) }
            some { s with halves := some (Function.update halves side half) }
          else none
  | .write side count clock ticks =>
      match s.halves with
      | none => none
      | some halves =>
          match (halves side).chunk with
          | none => none
          | some (chunk, rest) =>
              let written := (halves side).written ++ rest.take count
              -- all written: the collector sees the chunk before the next read
              if rest.drop count = [] then
                let half := { halves side with written, chunk := none }
                some { s.tee codec opts (side.event chunk clock ticks) with
                  halves := some (Function.update halves side half) }
              else
                let half := { halves side with
                  written
                  chunk := some (chunk, rest.drop count) }
                some { s with halves := some (Function.update halves side half) }
  | .close =>
      match s.halves with
      | none => none
      | some halves =>
          some { s with halves := none, closed := s.closed ++ [halves] }

def run (s : Proxy) (actions : List ProxyAction) : Option Proxy :=
  Machine.run (step codec opts) s actions

variable {codec opts}

/-- Everything a step can do. -/
theorem step_cases {s s' : Proxy} {a : ProxyAction}
    (h : s.step codec opts a = some s') :
    (a = .connect ∧ s.halves = none ∧
      s' = { s.tee codec opts .connect with halves := some fun _ => .new }) ∨
    (∃ side chunk halves, a = .read side chunk ∧ s.halves = some halves ∧
      (halves side).chunk = none ∧ chunk.length ≤ readCap ∧
      s' = { s with
        halves := some (Function.update halves side { halves side with
          read := (halves side).read ++ chunk
          chunk := some (chunk, chunk) }) }) ∨
    (∃ side count clock ticks halves chunk rest,
      a = .write side count clock ticks ∧ s.halves = some halves ∧
      (halves side).chunk = some (chunk, rest) ∧ rest.drop count = [] ∧
      s' = { s.tee codec opts (side.event chunk clock ticks) with
        halves := some (Function.update halves side { halves side with
          written := (halves side).written ++ rest
          chunk := none }) }) ∨
    (∃ side count clock ticks halves chunk rest,
      a = .write side count clock ticks ∧ s.halves = some halves ∧
      (halves side).chunk = some (chunk, rest) ∧
      s' = { s with
        halves := some (Function.update halves side { halves side with
          written := (halves side).written ++ rest.take count
          chunk := some (chunk, rest.drop count) }) }) ∨
    (∃ halves, a = .close ∧ s.halves = some halves ∧
      s' = { s with halves := none, closed := s.closed ++ [halves] }) := by
  cases a with
  | connect =>
      simp only [step] at h
      split at h
      · rename_i hhalves
        exact Or.inl ⟨rfl, hhalves, (Option.some.inj h).symm⟩
      · cases h
  | read side chunk =>
      simp only [step] at h
      split at h
      · cases h
      · rename_i halves hhalves
        split at h
        · rename_i hread
          exact Or.inr (Or.inl ⟨side, chunk, halves, rfl, hhalves, hread.1,
            hread.2.2, (Option.some.inj h).symm⟩)
        · cases h
  | write side count clock ticks =>
      simp only [step] at h
      split at h
      · cases h
      · rename_i halves hhalves
        split at h
        · cases h
        · rename_i chunk rest hchunk
          split at h
          · rename_i hdone
            have htake : rest.take count = rest := by
              rw [← List.append_nil (rest.take count), ← hdone,
                List.take_append_drop]
            rw [htake] at h
            exact Or.inr (Or.inr (Or.inl ⟨side, count, clock, ticks, halves, chunk,
              rest, rfl, hhalves, hchunk, hdone, (Option.some.inj h).symm⟩))
          · exact Or.inr (Or.inr (Or.inr (Or.inl ⟨side, count, clock, ticks,
              halves, chunk, rest, rfl, hhalves, hchunk,
              (Option.some.inj h).symm⟩)))
  | close =>
      simp only [step] at h
      split at h
      · cases h
      · rename_i halves hhalves
        exact Or.inr (Or.inr (Or.inr (Or.inr
          ⟨halves, rfl, hhalves, (Option.some.inj h).symm⟩)))

/-- What the collector was shown is a run of it. -/
theorem tee_collector (s : Proxy) (e : ProxyEvent)
    (htaps : s.taps = Taps.new.after s.teed)
    (hcollector : s.collector = Learn.run codec opts s.teed) :
    (s.tee codec opts e).taps = Taps.new.after (s.teed ++ [e]) ∧
      (s.tee codec opts e).collector = Learn.run codec opts (s.teed ++ [e]) := by
  constructor
  · rw [Taps.after_concat, ← htaps]
    rfl
  · rw [Learn.run, Learn.runSteps, Taps.teeAll_concat, List.foldl_append, ← htaps]
    show List.foldl _ s.collector _ = _
    rw [hcollector]
    rfl

variable (codec opts)

/-- What holds throughout a run: the connections so far, each against its part
of what the collector was shown, and the collector. -/
structure Inv (s : Proxy) : Prop where
  relays : ∃ (ended : List (List ProxyEvent)) (live : List ProxyEvent),
    s.teed = ended.flatMap (ProxyEvent.connect :: ·) ++ live ∧
      List.Forall₂ Relays s.closed ended ∧ Live s.halves live
  taps : s.taps = Taps.new.after s.teed
  collector : s.collector = Learn.run codec opts s.teed

theorem inv_initial : Inv codec opts initial where
  relays := ⟨[], [], rfl, .nil, .down⟩
  taps := rfl
  collector := rfl

variable {codec opts}

/-- Neither half shows anything. -/
theorem Inv.move {s : Proxy} (h : Inv codec opts s) {halves : Side → Half}
    (hhalves : s.halves = some halves) (side : Side) {half : Half}
    (hhalf : ∀ bytes, (halves side).Forwards bytes → half.Forwards bytes) :
    Inv codec opts { s with
      halves := some (Function.update halves side half) } where
  relays := by
    obtain ⟨ended, live, hteed, hended, hlive⟩ := h.relays
    rw [hhalves] at hlive
    cases hlive with
    | up hrelays =>
        exact ⟨ended, _, hteed, hended,
          .up (hrelays.update side (hhalf _ (hrelays.forwards side)))⟩
  taps := h.taps
  collector := h.collector

theorem Inv.step {s s' : Proxy} {a : ProxyAction} (h : Inv codec opts s)
    (hs : s.step codec opts a = some s') : Inv codec opts s' := by
  rcases step_cases hs with ⟨-, hdown, rfl⟩ |
    ⟨side, chunk, halves, -, hup, hidle, hcap, rfl⟩ |
    ⟨side, count, clock, ticks, halves, chunk, rest, -, hup, hchunk, -, rfl⟩ |
    ⟨side, count, clock, ticks, halves, chunk, rest, -, hup, hchunk, rfl⟩ |
    ⟨halves, -, hup, rfl⟩
  · obtain ⟨htaps, hcollector⟩ := s.tee_collector .connect h.taps h.collector
    refine ⟨?_, htaps, hcollector⟩
    obtain ⟨ended, live, hteed, hended, hlive⟩ := h.relays
    rw [hdown] at hlive
    cases hlive
    rw [List.append_nil] at hteed
    refine ⟨ended, [.connect], ?_, hended, .up .new⟩
    rw [← hteed]
    rfl
  · exact h.move hup side fun _ hf => hf.read hidle hcap
  · obtain ⟨htaps, hcollector⟩ :=
      s.tee_collector (side.event chunk clock ticks) h.taps h.collector
    refine ⟨?_, htaps, hcollector⟩
    obtain ⟨ended, live, hteed, hended, hlive⟩ := h.relays
    rw [hup] at hlive
    cases hlive with
    | @up _ session hrelays =>
        refine ⟨ended, .connect :: (session ++ [side.event chunk clock ticks]), ?_,
          hended, .up (hrelays.shows side chunk clock ticks
            ((hrelays.forwards side).done hchunk))⟩
        show s.teed ++ _ = _
        rw [hteed, List.append_assoc]
        rfl
  · exact h.move hup side fun _ hf => hf.write hchunk count
  · refine ⟨?_, h.taps, h.collector⟩
    obtain ⟨ended, live, hteed, hended, hlive⟩ := h.relays
    rw [hup] at hlive
    cases hlive with
    | @up _ session hrelays =>
        refine ⟨ended ++ [session], [], ?_, ?_, .down⟩
        · show s.teed = _
          rw [hteed, List.flatMap_append]
          simp
        · exact List.rel_append hended (.cons hrelays .nil)

theorem inv_run {s : Proxy} {actions : List ProxyAction}
    (h : Proxy.initial.run codec opts actions = some s) : Inv codec opts s :=
  Machine.run_invariant (fun hinv hs => hinv.step hs) (inv_initial codec opts) h

end Step

end Proxy

/-- What a connection has read, written and shown agree up to the chunk that is
being forwarded. -/
structure Verbatim (halves : Side → Half) (session : List ProxyEvent) : Prop where
  one : ∀ e ∈ session, e ≠ .connect
  forwarded : ∀ side, (halves side).written ++ (halves side).unsent = (halves side).read
  shown : ∀ side, side.shown session <+: (halves side).written
  lag : ∀ side, (halves side).read.length ≤ (side.shown session).length + readCap

theorem Relays.verbatim {halves : Side → Half} {session : List ProxyEvent}
    (h : Relays halves session) : Verbatim halves session where
  one := h.one
  forwarded side := (h.forwards side).written_unsent
  shown side := (h.forwards side).shown_isPrefix
  lag side := (h.forwards side).lag

section Transparent

variable (codec : Codec) (opts : OnboardOptions)

/-- However the two halves take turns, and wherever a connection breaks, each
peer is sent the bytes the other sent, in order and unaltered, and the collector
is shown only bytes that have been sent on, a chunk behind at most: the facts are
those of a run over the connections one after another. -/
theorem proxy_transparent {actions : List ProxyAction} {s : Proxy}
    (h : Proxy.initial.run codec opts actions = some s) :
    ∃ sessions : List (List ProxyEvent),
      List.Forall₂ Verbatim (s.closed ++ s.halves.toList) sessions ∧
        s.collector =
          Learn.run codec opts (sessions.flatMap (ProxyEvent.connect :: ·)) := by
  obtain ⟨⟨ended, live, hteed, hended, hlive⟩, -, hcollector⟩ := Proxy.inv_run h
  have hverbatim : List.Forall₂ Verbatim s.closed ended :=
    hended.imp fun _ _ hrelays => hrelays.verbatim
  rw [hteed] at hcollector
  cases hhalves : s.halves with
  | none =>
      rw [hhalves] at hlive
      cases hlive
      refine ⟨ended, by simpa using hverbatim, ?_⟩
      rwa [List.append_nil] at hcollector
  | some halves =>
      rw [hhalves] at hlive
      cases hlive with
      | @up _ session hrelays =>
          refine ⟨ended ++ [session],
            List.rel_append hverbatim (.cons hrelays.verbatim .nil), ?_⟩
          rw [List.flatMap_append]
          simpa using hcollector

end Transparent

namespace Sample

/-- The device is cut off after part of its CONNECT was sent on, and connects
again. -/
def cutConnect : List ProxyAction :=
  let ticks := fun _ => tick
  let clock := fun _ => tick.now
  [ .connect, .read .device connectBytes, .write .device 20 clock ticks,
    .read .cloud [0x20, 2, 0, 0], .close,
    .connect, .read .device connectBytes,
    .write .device connectBytes.length clock ticks ]

/-- What a run has sent to the cloud: over the connections that have ended, and
over the one that is up. -/
def sentOn (s : Proxy) : List (List UInt8) × Option (List UInt8) :=
  (s.closed.map fun halves => (halves .device).written,
    s.halves.map fun halves => (halves .device).written)

end Sample

open Sample in
theorem cutConnect_transparent :
    ∃ s, Proxy.initial.run onboardCodec onboardOptions cutConnect = some s ∧
      sentOn s = ([connectBytes.take 20], some connectBytes) ∧
      ∃ sessions : List (List ProxyEvent),
        List.Forall₂ Verbatim (s.closed ++ s.halves.toList) sessions ∧
          s.collector = Learn.run onboardCodec onboardOptions
            (sessions.flatMap (ProxyEvent.connect :: ·)) := by
  have hsent : (Proxy.initial.run onboardCodec onboardOptions cutConnect).map sentOn =
      some ([connectBytes.take 20], some connectBytes) := by
    decide +kernel
  obtain ⟨s, hs, hsent⟩ := Option.map_eq_some_iff.mp hsent
  exact ⟨s, hs, hsent, proxy_transparent onboardCodec onboardOptions hs⟩

end Aquilo
