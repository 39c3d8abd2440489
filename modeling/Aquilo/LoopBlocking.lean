/-
Where the serve loop waits for its own channel: requests leave it only while the
loop polls, and a handler that has to wait for room does not come back to that.
-/
import Aquilo.BrokerClient

namespace Aquilo

open LastWrite

namespace Client

section Blocking

variable {codec : Codec} {cfg : Config}

/-- What stays as it is while a handler waits to send: the loop's own state, and
the broker gets nothing that had not left the channel before. -/
structure Waits (s s' : Client) : Prop where
  server : s'.server = s.server
  handled : s'.handled = s.handled
  requests : s.channel.length + s.todo.length ≤
    s'.channel.length + s'.todo.length
  reached : (s'.arrived ++ s'.wire).Sublist (s.arrived ++ s.wire)

theorem Waits.refl (s : Client) : Waits s s := ⟨rfl, rfl, le_rfl, List.Sublist.refl _⟩

theorem Waits.trans {s t u : Client} (h : Waits s t) (h' : Waits t u) :
    Waits s u where
  server := h'.server.trans h.server
  handled := h'.handled.trans h.handled
  requests := h.requests.trans h'.requests
  reached := h'.reached.trans h.reached

/-- While a handler waits nothing is taken off the channel. -/
theorem waits_step {s s' : Client} {a : ClientAction} (hbusy : s.todo ≠ [])
    (hstep : s.step codec cfg a = some s') : Waits s s' := by
  rcases step_cases hstep with
    ⟨e, rfl, hping, htodo, rfl⟩ | ⟨r, rest, rfl, htodo, hroom, rfl⟩ |
    ⟨rfl, hroom, rfl⟩ | ⟨r, rest, rfl, htodo, htake, rfl⟩ |
    ⟨r, rest, rfl, hwire, rfl⟩ | ⟨kept, rfl, hkept, rfl⟩ |
    ⟨kept, rfl, htodo, hkept, rfl⟩ | ⟨rfl, rfl⟩
  · exact absurd htodo hbusy
  · refine ⟨rfl, rfl, ?_, List.Sublist.refl _⟩
    simp only [htodo, List.length_cons, List.length_append, List.length_nil]
    omega
  · refine ⟨rfl, rfl, ?_, List.Sublist.refl _⟩
    simp only [List.length_append]
    omega
  · exact absurd htodo hbusy
  · exact ⟨rfl, rfl, le_rfl, by simp [hwire]⟩
  · exact ⟨rfl, rfl, le_rfl, (List.Sublist.refl _).append hkept⟩
  · exact absurd htodo hbusy
  · exact ⟨rfl, rfl, le_rfl, (List.Sublist.refl _).append (List.nil_sublist _)⟩

/-- Where more has to be sent than the channel can hold, the handler waits for
good. -/
theorem waits_run {s s' : Client} {actions : List ClientAction}
    (hs : Bounded s) (hover : channelCap < s.channel.length + s.todo.length)
    (hrun : s.run codec cfg actions = some s') :
    Waits s s' ∧ s'.todo ≠ [] := by
  have hbusy : ∀ {t : Client}, Bounded t → Waits s t → t.todo ≠ [] := by
    intro t ht hwaits hnil
    have hchannel := ht.channel
    have hrequests := hwaits.requests
    rw [hnil, List.length_nil] at hrequests
    omega
  have hstep : ∀ {t t' : Client} {a : ClientAction}, Bounded t ∧ Waits s t →
      t.step codec cfg a = some t' → Bounded t' ∧ Waits s t' := by
    rintro t t' a ⟨ht, hwaits⟩ hstep
    exact ⟨ht.step hstep, hwaits.trans (waits_step (hbusy ht hwaits) hstep)⟩
  obtain ⟨hbounded, hwaits⟩ :=
    Machine.run_invariant hstep ⟨hs, Waits.refl s⟩ hrun
  exact ⟨hwaits, hbusy hbounded hwaits⟩

/-- Where there is room for all of it, it can be sent. -/
theorem run_send (s : Client)
    (hroom : s.channel.length + s.todo.length ≤ channelCap) :
    ∃ s', s.run codec cfg (List.replicate s.todo.length .send) = some s' ∧
      s'.todo = [] := by
  induction htodo : s.todo generalizing s with
  | nil => exact ⟨s, rfl, htodo⟩
  | cons r rest ih =>
      rw [htodo, List.length_cons] at hroom
      have hsend : s.step codec cfg .send =
          some { s with todo := rest, channel := s.channel ++ [r] } := by
        simp only [step, htodo]
        exact if_pos (by omega)
      obtain ⟨s', hrun, hnil⟩ := ih
        { s with todo := rest, channel := s.channel ++ [r] }
        (by simp only [List.length_append, List.length_singleton]; omega) rfl
      refine ⟨s', ?_, hnil⟩
      rw [List.length_cons, List.replicate_succ, run, Machine.run_cons, hsend,
        Option.bind_some]
      exact hrun

variable (codec cfg) in
/-- Pings pile up while nobody takes them. -/
theorem run_ping (s : Client) (n : ℕ)
    (hroom : s.channel.length + n ≤ channelCap) :
    s.run codec cfg (List.replicate n .ping) = some
      { s with channel := s.channel ++ List.replicate n (pingRequest cfg) } := by
  induction n generalizing s with
  | zero => simp [run]
  | succ n ih =>
      have hping : s.step codec cfg .ping =
          some { s with channel := s.channel ++ [pingRequest cfg] } :=
        if_pos (by omega)
      rw [List.replicate_succ, run, Machine.run_cons, hping, Option.bind_some]
      refine (ih { s with channel := s.channel ++ [pingRequest cfg] } ?_).trans ?_
      · simp only [List.length_append, List.length_singleton]
        omega
      · simp [List.replicate_succ]

/-- Any event but a connect asks for one message at most. -/
theorem length_handleEvent_le_one (s : Server) {e : Event} (hconn : e ≠ .connAck)
    (hping : e ≠ .ping) : (handleEvent codec cfg s e).2.length ≤ 1 := by
  rw [handleEvent_requests s hconn hping]
  cases hread : acceptedReading codec cfg e with
  | none => cases announced codec cfg e <;> simp
  | some r =>
      have hnone : announced codec cfg e = none := by
        cases e with
        | publish topic payload now saved =>
            rw [acceptedReading, Option.ite_none_right_eq_some] at hread
            rw [announced, hread.1, if_neg (Topics.log_ne_read _).symm]
        | _ => rfl
      rw [hnone]
      simp

end Blocking

end Client

open Client

/-- The loop locks up.  With the handling of an event the loop comes back to
polling only if what waits in the channel leaves room for all the event's
requests, six for a connect and at most one otherwise; if not, it never polls
again: no event is handled any more, and nothing more reaches the broker. -/
theorem serve_locks_up_iff (codec : Codec) (cfg : Config) (server : Server)
    (retained : Store String (List UInt8)) (actions : List ClientAction)
    (s s₁ : Client) (e : Event)
    (hrun : (begun server retained).run codec cfg actions = some s)
    (hpoll : s.step codec cfg (.poll e) = some s₁) :
    let needed := (handleEvent codec cfg s.server e).2.length
    (e = .connAck → needed = 6) ∧ (e ≠ .connAck → needed ≤ 1) ∧
      (s.channel.length + needed ≤ channelCap →
        ∃ later s', s₁.run codec cfg later = some s' ∧ s'.todo = []) ∧
      (channelCap < s.channel.length + needed →
        ∀ later s', s₁.run codec cfg later = some s' →
          s'.todo ≠ [] ∧ s'.server = s₁.server ∧ s'.handled = s₁.handled ∧
            (s'.arrived ++ s'.wire).Sublist (s₁.arrived ++ s₁.wire)) := by
  intro needed
  have hbounded := Machine.run_invariant Bounded.step
    (bounded_begun server retained) hrun
  have hbounded₁ := hbounded.step hpoll
  obtain ⟨hping, hchannel, htodo⟩ : e ≠ .ping ∧ s₁.channel = s.channel ∧
      s₁.todo = (handleEvent codec cfg s.server e).2 := by
    rcases step_cases hpoll with
      ⟨e', heq, hping, -, rfl⟩ | ⟨_, _, heq, -⟩ | ⟨heq, -⟩ | ⟨_, _, heq, -⟩ |
      ⟨_, _, heq, -⟩ | ⟨_, heq, -⟩ | ⟨_, heq, -⟩ | ⟨heq, -⟩
    · cases heq
      exact ⟨hping, rfl, rfl⟩
    all_goals cases heq
  have htotal : s₁.channel.length + s₁.todo.length = s.channel.length + needed := by
    rw [hchannel, htodo]
  refine ⟨?_, fun hconn => length_handleEvent_le_one _ hconn hping, ?_, ?_⟩
  · rintro rfl
    rfl
  · intro hroom
    exact ⟨_, run_send s₁ (htotal.trans_le hroom)⟩
  · intro hover later s' hlater
    obtain ⟨hwaits, hbusy⟩ := waits_run hbounded₁ (by omega) hlater
    exact ⟨hbusy, hwaits.server, hwaits.handled, hwaits.reached⟩

/-- A broker that is away for 59 pings locks the loop up at the reconnect. -/
theorem serve_locks_up_after_pings :
    ∃ s s₁, (begun Sample.served fun _ => none).run Sample.codec Sample.config
        (List.replicate 59 .ping) = some s ∧
      s.step Sample.codec Sample.config (.poll .connAck) = some s₁ ∧
      ∀ later s', s₁.run Sample.codec Sample.config later = some s' →
        s'.todo ≠ [] ∧ s'.handled = [.connAck] := by
  have hpings := run_ping Sample.codec Sample.config
    (begun Sample.served fun _ => none) 59 (by decide)
  refine ⟨_, _, hpings, rfl, fun later s' hlater => ?_⟩
  have hlocked := (serve_locks_up_iff Sample.codec Sample.config Sample.served _ _
    _ _ .connAck hpings rfl).2.2.2 (by decide) later s' hlater
  exact ⟨hlocked.1, hlocked.2.2.1⟩

end Aquilo
