import SoftPlc.Proofs.Control.Seconds
import SoftPlc.Proofs.Supervisor.Admission
import SoftPlc.Proofs.Supervisor.Settling

/-!
# The uptime that is shown

A question for the uptime comes to a text in any case, and never to an error.
Whether it is the uptime or the sentence that the engine cannot be reached
depends on the reply alone, and on whether it says a number; why there is no
number makes no difference to what is shown. The step in which the reply comes
only ends the wait of its call. So with one call at a time the session at the
end is the one in which the status was settled, whatever the engine has
replied.

## Theorems

* `uptimeText_of_says`, `uptimeText_unreachable`: What is shown.
* `Settlement.Ends.uptime_inv`: How a question for the uptime ends.
* `uptime_shown`: What is understood, what is shown, and what is left.
-/

namespace SoftPlc

theorem bind_readSeconds_eq_ok_iff {sent : Except ControlError String} {n : Nat} :
    sent.bind readSeconds = .ok n ↔ ∃ reply, sent = .ok reply ∧ Says reply n := by
  cases sent with
  | error e =>
      constructor
      · exact fun h => nomatch h
      · rintro ⟨_, h, _⟩
        exact nomatch h
  | ok reply =>
      refine readSeconds_eq_ok_iff.trans ⟨fun h => ⟨reply, rfl, h⟩, ?_⟩
      rintro ⟨there, hthere, h⟩
      rw [Except.ok.inj hthere]
      exact h

theorem bind_readSeconds_eq_error_iff {sent : Except ControlError String} {e : ControlError} :
    sent.bind readSeconds = .error e ↔ sent = .error e ∨ ∃ reply, sent = .ok reply ∧
      (∀ n, ¬ Says reply n) ∧ e = .malformedReply Command.execTime.wire reply := by
  cases sent with
  | error there =>
      refine ⟨fun h => .inl (congrArg _ (Except.error.inj h)), ?_⟩
      rintro (h | ⟨reply, h, _⟩)
      · exact congrArg _ (Except.error.inj h)
      · exact nomatch h
  | ok reply =>
      refine readSeconds_eq_error_iff.trans ⟨fun h => .inr ⟨reply, rfl, h⟩, ?_⟩
      rintro (h | ⟨there, hthere, h⟩)
      · exact nomatch h
      · rw [Except.ok.inj hthere]
        exact h

namespace Supervisor

/-- A reply that says a number is shown as that time. -/
theorem uptimeText_of_says {reply : String} {n : Nat} (h : Says reply n) :
    uptimeText (.ok reply) = Uptime.text n uptimeGranularity := by
  rw [uptimeText, bind_readSeconds_eq_ok_iff.mpr ⟨reply, rfl, h⟩]

/-- Anything else is shown as an engine that cannot be reached. -/
theorem uptimeText_unreachable {sent : Except ControlError String}
    (h : ∀ reply n, sent = .ok reply → ¬ Says reply n) :
    uptimeText sent = RuntimeStatus.unreachableText := by
  rw [uptimeText]
  split
  next n hread =>
    rcases bind_readSeconds_eq_ok_iff.mp hread with ⟨reply, hreply, hn⟩
    exact absurd hn (h reply n hreply)
  next => rfl

end Supervisor

/-- A question for the uptime leaves the session as it was settled, and has
    asked the engine if that was running. -/
theorem Settlement.Ends.uptime_inv {settled : Settlement}
    {reply : Option (Except ControlError String)} {outcome : Outcome} {more : List Notice}
    {session : Session} (h : settled.Ends .execTime reply outcome more session) :
    session = settled.session ∧ more = [] ∧ (settled.status = .running →
      ∃ sent, reply = some sent ∧ outcome = .text (Supervisor.uptimeText sent)) := by
  cases h with
  | noUptime status => exact ⟨rfl, rfl, fun hrunning => absurd hrunning status⟩
  | uptime status sent => exact ⟨rfl, rfl, fun _ => ⟨sent, rfl, rfl⟩⟩

/-- The uptime is read from the replies that say a number, and from no others;
    what says none is complained about as it came. A number of 64 bits, in
    digits and with any blanks around them, is shown as at most four parts of
    the time that it is; any other reply, and any failure, as an engine that
    cannot be reached. A call that has found the engine running waits for the
    reply and is over with it, and nothing else changes in that step. With one
    call at a time the session is then the one in which the status was settled,
    and nothing was published since. -/
theorem uptime_shown :
    (∀ (sent : Except ControlError String) (n : Nat),
      sent.bind readSeconds = .ok n ↔ ∃ reply, sent = .ok reply ∧ Says reply n) ∧
    (∀ (sent : Except ControlError String) (e : ControlError),
      sent.bind readSeconds = .error e ↔ sent = .error e ∨ ∃ reply, sent = .ok reply ∧
        (∀ n, ¬ Says reply n) ∧ e = .malformedReply Command.execTime.wire reply) ∧
    (∀ (n : UInt64) (before after : List Char),
      (∀ c ∈ before, Text.isBlank c = true) → (∀ c ∈ after, Text.isBlank c = true) →
      Supervisor.uptimeText (.ok (String.ofList (before ++ (toString n.toNat).toList ++ after)))
        = Uptime.text n.toNat 4) ∧
    (∀ sent : Except ControlError String, (∀ reply n, sent = .ok reply → ¬ Says reply n) →
      Supervisor.uptimeText sent = RuntimeStatus.unreachableText) ∧
    (∀ (env : Surroundings) (s : Supervisor) (id : Nat),
      s.proceed env .execTime .running = (s, .waits .readingTime) ∧
      (s.call? id = some .readingTime → ∀ sent, s.step env (.reply id sent)
        = some (s.without id, some (.text (Supervisor.uptimeText sent))))) ∧
    ∀ (config : Config) (happenings : List Happening),
      ∀ c ∈ ((Casebook.start config).after happenings).past, c.request = .execTime →
      ∀ outcome session, c.outcome = some (outcome, session) →
        ∃ settled, c.settlement = some settled ∧ session = settled.session ∧
          c.told = settled.told ∧ (settled.status = .running →
            ∃ sent, c.reply = some sent ∧ outcome = .text (Supervisor.uptimeText sent)) := by
  refine ⟨fun _ _ => bind_readSeconds_eq_ok_iff, fun _ _ => bind_readSeconds_eq_error_iff,
    fun n before after hbefore hafter => ?_, fun _ => Supervisor.uptimeText_unreachable,
    fun env s id => ⟨rfl, fun hcall sent => ?_⟩,
    fun config happenings c hc hrequest outcome session houtcome => ?_⟩
  · exact Supervisor.uptimeText_of_says (says_toString n hbefore hafter)
  · have hgone : (s.without id).without id = s.without id :=
      Supervisor.without_of_none (by rw [Supervisor.call?_without, if_pos rfl])
    have hreply : s.step env (.reply id sent)
        = some ((s.without id).without id, some (.text (Supervisor.uptimeText sent))) :=
      Supervisor.reply_eq hcall rfl sent
    rw [hreply, hgone]
  · -- An inquiry changes nothing, so its session is the one that was settled.
    have hkept := Casebook.kept_after (Casebook.kept_start config) happenings
    have hgoal : c.request.goal? = some .execTime := congrArg Request.goal? hrequest
    rcases hkept.past c hc _ outcome session hgoal houtcome with
      ⟨settled, more, hsettlement, htold, hends⟩
    rw [hrequest] at hends
    rcases hends.uptime_inv with ⟨hsame, hnothing, hrunning⟩
    rw [hnothing, List.append_nil] at htold
    exact ⟨settled, hsettlement, hsame, htold, hrunning⟩

/-- The engine is launched without a grace, answers a probe, and says for how
    long it has run. -/
def answeredInquiry : List Happening :=
  [.begin 0 .start, .begin 1 .execTime, .reply 1 (.ok "12"), .reply 1 (.ok " 3661\n")].map
    (.act ⟨0, .ok none, fun _ => .ok none⟩)

theorem uptime_shown_hour :
    let b := (Casebook.start { startupGrace := .ofMillis 0 }).after answeredInquiry
    ∃ c ∈ b.past, c.request = .execTime ∧
      (c.outcome.map fun o => o.1) = some (.text "1 hour, 1 minute, 1 second") ∧
      ∃ settled, c.settlement = some settled ∧ settled.status = .running ∧
        (c.outcome.map fun o => o.2) = some settled.session ∧ c.told = settled.told ∧
        c.reply = some (.ok " 3661\n") := by
  intro b
  have hc : b.past.get ⟨1, by decide⟩ ∈ b.past := List.get_mem _ _
  rcases uptime_shown.2.2.2.2.2 _ answeredInquiry _ hc rfl _ _ rfl with
    ⟨settled, hsettled, hsame, htold, _⟩
  have hrunning : settled.status = .running := by
    rw [← Option.some.inj hsettled]
    rfl
  exact ⟨_, hc, rfl, rfl, settled, hsettled, hrunning, congrArg some hsame, htold, rfl⟩

end SoftPlc
