import SoftPlc.Proofs.Supervisor.SoleProbe

/-!
# How a plan is carried out

A call that applies service settings has a plan, one toggle for each service.
What it does and comes across is a list of entries, and this says which lists
there can be. The status is settled before each toggle. As long as the engine
is found running it is asked for the toggle, and the reply is told of; when it
is not, the call is over in the same turn, because nothing that it could wait
for lies between one toggle and the next. So the toggles that the engine was
asked for are the first ones of the plan, and the others have failed together,
with the same status.

One thing is only true while nobody orders the engine to quit. A probe that
fails has lost the engine if a probe is noted; but an order to quit takes the
note away, and when the engine has been launched again the call goes on with
an engine that its own probe knows nothing of.

Between two turns a call has done a part of its plan and waits in one of three
places: `Plan.Awaits`. Each turn leads from one of them to another, or to the
end.

## Main definitions

* `Entry`: What a call does and comes across.
* `Plan.Settles`: What settles the status, up to a status.
* `Plan.Reaches`: What comes to a number of toggles that were asked for.
* `Plan.Applies`: What comes to the end, with the failures.
* `Plan.Awaits`: What comes to a place where the call waits.
* `Plan.Comes`: A turn leads to a place where the call waits, or to the end.

## Theorems

* `comes_enter`, `comes_wake`, `comes_reply`: The turns of such a call.
* `Plan.Awaits.replies`, `Plan.Awaits.getLast?_entries`: How much a call that
  waits has heard, and what it has asked last.
-/

namespace SoftPlc

/-- What a call does, and what it comes across. -/
inductive Entry where
  /-- It asks the engine. -/
  | asks (command : Command)
  /-- It hears the reply, or the error. -/
  | hears (reply : Except ControlError String)
  /-- It publishes a notice. -/
  | tells (notice : Notice)
  /-- It ends a turn, with this known of the engine. -/
  | knows (status : RuntimeStatus)
  deriving Repr

/-- The call hears something. -/
def Entry.isReply : Entry → Bool
  | hears _ => true
  | _ => false

namespace Toggle

/-- What is told of the reply to a toggle. -/
def verdict (toggle : Toggle) : Except ControlError String → Notice
  | .ok _ => Supervisor.toggleNotice toggle
  | .error e =>
    { kind := .controlFailed, reason := some (toggle.command.wire ++ ": " ++ e.text) }

/-- The failure that the reply to a toggle may be. -/
def failure? (toggle : Toggle) : Except ControlError String → Option (Service × RuntimeError)
  | .ok _ => none
  | .error e => some (toggle.service, .control e)

/-- The failure of a toggle that the engine is not asked for. -/
def refusal (toggle : Toggle) : Service × RuntimeError :=
  (toggle.service, .notRunning)

end Toggle

namespace Plan

/-- The toggles that the engine was asked for, with the replies. -/
abbrev Asked := List (Toggle × Except ControlError String)

/-- The toggles that were asked for. -/
def Asked.toggles (asked : Asked) : List Toggle :=
  asked.map Prod.fst

/-- Those that have failed, in that order. -/
def Asked.failures (asked : Asked) : Failures :=
  asked.filterMap fun a => a.1.failure? a.2

/-- What a call does and comes across until it knows whether the engine runs.
    It is calm as long as nobody orders the engine to quit. -/
inductive Settles (calm : Prop) : List Entry → RuntimeStatus → Prop
  /-- The status is known at once, or when others have probed. -/
  | known (turns : Nat) (status : RuntimeStatus) (known : status ≠ .unknown) :
      Settles calm (List.replicate turns (.knows .unknown) ++ [.knows status]) status
  /-- The engine has answered a probe. -/
  | answered (text : String) (status : RuntimeStatus) (known : status ≠ .unknown) :
      Settles calm
        ([.knows .unknown, .asks .execTime, .hears (.ok text)] ++ [.knows status]) status
  /-- The engine has not, and is lost. -/
  | lost (e : ControlError) (status : RuntimeStatus) (known : status ≠ .unknown)
      (down : status ≠ .running) :
      Settles calm
        ([.knows .unknown, .asks .execTime, .hears (.error e), .tells (.lostFor e.text)] ++
          [.knows status]) status
  /-- The engine has not, but no probe was noted any more. -/
  | overtaken (hurried : ¬ calm) (e : ControlError) (status : RuntimeStatus)
      (known : status ≠ .unknown) :
      Settles calm
        ([.knows .unknown, .asks .execTime, .hears (.error e)] ++ [.knows status]) status

/-- The engine was asked for some toggles, each when it was found running, and
    each reply was told of. -/
inductive Reaches (calm : Prop) : Asked → List Entry → Prop
  | nothing : Reaches calm [] []
  | asked {asked : Asked} {entries settling : List Entry} (before : Reaches calm asked entries)
      (running : Settles calm settling .running) (toggle : Toggle)
      (reply : Except ControlError String) :
      Reaches calm (asked ++ [(toggle, reply)])
        (entries ++ settling ++
          [.asks toggle.command, .hears reply, .tells (toggle.verdict reply)])

/-- A plan is carried out, and these have failed: the engine was asked for all
    toggles, or for those before one for which it was not found running. -/
inductive Applies (calm : Prop) (plan : List Toggle) : List Entry → Failures → Prop
  | through {asked : Asked} {entries : List Entry} (reaches : Reaches calm asked entries)
      (all : asked.toggles = plan) (status : RuntimeStatus) :
      Applies calm plan (entries ++ [.knows status]) asked.failures
  | refused {asked : Asked} {entries settling : List Entry} {toggle : Toggle}
      {rest : List Toggle} {status : RuntimeStatus} (reaches : Reaches calm asked entries)
      (all : asked.toggles ++ toggle :: rest = plan) (settles : Settles calm settling status)
      (down : status ≠ .running) :
      Applies calm plan (entries ++ settling)
        (asked.failures ++ (toggle :: rest).map Toggle.refusal)

/-- A call waits with a part of the plan done: for its own probe, for another's,
    or for the reply to a toggle. -/
inductive Awaits (calm : Prop) (plan : List Toggle) : List Entry → Call → Prop
  | probe {asked : Asked} {entries : List Entry} {toggle : Toggle} {rest : List Toggle}
      (reaches : Reaches calm asked entries) (all : asked.toggles ++ toggle :: rest = plan) :
      Awaits calm plan (entries ++ [.knows .unknown] ++ [.asks .execTime])
        (.probing (.toggle (.plan toggle rest asked.failures)))
  | others {asked : Asked} {entries : List Entry} {toggle : Toggle} {rest : List Toggle}
      (reaches : Reaches calm asked entries) (all : asked.toggles ++ toggle :: rest = plan)
      (turns : Nat) (signalled : Bool) :
      Awaits calm plan (entries ++ List.replicate (turns + 1) (.knows .unknown))
        (.waiting (.toggle (.plan toggle rest asked.failures)) signalled)
  | reply {asked : Asked} {entries settling : List Entry} {toggle : Toggle} {rest : List Toggle}
      (reaches : Reaches calm asked entries) (all : asked.toggles ++ toggle :: rest = plan)
      (running : Settles calm settling .running) :
      Awaits calm plan (entries ++ settling ++ [.asks toggle.command])
        (.toggling (.plan toggle rest asked.failures))

variable {calm : Prop} {plan : List Toggle} {asked : Asked} {entries : List Entry}
  {call : Call}

/-- A signal comes from elsewhere, and the call has done nothing. -/
theorem Awaits.signal (h : Awaits calm plan entries call) :
    Awaits calm plan entries call.signal := by
  cases h with
  | probe reaches all => exact .probe reaches all
  | others reaches all turns signalled => exact .others reaches all turns true
  | reply reaches all running => exact .reply reaches all running

/-- A call that waits for a reply has asked for it last. -/
theorem Awaits.getLast?_entries (h : Awaits calm plan entries call) {command : Command}
    (hcall : call.exchange? = some command) : entries.getLast? = some (.asks command) := by
  cases h with
  | probe reaches all =>
      rw [List.getLast?_concat, ← Option.some.inj hcall]
  | others reaches all turns signalled => exact absurd hcall (Option.some_ne_none _).symm
  | reply reaches all running =>
      rw [List.getLast?_concat, ← Option.some.inj hcall]
      rfl

/-- A plan does not wait for the background work. -/
theorem Awaits.ne_closing (h : Awaits calm plan entries call) : call ≠ .closing := by
  rintro rfl
  cases h

/-- Settling the status takes one reply at most. -/
theorem Settles.replies {settling : List Entry} {status : RuntimeStatus}
    (h : Settles calm settling status) : settling.countP Entry.isReply ≤ 1 := by
  cases h with
  | known turns status =>
      rw [List.countP_append, List.countP_replicate]
      exact Nat.zero_le 1
  | answered => exact Nat.le_refl 1
  | lost => exact Nat.le_refl 1
  | overtaken => exact Nat.le_refl 1

/-- So the attempts that a plan has made have taken two replies each at most,
    one to settle the status and one to toggle the service. -/
theorem Reaches.replies (h : Reaches calm asked entries) :
    entries.countP Entry.isReply ≤ 2 * asked.length := by
  induction h with
  | nothing => exact Nat.le_refl 0
  | asked before running toggle reply ih =>
      have hsettling := running.replies
      have hthis : [Entry.asks toggle.command, .hears reply, .tells (toggle.verdict reply)].countP
          Entry.isReply = 1 := rfl
      rw [List.countP_append, List.countP_append, hthis, List.length_append]
      simp only [List.length_singleton]
      omega

/-- Two replies for each toggle are enough. -/
theorem Awaits.replies (h : Awaits calm plan entries call) :
    entries.countP Entry.isReply < 2 * plan.length := by
  have hlength : ∀ {asked : Asked} {toggle : Toggle} {rest : List Toggle},
      asked.toggles ++ toggle :: rest = plan → asked.length + 1 ≤ plan.length := by
    intro asked toggle rest hall
    rw [← hall, Asked.toggles, List.length_append, List.length_map, List.length_cons]
    omega
  cases h with
  | probe reaches all =>
      have hreplies := reaches.replies
      have hleft := hlength all
      have hprobe : [Entry.knows .unknown].countP Entry.isReply = 0 ∧
          [Entry.asks .execTime].countP Entry.isReply = 0 := ⟨rfl, rfl⟩
      rw [List.countP_append, List.countP_append, hprobe.1, hprobe.2]
      omega
  | others reaches all turns signalled =>
      have hreplies := reaches.replies
      have hleft := hlength all
      have hidle : (Entry.knows .unknown).isReply = false := rfl
      rw [List.countP_append, List.countP_replicate, hidle, if_neg Bool.false_ne_true]
      omega
  | @reply _ _ _ toggle _ reaches all running =>
      have hreplies := reaches.replies
      have hsettling := running.replies
      have hleft := hlength all
      have hasks : [Entry.asks toggle.command].countP Entry.isReply = 0 := rfl
      rw [List.countP_append, List.countP_append, hasks]
      omega

/-- A turn ends with a status known: the call waits, or the plan is carried
    out. -/
def Lands (calm : Prop) (plan : List Toggle) (entries : List Entry) (status : RuntimeStatus) :
    Turn → Prop
  | .finished outcome => ∃ failures, outcome = .applied failures ∧
      Applies calm plan (entries ++ [.knows status]) failures
  | .waits call => Awaits calm plan
      (entries ++ [.knows status] ++ (call.exchange?.map Entry.asks).toList) call

variable {toggle : Toggle} {rest : List Toggle}

/-- A turn that finds a probe of another under way waits, be it for the first
    time or again. -/
theorem lands_waiting (hreaches : Reaches calm asked entries)
    (hall : asked.toggles ++ toggle :: rest = plan) (turns : Nat) :
    Lands calm plan (entries ++ List.replicate turns (.knows .unknown)) .unknown
      (.waits (.waiting (.toggle (.plan toggle rest asked.failures)) false)) := by
  have hawaits := Awaits.others hreaches hall turns false
  rw [List.replicate_succ', ← List.append_assoc] at hawaits
  rw [Lands, Call.exchange?, Option.map_none, Option.toList_none, List.append_nil]
  exact hawaits

open Supervisor (Result)

/-- A turn tells nothing more, and the call waits afterwards or the plan is
    carried out. -/
def Comes (calm : Prop) (plan : List Toggle) (entries : List Entry)
    (f : Supervisor → Result) (s : Supervisor) : Prop :=
  ∃ t turn, (∀ j, f (s.on j) = (Supervisor.on t j, turn)) ∧
    Lands calm plan entries t.lastKnown turn

variable {s : Supervisor} {env : Surroundings}

/-- What a turn comes to does not depend on how the turn is written. -/
theorem Comes.of_eq {f g : Supervisor → Result} (h : Comes calm plan entries g s)
    (heq : ∀ j, f (s.on j) = g (s.on j)) : Comes calm plan entries f s := by
  rcases h with ⟨t, turn, hon, hlands⟩
  exact ⟨t, turn, fun j => (heq j).trans (hon j), hlands⟩

/-- Where the engine is known not to run, all that is left fails at once. -/
theorem applyPlan_refused (env : Surroundings) (hknown : s.lastKnown ≠ .unknown)
    (hdown : s.lastKnown ≠ .running) (left : List Toggle) (failures : Failures) (j : Journal) :
    (s.on j).applyPlan env left failures
      = (s.on j, .finished (.applied (failures ++ left.map Toggle.refusal))) := by
  induction left generalizing failures with
  | nil => rw [Supervisor.applyPlan, List.map_nil, List.append_nil]
  | cons toggle rest ih =>
      rw [Supervisor.applyPlan]
      rcases Supervisor.settleThen_cases s env.now (.toggle (.plan toggle rest failures))
          (fun status s => if status = .running then (s, .waits (.toggling
            (.plan toggle rest failures)))
            else s.applyPlan env rest (failures ++ [(toggle.service, .notRunning)])) with
        ⟨_, _, hrunning, _⟩ | ⟨hunknown, _⟩ | ⟨_, _, hon⟩
      · exact absurd hrunning hdown
      · exact absurd hunknown hknown
      · rw [hon, if_neg hdown, ih, List.append_assoc]
        rfl

/-- With a status that is settled the engine is asked for the toggle, or all
    that is left fails. -/
theorem comes_proceed (env : Surroundings) (hreaches : Reaches calm asked entries)
    (hall : asked.toggles ++ toggle :: rest = plan) {settling : List Entry}
    (hknown : s.lastKnown ≠ .unknown)
    (hsettles : Settles calm (settling ++ [.knows s.lastKnown]) s.lastKnown) :
    Comes calm plan (entries ++ settling)
      (Supervisor.proceed env (.toggle (.plan toggle rest asked.failures)) s.lastKnown) s := by
  by_cases hrunning : s.lastKnown = .running
  · refine ⟨s, .waits (.toggling (.plan toggle rest asked.failures)), fun j => if_pos hrunning, ?_⟩
    rw [hrunning] at hsettles ⊢
    have hawaits := Awaits.reply hreaches hall hsettles
    rw [← List.append_assoc] at hawaits
    exact hawaits
  · refine ⟨s, .finished (.applied (asked.failures ++ (toggle :: rest).map Toggle.refusal)),
      fun j => ?_, _, rfl, ?_⟩
    · have hleft := applyPlan_refused env hknown hrunning rest
        (asked.failures ++ [toggle.refusal]) j
      rw [List.append_assoc] at hleft
      exact (if_neg hrunning).trans hleft
    · rw [List.append_assoc]
      exact .refused hreaches hall hsettles hrunning

/-- Settling the status for a toggle, the call knows it, probes or waits. -/
theorem comes_pursue (hreaches : Reaches calm asked entries)
    (hall : asked.toggles ++ toggle :: rest = plan) :
    Comes calm plan entries
      (Supervisor.pursue env (.toggle (.plan toggle rest asked.failures))) s := by
  rcases Supervisor.settleThen_cases s env.now (.toggle (.plan toggle rest asked.failures))
      (Supervisor.proceed env (.toggle (.plan toggle rest asked.failures))) with
    ⟨launch, _, hrunning, _, hon⟩ | ⟨hunknown, hon⟩ | ⟨hknown, _, hon⟩
  · refine ⟨_, _, hon, ?_⟩
    have hprobing : ({ s with belief := .probing launch } : Supervisor).lastKnown = .unknown := by
      have hidle : s.isCompiling = false := by
        refine Bool.eq_false_iff.mpr fun hcompiling => ?_
        rw [Supervisor.isCompiling_iff_lastKnown.mp hcompiling] at hrunning
        exact RuntimeStatus.noConfusion hrunning
      rw [Supervisor.lastKnown]
      exact if_neg (Bool.eq_false_iff.mp hidle)
    rw [Lands, hprobing]
    exact .probe hreaches hall
  · refine ⟨_, _, hon, ?_⟩
    have hlands := lands_waiting hreaches hall 0
    rw [List.replicate_zero, List.append_nil] at hlands
    rw [hunknown]
    exact hlands
  · have hsettles : Settles calm ([] ++ [.knows s.lastKnown]) s.lastKnown := .known 0 _ hknown
    have hproceed := comes_proceed env hreaches hall hknown hsettles
    rw [List.append_nil] at hproceed
    exact hproceed.of_eq hon

theorem comes_applyPlan (hreaches : Reaches calm asked entries) {left : List Toggle}
    (hall : asked.toggles ++ left = plan) :
    Comes calm plan entries (fun s => s.applyPlan env left asked.failures) s := by
  cases left with
  | nil =>
      rw [List.append_nil] at hall
      exact ⟨s, .finished (.applied asked.failures), fun _ => rfl, _, rfl,
        .through hreaches hall _⟩
  | cons toggle rest => exact (comes_pursue hreaches hall).of_eq fun _ => rfl

/-- The first turn of a call that applies settings. -/
theorem comes_enter (settings : ServiceSettings) :
    Comes calm (settings.toList.map Toggle.ofSetting) []
      (Supervisor.enter env (.applyServices settings)) s := by
  have hnothing : Reaches calm [] [] := .nothing
  exact comes_applyPlan hnothing rfl

/-- A call that was woken takes the status that is known, or waits again. -/
theorem comes_wake {goal : Goal} {signalled : Bool}
    (h : Awaits calm plan entries (.waiting goal signalled)) :
    Comes calm plan entries (fun s => s.resume env goal s.lastKnown) s := by
  cases h with
  | @others asked before toggle rest reaches all turns =>
      by_cases hunknown : s.lastKnown = .unknown
      · rcases Supervisor.settleThen_cases s env.now (.toggle (.plan toggle rest asked.failures))
            (Supervisor.proceed env (.toggle (.plan toggle rest asked.failures))) with
          ⟨_, _, hrunning, _⟩ | ⟨_, hon⟩ | ⟨hknown, _⟩
        · exact absurd (hunknown.symm.trans hrunning) RuntimeStatus.noConfusion
        · have hagain : Comes calm plan (before ++ List.replicate (turns + 1) (.knows .unknown))
              (Supervisor.pursue env (.toggle (.plan toggle rest asked.failures))) s := by
            refine ⟨s, _, hon, ?_⟩
            rw [hunknown]
            exact lands_waiting reaches all (turns + 1)
          refine hagain.of_eq fun j => ?_
          rw [Supervisor.lastKnown_on, Supervisor.resume_eq, if_pos hunknown]
        · exact absurd hunknown hknown
      · have hproceed := comes_proceed env reaches all hunknown
          (.known (turns + 1) _ hunknown)
        refine hproceed.of_eq fun j => ?_
        rw [Supervisor.lastKnown_on, Supervisor.resume_eq, if_neg hunknown]

/-- The reply to a probe settles the status, also where no probe is noted any more. -/
theorem settles_probed (goal : Goal) (hnoted : calm → s.belief.isProbing = true)
    (reply : Except ControlError String) :
    let status := (s.complete (.probing goal) (.replied reply)).lastKnown
    status ≠ .unknown ∧ Settles calm
      ([.knows .unknown, .asks .execTime] ++
        (.hears reply :: (s.announces (.probing goal) (.replied reply)).map Entry.tells) ++
        [.knows status]) status := by
  intro status
  have hprobe : (Call.probing goal).isProbe = true := rfl
  have hknown : status ≠ .unknown :=
    Supervisor.lastKnown_ne_unknown (Supervisor.complete_probe_ne_probing hprobe _)
  refine ⟨hknown, ?_⟩
  rw [Supervisor.announces]
  cases reply with
  | ok text =>
      rw [Supervisor.verdict_ok]
      exact .answered text status hknown
  | error e =>
      cases hprobing : s.belief.isProbing with
      | true =>
          rcases Belief.isProbing_iff.mp hprobing with ⟨launch, hlaunch⟩
          have hdown : status ≠ .running := by
            intro hrunning
            rcases Supervisor.belief_of_lastKnown_running hrunning with ⟨there, hthere⟩
            rw [Supervisor.belief_complete_probe hprobe, hlaunch] at hthere
            exact Belief.noConfusion hthere
          rw [Supervisor.verdict_lost hlaunch]
          exact .lost e status hknown hdown
      | false =>
          have hunnoted : ∀ launch, s.belief ≠ .probing launch := fun launch hlaunch =>
            Bool.false_ne_true (hprobing.symm.trans (Belief.isProbing_iff.mpr ⟨_, hlaunch⟩))
          -- In calm runs a probe that is under way is noted, and this one is not.
          have hhurried : ¬ calm := fun hcalm =>
            Bool.false_ne_true (hprobing.symm.trans (hnoted hcalm))
          rw [Supervisor.verdict_of_not_probing hunnoted]
          exact .overtaken hhurried e status hknown

/-- With the reply to its own probe the call goes on. -/
theorem comes_probed {goal : Goal} (h : Awaits calm plan entries (.probing goal))
    (hnoted : calm → s.belief.isProbing = true) (reply : Except ControlError String) :
    Comes calm plan
      (entries ++ .hears reply ::
        (s.announces (.probing goal) (.replied reply)).map Entry.tells)
      (fun s => s.carryOn env (.probing goal) reply)
      (s.complete (.probing goal) (.replied reply)) := by
  rcases settles_probed goal hnoted reply with ⟨hknown, hsettles⟩
  cases h with
  | probe reaches all =>
      have hproceed := comes_proceed env reaches all hknown hsettles
      rw [List.append_assoc _ [_] [_], List.append_assoc]
      refine hproceed.of_eq fun j => ?_
      rw [Supervisor.carryOn, Supervisor.resume_eq, Supervisor.lastKnown_on, if_neg hknown]

/-- The reply to a toggle is told of, and what is left of the plan is done. -/
theorem comes_toggled {errand : Errand} (h : Awaits calm plan entries (.toggling errand))
    (reply : Except ControlError String) :
    Comes calm plan
      (entries ++ .hears reply ::
        (s.announces (.toggling errand) (.replied reply)).map Entry.tells)
      (fun s => s.carryOn env (.toggling errand) reply)
      (s.complete (.toggling errand) (.replied reply)) := by
  cases h with
  | @reply asked before settling toggle rest reaches all running =>
      have hreaches := Reaches.asked reaches running toggle reply
      have hall : Asked.toggles (asked ++ [(toggle, reply)]) ++ rest = plan := by
        rw [← all, Asked.toggles, Asked.toggles, List.map_append, List.append_assoc]
        rfl
      have hentries : before ++ settling ++ [.asks toggle.command] ++ .hears reply ::
            (s.announces (.toggling (.plan toggle rest asked.failures)) (.replied reply)).map
              Entry.tells
          = before ++ settling ++
            [.asks toggle.command, .hears reply, .tells (toggle.verdict reply)] := by
        rw [List.append_assoc _ [_]]
        cases reply <;> rfl
      have hfailures : Asked.failures (asked ++ [(toggle, reply)])
          = asked.failures ++ (toggle.failure? reply).toList := by
        rw [Asked.failures, List.filterMap_append]
        cases reply <;> rfl
      rw [hentries]
      have hrest : ∀ u, Comes calm plan _ (fun s => s.applyPlan env rest _) u := fun u =>
        comes_applyPlan hreaches hall
      refine (hrest _).of_eq fun j => ?_
      rw [hfailures]
      cases reply with
      | ok text =>
          rw [Toggle.failure?, Option.toList_none, List.append_nil]
          rfl
      | error e => rfl

/-- The turn of a call that gets its reply. -/
theorem comes_reply (h : Awaits calm plan entries call) (hex : call.exchange?.isSome = true)
    (hnoted : calm → call.isProbe = true → s.belief.isProbing = true)
    (reply : Except ControlError String) :
    Comes calm plan
      (entries ++ .hears reply :: (s.announces call (.replied reply)).map Entry.tells)
      (fun s => s.carryOn env call reply) (s.complete call (.replied reply)) := by
  cases call with
  | probing goal => exact comes_probed h (fun hcalm => hnoted hcalm rfl) reply
  | toggling errand => exact comes_toggled h reply
  | waiting goal signalled => exact absurd hex Bool.false_ne_true
  | _ => cases h

end Plan

end SoftPlc
