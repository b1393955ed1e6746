import SoftPlc.Proofs.Supervisor.Alone
import SoftPlc.Proofs.Supervisor.Hearing

/-!
# The history of the engine

With one call at a time the notices about the life of an engine are a history
of it. They tell of each engine that is launched, of each order to quit that
is acknowledged and of each probe that fails, once and in that order; and the
engine is believed to be there exactly if the last of them tells of a launch.

What has happened is written down from what goes into a step and what comes
out of it: from the reply that a call gets, and from the engines that there
are more of afterwards. A start whose probe fails launches an engine in the
same turn, so a turn can be written down twice, the failure first.

The notices alternate because the belief does. A launch needs the belief that
there is no engine, and a call that ends this belief has found it there. The
latter is where one call at a time is needed: nobody else has ended it while
the call waited.

## Main definitions

* `Chronicle`: The supervisor, with what it has published and what has happened.
* `Chronicle.after`: A run with one call at a time.
* `Alternates`: Launches and ends alternate.
* `Chronicle.Sound`: What is written down is what has happened.

## Theorems

* `sound_turn`: What a turn adds.
* `sound_after`: What runs keep.
* `Sound.stopped_of_launch`: Engines are launched where there is none.
* `history_faithful`: The notices are the history of the engine.
-/

namespace SoftPlc

/-- The request of a call that is made. -/
def Happening.request? : Happening → Option Request
  | act _ (.begin _ request) => some request
  | _ => none

/-- What the reply to a call ends, if something that happens is one. -/
def Supervisor.ends (s : Supervisor) : Happening → List Life
  | .act _ (.reply id reply) =>
    match s.call? id with
    | some call => Completion.ends call (.replied reply)
    | none => []
  | _ => []

/-- Only a turn launches, and what is ended is no launch. -/
theorem Supervisor.isLaunch_ends (s : Supervisor) (h : Happening) :
    ∀ l ∈ s.ends h, l.isLaunch = false := by
  intro l hl
  unfold Supervisor.ends at hl
  split at hl
  next =>
    split at hl
    next call _ => exact Completion.isLaunch_ends call _ l hl
    next => exact absurd hl List.not_mem_nil
  next => exact absurd hl List.not_mem_nil

/-- The supervisor, with what it has published and what has happened. -/
structure Chronicle where
  now : Supervisor
  /-- The request of the latest call. -/
  request : Option Request := none
  /-- What has been published. -/
  told : List Notice := []
  /-- What has happened to engines. -/
  lived : List Life := []

namespace Chronicle

/-- Nothing has happened yet. -/
def start (config : Config) : Chronicle :=
  { now := .initial config }

/-- Something has happened, and was written down. -/
def note (c : Chronicle) (h : Happening) (s : Supervisor) : Chronicle :=
  let request := h.request?.or c.request
  { now := s
    request
    told := c.told ++ c.now.told h
    lived := c.lived ++ c.now.ends h ++ Life.launches c.now.engines s.engines request }

/-- Something happens, if it can. No call is made while another waits. -/
def see (c : Chronicle) (h : Happening) : Chronicle :=
  if h.request?.isSome && !c.now.calls.isEmpty then c
  else match c.now.happen h with
    | none => c
    | some s => c.note h s

/-- Several things happen in order. -/
def after (c : Chronicle) (happenings : List Happening) : Chronicle :=
  happenings.foldl see c

end Chronicle

/-- Launches and ends alternate, beginning with a launch, and the last is a
    launch if the engine is alive. -/
structure Alternates (lived : List Life) (alive : Bool) : Prop where
  turns : ∀ i l, lived[i]? = some l → l.isLaunch = (i % 2 == 0)
  alive : alive = (lived.length % 2 == 1)

namespace Alternates

variable {lived : List Life} {l : Life} {alive : Bool}

theorem not_odd (n : Nat) : (!(n % 2 == 1)) = (n % 2 == 0) := by
  rcases Nat.mod_two_eq_zero_or_one n with h | h
  · rw [h]
    rfl
  · rw [h]
    rfl

theorem odd_succ (n : Nat) : ((n + 1) % 2 == 1) = (n % 2 == 0) := by
  rcases Nat.mod_two_eq_zero_or_one n with h | h
  · rw [Nat.add_mod, h]
    rfl
  · rw [Nat.add_mod, h]
    rfl

/-- A session in which nothing has lived has nobody alive. -/
theorem nil : Alternates [] false where
  turns := fun i l h => absurd h (by simp)
  alive := rfl

/-- One launch more, or one end, keeps lives apart if it is the one that is due. -/
theorem concat (h : Alternates lived alive) (hl : l.isLaunch = !alive) :
    Alternates (lived ++ [l]) (!alive) where
  turns := by
    intro i k hk
    by_cases hi : i < lived.length
    · rw [List.getElem?_append_left hi] at hk
      exact h.turns i k hk
    · have hlt := (List.getElem?_eq_some_iff.mp hk).1
      rw [List.length_append, List.length_singleton] at hlt
      have hlast : i = lived.length := by omega
      rw [hlast, List.getElem?_concat_length] at hk
      rw [← Option.some.inj hk, hl, h.alive, not_odd, hlast]
  alive := by
    rw [List.length_append, List.length_singleton, odd_succ, h.alive, not_odd]

/-- What follows on a history goes on with it. -/
theorem append {after : Bool} {happened : List Life} (h : Alternates lived alive)
    (hfollows : Follows alive happened after) : Alternates (lived ++ happened) after := by
  cases hfollows with
  | still alive =>
      rw [List.append_nil]
      exact h
  | starts l hl => exact h.concat hl
  | ends l hl => exact h.concat hl

/-- The last is a launch exactly if the engine is alive. -/
theorem getLast? (h : Alternates lived alive) : lived.getLast?.any Life.isLaunch = alive := by
  rcases List.eq_nil_or_concat' lived with rfl | ⟨before, l, rfl⟩
  · exact h.alive.symm
  · have hturn := h.turns before.length l List.getElem?_concat_length
    have halive := h.alive
    rw [List.length_append, List.length_singleton, odd_succ] at halive
    rw [List.getLast?_concat, Option.any_some, hturn, halive]

end Alternates

namespace Chronicle

open Supervisor (Alone Opened Launched Advance Tells Reports)

variable {c : Chronicle} {t : Supervisor}

/-- What is written down is what has happened and what was published of it,
    and agrees with what is believed. -/
structure Sound (c : Chronicle) : Prop where
  alone : Alone c.now.calls c.now.belief
  request : ∀ id call, c.now.call? id = some call → call.starts = true → c.request = some .start
  told : c.told.filter Notice.isLife = c.lived.map Life.notice
  engines : c.lived.filterMap Life.pid? = c.now.engines.map EngineProcess.pid
  alternates : Alternates c.lived c.now.alive
  launched : ∀ pid request, .launched pid request ∈ c.lived → request = some .start

theorem sound_start (config : Config) : (start config).Sound where
  alone := .nobody _ fun _ => Belief.noConfusion
  request := fun _ _ hcall => absurd hcall (by simp [start, Supervisor.initial, Supervisor.call?])
  told := rfl
  engines := rfl
  alternates := .nil
  launched := fun _ _ h => absurd h List.not_mem_nil

/-- A turn of the only call adds what it has opened with, and the launch of an
    engine if there is one. -/
theorem sound_turn (hc : c.Sound) {h : Happening} {id : Nat} {announced ns : List Notice}
    {may : Bool} {r : Supervisor.Result}
    (ho : Opened c.now t (c.now.ends h) announced) (hadvance : Advance t r)
    (htold : c.now.told h = announced ++ ns) (hreports : Reports t.engines r.1.engines ns)
    (hsame : may = false → r.1.engines = t.engines)
    (hcall : ∀ call, r.2.call? = some call → call.starts = true → may = true)
    (hmay : may = true → h.request?.or c.request = some .start) :
    (c.note h (Supervisor.endTurn id r).1).Sound := by
  have hl := hadvance.launched hreports (h.request?.or c.request)
  have hengines := Supervisor.endTurn_engines id r
  have halive : (Supervisor.endTurn id r).1.alive = r.1.alive := by
    rw [Supervisor.alive, Supervisor.alive, Supervisor.endTurn_belief]
  have hlived : (c.note h (Supervisor.endTurn id r).1).lived = c.lived ++ c.now.ends h
      ++ Life.launches t.engines r.1.engines (h.request?.or c.request) := by
    rw [note, hengines, ho.engines]
  -- What the turn opened with has launched nothing.
  have hsilent : (c.now.ends h).filterMap Life.pid? = [] :=
    List.filterMap_eq_nil_iff.mpr fun l hmem =>
      Life.pid?_of_not_isLaunch (c.now.isLaunch_ends h l hmem)
  refine ⟨hadvance.alone id ho.calls ho.settled, fun k call hk hstarts => ?_, ?_, ?_, ?_,
    fun pid request hmem => ?_⟩
  · -- Only the turn's own call is left.
    rw [note, hadvance.call?] at hk
    split at hk
    next => exact hmay (hcall call hk hstarts)
    next =>
      rw [Supervisor.call?, ho.calls] at hk
      exact absurd hk (by simp)
  · rw [hlived, List.map_append, List.map_append, ← hc.told, ← ho.announced, ← hl.told, note,
      htold, List.filter_append, List.filter_append, List.append_assoc]
  · rw [hlived, List.filterMap_append, List.filterMap_append, hc.engines, hsilent,
      List.append_nil, ← ho.engines, ← hl.engines, note, hengines]
  · rw [hlived, note, halive]
    exact (hc.alternates.append ho.follows).append hl.follows
  · rw [hlived] at hmem
    rcases List.mem_append.mp hmem with hbefore | hlaunched
    · rcases List.mem_append.mp hbefore with hlived | hends
      · exact hc.launched pid request hlived
      · exact absurd (c.now.isLaunch_ends h _ hends) Bool.noConfusion
    · -- It is a new engine, so the turn may launch one.
      rcases List.mem_map.mp hlaunched with ⟨engine, hengine, heq⟩
      cases heq
      cases may with
      | true => exact hmay rfl
      | false =>
          rw [hsame rfl, List.drop_length] at hengine
          exact absurd hengine List.not_mem_nil

/-- What only others have done leaves everything as it is. -/
theorem sound_aside (hc : c.Sound) {h : Happening} {s : Supervisor}
    (hsame : c.now.SameCalls s) (hends : c.now.ends h = []) (hrequest : h.request? = none)
    (hpids : s.engines.map EngineProcess.pid = c.now.engines.map EngineProcess.pid)
    (htold : (c.now.told h).filter Notice.isLife = []) : (c.note h s).Sound := by
  rcases hsame with ⟨hcalls, hbelief, hlength⟩
  have hlived : (c.note h s).lived = c.lived := by
    rw [note, Life.launches, ← hlength, List.drop_length, hends, List.append_nil]
    exact List.append_nil _
  have hlatest : (c.note h s).request = c.request := by
    rw [note, hrequest, Option.none_or]
  refine ⟨?_, ?_, ?_, ?_, ?_, ?_⟩
  · rw [note, hcalls, hbelief]
    exact hc.alone
  · rw [hlatest, note]
    intro id call hcall hstarts
    rw [Supervisor.call?_congr hcalls] at hcall
    exact hc.request id call hcall hstarts
  · rw [hlived, note, List.filter_append, htold, List.append_nil]
    exact hc.told
  · rw [hlived, note, hpids]
    exact hc.engines
  · rw [hlived, note, Supervisor.alive, hbelief]
    exact hc.alternates
  · rw [hlived]
    exact hc.launched

theorem sound_apart (hc : c.Sound) {env : Surroundings} {action : Action}
    {r : Supervisor × Option Outcome} (ha : Supervisor.Aside c.now env action r)
    (hends : c.now.ends (.act env action) = [])
    (hrequest : (Happening.act env action).request? = none) :
    (c.note (.act env action) r.1).Sound := by
  rcases ha.hears with ⟨ns, hears, hquiet⟩
  refine sound_aside hc ha.same hends hrequest ha.engines ?_
  rw [hears.told_eq]
  exact hquiet

theorem sound_begin (hc : c.Sound) {env : Surroundings} {id : Nat} {request : Request}
    (hcalls : c.now.calls = []) (hnone : c.now.call? id = none) :
    (c.note (.act env (.begin id request))
      (Supervisor.endTurn id (c.now.enter env request)).1).Sound := by
  have htells : Tells (request == .start) (Supervisor.enter env request) c.now :=
    Supervisor.tells_enter request
  rcases htells with ⟨ns, hns, hreports, hsame, hcall⟩
  refine sound_turn hc (Supervisor.opened_fresh hcalls hc.alone)
    (Supervisor.advance_enter request) (Supervisor.hears_begin hnone hns).told_eq hreports hsame
    hcall fun hmay => ?_
  rw [beq_iff_eq.mp hmay]
  rfl

theorem sound_reply (hc : c.Sound) {env : Surroundings} {id : Nat} {call : Call}
    {reply : Except ControlError String} (hcall : c.now.call? id = some call)
    (hex : call.exchange?.isSome = true) :
    (c.note (.act env (.reply id reply)) (Supervisor.endTurn id
      (((c.now.without id).complete call (.replied reply)).carryOn env call reply)).1).Sound := by
  have hends : c.now.ends (.act env (.reply id reply)) = Completion.ends call (.replied reply) := by
    rw [Supervisor.ends, hcall]
  have hopened := Supervisor.opened_complete hc.alone hcall (.replied reply)
  rw [← hends] at hopened
  have htells : Tells call.starts (fun s => s.carryOn env call reply)
      ((c.now.without id).complete call (.replied reply)) := Supervisor.tells_carryOn hex reply
  rcases htells with ⟨ns, hns, hreports, hsame, hstarts⟩
  exact sound_turn hc hopened (Supervisor.advance_carryOn hex reply)
    (Supervisor.hears_reply hcall hex hns).told_eq hreports hsame hstarts
    (hc.request id call hcall)

/-- A call that is given up, or has ended, adds only what it has opened with. -/
theorem sound_over (hc : c.Sound) {h : Happening} {ends : List Life}
    (ho : Opened c.now t ends []) (hends : c.now.ends h = []) (htold : c.now.told h = []) :
    (c.note h t).Sound := by
  have hnone : ends = [] := List.map_eq_nil_iff.mp ho.announced.symm
  rw [hnone, ← hends] at ho
  -- Nobody is left, so it is as if a turn had finished at once.
  have hgone : (Supervisor.endTurn 0 (t, .finished .shutDown)).1 = t := by
    have hcalls := ho.calls
    rw [Supervisor.endTurn, Supervisor.without, hcalls]
    exact (congrArg (fun calls => { t with calls }) hcalls).symm
  rw [← hgone]
  exact sound_turn hc ho (.finish t _ rfl rfl rfl) htold (.inl ⟨rfl, rfl⟩) (fun _ => rfl)
    (fun _ h => absurd h (by simp [Turn.call?])) (fun hmay => absurd hmay Bool.false_ne_true)

/-- Whatever a step is, it is written down as it is. -/
theorem sound_step (hc : c.Sound) {env : Surroundings} {action : Action}
    {r : Supervisor × Option Outcome} (h : Supervisor.Steps env c.now action r)
    (hfree : (Happening.act env action).request?.isSome = true → c.now.calls = []) :
    (c.note (.act env action) r.1).Sound := by
  have haside : action.caller? = none → Supervisor.Aside c.now env action r := h.aside
  have hdropped : ∀ {id call}, c.now.call? id = some call →
      Opened c.now ((c.now.without id).complete call .dropped)
        (Completion.dropped.ends call) [] := by
    intro id call hcall
    have ho := Supervisor.opened_complete hc.alone hcall .dropped
    rw [Supervisor.announces_dropped] at ho
    exact ho
  cases h with
  | begins id request hnone => exact sound_begin hc (hfree rfl) hnone
  | replies id reply call hcall hex => exact sound_reply hc hcall hex
  | wakes id goal hcall => exact absurd hcall (hc.alone.not_waiting id goal true)
  | abandons id call hcall =>
      exact sound_over hc (hdropped hcall) rfl (Supervisor.hears_abandon hcall).told_eq
  | closes id hcall =>
      exact sound_over hc (hdropped hcall) rfl (Supervisor.hears_close hcall).told_eq
  | _ => exact sound_apart hc (haside rfl) rfl rfl

/-- Whatever happens, the history is the one that the session has had. -/
theorem sound_see (hc : c.Sound) (h : Happening) : (c.see h).Sound := by
  unfold see
  split
  next => exact hc
  next hfree =>
    split
    next => exact hc
    next s hs =>
      cases h with
      | setProject project =>
          cases hs
          exact sound_aside hc ⟨rfl, rfl, rfl⟩ rfl rfl rfl rfl
      | elsewhere journal jobs =>
          cases hs
          exact sound_aside hc ⟨rfl, rfl, rfl⟩ rfl rfl rfl rfl
      | act env action =>
          rcases Option.map_eq_some_iff.mp hs with ⟨r, hstep, rfl⟩
          refine sound_step hc (Supervisor.step_eq_some_iff.mp hstep) fun hrequest => ?_
          simpa [hrequest] using hfree

/-- An engine is launched only where there is believed to be none, unless the
    turn that launches it has ended the belief in another one first. -/
theorem Sound.stopped_of_launch (hc : c.Sound) {h : Happening} (hends : c.now.ends h = [])
    (hmore : c.now.engines.length < (c.see h).now.engines.length) : c.now.belief = .stopped := by
  have halternates := (sound_see hc h).alternates
  -- The first new engine is the next thing that has happened.
  have hnext : ∃ l, (c.see h).lived[c.lived.length]? = some l ∧ l.isLaunch = true := by
    unfold see at hmore ⊢
    split at hmore
    next => exact absurd hmore (Nat.lt_irrefl _)
    next hfree =>
      split at hmore
      next => exact absurd hmore (Nat.lt_irrefl _)
      next s _ =>
        rcases Life.launches_of_lt hmore (h.request?.or c.request) with ⟨pid, rest, hlaunches⟩
        refine ⟨.launched pid (h.request?.or c.request), ?_, rfl⟩
        have hlived : (c.note h s).lived
            = c.lived ++ Life.launched pid (h.request?.or c.request) :: rest := by
          rw [← hlaunches, note, hends, List.append_nil]
        rw [if_neg hfree, hlived, List.getElem?_append_right (Nat.le_refl _), Nat.sub_self]
        rfl
  rcases hnext with ⟨l, hl, hlaunch⟩
  have hturn := halternates.turns _ l hl
  have halive := hc.alternates.alive
  rw [← Alternates.not_odd, ← halive, hlaunch] at hturn
  cases hb : c.now.belief with
  | stopped => rfl
  | _ =>
      rw [Supervisor.alive, hb] at hturn
      exact absurd hturn Bool.noConfusion

/-- However a run goes, what is written down is what has happened. -/
theorem sound_after (hc : c.Sound) (happenings : List Happening) : (c.after happenings).Sound := by
  induction happenings generalizing c with
  | nil => exact hc
  | cons h rest ih => exact ih (sound_see hc h)

/-- With one call at a time, what is published of the life of engines is its
    history. There is one notice for each engine that was launched, for each
    order to quit that was acknowledged and for each probe that failed, in
    that order, and the launches are those of the processes that there are.
    They alternate, beginning with a launch, and between two calls the engine
    is believed to run exactly if the last of them tells of a launch. No engine
    is launched while one is believed to be there, unless the same turn has
    ended that belief, and only calls to start the engine launch any. -/
theorem history_faithful (config : Config) (happenings : List Happening) :
    let c := (start config).after happenings
    let history := c.told.filter Notice.isLife
    history = c.lived.map Life.notice ∧
    c.lived.filterMap Life.pid? = c.now.engines.map EngineProcess.pid ∧
    (∀ i n, history[i]? = some n → (n.kind = .runtimeStarted ↔ i % 2 = 0)) ∧
    (c.now.calls = [] → ((∃ launch, c.now.belief = .running launch) ↔
      history.getLast?.map Notice.kind = some .runtimeStarted)) ∧
    (∀ h, c.now.engines.length < (c.see h).now.engines.length → c.now.ends h = [] →
      c.now.belief = .stopped) ∧
    ∀ pid request, .launched pid request ∈ c.lived → request = some .start := by
  intro c history
  have hc : c.Sound := sound_after (sound_start config) happenings
  have hhistory : history = c.lived.map Life.notice := hc.told
  refine ⟨hhistory, hc.engines, fun i n hn => ?_, fun hcalls => ?_,
    fun h hmore hends => hc.stopped_of_launch hends hmore, hc.launched⟩
  · rw [hhistory, List.getElem?_map] at hn
    rcases Option.map_eq_some_iff.mp hn with ⟨l, hl, rfl⟩
    rw [Life.kind_notice, hc.alternates.turns i l hl, beq_iff_eq]
  · have hlast : history.getLast?.map Notice.kind = some .runtimeStarted ↔ c.now.alive = true := by
      rw [hhistory, List.getLast?_map, ← hc.alternates.getLast?]
      cases c.lived.getLast? with
      | none => simp
      | some l => simpa using Life.kind_notice l
    have hsettled := Alone.settled (hcalls ▸ hc.alone)
    rw [hlast, Supervisor.alive]
    cases hb : c.now.belief with
    | stopped => simp [Belief.launch?]
    | running launch => simp [Belief.launch?]
    | probing launch => exact absurd hb (hsettled launch)

end Chronicle

end SoftPlc
