import SoftPlc.Proofs.Supervisor.Attempts

/-!
# Whether a job was superseded

A compilation that is admitted while another is under way says so before its
compiler is launched. If the launch fails, the other job is still there and
still the current one, and everybody has been told that it was superseded.

To see that this is the only untruth, each call is taken down with all its
turns. Until the last turn a call to compile tells nothing of jobs and leaves
them alone, so whether it has told the truth is decided there.

## Main definitions

* `Course`: A call with all its turns.
* `Registry`: The supervisor and the calls that are made.
* `Course.Settled`: How a call to compile ends.

## Theorems

* `Registry.kept_after`: How calls to compile end, in any run.
* `superseded_iff`: When a job is said to be superseded.
-/

namespace SoftPlc

open Supervisor (SameJobs)

/-- A call, with all its turns. -/
structure Course where
  request : Request
  /-- Its turns, oldest first. -/
  legs : List Leg := []

namespace Course

/-- What was published in the turns of a call. -/
def told (c : Course) : List Notice :=
  c.legs.flatMap Leg.told

/-- How a call to compile ends: what was left alone until the last turn is
    decided there. -/
def Settled (source : List UInt8) (c : Course) (outcome : Option Outcome) : Prop :=
  ∃ waits last, c.legs = waits ++ [last] ∧ (∀ leg ∈ waits, leg.Idle) ∧ last.Ends source outcome

end Course

/-- The supervisor, and the calls that are made. -/
structure Registry where
  now : Supervisor
  /-- The calls that wait. -/
  pending : Nat → Option Course := fun _ => none
  /-- The calls that are over, with what they came to; nothing for one that was
      given up. -/
  finished : List (Course × Option Outcome) := []

namespace Registry

/-- Nothing has happened yet. -/
def start (config : Config) : Registry :=
  { now := .initial config }

/-- The call whose turn an action is, as it is when the turn begins. -/
def opened (g : Registry) (id : Nat) : Action → Option Course
  | .begin _ request => some { request }
  | _ => g.pending id

/-- A turn of a call has ended. -/
def turned (g : Registry) (id : Nat) (c : Option Course) (r : Supervisor × Option Outcome) :
    Registry :=
  if (r.1.call? id).isSome then
    { g with now := r.1, pending := fun k => if k = id then c else g.pending k }
  else
    { now := r.1
      pending := fun k => if k = id then none else g.pending k
      finished := g.finished ++ (c.map fun c => (c, r.2)).toList }

/-- An action was taken. -/
def note (g : Registry) (env : Surroundings) (action : Action)
    (r : Supervisor × Option Outcome) : Registry :=
  match action.caller? with
  | none => { g with now := r.1 }
  | some id =>
    let leg := ⟨g.now, g.now.told (.act env action), r.1⟩
    g.turned id ((g.opened id action).map fun c => { c with legs := c.legs ++ [leg] }) r

/-- Something happens, if it can. -/
def see (g : Registry) : Happening → Registry
  | .act env action =>
    match g.now.step env action with
    | none => g
    | some r => g.note env action r
  | .setProject project => { g with now := g.now.setProject project }
  | .elsewhere journal jobs => { g with now := { g.now with journal, jobs } }

/-- Several things happen in order. -/
def after (g : Registry) (happenings : List Happening) : Registry :=
  happenings.foldl see g

variable {g : Registry}

/-- Each call that waits is known with what it was made for. Those to compile
    have left the jobs alone if they wait, and are settled if they are over. -/
structure Kept (g : Registry) : Prop where
  known : ∀ id call, g.now.call? id = some call →
    ∃ c, g.pending id = some c ∧ call.purpose = c.request.purpose
  idle : ∀ id c source, g.pending id = some c → c.request = .compile source →
    ∀ leg ∈ c.legs, leg.Idle
  settled : ∀ c ∈ g.finished, ∀ source, c.1.request = .compile source →
    c.1.Settled source c.2

theorem kept_start (config : Config) : (start config).Kept where
  known := fun id call h => absurd h (by
    simp only [start, Supervisor.initial, Supervisor.call?, List.lookup_nil, reduceCtorEq,
      not_false_eq_true])
  idle := fun id c source h => absurd h (by simp only [start, reduceCtorEq, not_false_eq_true])
  settled := fun c h => absurd h List.not_mem_nil

theorem Kept.of_same (hg : g.Kept) {s : Supervisor} (hsame : s.calls = g.now.calls) :
    Kept { g with now := s } where
  known := fun id call h => hg.known id call ((Supervisor.call?_congr hsame id).symm.trans h)
  idle := hg.idle
  settled := hg.settled

/-- Whose turn it is is known, and what was made of its call so far. -/
theorem Kept.opened (hg : g.Kept) {env : Surroundings} {action : Action}
    {r : Supervisor × Option Outcome} (h : Supervisor.Steps env g.now action r) {id : Nat}
    (hcaller : action.caller? = some id) : ∃ c, g.opened id action = some c ∧
      ∀ source, c.request = .compile source → (∀ leg ∈ c.legs, leg.Idle) ∧
        Leg.Comes source id ⟨g.now, g.now.told (.act env action), r.1⟩ r.2 := by
  have hcalled : ∀ {call}, g.now.call? id = some call → g.opened id action = g.pending id →
      ∃ c, g.opened id action = some c ∧
        ∀ source, c.request = .compile source → (∀ leg ∈ c.legs, leg.Idle) ∧
          Leg.Comes source id ⟨g.now, g.now.told (.act env action), r.1⟩ r.2 := by
    intro call hcall hopened
    rcases hg.known id call hcall with ⟨c, hc, hpurpose⟩
    refine ⟨c, hopened.trans hc, fun source hsource => ⟨hg.idle id c source hc hsource, ?_⟩⟩
    rw [hsource] at hpurpose
    exact Supervisor.leg_step h hcaller (.inr ⟨call, hcall, hpurpose⟩)
  cases h with
  | begins k request hnone =>
      cases hcaller
      refine ⟨{ request }, rfl, fun source hsource => ⟨fun _ hleg => ?_, ?_⟩⟩
      · exact absurd hleg List.not_mem_nil
      · cases hsource
        exact Supervisor.leg_step (.begins id _ hnone) rfl (.inl rfl)
  | replies k reply call hcall =>
      cases hcaller
      exact hcalled hcall rfl
  | wakes k goal hcall =>
      cases hcaller
      exact hcalled hcall rfl
  | abandons k call hcall =>
      cases hcaller
      exact hcalled hcall rfl
  | closes k hcall =>
      cases hcaller
      exact hcalled hcall rfl
  | _ => exact absurd hcaller (by simp only [Action.caller?, reduceCtorEq, not_false_eq_true])

section Turns

variable {env : Surroundings} {action : Action} {r : Supervisor × Option Outcome} {id : Nat}
  {call : Call} {c : Course}

/-- A call that is not in turn has waited before, for what it waits for now. -/
theorem Kept.others (hg : g.Kept) (h : Supervisor.Steps env g.now action r) {k : Nat}
    (hcall : r.1.call? k = some call) (hother : action.caller? ≠ some k) :
    ∃ c, g.pending k = some c ∧ call.purpose = c.request.purpose := by
  rcases h.purpose hcall with ⟨request, rfl, _⟩ | ⟨before, hbefore, hpurpose⟩
  · exact absurd rfl hother
  · rcases hg.known k before hbefore with ⟨c, hc, hknown⟩
    exact ⟨c, hc, hpurpose.trans hknown⟩

/-- The call whose turn it was waits for what it was made for. -/
theorem Kept.own (hg : g.Kept) (h : Supervisor.Steps env g.now action r)
    (hcaller : action.caller? = some id) (hopened : g.opened id action = some c)
    (hcall : r.1.call? id = some call) : call.purpose = c.request.purpose := by
  rcases h.purpose hcall with ⟨request, rfl, hpurpose⟩ | ⟨before, hbefore, hpurpose⟩
  · exact Option.some.inj hopened ▸ hpurpose
  · rcases hg.known id before hbefore with ⟨there, hthere, hknown⟩
    have hsame : there = c := by
      cases h with
      | begins k request hnone =>
          -- A call that is made does not wait yet.
          cases hcaller
          exact absurd (hbefore.symm.trans hnone) (Option.some_ne_none before)
      | _ => exact Option.some.inj (hthere.symm.trans hopened)
    exact hsame ▸ hpurpose.trans hknown

/-- A call that waits on is kept with its turn, if that was idle. -/
theorem Kept.waits (hg : g.Kept) (h : Supervisor.Steps env g.now action r)
    (hcaller : action.caller? = some id) (hopened : g.opened id action = some c) {leg : Leg}
    (hidle : ∀ source, c.request = .compile source → ∀ there ∈ c.legs ++ [leg], there.Idle) :
    Kept { g with
      now := r.1
      pending := fun k => if k = id then some { c with legs := c.legs ++ [leg] }
        else g.pending k } := by
  refine ⟨fun k call hcall => ?_, fun k there source hthere hsource => ?_, hg.settled⟩
  · by_cases hk : k = id
    · subst hk
      have hpurpose := hg.own h hcaller hopened hcall
      exact ⟨_, if_pos rfl, hpurpose⟩
    · have hother : action.caller? ≠ some k := by
        rw [hcaller]
        exact fun heq => hk (Option.some.inj heq).symm
      rcases hg.others h hcall hother with ⟨there, hthere, hpurpose⟩
      exact ⟨there, (if_neg hk).trans hthere, hpurpose⟩
  · dsimp only at hthere
    by_cases hk : k = id
    · rw [if_pos hk] at hthere
      cases Option.some.inj hthere
      exact hidle source hsource
    · rw [if_neg hk] at hthere
      exact hg.idle k there source hthere hsource

/-- A call that is over is kept with what it came to, if it is settled. -/
theorem Kept.over (hg : g.Kept) (h : Supervisor.Steps env g.now action r)
    (hcaller : action.caller? = some id) (hover : r.1.call? id = none)
    (hsettled : ∀ source, c.request = .compile source → c.Settled source r.2) :
    Kept {
      now := r.1
      pending := fun k => if k = id then none else g.pending k
      finished := g.finished ++ [(c, r.2)] } := by
  refine ⟨fun k call hcall => ?_, fun k there source hthere hsource => ?_,
    fun there hthere source hsource => ?_⟩
  · have hk : k ≠ id := by
      rintro rfl
      exact absurd (hcall.symm.trans hover) (Option.some_ne_none call)
    have hother : action.caller? ≠ some k := by
      rw [hcaller]
      exact fun heq => hk (Option.some.inj heq).symm
    rcases hg.others h hcall hother with ⟨there, hthere, hpurpose⟩
    exact ⟨there, (if_neg hk).trans hthere, hpurpose⟩
  · dsimp only at hthere
    by_cases hk : k = id
    · rw [if_pos hk] at hthere
      exact absurd hthere.symm (Option.some_ne_none there)
    · rw [if_neg hk] at hthere
      exact hg.idle k there source hthere hsource
  · rcases List.mem_append.mp hthere with hbefore | hlast
    · exact hg.settled there hbefore source hsource
    · cases List.mem_singleton.mp hlast
      exact hsettled source hsource

/-- Whatever is done, calls are known, and those to compile end as they do. -/
theorem kept_step (hg : g.Kept) (h : Supervisor.Steps env g.now action r) :
    (g.note env action r).Kept := by
  unfold note
  cases hcaller : action.caller? with
  | none =>
      refine ⟨fun k call hcall => hg.others h hcall ?_, hg.idle, hg.settled⟩
      rw [hcaller]
      exact (Option.some_ne_none k).symm
  | some id =>
      rcases hg.opened h hcaller with ⟨c, hopened, hcompiles⟩
      dsimp only
      rw [hopened, Option.map_some, turned]
      split
      next hwaits =>
        refine hg.waits h hcaller hopened fun source hsource leg hleg => ?_
        rcases hcompiles source hsource with ⟨hlegs, hcomes⟩
        rcases List.mem_append.mp hleg with hbefore | hlast
        · exact hlegs leg hbefore
        · rw [List.mem_singleton.mp hlast]
          exact hcomes.idle hwaits
      next hover =>
        refine hg.over h hcaller (Option.not_isSome_iff_eq_none.mp hover) fun source hsource => ?_
        rcases hcompiles source hsource with ⟨hlegs, hcomes⟩
        exact ⟨c.legs, _, rfl, hlegs, hcomes.over hover⟩

end Turns

/-- Whatever happens, calls to compile end as they do. -/
theorem kept_see (hg : g.Kept) (h : Happening) : (g.see h).Kept := by
  cases h with
  | setProject project => exact hg.of_same rfl
  | elsewhere journal jobs => exact hg.of_same rfl
  | act env action =>
      rw [see]
      split
      next => exact hg
      next r hstep => exact kept_step hg (Supervisor.step_eq_some_iff.mp hstep)

/-- However a run goes, calls to compile end as they do. -/
theorem kept_after (hg : g.Kept) (happenings : List Happening) : (g.after happenings).Kept := by
  induction happenings generalizing g with
  | nil => exact hg
  | cons h rest ih => exact ih (kept_see hg h)

end Registry

/-- The compiler could not be launched for the call. -/
def Unlaunched (outcome : Option Outcome) : Prop :=
  ∃ program reason, outcome = some (.acknowledged (.error (.spawn program reason)))

theorem not_unlaunched_of_acknowledged {outcome : Option Outcome} (h : Acknowledged outcome) :
    ¬ Unlaunched outcome := by
  rintro ⟨program, reason, hfailed⟩
  rw [Acknowledged, hfailed] at h
  exact absurd h (by simp only [Option.some.injEq, Outcome.acknowledged.injEq, reduceCtorEq,
    not_false_eq_true])

namespace Leg

variable {leg : Leg} {source : List UInt8} {outcome : Option Outcome}

/-- The last turn says that a job is superseded before it is known whether it
    will be. -/
theorem Ends.superseding_iff (h : leg.Ends source outcome) :
    (∃ n ∈ leg.told.filter Notice.isHerald, n.kind = .compileSuperseded) ↔
      leg.before.isCompiling = true ∧ (Acknowledged outcome ∨ Unlaunched outcome) := by
  cases h with
  | dropped idle =>
      rw [idle.silent]
      simp [Acknowledged, Unlaunched]
  | refused idle =>
      rw [idle.silent]
      simp [Acknowledged, Unlaunched]
  | failed program reason admitted same told =>
      rw [told, Supervisor.exists_superseding]
      simp [Acknowledged, Unlaunched]
  | started pid admitted jobs current told =>
      rw [told]
      simp only [List.mem_append, List.mem_singleton, or_and_right, exists_or, exists_eq_left,
        Supervisor.exists_superseding]
      simp [Acknowledged, Unlaunched]

end Leg

namespace Course

variable {c : Course}

/-- A notice of this kind was published in the turns of the call. -/
def Tells (c : Course) (kind : EventKind) : Prop :=
  ∃ n ∈ c.told, n.kind = kind

/-- Until its last turn a call to compile has told nothing of jobs. -/
theorem tells_iff {waits : List Leg} {last : Leg} (hlegs : c.legs = waits ++ [last])
    (hidle : ∀ leg ∈ waits, leg.Idle) {kind : EventKind}
    (hkind : ∀ n : Notice, n.kind = kind → n.isHerald = true) :
    c.Tells kind ↔ ∃ n ∈ last.told.filter Notice.isHerald, n.kind = kind := by
  constructor
  · rintro ⟨n, hn, rfl⟩
    rcases List.mem_flatMap.mp hn with ⟨leg, hleg, hmem⟩
    have hheard : n ∈ leg.told.filter Notice.isHerald := List.mem_filter.mpr ⟨hmem, hkind n rfl⟩
    rw [hlegs] at hleg
    rcases List.mem_append.mp hleg with hwait | hlast
    · rw [(hidle leg hwait).silent] at hheard
      exact absurd hheard List.not_mem_nil
    · rw [List.mem_singleton.mp hlast] at hheard
      exact ⟨n, hheard, rfl⟩
  · rintro ⟨n, hn, hk⟩
    refine ⟨n, List.mem_flatMap.mpr ⟨last, ?_, (List.mem_filter.mp hn).1⟩, hk⟩
    rw [hlegs]
    exact List.mem_append_right waits (List.mem_singleton_self last)

end Course

/-- A call to compile that is over has said that it supersedes a job if and only
    if a compilation was under way when it came to the attempt, and it was
    acknowledged or its compiler could not be launched. So it has told the truth
    unless a compilation was under way and the launch has failed. If it was
    acknowledged, there is a new job and it is the current one. If not, none was
    said to be started, and in all its turns the jobs were left alone and the
    current one stayed. -/
theorem superseded_iff (config : Config) (happenings : List Happening) :
    ∀ c ∈ ((Registry.start config).after happenings).finished, ∀ source,
      c.1.request = .compile source →
      ∃ last, c.1.legs.getLast? = some last ∧
        (c.1.Tells .compileSuperseded ↔
          last.before.isCompiling = true ∧ (Acknowledged c.2 ∨ Unlaunched c.2)) ∧
        ((c.1.Tells .compileSuperseded ↔ Acknowledged c.2 ∧ last.before.isCompiling = true) ↔
          ¬ (last.before.isCompiling = true ∧ Unlaunched c.2)) ∧
        (Acknowledged c.2 → c.1.Tells .compileStarted ∧
          last.after.jobs = last.before.jobs ++ [Job.start source] ∧
          last.after.current = some last.before.jobs.length) ∧
        (¬ Acknowledged c.2 → ¬ c.1.Tells .compileStarted ∧
          ∀ leg ∈ c.1.legs, SameJobs leg.before leg.after) := by
  intro c hc source hsource
  rcases (Registry.kept_after (Registry.kept_start config) happenings).settled c hc source hsource
    with ⟨waits, last, hlegs, hidle, hends⟩
  have hsuperseded := Course.tells_iff hlegs hidle
    fun n (hn : n.kind = .compileSuperseded) => by rw [Notice.isHerald, hn]; rfl
  have hstarted := Course.tells_iff hlegs hidle
    fun n (hn : n.kind = .compileStarted) => by rw [Notice.isHerald, hn]; rfl
  -- Only the last turn tells of jobs, so what it told is what the call told.
  have hiff := hsuperseded.trans hends.superseding_iff
  refine ⟨last, by rw [hlegs, List.getLast?_concat], hiff, ?_, fun hok => ?_, fun hno => ?_⟩
  · -- Who is acknowledged has launched the compiler.
    have hdistinct : Acknowledged c.2 → ¬ Unlaunched c.2 := not_unlaunched_of_acknowledged
    constructor
    · rintro htrue ⟨hcompiling, hfailed⟩
      exact hdistinct (htrue.mp (hiff.mpr ⟨hcompiling, .inr hfailed⟩)).1 hfailed
    · intro hlaunched
      rw [hiff]
      constructor
      · rintro ⟨hcompiling, hok | hfailed⟩
        · exact ⟨hok, hcompiling⟩
        · exact absurd ⟨hcompiling, hfailed⟩ hlaunched
      · rintro ⟨hok, hcompiling⟩
        exact ⟨hcompiling, .inl hok⟩
  · rw [hstarted]
    exact hends.acknowledged hok
  · rw [hstarted]
    rcases hends.unacknowledged hno with ⟨hsilent, hlast⟩
    refine ⟨hsilent, fun leg hleg => ?_⟩
    rw [hlegs] at hleg
    rcases List.mem_append.mp hleg with hwait | hmem
    · exact (hidle leg hwait).same
    · exact List.mem_singleton.mp hmem ▸ hlast

/-- A compiler is launched, and then another for whatever comes of it. -/
def compiledTwice (second : Except Failure (Option Nat)) : List Happening :=
  [.act ⟨0, .ok none, fun _ => .ok none⟩ (.begin 0 (.compile [0x61])),
    .act ⟨0, .ok none, fun _ => second⟩ (.begin 1 (.compile [0x62]))]

theorem superseded_iff_replaced :
    let g := (Registry.start { admission := .replace }).after (compiledTwice (.ok none))
    ∃ c ∈ g.finished, c.1.request = .compile [0x62] ∧ c.1.Tells .compileSuperseded ∧
      Acknowledged c.2 := by
  intro g
  have hc : g.finished.get ⟨1, by decide⟩ ∈ g.finished := List.get_mem _ _
  rcases superseded_iff _ _ _ hc [0x62] (by decide) with ⟨last, hlast, hiff, _⟩
  have hok : Acknowledged (g.finished.get ⟨1, by decide⟩).2 := rfl
  have hreplaced : last.before.isCompiling = true := by
    cases Option.some.inj hlast
    decide
  exact ⟨_, hc, by decide, hiff.mpr ⟨hreplaced, .inl hok⟩, hok⟩

/-- The second compiler cannot be launched, and the first is said to be
    superseded. -/
theorem not_always_superseded :
    ¬ ∀ (config : Config) (happenings : List Happening),
        ∀ c ∈ ((Registry.start config).after happenings).finished, ∀ source,
      c.1.request = .compile source → ¬ Acknowledged c.2 → ¬ c.1.Tells .compileSuperseded := by
  intro h
  let g := (Registry.start { admission := .replace }).after
    (compiledTwice (.error (.described "nul byte found in provided data")))
  have hc : g.finished.get ⟨1, by decide⟩ ∈ g.finished := List.get_mem _ _
  have hfailed : Unlaunched (g.finished.get ⟨1, by decide⟩).2 := ⟨_, _, rfl⟩
  refine h _ _ _ hc [0x62] (by decide) ?_ ⟨{ kind := .compileSuperseded }, by decide, rfl⟩
  exact fun hok => not_unlaunched_of_acknowledged hok hfailed

end SoftPlc
