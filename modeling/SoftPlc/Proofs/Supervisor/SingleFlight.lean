import SoftPlc.Proofs.Supervisor.Attempts

/-!
# One compilation at a time

Any number of jobs may have been started, and their readers all go on. What is
shown of a compilation is the newest job's, and nothing that is done to other
jobs has any influence on it: a job is what was done to it, and to it alone.
`Workshop.deeds` keeps what was done to which job, and `Workshop.own` is one
job's share of it.

A call to compile that is acknowledged has started a job, and no other call
has. The new job is the newest, and nothing has been done to it. So until the
next call is acknowledged, what is polled and what is reported is what has been
done to this job since, whatever the readers of those before it still read.
Which calls are calls to compile is known from the requests they were made
with, because a call may wait before it comes to its attempt.

If a compilation must not be replaced, at most one job is not over. The
admission looks at the newest job only, and it is decided twice, with a wait
in between in which others may be admitted. What makes this enough is that
none but the newest can be unfinished. A job that is over stays so, and a new
one is admitted only when the newest is over, and hence all are.

## Main definitions

* `Work`: Something that happens to the supervisor and its jobs.
* `Workshop`: The supervisor, and what was done to its jobs.
* `Workshop.Compiles`: It is the turn of a call to compile.
* `Workshop.Shows`: What is shown is one job's.
* `Workshop.Sound`: Jobs are what was done to them.

## Theorems

* `see_cases`: What can happen to the jobs.
* `sound_deed`, `sound_spawn`: What a deed and a new job keep.
* `sound_after`: What runs keep.
* `comes_step`: What the turns of a call to compile come to.
* `single_flight`: At most one job is unfinished, and only the newest is shown.
-/

namespace SoftPlc

/-- Something that happens to the supervisor and its jobs. -/
inductive Work where
  | act (env : Surroundings) (action : Action)
  /-- The output of the newest job is polled. -/
  | poll
  /-- Someone who has a job at hand does something to it. -/
  | consume (job : Nat) (deed : Deed)
  | setProject (project : Project)
  /-- Others who share the journal publish or subscribe. -/
  | elsewhere (journal : Journal)

/-- Consumers do this, and not the reader or the compiler. -/
def Deed.isConsumers : Deed → Bool
  | poll => true
  | line => true
  | await _ => true
  | _ => false

/-- The supervisor, and what was done to its jobs. -/
structure Workshop where
  now : Supervisor
  /-- What was done to which job, in order. -/
  deeds : List (Nat × Deed) := []
  /-- The requests that calls were made with, by their numbers. -/
  requests : Nat → Option Request := fun _ => none

namespace Workshop

/-- Nothing has happened yet. -/
def start (config : Config) : Workshop :=
  { now := .initial config }

/-- What was done to a job, in order. -/
def own (w : Workshop) (i : Nat) : List Deed :=
  (w.deeds.filter fun d => d.1 == i).map Prod.snd

/-- A job of a source, as it is if nothing counts but what was done to it. -/
def desk (w : Workshop) (i : Nat) (source : List UInt8) : Desk :=
  (Desk.start source).after (w.own i)

/-- Something is done to a job, if it is there. -/
def doTo (w : Workshop) (i : Nat) (deed : Deed) : Workshop :=
  match w.now.jobs[i]? with
  | none => w
  | some job =>
    { w with
      now := { w.now with jobs := w.now.jobs.set i (job.deed deed) }
      deeds := w.deeds ++ [(i, deed)] }

/-- Something happens, if it can. -/
def see (w : Workshop) : Work → Workshop
  | .act env action =>
    match w.now.step env action with
    | none => w
    | some (s, _) =>
      { now := s
        deeds := w.deeds ++ action.deed?.toList
        requests := action.recorded w.requests }
  | .poll =>
    { w with
      now := w.now.pollLogText.2
      deeds := w.deeds ++ (w.now.current.map fun i => (i, Deed.poll)).toList }
  | .consume i deed => if deed.isConsumers then w.doTo i deed else w
  | .setProject project => { w with now := w.now.setProject project }
  | .elsewhere journal => { w with now := { w.now with journal } }

/-- Several things happen in order. -/
def after (w : Workshop) (works : List Work) : Workshop :=
  works.foldl see w

/-- The action is a turn of a call that was made to compile the source, be it
    its first turn or one after a wait. -/
def Compiles (w : Workshop) (action : Action) (id : Nat) (source : List UInt8) : Prop :=
  action.caller? = some id ∧ action.recorded w.requests id = some (.compile source)

/-- What is shown is one job's of a source, and that job is what was done to it
    alone. Its output, when polled, is what its reader has queued and nobody
    else has taken, and its report is its own. -/
structure Shows (w : Workshop) (i : Nat) (source : List UInt8) : Prop where
  current : w.now.currentJob? = some (w.desk i source).job
  text : w.now.pollLogText.1 = String.join (w.desk i source).kept
  report : w.now.compileReport = (w.desk i source).job.report

end Workshop

namespace Workshop

open Supervisor (Admits SameJobs Steps)

variable {w v : Workshop}

/-- Jobs are what was done to them, the newest is the current one, and if it
    must not be replaced no other is unfinished. -/
structure Sound (w : Workshop) : Prop where
  jobs : ∀ i job, w.now.jobs[i]? = some job →
    job = (w.desk i job.source).job
  deeds : ∀ d ∈ w.deeds, d.1 < w.now.jobs.length
  newest : ∀ i, w.now.current = some i ↔ i + 1 = w.now.jobs.length
  single : w.now.config.admission = .reject → ∀ i job, w.now.jobs[i]? = some job →
    job.isTerminal = false → i + 1 = w.now.jobs.length

theorem sound_start (config : Config) : (start config).Sound where
  jobs := fun i job h => absurd h (by simp [start, Supervisor.initial])
  deeds := fun _ h => absurd h List.not_mem_nil
  newest := fun i => by simp [start, Supervisor.initial]
  single := fun _ i job h => absurd h (by simp [start, Supervisor.initial])

/-- A job's share changes with the deeds only. -/
theorem own_congr (h : v.deeds = w.deeds) (i : Nat) : v.own i = w.own i := by
  rw [own, own, h]

theorem own_concat {i : Nat} {deed : Deed} (h : v.deeds = w.deeds ++ [(i, deed)]) (k : Nat) :
    v.own k = if k = i then w.own k ++ [deed] else w.own k := by
  rw [own, h, List.filter_append, List.map_append]
  by_cases hk : k = i
  · rw [if_pos hk, hk]
    simp [own]
  · rw [if_neg hk]
    simp [own, Ne.symm hk]

/-- One more thing is done to a job, and what was done to the others stays the
    same. -/
theorem desk_concat {i : Nat} {deed : Deed} (h : v.deeds = w.deeds ++ [(i, deed)]) (k : Nat)
    (source : List UInt8) : (v.desk k source).job
      = if k = i then (w.desk k source).job.deed deed else (w.desk k source).job := by
  rw [desk, desk, own_concat h]
  split
  next => rw [Desk.job_after, List.foldl_append, ← Desk.job_after]; rfl
  next => rfl

/-- What is done to one job is noted of that job, and changes no other. -/
theorem sound_deed (hw : w.Sound) {i : Nat} {deed : Deed} {job : Job}
    (hjob : w.now.jobs[i]? = some job) (hjobs : v.now.jobs = w.now.jobs.set i (job.deed deed))
    (hcurrent : v.now.current = w.now.current) (hconfig : v.now.config = w.now.config)
    (hdeeds : v.deeds = w.deeds ++ [(i, deed)]) : v.Sound := by
  have hlt : i < w.now.jobs.length := (List.getElem?_eq_some_iff.mp hjob).1
  have hlength : v.now.jobs.length = w.now.jobs.length := by
    rw [hjobs, List.length_set]
  have hget : ∀ k, v.now.jobs[k]? = if k = i then some (job.deed deed) else w.now.jobs[k]? := by
    intro k
    rw [hjobs, List.getElem?_set]
    by_cases hk : k = i
    · rw [if_pos hk.symm, if_pos hlt, if_pos hk]
    · rw [if_neg (Ne.symm hk), if_neg hk]
  refine ⟨fun k there hk => ?_, fun d hd => ?_, fun k => ?_, fun hreject k there hk hopen => ?_⟩
  · rw [desk_concat hdeeds]
    rw [hget] at hk
    by_cases hki : k = i
    · rw [if_pos hki] at hk
      rw [if_pos hki, hki, ← Option.some.inj hk, Job.source_deed, ← hw.jobs i job hjob]
    · rw [if_neg hki] at hk
      rw [if_neg hki]
      exact hw.jobs k there hk
  · rw [hlength]
    rw [hdeeds] at hd
    rcases List.mem_append.mp hd with hbefore | hlast
    · exact hw.deeds d hbefore
    · rw [List.mem_singleton.mp hlast]
      exact hlt
  · rw [hlength, hcurrent]
    exact hw.newest k
  · rw [hconfig] at hreject
    rw [hlength]
    rw [hget] at hk
    by_cases hki : k = i
    · rw [if_pos hki] at hk
      -- It is not over now, so it was not over before.
      have hbefore : job.isTerminal = false := by
        refine Bool.eq_false_iff.mpr fun hover => ?_
        have hstill := Job.isTerminal_deed hover deed
        rw [Option.some.inj hk, hopen] at hstill
        exact Bool.false_ne_true hstill
      rw [hki]
      exact hw.single hreject i job hjob hbefore
    · rw [if_neg hki] at hk
      exact hw.single hreject k there hk hopen

/-- What is not about jobs keeps everything. -/
theorem Sound.of_same (hw : w.Sound) (h : SameJobs w.now v.now) (hdeeds : v.deeds = w.deeds) :
    v.Sound := by
  have hown : ∀ i source, v.desk i source = w.desk i source := by
    intro i source
    rw [desk, desk, own_congr hdeeds]
  rcases hw with ⟨hjobs, hlt, hnewest, hsingle⟩
  rw [← h.jobs] at hjobs hlt hnewest hsingle
  rw [← h.current] at hnewest
  rw [← h.config] at hsingle
  rw [← hdeeds] at hlt
  refine ⟨fun i job hi => ?_, hlt, hnewest, hsingle⟩
  rw [hown]
  exact hjobs i job hi

/-- Nothing has been done to a job that is not there yet. -/
theorem own_eq_nil (hw : w.Sound) {i : Nat} (hi : w.now.jobs.length ≤ i) : w.own i = [] := by
  have hnone : w.deeds.filter (fun d => d.1 == i) = [] := by
    refine List.filter_eq_nil_iff.mpr fun d hd heq => ?_
    have hlt := hw.deeds d hd
    rw [beq_iff_eq.mp heq] at hlt
    omega
  rw [own, hnone]
  rfl

/-- The newest job is the current one. -/
theorem currentJob?_eq (hw : w.Sound) : w.now.currentJob? = w.now.jobs.getLast? := by
  rw [Supervisor.currentJob?, List.getLast?_eq_getElem?]
  cases hc : w.now.current with
  | none =>
      have hnil : w.now.jobs = [] := by
        by_contra hne
        have hpos := List.length_pos_iff.mpr hne
        have hlast := (hw.newest (w.now.jobs.length - 1)).mpr (by omega)
        rw [hc] at hlast
        exact absurd hlast (by simp)
      rw [hnil]
      rfl
  | some i =>
      have hlast := (hw.newest i).mp hc
      have hi : i = w.now.jobs.length - 1 := by omega
      rw [hi]
      rfl

/-- If a job that must not be replaced is not over, a compilation is under way. -/
theorem isCompiling_of_open (hw : w.Sound) (hreject : w.now.config.admission = .reject) {i : Nat}
    {job : Job} (hjob : w.now.jobs[i]? = some job) (hopen : job.isTerminal = false) :
    w.now.isCompiling = true := by
  have hlast := hw.single hreject i job hjob hopen
  have hcurrent : w.now.currentJob? = some job := by
    rw [currentJob?_eq hw, List.getLast?_eq_getElem?, ← hlast]
    exact hjob
  rw [Supervisor.isCompiling, hcurrent, Option.any_some, hopen]
  rfl

/-- A new job is as new, and with those before it over it is the only one that
    is not. -/
theorem sound_spawn (hw : w.Sound) {source : List UInt8}
    (hjobs : v.now.jobs = w.now.jobs ++ [Job.start source])
    (hcurrent : v.now.current = some w.now.jobs.length) (hconfig : v.now.config = w.now.config)
    (hdeeds : v.deeds = w.deeds)
    (hadmitted : ¬ (w.now.isCompiling = true ∧ w.now.config.admission = .reject)) :
    v.Sound := by
  have hlength : v.now.jobs.length = w.now.jobs.length + 1 := by
    rw [hjobs, List.length_append, List.length_singleton]
  have hget : ∀ i job, v.now.jobs[i]? = some job →
      w.now.jobs[i]? = some job ∨ (i = w.now.jobs.length ∧ job = Job.start source) := by
    intro i job hi
    rw [hjobs] at hi
    by_cases hlt : i < w.now.jobs.length
    · rw [List.getElem?_append_left hlt] at hi
      exact .inl hi
    · have hlast := (List.getElem?_eq_some_iff.mp hi).1
      rw [List.length_append, List.length_singleton] at hlast
      have heq : i = w.now.jobs.length := by omega
      rw [heq, List.getElem?_concat_length] at hi
      exact .inr ⟨heq, (Option.some.inj hi).symm⟩
  refine ⟨fun i job hi => ?_, fun d hd => ?_, fun i => ?_, fun hreject i job hi hopen => ?_⟩
  · rw [desk, own_congr hdeeds]
    rcases hget i job hi with hold | ⟨heq, hnew⟩
    · exact hw.jobs i job hold
    · rw [own_eq_nil hw (Nat.le_of_eq heq.symm), hnew]
      rfl
  · rw [hdeeds] at hd
    have hlt := hw.deeds d hd
    omega
  · rw [hcurrent, hlength, Option.some.injEq, Nat.add_right_cancel_iff, eq_comm]
  · rw [hconfig] at hreject
    rcases hget i job hi with hold | ⟨heq, _⟩
    · exact absurd ⟨isCompiling_of_open hw hreject hold hopen, hreject⟩ hadmitted
    · rw [heq, hlength]

/-- Whatever happens, at most one more job is started and nothing is done to
    any; or something is done to one of them, and is noted of it. -/
theorem see_cases (hw : w.Sound) (work : Work) :
    (Admits w.now (w.see work).now ∧ (w.see work).deeds = w.deeds) ∨
      ∃ i deed job, w.now.jobs[i]? = some job ∧
        (w.see work).now.jobs = w.now.jobs.set i (job.deed deed) ∧
        (w.see work).now.current = w.now.current ∧ (w.see work).now.config = w.now.config ∧
        (w.see work).deeds = w.deeds ++ [(i, deed)] := by
  cases work with
  | setProject project => exact .inl ⟨.same ⟨rfl, rfl, rfl⟩, rfl⟩
  | elsewhere journal => exact .inl ⟨.same ⟨rfl, rfl, rfl⟩, rfl⟩
  | consume i deed =>
      rw [see]
      split
      next =>
        rw [doTo]
        split
        next => exact .inl ⟨.same ⟨rfl, rfl, rfl⟩, rfl⟩
        next job hjob => exact .inr ⟨i, deed, job, hjob, rfl, rfl, rfl, rfl⟩
      next => exact .inl ⟨.same ⟨rfl, rfl, rfl⟩, rfl⟩
  | poll =>
      rw [see, Supervisor.pollLogText]
      cases hc : w.now.current with
      | none =>
          rw [Option.map_none, Option.toList_none, List.append_nil]
          exact .inl ⟨.same ⟨rfl, rfl, rfl⟩, rfl⟩
      | some i =>
          have hlast := (hw.newest i).mp hc
          have hlt : i < w.now.jobs.length := by omega
          have hjob : w.now.jobs[i]? = some w.now.jobs[i] := List.getElem?_eq_getElem hlt
          dsimp only
          rw [hjob]
          exact .inr ⟨i, .poll, w.now.jobs[i], hjob, rfl, rfl, rfl, rfl⟩
  | act env action =>
      rw [see]
      cases hstep : w.now.step env action with
      | none => exact .inl ⟨.same ⟨rfl, rfl, rfl⟩, rfl⟩
      | some r =>
          dsimp only
          rcases (Supervisor.step_eq_some_iff.mp hstep).jobs with
            ⟨hnone, hadmits⟩ | ⟨i, deed, job, hdeed, hjob, hjobs, hcurrent, hconfig⟩
          · rw [hnone, Option.toList_none, List.append_nil]
            exact .inl ⟨hadmits, rfl⟩
          · rw [hdeed]
            exact .inr ⟨i, deed, job, hjob, hjobs, hcurrent, hconfig, rfl⟩

/-- Whatever happens, jobs are what was done to them. -/
theorem sound_see (hw : w.Sound) (work : Work) : (w.see work).Sound := by
  rcases see_cases hw work with
    ⟨hadmits, hdeeds⟩ | ⟨i, deed, job, hjob, hjobs, hcurrent, hconfig, hdeeds⟩
  · cases hadmits with
    | same h => exact hw.of_same h hdeeds
    | starts source hjobs hcurrent hconfig hadmitted =>
        exact sound_spawn hw hjobs hcurrent hconfig hdeeds hadmitted
  · exact sound_deed hw hjob hjobs hcurrent hconfig hdeeds

/-- Nothing changes the configuration, nor what the jobs that are there are
    made from. -/
theorem kept_see (hw : w.Sound) (work : Work) :
    (w.see work).now.config = w.now.config ∧
      w.now.jobs.map Job.source <+: (w.see work).now.jobs.map Job.source := by
  rcases see_cases hw work with ⟨hadmits, _⟩ | ⟨i, deed, job, hjob, hjobs, _, hconfig, _⟩
  · cases hadmits with
    | same h =>
        rw [h.jobs]
        exact ⟨h.config, List.prefix_rfl⟩
    | starts source hjobs hcurrent hconfig =>
        rw [hjobs, List.map_append]
        exact ⟨hconfig, List.prefix_append _ _⟩
  · refine ⟨hconfig, ?_⟩
    have hsame : (w.now.jobs.set i (job.deed deed)).map Job.source
        = w.now.jobs.map Job.source := by
      refine List.ext_getElem? fun k => ?_
      rw [List.getElem?_map, List.getElem?_map, List.getElem?_set]
      split
      next hk =>
        rw [if_pos (List.getElem?_eq_some_iff.mp hjob).1, ← hk, hjob, Option.map_some,
          Option.map_some, Job.source_deed]
      next => rfl
    rw [hjobs, hsame]

/-- However a run goes, jobs are what was done to them, and are made from what
    they were made from when they were started. -/
theorem sound_after (hw : w.Sound) (works : List Work) :
    (w.after works).Sound ∧ (w.after works).now.config = w.now.config ∧
      w.now.jobs.map Job.source <+: (w.after works).now.jobs.map Job.source := by
  induction works generalizing w with
  | nil => exact ⟨hw, rfl, List.prefix_rfl⟩
  | cons work rest ih =>
      rcases ih (sound_see hw work) with ⟨hsound, hconfig, hsources⟩
      have hkept := kept_see hw work
      exact ⟨hsound, hconfig.trans hkept.1, hkept.2.trans hsources⟩

/-- What is shown is the newest job's. -/
theorem Sound.shows (hw : w.Sound) {i : Nat} {job : Job} (hjob : w.now.jobs[i]? = some job)
    (hlast : i + 1 = w.now.jobs.length) : w.Shows i job.source := by
  have hdesk : job = (w.desk i job.source).job := hw.jobs i job hjob
  have hcurrent : w.now.currentJob? = some (w.desk i job.source).job := by
    rw [currentJob?_eq hw, List.getLast?_eq_getElem?, ← hlast, ← hdesk]
    exact hjob
  refine ⟨hcurrent, ?_, ?_⟩
  · exact (Supervisor.pollLogText_eq hcurrent).trans (Desk.poll_after _ _)
  · rw [Supervisor.compileReport, hcurrent, Option.bind_some]

/-- The requests of the calls that wait are known. -/
theorem recorded_see (hw : w.now.Recorded w.requests) (work : Work) :
    (w.see work).now.Recorded (w.see work).requests := by
  have hsame : ∀ {s : Supervisor}, s.calls = w.now.calls → s.Recorded w.requests :=
    fun hcalls id call hcall => hw id call ((Supervisor.call?_congr hcalls id).symm.trans hcall)
  cases work with
  | setProject project => exact hsame rfl
  | elsewhere journal => exact hsame rfl
  | consume i deed =>
      rw [see]
      split
      next =>
        rw [doTo]
        split
        next => exact hw
        next => exact hsame rfl
      next => exact hw
  | poll =>
      rw [see, Supervisor.pollLogText]
      split
      next => exact hw
      next =>
        split
        next => exact hw
        next => exact hsame rfl
  | act env action =>
      rw [see]
      split
      next => exact hw
      next s outcome hstep => exact (Supervisor.step_eq_some_iff.mp hstep).recorded hw

theorem recorded_after (hw : w.now.Recorded w.requests) (works : List Work) :
    (w.after works).now.Recorded (w.after works).requests := by
  induction works generalizing w with
  | nil => exact hw
  | cons work rest ih => exact ih (recorded_see hw work)

/-- A turn of a call to compile waits on or ends the call, whatever else has
    happened since the call was made. -/
theorem comes_step (hw : w.now.Recorded w.requests) {env : Surroundings} {action : Action}
    {id : Nat} {source : List UInt8} {r : Supervisor × Option Outcome}
    (hcompiles : w.Compiles action id source) (h : Steps env w.now action r) :
    Leg.Comes source id ⟨w.now, w.now.told (.act env action), r.1⟩ r.2 :=
  Supervisor.leg_step h hcompiles.1 (h.made hw hcompiles.1 hcompiles.2)

/-- The job that a call to compile has started is shown as long as it is the
    newest, and what is shown of it is what was done to it since. -/
theorem shows_accepted (hw : w.Sound) {env : Surroundings} {action : Action} {source : List UInt8}
    {r : Supervisor × Option Outcome} (hstep : w.now.step env action = some r)
    (hjobs : r.1.jobs = w.now.jobs ++ [Job.start source]) :
    (w.see (.act env action)).own w.now.jobs.length = [] ∧
      ∀ later, ((w.see (.act env action)).after later).now.jobs.length = w.now.jobs.length + 1 →
        ((w.see (.act env action)).after later).Shows w.now.jobs.length source := by
  have hnow : (w.see (.act env action)).now = r.1 := by
    rw [see, hstep]
  have hlast : w.now.jobs.length < r.1.jobs.length := by
    rw [hjobs, List.length_append]
    exact Nat.lt_succ_self _
  refine ⟨?_, fun later hlength => ?_⟩
  · -- Something done to a job does not make their number grow, so nothing was done.
    rcases see_cases hw (.act env action) with ⟨_, hdeeds⟩ | ⟨i, deed, job, _, hset, _⟩
    · rw [own_congr hdeeds]
      exact own_eq_nil hw (Nat.le_refl _)
    · rw [← hnow, hset, List.length_set] at hlast
      exact absurd hlast (Nat.lt_irrefl _)
  · rcases sound_after (sound_see hw (.act env action)) later with ⟨hsound, _, hsources⟩
    -- The job may have been read from since, but it is made from the same source.
    have hsource : (((w.see (.act env action)).after later).now.jobs.map
        Job.source)[w.now.jobs.length]? = some source := by
      rcases hsources with ⟨more, hmore⟩
      rw [← hmore, hnow, hjobs, List.map_append, List.getElem?_append_left (by simp),
        ← List.length_map (f := Job.source), List.map_singleton, List.getElem?_concat_length]
      rfl
    rw [List.getElem?_map] at hsource
    rcases Option.map_eq_some_iff.mp hsource with ⟨job, hjob, rfl⟩
    exact hsound.shows hjob hlength.symm

/-- If a compilation must not be replaced, at most one job ever started is not
    over. As long as one is not, a compilation that is asked for is refused at
    once and leaves everything as it is; and a call to compile that has been
    waiting is refused at its next turn and leaves the jobs as they are, unless
    it is given up.

    In any case a call to compile that is acknowledged has started a job. It is
    the newest and the current one, and nothing has been done to it. As long as
    no other is started, it is what is shown, and what is shown of it is what
    was done to it since. A turn that acknowledges nothing leaves the jobs as
    they are. What is shown at any time is the newest job's. -/
theorem single_flight (config : Config) (works : List Work) :
    let w := (start config).after works
    (config.admission = .reject →
      (∀ (i k : Nat) (a b : Job), w.now.jobs[i]? = some a → w.now.jobs[k]? = some b →
        a.isTerminal = false → b.isTerminal = false → i = k) ∧
      ∀ job ∈ w.now.jobs, job.isTerminal = false →
        (∀ (env : Surroundings) (id : Nat) (source : List UInt8), w.now.call? id = none →
          w.now.step env (.begin id (.compile source))
            = some (w.now, some (.acknowledged (.error .compileInProgress)))) ∧
        ∀ env action id source r, w.Compiles action id source → action ≠ .abandon id →
          w.now.step env action = some r → Refused r.2 ∧ SameJobs w.now r.1) ∧
    (∀ env action id source r, w.Compiles action id source →
      w.now.step env action = some r →
      (Acknowledged r.2 →
        r.1.jobs = w.now.jobs ++ [Job.start source] ∧
        r.1.current = some w.now.jobs.length ∧
        (w.see (.act env action)).own w.now.jobs.length = [] ∧
        ∀ later, ((w.see (.act env action)).after later).now.jobs.length
            = w.now.jobs.length + 1 →
          ((w.see (.act env action)).after later).Shows w.now.jobs.length source) ∧
      (¬ Acknowledged r.2 → SameJobs w.now r.1)) ∧
    ∀ job, w.now.jobs.getLast? = some job → w.Shows (w.now.jobs.length - 1) job.source := by
  intro w
  rcases sound_after (sound_start config) works with ⟨hw, hconfig, _⟩
  have hrecorded : w.now.Recorded w.requests :=
    recorded_after (fun id call h => absurd h (by simp [start, Supervisor.initial,
      Supervisor.call?])) works
  refine ⟨fun hreject => ?_, fun env action id source r hcompiles hstep => ?_, fun job hjob => ?_⟩
  · have hreject : w.now.config.admission = .reject := hconfig ▸ hreject
    refine ⟨fun i k a b ha hb haopen hbopen => ?_, fun job hmem hopen => ?_⟩
    · have hi := hw.single hreject i a ha haopen
      have hk := hw.single hreject k b hb hbopen
      omega
    · rcases List.mem_iff_getElem?.mp hmem with ⟨i, hi⟩
      have hcompiling := isCompiling_of_open hw hreject hi hopen
      refine ⟨fun env id source hnone => ?_, fun env action id source r hcompiles hkept hstep => ?_⟩
      · have hfree : ¬ (w.now.call? id).isSome = true := by
          rw [hnone]
          exact Bool.false_ne_true
        rw [Supervisor.step, if_neg hfree, Supervisor.begin_refused id source hcompiling hreject,
          Supervisor.without_of_none hnone]
      · -- What counts is that the job is there now, and not when the call was made.
        have hsteps := Supervisor.step_eq_some_iff.mp hstep
        have hcomes := comes_step hrecorded hcompiles hsteps
        rcases hcomes.refused ⟨hcompiling, hreject⟩ with ⟨hover, hnone | hrefused⟩
        · exact absurd (hsteps.abandoned hcompiles.1 hover hnone) hkept
        · exact ⟨hrefused, hcomes.unacknowledged (not_acknowledged_of_refused hrefused)⟩
  · have hcomes := comes_step hrecorded hcompiles (Supervisor.step_eq_some_iff.mp hstep)
    refine ⟨fun hok => ?_, hcomes.unacknowledged⟩
    rcases hcomes.acknowledged hok with ⟨hjobs, hcurrent⟩
    exact ⟨hjobs, hcurrent, shows_accepted hw hstep hjobs⟩
  · have hget : w.now.jobs[w.now.jobs.length - 1]? = some job := by
      rw [← List.getLast?_eq_getElem?]
      exact hjob
    have hlast : w.now.jobs.length - 1 + 1 = w.now.jobs.length := by
      have hlt := (List.getElem?_eq_some_iff.mp hget).1
      omega
    exact hw.shows hget hlast

/-- A moment at which everything can be launched. -/
def quiet : Surroundings :=
  ⟨0, .ok none, fun _ => .ok none⟩

/-- The reader of a job reads a line of one character and queues it. -/
def readsLine (job : Nat) (byte : UInt8) : List Work :=
  [.act quiet (.output job (.byte byte)), .act quiet (.output job (.byte LogStream.newline)),
    .act quiet (.write job), .act quiet (.write job)]

/-- A job that may be replaced has queued a line. -/
def replaceable : Workshop :=
  (start { admission := .replace }).after
    (.act quiet (.begin 0 (.compile [0x61])) :: readsLine 0 0x78)

/-- Two calls to compile have asked the engine to quit, and one of them has gone
    on. -/
def overtaken : Workshop :=
  (start {}).after [.act quiet (.begin 0 .start), .act quiet (.begin 1 (.compile [0x61])),
    .act quiet (.begin 2 (.compile [0x62])), .act quiet (.reply 1 (.ok ""))]

/-- A job is replaced, and when the readers of both have read a line, the line
    of the new job is shown. And the call that was overtaken is refused. -/
theorem single_flight_twice :
    (let second := replaceable.see (.act quiet (.begin 1 (.compile [0x62])))
      let third := second.after (readsLine 0 0x79 ++ readsLine 1 0x7A)
      replaceable.now.isCompiling = true ∧ replaceable.now.pollLogText.1 = "x\n" ∧
        second.own 1 = [] ∧ third.Shows 1 [0x62] ∧ third.now.pollLogText.1 = "z\n") ∧
      overtaken.now.isCompiling = true ∧
        ∃ r, overtaken.now.step quiet (.reply 2 (.ok "")) = some r ∧ Refused r.2 ∧
          SameJobs overtaken.now r.1 := by
  constructor
  · intro second third
    rcases single_flight { admission := .replace }
      (.act quiet (.begin 0 (.compile [0x61])) :: readsLine 0 0x78) with ⟨_, hturns, _⟩
    have houtcome : (replaceable.now.step quiet (.begin 1 (.compile [0x62]))).map Prod.snd
        = some (some (.acknowledged (.ok ()))) := by decide +kernel
    rcases Option.map_eq_some_iff.mp houtcome with ⟨r, hstep, hok⟩
    rcases (hturns quiet _ 1 [0x62] r ⟨rfl, rfl⟩ hstep).1 hok with ⟨_, _, hown, hshows⟩
    -- The reader of the first job has queued a line since, and it is not shown.
    have hthird : third.Shows 1 [0x62] := hshows _ (by decide +kernel)
    exact ⟨by decide +kernel, by decide +kernel, hown, hthird,
      hthird.text.trans (by decide +kernel)⟩
  · rcases single_flight {} [.act quiet (.begin 0 .start),
      .act quiet (.begin 1 (.compile [0x61])), .act quiet (.begin 2 (.compile [0x62])),
      .act quiet (.reply 1 (.ok ""))] with ⟨hrejects, _⟩
    have hjob : Job.start [0x61] ∈ overtaken.now.jobs := by decide +kernel
    have hrequest : overtaken.requests 2 = some (.compile [0x62]) := by decide +kernel
    have hwaits : (overtaken.now.step quiet (.reply 2 (.ok ""))).isSome = true := by
      decide +kernel
    rcases Option.isSome_iff_exists.mp hwaits with ⟨r, hstep⟩
    have hturn := ((hrejects rfl).2 _ hjob rfl).2 quiet (.reply 2 (.ok "")) 2 [0x62] r
      ⟨rfl, hrequest⟩ (by simp) hstep
    exact ⟨by decide +kernel, r, hstep, hturn⟩

end Workshop

end SoftPlc
