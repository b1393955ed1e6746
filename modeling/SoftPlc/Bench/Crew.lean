import SoftPlc.Lane

/-!
# Subscribers at work

The workers behind the lanes, and the order in which they get to run. A worker
that finds its queue empty sleeps, and is woken by the next event queued for
it; one whose subscriber is gated also sleeps with an event in hand, and is
woken by a permit. Woken workers run one after the other in the order in which
they were woken, each until it has to sleep again. At first all of them are
due to run.

What a subscriber has handled since it was last asked is kept, newest first.

## Main definitions

* `Post`: One subscriber's gate and what it has seen.
* `Crew`: All posts, and who is woken.
* `Crew.noticeArrivals`: Waking those for whom something was queued.
* `Crew.run`: The woken workers run.
-/

namespace SoftPlc.Bench

/-- A subscriber at work. -/
structure Post where
  /-- How many events it may still handle; `none` if it is not gated. -/
  gate : Option Nat := none
  /-- What it has handled since it was last asked, newest first. -/
  seen : List Event := []
  deriving Repr, Inhabited

/-- The subscribers at work, lane by lane. -/
structure Crew where
  posts : List Post
  /-- The lanes whose workers are due to run, in order. -/
  woken : List Nat
  deriving Repr, Inhabited

namespace Crew

/-- A crew that has not begun to work. -/
def ofPosts (posts : List Post) : Crew :=
  ⟨posts, List.range posts.length⟩

/-- Wakes a worker that is not due to run already. -/
def wake (c : Crew) (i : Nat) : Crew :=
  if c.woken.contains i then c else { c with woken := c.woken ++ [i] }

/-- The worker sleeps for want of events. -/
def isIdle (l : Lane) : Bool :=
  l.inHand.isNone && l.queue.isEmpty

/-- Wakes the workers whose queues were empty before and are not now. -/
def noticeArrivals (c : Crew) (before after : List Lane) : Crew :=
  ((before.zip after).zipIdx).foldl
    (fun c ((old, new), i) => if isIdle old && !new.queue.isEmpty then c.wake i else c) c

/-- One worker runs until it has to sleep, for at most so many steps. -/
def work : Nat → Lane × Post × Journal → Lane × Post × Journal
  | 0, now => now
  | steps + 1, (l, p, j) =>
    match l.inHand with
    | none => if l.queue.isEmpty then (l, p, j) else work steps (l.take, p, j)
    | some e =>
      match p.gate with
      | some 0 => (l, p, j)
      | gate =>
        let (l, j) := l.handle j
        work steps (l, ⟨gate.map (· - 1), e :: p.seen⟩, j)

/-- One worker runs until it has to sleep. Every event takes two steps. -/
def runOne (i : Nat) (lanes : List Lane) (c : Crew) (j : Journal) : List Lane × Crew × Journal :=
  match lanes[i]?, c.posts[i]? with
  | some lane, some post =>
    let (lane, post, j) := work (2 * lane.queue.length + 2) (lane, post, j)
    (lanes.set i lane, { c with posts := c.posts.set i post }, j)
  | _, _ => (lanes, c, j)

/-- The woken workers run, each until it has to sleep. -/
def run (lanes : List Lane) (c : Crew) (j : Journal) : List Lane × Crew × Journal :=
  c.woken.foldl (fun (lanes, c, j) i => runOne i lanes c j) (lanes, { c with woken := [] }, j)

/-- Gives a gated subscriber permits. -/
def permit (c : Crew) (lanes : List Lane) (i permits : Nat) : Crew :=
  match c.posts[i]?, lanes[i]? with
  | some post, some lane =>
    let c := { c with posts := c.posts.set i { post with gate := post.gate.map (· + permits) } }
    if lane.inHand.isSome && permits > 0 then c.wake i else c
  | _, _ => c

/-- Takes all gates away. -/
def openGates (c : Crew) (lanes : List Lane) : Crew :=
  let blocked := (lanes.zipIdx.filter fun (l, _) => l.inHand.isSome).map (·.2)
  blocked.foldl wake { c with posts := c.posts.map fun p => { p with gate := none } }

/-- What each subscriber has handled since it was last asked, oldest first. -/
def report (c : Crew) : List (List Event) × Crew :=
  (c.posts.map fun p => p.seen.reverse,
    { c with posts := c.posts.map fun p => { p with seen := [] } })

/-- Every worker has run and sleeps, and has nothing in hand. -/
def isDone (c : Crew) (lanes : List Lane) : Bool :=
  c.woken.isEmpty && lanes.all isIdle

end Crew

end SoftPlc.Bench
