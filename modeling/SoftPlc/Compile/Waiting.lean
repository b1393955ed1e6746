import SoftPlc.Compile.LogStream
import SoftPlc.Duration

/-!
# Waiting for a line

A consumer that wants a line may wait for one. It registers for the reader's
signal first and looks at the queue and the flag afterwards, so a line that
is queued between its look and its wait still wakes it. These steps can be
interleaved with the reader's writes at any point, which is why each is a
step of its own.

A signal wakes everyone who waits, and whoever looks first gets the line; the
others register again. When the flag is up the queue is looked at once more,
for a line that was queued between the two looks. The same last look is made
when the time is up. A read that must not wait makes no other look.

## Main definitions

* `WaitPhase`: Where a waiting read stands.
* `LogStream.beginRead`: Where a read stands first.
* `LogStream.waitStep`: Its next step.
* `LogStream.attempt`: Its steps until it must wait or is done.
* `LogStream.expire`: Its last look when the time is up.
-/

namespace SoftPlc

/-- Where a read that may wait stands. -/
inductive WaitPhase where
  | registering
  /-- Look at the queue. -/
  | looking
  /-- Look at the flag. -/
  | checking
  /-- Look at the queue once more. -/
  | lookingAgain
  | parked
  | done (line : Option LogLine)
  deriving DecidableEq, Repr, Inhabited

namespace LogStream

/-- Takes a consumer off the list of those who wait. -/
def leave (s : LogStream) (id : Nat) : LogStream :=
  { s with waiters := s.waiters.filter fun w => w.id != id }

/-- Puts a consumer at the end of the list of those who wait. -/
def register (s : LogStream) (id : Nat) : LogStream :=
  { s.leave id with waiters := (s.leave id).waiters ++ [⟨id, false⟩] }

/-- The consumer has been signalled since it registered. -/
def isSignalled (s : LogStream) (id : Nat) : Bool :=
  s.waiters.any fun w => w.id == id && w.signalled

/-- A read begins that may wait so long. It registers first, unless it may not
    wait at all: then it takes what there is and is done. -/
def beginRead (s : LogStream) (timeout : Duration) : LogStream × WaitPhase :=
  if timeout.nanos = 0 then
    let (line, s) := s.next?
    (s, .done line)
  else (s, .registering)

/-- The next step of a waiting read. A parked one goes on only when it has
    been signalled. -/
def waitStep (s : LogStream) (id : Nat) : WaitPhase → LogStream × WaitPhase
  | .registering => (s.register id, .looking)
  | .looking =>
    match s.next? with
    | (some line, s) => (s.leave id, .done (some line))
    | (none, s) => (s, .checking)
  | .checking => (s, if s.raised then .lookingAgain else .parked)
  | .lookingAgain =>
    -- The last line may have been queued after the first look.
    let (line, s) := s.next?
    (s.leave id, .done line)
  | .parked => if s.isSignalled id then (s, .registering) else (s, .parked)
  | .done line => (s, .done line)

/-- The steps of a read that starts, or goes on after a signal, until it is
    parked or done: registering, two looks at most, and the flag. -/
def attempt (s : LogStream) (id : Nat) : LogStream × WaitPhase :=
  let (s, p) := s.waitStep id .registering
  let (s, p) := s.waitStep id p
  match p with
  | .done line => (s, .done line)
  | p =>
    let (s, p) := s.waitStep id p
    match p with
    | .parked => (s, .parked)
    | p => s.waitStep id p

/-- The time of a parked read is up: it looks at the queue a last time. -/
def expire (s : LogStream) (id : Nat) : Option LogLine × LogStream :=
  let (line, s) := s.next?
  (line, s.leave id)

end LogStream

end SoftPlc
