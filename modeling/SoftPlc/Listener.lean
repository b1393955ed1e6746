import SoftPlc.Lane

/-!
# The listener

What carries events from the bus to the lanes. It receives from the bus like
anyone else and delivers what it gets; what it missed because the bus overran
it is gone. When the background work is told to end it changes over to
draining: it delivers what it can still receive, and closes the lanes at the
first attempt that brings no event. The lanes' workers then finish what is
queued.

Telling it to end and an event that is ready may come together, and the
listener may take either first. So both steps are possible while it forwards.

The listener and the workers behind the lanes run side by side, and whatever
the lanes and the workers report is published on the very bus that the
listener receives from. `Listener.step` is one step of all that, so any
interleaving of them with anything that is published is a list of actions.

## Main definitions

* `Listener`: Where it stands, with the lanes.
* `Listener.forward`: One receipt before the end.
* `Listener.stop`: The end is noticed.
* `Listener.drain`: One receipt after it.
* `DeliveryAction`: Something that happens between the bus and a subscriber.
* `Listener.step`: What comes of it.
-/

namespace SoftPlc

/-- Where the listener stands. -/
inductive ListenerPhase where
  | forwarding
  /-- The end has been noticed. -/
  | draining
  /-- The lanes are closed. -/
  | ended
  deriving DecidableEq, Repr, Inhabited

/-- The listener and the lanes it delivers to. -/
structure Listener where
  /-- Its receiver on the bus. -/
  receiver : Nat
  lanes : List Lane
  phase : ListenerPhase := .forwarding
  deriving Inhabited

/-- The listener together with the journal it receives from. -/
abbrev Listener.WithJournal := Listener × Journal

namespace Listener

/-- Delivers an event. -/
def deliver (l : Listener) (e : Event) (j : Journal) : WithJournal :=
  let (lanes, j) := emit l.lanes e j
  ({ l with lanes }, j)

/-- One receipt while the listener forwards; `none` if there is nothing to
    receive. -/
def forward : WithJournal → Option WithJournal
  | (l, j) =>
    if l.phase = .forwarding then
      match j.bus.receive l.receiver with
      | (.event e, bus) => some (l.deliver e { j with bus })
      | (.lagged _, bus) => some (l, { j with bus })
      | (.closed, _) => some ({ l with phase := .draining }, j)
      | (.empty, _) => none
    else none

/-- The listener notices that it is to end. -/
def stop (l : Listener) : Listener :=
  if l.phase = .forwarding then { l with phase := .draining } else l

/-- One receipt while the listener drains. The first that brings no event
    closes the lanes, and the listener's receiver leaves the bus. -/
def drain : WithJournal → Option WithJournal
  | (l, j) =>
    if l.phase = .draining then
      match j.bus.receive l.receiver with
      | (.event e, bus) => some (l.deliver e { j with bus })
      | (_, bus) =>
        some ({ l with phase := .ended, lanes := l.lanes.map Lane.close },
          { j with bus := bus.unsubscribe l.receiver })
    else none

/-- One receipt in whatever phase the listener is. -/
def receive (now : WithJournal) : Option WithJournal :=
  match now.1.phase with
  | .forwarding => forward now
  | .draining => drain now
  | .ended => none

end Listener

/-- Something that happens between the bus and a subscriber. -/
inductive DeliveryAction where
  /-- Something is published from outside. -/
  | publish (notice : Notice)
  /-- The listener receives. -/
  | receive
  /-- The listener notices that it is to end. -/
  | stop
  /-- The worker of a lane takes an event off its queue. -/
  | take (lane : Nat)
  /-- The worker of a lane hands over the event it has taken. -/
  | handle (lane : Nat)
  deriving DecidableEq, Repr, Inhabited

namespace Listener

/-- What comes of an action; `none` if it cannot happen. -/
def step : WithJournal → DeliveryAction → Option WithJournal
  | (l, j), .publish notice => some (l, j.publish notice)
  | now, .receive => receive now
  | (l, j), .stop => if l.phase = .forwarding then some (l.stop, j) else none
  | (l, j), .take i => do
    let lane ← l.lanes[i]?
    if lane.inHand.isNone && !lane.queue.isEmpty then
      some ({ l with lanes := l.lanes.set i lane.take }, j)
    else none
  | (l, j), .handle i => do
    let lane ← l.lanes[i]?
    if lane.inHand.isSome then
      let (lane, j) := lane.handle j
      some ({ l with lanes := l.lanes.set i lane }, j)
    else none

end Listener

end SoftPlc
