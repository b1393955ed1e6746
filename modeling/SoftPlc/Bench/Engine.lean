import SoftPlc.Control.Reply

/-!
# A played engine

The engine's side of the control port, for trying the supervisor out without
an engine. A reaction says what the engine does with one request: it sends
some chunks and then closes, resets or keeps silent. A reaction can be held,
so that other things happen while a reply is owed. A playbook assigns
reactions to requests by their text.

What the client experiences of a reaction is an `Exchange`, the same record of
outcomes that its reading is defined on. Between the client and the engine
lies a network, which may have no route to the engine at all. Then every
attempt to connect fails at once, without any waiting, and the engine never
hears of it.

## Main definitions

* `Reaction`: What the engine does with a request.
* `Playbook.serve`: The reaction to the next request with a given text.
* `Network`: What lies between the client and the engine.
* `Reaction.exchange`: What the client experiences.
* `patience`: How long it takes.
-/

namespace SoftPlc.Bench

/-- What the engine does after its last chunk. -/
inductive Ending where
  | close
  | reset
  /-- The connection stays open and silent. -/
  | hang
  deriving DecidableEq, Repr, Inhabited

/-- What the engine does with a request. -/
structure Reaction where
  chunks : List (List UInt8) := []
  ending : Ending := .close
  /-- Nothing happens until the reaction is released. -/
  held : Bool := false
  /-- How many bytes of the request are read, if not all. -/
  readsOnly : Option Nat := none
  deriving DecidableEq, Repr, Inhabited

/-- The reactions to each request text, in turn; the last one stays. -/
structure Playbook where
  entries : List (String × List Reaction) := []
  deriving DecidableEq, Repr, Inhabited

namespace Playbook

/-- The name of the entry for requests without one of their own. -/
def anyOther : String := "*"

/-- The reaction to a request that the playbook says nothing about. -/
def acknowledgement : Reaction :=
  { chunks := [Text.Utf8.encode "OK\n"] }

/-- The entry that a request text falls under. -/
def entryFor (p : Playbook) (text : String) : Option (String × List Reaction) :=
  (p.entries.find? fun e => e.1 == text) <|> p.entries.find? fun e => e.1 == anyOther

/-- The reaction to the next request with a given text. -/
def serve (p : Playbook) (text : String) : Reaction × Playbook :=
  match p.entryFor text with
  | none => (acknowledgement, p)
  | some (_, []) => (acknowledgement, p)
  -- The last reaction serves all further requests.
  | some (_, [last]) => (last, p)
  | some (name, first :: rest) =>
    (first, ⟨p.entries.map fun e => if e.1 == name then (name, rest) else e⟩)

end Playbook

/-- Whether the network leads to the engine's host. -/
inductive Route where
  | absent
  | present
  deriving DecidableEq, Repr, Inhabited

/-- What happens at the engine's port when somebody connects. -/
inductive Port where
  | listening
  | refusing
  /-- Attempts to connect get no answer. -/
  | silent
  deriving DecidableEq, Repr, Inhabited

/-- What lies between the client and the engine. -/
structure Network where
  route : Route
  port : Port := .listening
  deriving DecidableEq, Repr, Inhabited

/-- What an attempt to connect comes to. -/
def Network.dial (n : Network) : Attempt :=
  match n.route, n.port with
  | .absent, _ => .failed .noRoute
  | .present, .listening => .completed
  | .present, .refusing => .failed .connectionRefused
  | .present, .silent => .timedOut

/-- The client need not wait to learn what became of its attempt. -/
def Network.answersAtOnce (n : Network) : Bool :=
  n.route == .absent

/-- How many bytes of a request are accepted on the way to an engine that does
    not read them. -/
def socketRoom : Nat := 4194304

namespace Reaction

/-- Some of the request is left unread, so that closing the connection resets
    it. -/
def leavesUnread (r : Reaction) (requestSize : Nat) : Bool :=
  match r.readsOnly with
  | some n => n < requestSize
  | none => false

/-- How the connection ends, for the client. -/
def lastRead (r : Reaction) (requestSize : Nat) : ReadOutcome :=
  match r.ending with
  | .close => if r.leavesUnread requestSize then .failed .connectionReset else .closed
  | .reset => .failed .connectionReset
  | .hang => .timedOut

/-- What becomes of writing the request. -/
def write (r : Reaction) (requestSize : Nat) : Attempt :=
  if requestSize ≤ (r.readsOnly.getD requestSize) + socketRoom then .completed
  else match r.ending with
    | .hang => .timedOut
    | _ => .failed .connectionReset

/-- What the client experiences of a reaction. -/
def exchange (r : Reaction) (requestSize : Nat) : Exchange where
  dial := .completed
  write := r.write requestSize
  reads := (r.chunks.filter fun c => !c.isEmpty).map .data ++ [r.lastRead requestSize]

end Reaction

/-- What the client experiences when it cannot connect. -/
def unconnected (dial : Attempt) : Exchange :=
  ⟨dial, .completed, []⟩

/-- How long a client takes over an exchange. Only silence takes time, and the
    first silence ends it. -/
def patience (client : Client) (limit : Nat) (e : Exchange) : Duration :=
  match e.dial, e.write with
  | .timedOut, _ => client.connectTimeout
  | .completed, .timedOut => client.ioTimeout
  | .completed, .completed =>
    match (Client.collect (max limit 1) [] e.reads).2 with
    | .timedOut => client.ioTimeout
    | _ => ⟨0⟩
  | _, _ => ⟨0⟩

/-- How the engine tells what it has read of a request. -/
def Reaction.account (r : Reaction) (text : String) : String :=
  match r.readsOnly with
  | some n => "<" ++ toString n ++ " bytes>"
  | none => text ++ "\n"

end SoftPlc.Bench
