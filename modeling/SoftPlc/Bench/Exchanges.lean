import SoftPlc.Bench.Engine

/-!
# Trying out the client

A series of exchanges, each with an engine that reacts in its own way, and
what the client makes of each together with what the engine heard.

## Main definitions

* `ClientCall`: One exchange to try.
* `ClientCall.run`: Its result and what the engine heard.
-/

namespace SoftPlc.Bench

/-- What the client is asked to do. -/
inductive ClientTask where
  /-- Send a command and return the reply. -/
  | send (command : Command)
  /-- Send a text and return so many bytes of the reply. -/
  | sendText (text : String) (limit : Nat)
  /-- Ask for the uptime. -/
  | seconds
  deriving DecidableEq, Repr, Inhabited

/-- The text that is sent. -/
def ClientTask.text : ClientTask → String
  | send command => command.wire
  | sendText text _ => text
  | seconds => Command.execTime.wire

/-- How many bytes of the reply are read. -/
def ClientTask.limit : ClientTask → Nat
  | send command => command.replyLimit
  | sendText _ limit => limit
  | seconds => Command.execTime.replyLimit

/-- One exchange to try. -/
structure ClientCall where
  task : ClientTask
  reaction : Reaction
  network : Network
  deriving DecidableEq, Repr, Inhabited

/-- What an exchange came to. -/
structure ClientResult where
  result : Except ControlError String
  /-- The requests that the engine heard. -/
  heard : List String

namespace ClientCall

/-- What the client experiences. -/
def exchange (c : ClientCall) : Exchange :=
  match c.network.dial with
  | .completed => c.reaction.exchange (Client.request c.task.text).length
  | dial => unconnected dial

/-- The result of an exchange; the uptime is shown in decimal digits. -/
def run (client : Client) (c : ClientCall) : ClientResult :=
  let reply := client.conclude c.task.limit c.exchange
  let result := match c.task with
    | .seconds => (reply.bind readSeconds).map toString
    | _ => reply
  let heard := match c.network.dial with
    | .completed => [c.reaction.account c.task.text]
    | _ => []
  ⟨result, heard⟩

end ClientCall

end SoftPlc.Bench
