import SoftPlc.Address
import SoftPlc.Bus
import SoftPlc.Control.Reply
import SoftPlc.Duration

/-!
# Configuration

Where the engine's control port is, how engine and compiler are launched, how
patient the supervisor is, and what it does with a compile request that comes
while another is being served.

Settings with a floor are stored as they were given and read through an
accessor that applies the floor: a time limit of zero would make every
exchange fail, and a bus without room could carry nothing. A grace period of
zero means that there is none.

## Main definitions

* `Admission`: What becomes of a second compile request.
* `Config`: The settings, with their defaults.
-/

namespace SoftPlc

/-- What becomes of a compile request while another is being served. -/
inductive Admission where
  /-- It is refused. -/
  | reject
  /-- It takes the place of the one being served. -/
  | replace
  deriving DecidableEq, Repr, Inhabited

/-- The label of a policy. -/
def Admission.label : Admission → String
  | reject => "Reject"
  | replace => "Replace"

/-- A program and the arguments it is always given; all are bytes. -/
structure Launcher where
  program : List UInt8
  arguments : List (List UInt8) := []
  deriving DecidableEq, Repr, Inhabited

/-- The settings of a supervisor. -/
structure Config where
  controlAddress : Address := .v4 [127, 0, 0, 1] 43628
  connectTimeout : Duration := .ofMillis 3000
  ioTimeout : Duration := .ofMillis 3000
  engine : Launcher := ⟨Text.Utf8.encode "./core/openplc", []⟩
  /-- The source file is given after the other arguments. -/
  compiler : Launcher := ⟨Text.Utf8.encode "./scripts/compile_program.sh", []⟩
  /-- Where both run; unless given, where the supervisor runs. -/
  workingDirectory : Option (List UInt8) := none
  /-- For how long after a start the engine is believed without a probe. -/
  startupGrace : Duration := .ofMillis 1000
  busCapacity : Nat := 1024
  admission : Admission := .reject
  deriving DecidableEq, Repr, Inhabited

namespace Config

/-- The port engines take commands on. -/
def defaultControlPort : Nat := 43628

/-- The least time limit that is honoured. -/
def leastTimeout : Duration := .ofMillis 1

/-- The grace period, if there is one. -/
def grace? (c : Config) : Option Duration :=
  if c.startupGrace.nanos = 0 then none else some c.startupGrace

/-- The time limit for connecting. -/
def connectLimit (c : Config) : Duration :=
  leastTimeout.atLeast c.connectTimeout

/-- The time limit for each write and read. -/
def ioLimit (c : Config) : Duration :=
  leastTimeout.atLeast c.ioTimeout

/-- How many events the bus is asked to retain. -/
def busSize (c : Config) : Nat :=
  max c.busCapacity 1

/-- The client with which the engine is talked to. -/
def client (c : Config) : Client :=
  ⟨c.controlAddress, c.connectLimit, c.ioLimit⟩

end Config

end SoftPlc
