import SoftPlc.Control.Command

/-!
# Status, project and service settings

What the console in front of the supervisor shows and stores: the status of
the runtime, the sentences that stand in for an answer when there is none, the
description of the program at hand, and which services are to run.

## Main definitions

* `RuntimeStatus`: The state of the runtime, as seen from outside.
* `Project`: The program that is compiled or run.
* `ServiceSettings`: Which services are to run, and where.
-/

namespace SoftPlc

/-- The state of the runtime, as seen from outside. -/
inductive RuntimeStatus where
  | stopped
  | running
  | compiling
  /-- A liveness probe is under way. -/
  | unknown
  deriving DecidableEq, Repr, Inhabited

namespace RuntimeStatus

/-- The label shown in the console. -/
def label : RuntimeStatus → String
  | stopped => "Stopped"
  | running => "Running"
  | compiling => "Compiling"
  | unknown => "Unknown"

/-- Shown when the engine cannot be reached or answered nonsense. -/
def unreachableText : String := "Error connecting to OpenPLC runtime"

/-- Shown for the uptime of an engine that is not running. -/
def notAvailableText : String := "N/A"

/-- Shown for the log of an engine that is not running. -/
def notRunningText : String := "OpenPLC Runtime is not running"

end RuntimeStatus

/-- The program that is compiled or run. -/
structure Project where
  name : String := ""
  description : String := ""
  file : String := ""
  deriving DecidableEq, Repr, Inhabited

/-- Which services are to run, and with which port or period. -/
structure ServiceSettings where
  modbus : Option UInt32 := none
  dnp3 : Option UInt32 := none
  enip : Option UInt32 := none
  pstorage : Option UInt32 := none
  deriving DecidableEq, Repr, Inhabited

/-- The setting of each service, in the order in which they are applied. -/
def ServiceSettings.toList (s : ServiceSettings) : List (Service × Option UInt32) :=
  [(.modbus, s.modbus), (.dnp3, s.dnp3), (.enip, s.enip), (.pstorage, s.pstorage)]

end SoftPlc
