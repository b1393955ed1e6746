/-!
# Control commands

The vocabulary of the engine's control port. A connection carries one command
as a line of text and one reply. Five commands exist: two queries, the order
to quit, and the pair that starts and stops one of the engine's fieldbus
services. Starting takes one number, which is a port for the three protocols
and a period in seconds for persistent storage.

A command is written as a call: a name, and between parentheses its number or
nothing. No command contains a newline, and the names of commands that differ
in more than their number are different, so the line on the wire determines
the command.

## Main definitions

* `Service`: A fieldbus service of the engine.
* `Command`: A request to the engine.
* `Command.wire`: The text of a command, without its newline.
* `Command.ofWire?`: The command that a line is the text of.
* `Command.replyLimit`: How many bytes of a reply are read.

## Theorems

* `Command.wire_injective`: Different commands have different texts.
* `Command.ofWire?_eq_some_iff`: A line is read as the command it is the text
  of, and no other line is read.
-/

namespace SoftPlc

/-- A fieldbus service of the engine. -/
inductive Service where
  | modbus
  | dnp3
  | enip
  | pstorage
  deriving DecidableEq, Repr, Inhabited

namespace Service

/-- The name of a service, which is also how commands refer to it. -/
def name : Service → String
  | modbus => "modbus"
  | dnp3 => "dnp3"
  | enip => "enip"
  | pstorage => "pstorage"

/-- Every service. -/
def all : List Service :=
  [modbus, dnp3, enip, pstorage]

theorem mem_all (service : Service) : service ∈ all := by
  cases service <;> decide

end Service

/-- A request to the engine. -/
inductive Command where
  /-- For how many seconds has the engine run? Also the liveness probe. -/
  | execTime
  /-- Leave. -/
  | quit
  /-- Start a service with its port or period. -/
  | start (service : Service) (value : UInt32)
  /-- Stop a service. -/
  | stop (service : Service)
  /-- Show the log. -/
  | runtimeLogs
  deriving DecidableEq, Repr, Inhabited

namespace Command

/-- What is called. -/
def name : Command → String
  | execTime => "exec_time"
  | quit => "quit"
  | start service _ => "start_" ++ service.name
  | stop service => "stop_" ++ service.name
  | runtimeLogs => "runtime_logs"

/-- What stands between the parentheses. -/
def argument : Command → String
  | start _ value => toString value.toNat
  | _ => ""

/-- The text of a command, without the newline that ends it. -/
def wire (c : Command) : String :=
  c.name ++ "(" ++ c.argument ++ ")"

/-- The number behind the first parenthesis of a line; zero if there is none. -/
def valueIn (line : List Char) : UInt32 :=
  UInt32.ofNat (Nat.ofDigitChars 10 ((line.dropWhile (· != '(')).filter Char.isDigit) 0)

/-- The commands without a number, and those with a given one. -/
def withValue (value : UInt32) : List Command :=
  [execTime, quit, runtimeLogs] ++ Service.all.map stop ++ Service.all.map (start · value)

/-- The command that a line is the text of. A line shows which number it can
    only be about, and that leaves few commands. -/
def ofWire? (line : String) : Option Command :=
  (withValue (valueIn line.toList)).find? fun c => c.wire == line

/-- How many bytes are read of a mere acknowledgement. -/
def ackReplyBytes : Nat := 1000

/-- How many bytes are read of the answer to `execTime`. -/
def execTimeReplyBytes : Nat := 10000

/-- How many bytes are read of the engine's log. -/
def logsReplyBytes : Nat := 1000000

/-- How many bytes of the reply to a command are read. -/
def replyLimit : Command → Nat
  | execTime => execTimeReplyBytes
  | runtimeLogs => logsReplyBytes
  | _ => ackReplyBytes

/-- The wire text in its parts. Whatever is shown about it, that names and
    arguments cannot be mistaken or that no newline is in it, is shown of the
    parts. -/
theorem toList_wire (c : Command) :
    c.wire.toList = c.name.toList ++ '(' :: (c.argument.toList ++ [')']) := by
  simp [wire]

/-- A command's name ends where the parentheses begin. -/
theorem ne_paren_of_mem_name (c : Command) : ∀ x ∈ c.name.toList, (x != '(') = true := by
  refine List.all_eq_true.1 ?_
  rcases c with _ | _ | ⟨service, _⟩ | service | _ <;> (try cases service) <;>
    simp [name, Service.name]

theorem takeWhile_wire (c : Command) : c.wire.toList.takeWhile (· != '(') = c.name.toList := by
  rw [toList_wire, List.takeWhile_append_of_pos (ne_paren_of_mem_name c)]
  simp

theorem dropWhile_wire (c : Command) :
    c.wire.toList.dropWhile (· != '(') = '(' :: (c.argument.toList ++ [')']) := by
  rw [toList_wire, List.dropWhile_append_of_pos (ne_paren_of_mem_name c)]
  simp

/-- The argument of a start is a decimal number, and nothing but its digits. -/
theorem argument_start (service : Service) (value : UInt32) :
    (start service value).argument.toList = Nat.toDigits 10 value.toNat := by
  simp [argument]

/-- The line of a command with a number shows that number. -/
theorem valueIn_wire_start (service : Service) (value : UInt32) :
    valueIn (start service value).wire.toList = value := by
  have digits : (Nat.toDigits 10 value.toNat).filter Char.isDigit = Nat.toDigits 10 value.toNat :=
    List.filter_eq_self.2 fun c hc => Nat.isDigit_of_mem_toDigits (by decide) (by decide) hc
  simp [valueIn, dropWhile_wire, argument_start, digits, Nat.ofDigitChars_toDigits]

/-- Different commands have different texts. -/
theorem wire_injective {c d : Command} (h : c.wire = d.wire) : c = d := by
  have names : c.name = d.name :=
    String.toList_inj.1 (by rw [← takeWhile_wire, h, takeWhile_wire])
  -- Names already tell all commands apart but two starts of one service.
  have shapes : c = d ∨ ∃ service v w, c = start service v ∧ d = start service w := by
    rcases c with _ | _ | ⟨s, v⟩ | s | _ <;> rcases d with _ | _ | ⟨t, w⟩ | t | _ <;>
      (try cases s) <;> (try cases t) <;> simp_all [name, Service.name]
  rcases shapes with h' | ⟨service, v, w, rfl, rfl⟩
  · exact h'
  · rw [← valueIn_wire_start service v, h, valueIn_wire_start]

theorem mem_withValue (c : Command) : c ∈ withValue (valueIn c.wire.toList) := by
  cases c with
  | start service value => simp [withValue, valueIn_wire_start, Service.mem_all]
  | stop service => simp [withValue, Service.mem_all]
  | _ => simp [withValue]

/-- A line is read as the command it is the text of, and no other line is
    read. -/
theorem ofWire?_eq_some_iff {line : String} {c : Command} :
    ofWire? line = some c ↔ c.wire = line := by
  constructor
  · intro h
    simpa using List.find?_some h
  · rintro rfl
    have found : (ofWire? c.wire).isSome := by
      rw [ofWire?, List.find?_isSome]
      exact ⟨c, mem_withValue c, by simp⟩
    obtain ⟨d, hd⟩ := Option.isSome_iff_exists.1 found
    rw [hd, wire_injective (c := d) (d := c) (by simpa using List.find?_some hd)]

end Command

end SoftPlc
