import SoftPlc.Compile.LogStream

/-!
# Compile jobs

One run of the compiler: the source it was given, its log stream, the output
that was polled so far and its exit code. Polling takes what is queued and
returns everything polled since the job began, so a page that shows the output
can simply replace its text.

A job is over for the supervisor as soon as its stream has ended; the exit
code comes later, or never if the compiler was killed.

## Main definitions

* `Job`: One run of the compiler.
* `Job.pollOutput`: The output so far.
* `Job.report`: How the compilation ended, once it has.
-/

namespace SoftPlc

/-- One run of the compiler. -/
structure Job where
  /-- The path of the source file, as bytes. -/
  source : List UInt8
  stream : LogStream := {}
  /-- The output that was polled so far. -/
  polled : String := ""
  /-- What the compiler exited with, once it has; a killed one has no code. -/
  exited : Option (Option Int) := none
  deriving DecidableEq, Repr, Inhabited

namespace Job

/-- A job that has just been started. -/
def start (source : List UInt8) : Job :=
  { source }

/-- The stream has ended, with or without a verdict. -/
def isTerminal (j : Job) : Bool :=
  j.stream.raised

/-- Takes what is queued and returns all output polled so far. -/
def pollOutput (j : Job) : String × Job :=
  let (lines, stream) := j.stream.drain
  let polled := j.polled ++ String.join (lines.map LogLine.text)
  (polled, { j with stream, polled })

/-- How the compilation ended, once it has. -/
def report (j : Job) : Option Report :=
  j.stream.streamEnd.map fun e => ⟨e, j.exited.join⟩

/-- Records the exit of the compiler; only the first counts. -/
def exit (j : Job) (code : Option Int) : Job :=
  { j with exited := j.exited <|> some code }

end Job

end SoftPlc
