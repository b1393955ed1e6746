import SoftPlc.Config
import SoftPlc.Failure
import SoftPlc.Text.Quoted

/-!
# Launching programs

What launching comes to, on a host of which only a few files are known. The
engine and the compiler are usually played, and a played program can always be
launched; the ways in which launching fails are then those of a real one.

Nothing is launched at all if the program, an argument or the directory
contains a NUL byte. Otherwise the new process changes to its directory first,
and looks for the program from there. A name without a slash is searched for
among the installed programs, of which there are none.

## Main definitions

* `Host`: The directories and files that are known.
* `Host.resolve`: What a path leads to.
* `Host.enter`: Where a process works, or why it cannot.
* `Host.launch`: What launching a program comes to.
-/

namespace SoftPlc.Bench

/-- A place in the tree of files, as the names on the way from the root. -/
abbrev Place := List String

/-- What a path leads to. -/
inductive Found where
  | directory (place : Place)
  | file
  deriving DecidableEq, Repr, Inhabited

/-- The directories and files that are known of a host. -/
structure Host where
  directories : List Place
  files : List Place
  deriving DecidableEq, Repr, Inhabited

namespace Host

/-- One step along a path. -/
def step (h : Host) (found : Found) (name : String) : Except Failure Found :=
  match found with
  | .file => .error .notADirectory
  | .directory place =>
    if name = "" ∨ name = "." then .ok (.directory place)
    else if name = ".." then .ok (.directory place.dropLast)
    else
      let next := place ++ [name]
      if next ∈ h.directories then .ok (.directory next)
      else if next ∈ h.files then .ok .file
      else .error .noSuchFile

/-- What a path leads to from a directory. -/
def resolve (h : Host) (origin : Place) (path : String) : Except Failure Found :=
  if path.isEmpty then .error .noSuchFile
  else
    let origin := if path.startsWith "/" then [] else origin
    (path.splitOn "/").foldlM h.step (.directory origin)

/-- Where a process works that is told to work in a directory, or else where
    its parent does. -/
def enter (h : Host) (parent : Place) (directory : Option String) : Except Failure Place :=
  match directory with
  | none => .ok parent
  | some path =>
    match h.resolve parent path with
    | .ok (.directory place) => .ok place
    | .ok .file => .error .notADirectory
    | .error reason => .error reason

/-- Why a program cannot be run; no known file is a program. -/
def refusal (h : Host) (place : Place) (program : String) : Failure :=
  if program.contains '/' then
    match h.resolve place program with
    | .ok _ => .notPermitted
    | .error reason => reason
  else if program = "." ∨ program = ".." then .notPermitted
  else .noSuchFile

end Host

/-- The bytes contain a NUL. -/
def hasNul (bytes : List UInt8) : Bool :=
  bytes.contains 0

/-- A process that is to be launched. -/
structure Launchable where
  launcher : Launcher
  /-- The program is played. -/
  played : Bool
  directory : Option (List UInt8)
  deriving DecidableEq, Repr, Inhabited

/-- The place where a process works, if it can be launched with these further
    arguments. -/
def Host.launch (h : Host) (parent : Place) (l : Launchable) (more : List (List UInt8)) :
    Except Failure Place := do
  let strings := l.launcher.program :: (l.launcher.arguments ++ more) ++ l.directory.toList
  if strings.any hasNul then throw .nulByte
  -- The new process changes its directory before it looks for the program.
  let place ← h.enter parent (l.directory.map Text.shownPath)
  if l.played then pure place
  else throw (h.refusal place (Text.shownPath l.launcher.program))

/-- The place of the temporary directory. -/
def scratch : Place := ["DIR"]

/-- The place where the supervisor works. -/
def home : Place := ["HOME"]

/-- What is known of an ordinary host, and of the temporary directory, which
    holds a directory `work` and a socket file `s`. -/
def Host.ordinary : Host where
  directories :=
    [scratch, home, scratch ++ ["work"], ["bin"], ["boot"], ["dev"], ["etc"], ["home"], ["lib"],
      ["mnt"], ["opt"], ["proc"], ["root"], ["run"], ["sbin"], ["srv"], ["sys"], ["tmp"], ["usr"],
      ["usr", "bin"], ["usr", "lib"], ["usr", "local"], ["usr", "sbin"], ["usr", "share"],
      ["var"], ["var", "lib"], ["var", "log"], ["var", "tmp"]]
  files :=
    [scratch ++ ["s"], ["dev", "null"], ["dev", "zero"], ["etc", "fstab"], ["etc", "group"],
      ["etc", "hostname"], ["etc", "hosts"], ["etc", "os-release"], ["etc", "passwd"],
      ["etc", "resolv.conf"], ["etc", "shadow"]]

end SoftPlc.Bench
