import NekoEcat.Core.Commands
import NekoEcat.Core.QNumber
import NekoEcat.Core.Regex

/-!
# The command line backend (`EthercatCliBackend`)

Every operation runs one `ethercat` process and makes its result of how that
ends. An error text is stored only if the operation fails: `none` is an error
that is left as it was. Output is text, already decoded.

A process that crashes ends with the number of its signal as exit code.
-/
namespace NekoEcat.L2.CliBackend
open NekoEcat.Commands NekoEcat.QNumber NekoEcat.QString NekoEcat.Regex

/-- The arguments of one process. -/
abbrev Line := List String

/-- How a process ends. -/
inductive Outcome where
  | notStarted
  | timedOut
  | exited (exitCode : Int) (stdOut stdErr : String)
  deriving DecidableEq, Repr

abbrev Cli (α : Type) := Prog Line Outcome α

/-- What `run` returns and stores. -/
structure RunResult where
  text : String
  exitCode : Int
  stdErr : String

def finished : Outcome → RunResult
  | .notStarted => ⟨"", -1, "Failed to start ethercat CLI. Is IgH installed and in PATH?"⟩
  | .timedOut => ⟨"", -1, "Process timed out"⟩
  | .exited exitCode stdOut stdErr => ⟨stdOut, exitCode, trimmed stdErr⟩

def scopedArguments (master : String) (arguments : Line) : Line :=
  if trimmed master = "" then arguments else "-m" :: trimmed master :: arguments

/-- mirrors src/igh/EthercatCliBackend.cpp:423-461 -/
def run (master : String) (arguments : Line) : Cli RunResult := do
  let o ← Prog.exec (scopedArguments master arguments)
  return finished o

/-! ## Queries -/

/-- What a query stores as its error. -/
def RunResult.queryError (r : RunResult) : Option String :=
  if r.exitCode ≠ 0 then some (if r.stdErr = "" then r.text else r.stdErr) else none

def query (master : String) (arguments : Line) : Cli (String × Option String) := do
  let r ← run master arguments
  return (r.text, r.queryError)

/-- mirrors src/igh/EthercatCliBackend.cpp:110-118 -/
def masterText (master : String) : Cli (String × Option String) := query master ["master"]

/-- mirrors src/igh/EthercatCliBackend.cpp:132-140 -/
def slaveInfo (master : String) (position : Int) : Cli (String × Option String) :=
  query master ["slaves", "-p", number position, "-v"]

/-- mirrors src/igh/EthercatCliBackend.cpp:143-151 -/
def slaveXml (master : String) (position : Int) : Cli (String × Option String) :=
  query master ["xml", "-p", number position]

/-- mirrors src/igh/EthercatCliBackend.cpp:154-162 -/
def pdos (master : String) (position : Int) : Cli (String × Option String) :=
  query master ["pdos", "-p", number position]

/-- mirrors src/igh/EthercatCliBackend.cpp:165-173 -/
def sdos (master : String) (position : Int) : Cli (String × Option String) :=
  query master ["sdos", "-p", number position]

def withHexPrefix (text : String) : String := if startsWith0x text.toList then text else "0x" ++ text

def uploadArgs (position : Int) (index subIndex type : String) : Line :=
  ["upload", "-p", number position] ++ (if type = "" then [] else ["-t", type]) ++
    [withHexPrefix index, withHexPrefix subIndex]

/-- mirrors src/igh/EthercatCliBackend.cpp:177-201 -/
def upload (master : String) (position : Int) (index subIndex type : String) : Cli (String × Option String) := do
  let (text, error) ← query master (uploadArgs position index subIndex type)
  return (trimmed text, error)

/-- mirrors src/core/EthercatTypes.h:19-27 -/
structure SlaveInfo where
  position : Int
  state : String
  flags : String
  name : String
  rawLine : String
  deriving DecidableEq, Repr

/-- `\s`, which knows ASCII only -/
def isBlank (c : Char) : Bool := c.toNat == 32 || (9 ≤ c.toNat && c.toNat ≤ 13)

/-- `^\s*(\d+)\s+\S+\s+(\S+)\s+(\S+)\s+(.+)$` -/
def slaveRe : Re :=
  let word := Re.plus fun c => !isBlank c
  .seq [.many isBlank, .group (.plus (isDigitOf 10)), .plus isBlank, word, .plus isBlank, .group word, .plus isBlank,
    .group word, .plus isBlank, .group (.plus (· != '\n'))]

def captured (g : Groups) (i : Nat) : List Char := (g.getD (i - 1) none).getD []

/-- mirrors src/igh/EthercatCliBackend.cpp:466-483 -/
def parseSlaves (text : String) : List SlaveInfo :=
  ((text.toList.splitOn '\n').filter (· ≠ [])).filterMap fun line =>
    (matchStart slaveRe line).map fun m =>
      { position := (toInt 10 (captured m.1 1)).getD 0
        state := String.ofList (captured m.1 2)
        flags := String.ofList (captured m.1 3)
        name := trimmed (String.ofList (captured m.1 4))
        rawLine := String.ofList line }

/-- mirrors src/igh/EthercatCliBackend.cpp:121-129 -/
def scanSlaves (master : String) : Cli (List SlaveInfo × Option String) := do
  let r ← run master ["slaves"]
  return (if r.exitCode = 0 then parseSlaves r.text else [], r.queryError)

/-! ## Commands -/

/-- What a command stores as its error. -/
def RunResult.commandError (r : RunResult) : Option String := if r.exitCode ≠ 0 then some r.stdErr else none

def command (master : String) (arguments : Line) : Cli (Bool × Option String) := do
  let r ← run master arguments
  return (r.exitCode == 0, r.commandError)

def downloadArgs (position : Int) (index subIndex value type : String) : Line :=
  ["download", "-p", number position] ++ (if trimmed type = "" then [] else ["-t", trimmed type]) ++
    [withHexPrefix index, withHexPrefix subIndex, value]

/-- mirrors src/igh/EthercatCliBackend.cpp:204-226 -/
def download (master : String) (position : Int) (index subIndex value type : String) : Cli (Bool × Option String) :=
  command master (downloadArgs position index subIndex value type)

/-- mirrors src/igh/EthercatCliBackend.cpp:229-237 -/
def setState (master : String) (position : Int) (state : String) : Cli (Bool × Option String) :=
  command master ["states", "-p", number position, state]

/-- mirrors src/igh/EthercatCliBackend.cpp:240-248 -/
def setAllStates (master state : String) : Cli (Bool × Option String) := command master ["states", state]

/-- mirrors src/igh/EthercatCliBackend.cpp:251-259 -/
def rescan (master : String) : Cli (Bool × Option String) := command master ["rescan"]

end NekoEcat.L2.CliBackend
