import ClassTags.Index.Indexer
import ClassTags.Tag
import ClassTags.Text.Plain

/-!
# The command line

The command prints a tag file for the classes in the files and directories that it is given. What it
prints, and the line in which it reports an error, go out without control sequences, since they are
not written to a terminal.

Main definitions:

* `CommandLine.request` — what the arguments ask for;
* `CommandLine.run` — what the command prints, and how it ends.
-/

namespace ClassTags.CommandLine

/-! ## Arguments -/

/-- Why arguments cannot be understood. -/
inductive UsageFailure where
  /-- There is no such option. Options with a similar name may be meant. -/
  | noSuchOption (option : Text) (similar : List Text)
  /-- The option is given a value and takes none. -/
  | takesNoValue (option : Text)
deriving DecidableEq, Repr

/-- What the arguments ask for. -/
inductive Request where
  | help
  | index (paths : List Text)
deriving DecidableEq, Repr

/-- The option that asks for the help text. -/
def helpOption : Text := "--help"

/-- The length of the longest common piece of two texts that begin with it. -/
def commonLength : Text → Text → Nat
  | a :: as, b :: bs => if a = b then commonLength as bs + 1 else 0
  | _, _ => 0

/-- The suffixes of a text with their positions. -/
def suffixes : Nat → Text → List (Nat × Text)
  | _, [] => []
  | n, c :: cs => (n, c :: cs) :: suffixes (n + 1) cs

/-- A longest common piece of two texts: its positions in both and its length. Of several the first
one counts. -/
def longestCommon (a b : Text) : Nat × Nat × Nat :=
  ((suffixes 0 a).flatMap fun (i, s) => (suffixes 0 b).map fun (j, t) => (i, j, commonLength s t)).foldl
    (fun best found => if best.2.2 < found.2.2 then found else best) (0, 0, 0)

/-- The number of characters in the common pieces of two texts: a longest one, and those before and
after it. The depth is bounded by `fuel`. -/
def matchingWithin : (fuel : Nat) → Text → Text → Nat
  | 0, _, _ => 0
  | fuel + 1, a, b =>
    match longestCommon a b with
    | (_, _, 0) => 0
    | (i, j, n) =>
      matchingWithin fuel (a.take i) (b.take j) + n +
        matchingWithin fuel (a.drop (i + n)) (b.drop (j + n))

/-- Two texts are similar if at least three fifths of their characters lie in common pieces. -/
def similar (a b : Text) : Bool :=
  3 * (a.length + b.length) ≤ 10 * matchingWithin (a.length + 1) a b

/-- The name of a long option, and whether a value is given behind `=`. -/
def splitValue (argument : Text) : Text × Bool :=
  (argument.takeWhile (· != '='), argument.contains '=')

/-- What an argument that begins with a hyphen asks for. -/
def readOption (argument : Text) : Except UsageFailure Unit :=
  let (name, hasValue) := splitValue argument
  if name = helpOption then if hasValue then .error (.takesNoValue name) else .ok ()
  else
    match argument with
    | '-' :: '-' :: _ =>
      .error (.noSuchOption name (if similar helpOption name then [helpOption] else []))
    | _ => .error (.noSuchOption (argument.take 2) [])

/-- Whether an argument is an option. A single hyphen is none. -/
def isOption : Text → Bool
  | '-' :: _ :: _ => true
  | _ => false

/-- What the arguments ask for. Behind `--` there are no options. An option that does not exist
counts more than a wish for help. -/
def request : List Text → Except UsageFailure Request
  | [] => .ok (.index [])
  | argument :: arguments =>
    if argument = ("--" : Text) then .ok (.index arguments)
    else if isOption argument then do
      readOption argument
      let _ ← request arguments
      pure .help
    else do
      match ← request arguments with
      | .help => pure .help
      | .index paths => pure (.index (argument :: paths))

/-! ## Running -/

/-- How the command ends. -/
structure Ending where
  /-- The code that the command gives back. -/
  code : Nat
  /-- What it writes as its result. -/
  output : Text := []
  /-- What it writes about itself. -/
  diagnostics : Text := []

/-- Why the command breaks off without a word of its own. -/
inductive Breakdown where
  | unknownLevel (name : Text)
  | failure (cause : IndexFailure)
deriving DecidableEq, Repr

/-- The message for a breakdown. -/
def Breakdown.message : Breakdown → Text
  | unknownLevel name => "Unknown level: " ++ Text.quoted name
  | failure cause => cause.message

/-- What the command works with. -/
structure Surroundings where
  files : FileSystem
  /-- The directory that relative paths are seen from. -/
  directory : Text := "/"
  settings : Settings := {}

/-- The first lines of the help text, which also go before an error. -/
def usage : Text := "Usage: qxtags [OPTIONS] [PATHS]...\n"

/-- The help text. -/
def help : Text := usage ++ List.flatMap (fun line : String => line.toList ++ ['\n']) [
  "",
  "  Print a tag file for the qooxdoo classes defined in PATHS.",
  "",
  "  Files are indexed directly; directories are scanned recursively for source",
  "  files.",
  "",
  "  Examples:     qxtags source/class/app/Application.js > tags",
  "",
  "      python -m qxtags.main source/class",
  "",
  "Options:",
  "  --help  Show this message and exit."]

/-- The question whether an option is meant. -/
def suggestion (option : Text) : Text := " Did you mean " ++ Text.quoted option ++ "?"

/-- The message for arguments that cannot be understood. -/
def UsageFailure.message : UsageFailure → Text
  | noSuchOption option similar =>
    "No such option " ++ Text.quoted option ++ "." ++ similar.flatMap suggestion
  | takesNoValue option => "Option " ++ Text.quoted option ++ " does not take a value."

/-- The line that reports an error. -/
def errorLine (message : Text) : Text := Text.plain ("Error: " ++ message ++ "\n")

/-- The end of a command with arguments that cannot be understood. -/
def misused (e : UsageFailure) : Ending :=
  { code := 2,
    diagnostics := usage ++ "Try 'qxtags --help' for help.\n\n" ++ errorLine e.message }

/-- The rank of a level. -/
def rank : Level → Nat
  | .debug => 10
  | .info => 20
  | .warning => 30
  | .error => 40
  | .critical => 50

/-- The least rank of the notices that are shown, by the name of a level. -/
def threshold? (name : Text) : Option Nat :=
  [("NOTSET", 0), ("DEBUG", 10), ("INFO", 20), ("WARN", 30), ("WARNING", 30), ("ERROR", 40),
    ("CRITICAL", 50), ("FATAL", 50)].lookup (String.ofList name)

/-- A notice as a line. -/
def noticeLine (n : Notice) : Text := n.level.name ++ " " ++ n.origin ++ ": " ++ n.message ++ "\n"

/-- The lines of the notices from a rank up. -/
def shown (threshold : Nat) (notices : List Notice) : Text :=
  (notices.filter fun n => threshold ≤ rank n.level).flatMap noticeLine

/-- Whether the command itself reports a failure. -/
def IndexFailure.isReported : IndexFailure → Bool
  | .source (.malformed ..) | .duplicate .. | .file .. => true
  | _ => false

/-- What an indexer works with under the given settings. -/
def Surroundings.context (s : Surroundings) : IndexContext where
  files := s.files
  defineCalls := s.settings.defineCalls
  sourceExtension := s.settings.sourceExtension
  ignoredDirs := s.settings.ignoredDirs

/-- Indexes a file or a directory. -/
def indexArgument (s : Surroundings) (argument : Text) : Action Indexer IndexFailure Unit := do
  let path := Path.absolute s.directory argument
  if s.files.isDirectory path then Indexer.scan s.context path
  else if ← Indexer.check s.context path then pure ()
  else Action.note (.argumentMissing argument)

/-- Indexes files and directories and prints their tags. -/
def index (s : Surroundings) (threshold : Nat) (arguments : List Text) :
    Ending × Option Breakdown :=
  let o := Action.forEach (indexArgument s) arguments {}
  let log := shown threshold o.notices
  match o.result with
  | .ok () =>
    let tags := s.settings.tagFile o.state.registry.records
    ({ code := 0, output := Text.plain tags, diagnostics := log }, none)
  | .error e =>
    if IndexFailure.isReported e then
      ({ code := 1, diagnostics := log ++ errorLine e.message }, none)
    else ({ code := 1, diagnostics := log }, some (.failure e))

/-- What the command prints, and how it ends. -/
def run (s : Surroundings) (arguments : List Text) : Ending × Option Breakdown :=
  match request arguments with
  | .error e => (misused e, none)
  | .ok .help => ({ code := 0, output := help }, none)
  | .ok (.index paths) =>
    match threshold? s.settings.logLevel with
    | none => ({ code := 1 }, some (.unknownLevel s.settings.logLevel))
    | some threshold => index s threshold paths

end ClassTags.CommandLine
