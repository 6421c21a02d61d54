import ClassTags.Action
import ClassTags.ClassRecord.Extraction
import ClassTags.FileSystem.Basic
import ClassTags.Text.Utf8

/-!
# The registry of classes

The registry knows which source file defines which classes. Checking a file first drops all that it
defined before. A class name belongs to one file: if a second file defines it, checking that file
fails, and the file keeps the classes that came before the clash.

Main definitions:

* `Registry.retract` — drops a file and its classes;
* `Registry.check` — reads a file again;
* `Registry.owned`, `Registry.record?` — what is known of a file and of a class.
-/

namespace ClassTags

/-- Why an action on the registry fails. -/
inductive IndexFailure where
  /-- The path of a source file is not absolute, or not normalized. -/
  | pathForm (path : Text)
  /-- The path of a directory is not absolute. -/
  | relativePath (path : Text)
  /-- A path cannot be used. -/
  | file (fault : Fault) (path : Text)
  /-- A source text has no program. -/
  | source (cause : SourceFailure)
  /-- Two files define one class. -/
  | duplicate (name existing path : Text)
deriving DecidableEq, Repr

/-- The message for a failure. -/
def IndexFailure.message : IndexFailure → Text
  | pathForm path => "Path must be absolute and normalized: " ++ path
  | relativePath path => "Path must be absolute: " ++ path
  | file fault path => fault.message path
  | source cause => cause.message
  | duplicate name existing path =>
    "duplicate class name " ++ Text.quoted name ++ ": defined in " ++ existing ++ " and " ++ path

/-- Source files and the classes they define. -/
structure Registry where
  /-- The checked files with the names of their classes. -/
  sources : Table (List Text) := []
  /-- The classes by name. -/
  classes : Table ClassRecord := []

namespace Registry

/-- The checked files, in order. -/
def paths (r : Registry) : List Text := r.sources.names

/-- Whether a file has been checked. -/
def tracks (r : Registry) (path : Text) : Bool := (r.sources.lookup path).isSome

/-- The names of the classes of a file. -/
def owned (r : Registry) (path : Text) : List Text := (r.sources.lookup path).getD []

/-- The class with the given name. -/
def record? (r : Registry) (name : Text) : Option ClassRecord := r.classes.lookup name

/-- All classes, in order. -/
def records (r : Registry) : List ClassRecord := r.classes.map (·.2)

/-- The registry without a file and its classes. -/
def retract (r : Registry) (path : Text) : Registry where
  sources := r.sources.remove path
  classes := (r.owned path).foldl (fun classes name => classes.remove name) r.classes

/-- The registry with a file that has no classes yet. -/
def track (r : Registry) (path : Text) : Registry := { r with sources := r.sources.assign path [] }

/-- The registry with a class of a file. -/
def place (r : Registry) (path : Text) (c : ClassRecord) : Registry where
  sources :=
    let names := r.owned path
    r.sources.assign path (if names.contains c.name then names else names ++ [c.name])
  classes := r.classes.assign c.name c

/-- Adds a class of a file, unless the class belongs to another file. -/
def claim (path : Text) (c : ClassRecord) : Action Registry IndexFailure Unit := do
  let r ← Action.state
  match r.record? c.name with
  | some previous =>
    if previous.path = path then Action.update fun r => r.place path c
    else Action.fail (.duplicate c.name previous.path path)
  | none => Action.update fun r => r.place path c

/-- Whether a path has the form that the registry asks for. -/
def accepts (path : Text) : Bool := Path.isAbsolute path && Path.normalize path == path

/-- Reads a file again. Gives whether it is there. -/
def check (defineCalls : List Text) (fs : FileSystem) (path : Text) :
    Action Registry IndexFailure Bool := do
  if accepts path then
    Action.update fun r => r.retract path
    match fs.read path with
    | .error .missing =>
      Action.note (.sourceMissing path)
      pure false
    | .error fault => Action.fail (.file fault path)
    | .ok bytes =>
      let source := Text.unifyLineEnds (Text.decode bytes)
      let records ← Action.ofLogged .source (classesOfSource defineCalls path source)
      Action.update fun r => r.track path
      Action.forEach (claim path) records
      let r ← Action.state
      Action.note (.indexed path (r.owned path).length)
      pure true
  else Action.fail (.pathForm path)

end Registry

end ClassTags
