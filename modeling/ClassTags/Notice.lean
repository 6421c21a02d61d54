import ClassTags.Text.Quoted

/-!
# Notices

What the library reports on the way. A notice is data; its level, its origin and its wording are
functions of it. `Logged` is a computation that gives notices and then a result or a failure; the
notices up to a failure are kept.
-/

namespace ClassTags

/-- How grave a notice is. -/
inductive Level where
  | debug
  | info
  | warning
  | error
  | critical
deriving DecidableEq, Repr

/-- The name of a level. -/
def Level.name : Level → Text
  | debug => "DEBUG"
  | info => "INFO"
  | warning => "WARNING"
  | error => "ERROR"
  | critical => "CRITICAL"

/-- What the library reports. -/
inductive Notice where
  /-- An entry of an object literal has no key. -/
  | skippedEntry (form : Text) (line : Nat)
  /-- A class definition lacks its name or its body. -/
  | malformedDefinition (path : Text) (line : Nat)
  /-- A class body has a key that means nothing. -/
  | unknownSection (key name path : Text) (line : Nat)
  /-- A section of a class body should be an object literal. -/
  | notAnObject (key name : Text) (line : Nat)
  /-- The type of a class is none of the known ones. -/
  | unknownType (type name : Text) (line : Nat)
  /-- A source file is not there. -/
  | sourceMissing (path : Text)
  /-- A source file has been read. -/
  | indexed (path : Text) (count : Nat)
  /-- A directory entry has no status. -/
  | entryVanished (path : Text)
  /-- A directory has become known. -/
  | directoryAdded (path : Text)
  /-- A directory is no longer known. -/
  | directoryRemoved (path : Text)
  /-- An argument of the command line names no file. -/
  | argumentMissing (argument : Text)
deriving DecidableEq, Repr

namespace Notice

/-- How grave a notice is. -/
def level : Notice → Level
  | malformedDefinition .. | unknownSection .. | notAnObject .. | unknownType ..
  | argumentMissing .. => .warning
  | _ => .debug

/-- The part of the program that gives a notice. -/
def origin : Notice → Text
  | skippedEntry .. => "qxtags.backends.parsers.js_parser"
  | malformedDefinition .. | unknownSection .. | notAnObject .. | unknownType .. =>
    "qxtags.analyzer.class_extractor"
  | sourceMissing .. | indexed .. => "qxtags.scanner.registry"
  | entryVanished .. | directoryAdded .. | directoryRemoved .. => "qxtags.scanner.indexer"
  | argumentMissing .. => "qxtags.main"

/-- The wording of a notice. -/
def message : Notice → Text
  | skippedEntry form line =>
    "Skipping object entry of type " ++ form ++ " at line " ++ Text.decimal line
  | malformedDefinition path line =>
    "Skipping malformed class definition at " ++ path ++ ":" ++ Text.decimal line
  | unknownSection key name path line =>
    "Unknown class section " ++ Text.quoted key ++ " in " ++ name ++ " (" ++ path ++ ":" ++
      Text.decimal line ++ ")"
  | notAnObject key name line =>
    "Section " ++ Text.quoted key ++ " of " ++ name ++ " is not an object literal (line " ++
      Text.decimal line ++ ")"
  | unknownType type name line =>
    "Unknown class type " ++ Text.quoted type ++ " for " ++ name ++ " at line " ++ Text.decimal line
  | sourceMissing path => "Source not found, retracted: " ++ path
  | indexed path count => "Indexed " ++ path ++ ": " ++ Text.decimal count ++ " class(es)"
  | entryVanished path => "Entry vanished during scan: " ++ path
  | directoryAdded path => "Directory add: " ++ path
  | directoryRemoved path => "Directory remove: " ++ path
  | argumentMissing argument => "File not found: " ++ argument

end Notice

/-- Notices, and then a result or a failure. -/
structure Logged (ε α : Type) where
  notices : List Notice
  result : Except ε α

namespace Logged

variable {ε α β : Type}

/-- Nothing but a notice. -/
def note (n : Notice) : Logged ε Unit := ⟨[n], .ok ()⟩

/-- Nothing but notices. -/
def notes (ns : List Notice) : Logged ε Unit := ⟨ns, .ok ()⟩

/-- A failure without notices. -/
def fail (e : ε) : Logged ε α := ⟨[], .error e⟩

/-- A result without notices. -/
def ofExcept (r : Except ε α) : Logged ε α := ⟨[], r⟩

/-- Goes on with the result, if there is one. -/
def bind (x : Logged ε α) (f : α → Logged ε β) : Logged ε β :=
  match x.result with
  | .error e => ⟨x.notices, .error e⟩
  | .ok a =>
    let y := f a
    ⟨x.notices ++ y.notices, y.result⟩

instance : Monad (Logged ε) where
  pure a := ⟨[], .ok a⟩
  bind := bind

end Logged

end ClassTags
