import ClassTags.ClassRecord.Section
import ClassTags.Grammar.Program
import ClassTags.Node.Reading
import ClassTags.Node.Select

/-!
# Classes of a program

A class is defined by a call at the top level of a program whose first argument is a string, the
name of the class, and whose second argument is an object literal, its body.

Main definitions:

* `ClassRecord.ofDefinition` — the record of a class from its name and body;
* `Program.classes` — the records of all classes that a program defines;
* `Program.classNotices` — what is reported about their definitions;
* `classesOfSource` — the records of a source text.
-/

namespace ClassTags

/-- The calls that may define a class. -/
def definitionPattern : Text := "Program > ExpressionStatement > CallExpression"

/-- What is called to define a class, unless the settings say otherwise. -/
def defaultDefineCalls : List Text := [("qx.Class.define" : Text)]

namespace ClassRecord

/-- The record of a class with what one entry of its body adds to it. -/
def withEntry (r : ClassRecord) (entry : Node × Node) : ClassRecord :=
  match Section.ofKey? entry.1.keyName with
  | some s => r.withSection s entry.2
  | none => r

/-- The record of the class with the given name and body. -/
def ofDefinition (path name : Text) (body : Node) : ClassRecord :=
  body.entries.foldl withEntry { path, name, body }

/-- What is reported about one entry of a class body. -/
def entryNotices (path name : Text) (entry : Node × Node) : List Notice :=
  match Section.ofKey? entry.1.keyName with
  | none => [.unknownSection entry.1.keyName name path entry.1.line]
  | some s =>
    if s.hasEntries && entry.2.entries?.isNone then [.notAnObject s.key name entry.2.line]
    else if s == .type && (ClassType.ofName? entry.2.reading).isNone then
      [.unknownType entry.2.reading name entry.2.line]
    else []

end ClassRecord

namespace Node

/-- What is called, if the node is a call. -/
def callee? : Node → Option Node
  | call _ callee _ => some callee
  | _ => none

/-- The name and the body of the class that a call defines. -/
def definition? : Node → Option (Text × Node)
  | call _ _ (string _ name :: object place entries :: _) => some (name, object place entries)
  | _ => none

/-- The record of the class that a call defines. -/
def class? (path : Text) (n : Node) : Option ClassRecord :=
  n.definition?.map fun (name, body) => .ofDefinition path name body

/-- What is reported about a call that defines a class. -/
def classNotices (path : Text) (n : Node) : List Notice :=
  match n.definition? with
  | none => [.malformedDefinition path n.line]
  | some (name, body) => body.entries.flatMap (ClassRecord.entryNotices path name)

end Node

namespace Program

/-- The calls of a program that define classes, in order. -/
def definitions (defineCalls : List Text) (p : Program) : List Node :=
  let names := if defineCalls.isEmpty then defaultDefineCalls else defineCalls
  (p.select definitionPattern).filter fun n => n.callee?.any fun callee => names.contains callee.text

/-- The records of the classes that a program defines, in order. -/
def classes (defineCalls : List Text) (path : Text) (p : Program) : List ClassRecord :=
  (p.definitions defineCalls).filterMap (Node.class? path)

/-- What is reported about the class definitions of a program. -/
def classNotices (defineCalls : List Text) (path : Text) (p : Program) : List Notice :=
  (p.definitions defineCalls).flatMap (Node.classNotices path)

/-- The program of a source text. The path is only used in messages. -/
def ofSource (path source : Text) : Reading Program := ofTree path source (.ofSource source)

/-- The records of the classes that a program defines, with the notices about their definitions. -/
def extract (defineCalls : List Text) (path : Text) (p : Program) : Reading (List ClassRecord) := do
  Logged.notes (p.classNotices defineCalls path)
  pure (p.classes defineCalls path)

end Program

/-- The records of the classes that a source text defines. -/
def classesOfSource (defineCalls : List Text) (path source : Text) : Reading (List ClassRecord) := do
  let p ← Program.ofSource path source
  p.extract defineCalls path

end ClassTags
