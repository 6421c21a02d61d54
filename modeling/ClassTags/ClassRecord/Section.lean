import ClassTags.ClassRecord.Basic

/-!
# Sections of a class body

The body of a class definition is an object literal whose keys have fixed meanings. A section is one
of these meanings, and `ClassRecord.withSection` says what its value adds to the record of the
class.
-/

namespace ClassTags

/-- What a key of a class body means. -/
inductive Section where
  | parent
  | mixins
  | interfaces
  | construction
  | destruction
  | statics
  | members
  | properties
  | events
  | type
  | environment
  | deferral
deriving DecidableEq, Repr

namespace Section

/-- The key of a section. -/
def key : Section → Text
  | parent => "extend"
  | mixins => "include"
  | interfaces => "implement"
  | construction => "construct"
  | destruction => "destruct"
  | statics => "statics"
  | members => "members"
  | properties => "properties"
  | events => "events"
  | type => "type"
  | environment => "environment"
  | deferral => "defer"

/-- All sections. -/
def all : List Section :=
  [parent, mixins, interfaces, construction, destruction, statics, members, properties, events,
    type, environment, deferral]

/-- The section with the given key. -/
def ofKey? (t : Text) : Option Section := all.find? fun s => s.key == t

/-- Whether the value of a section has to be an object literal. -/
def hasEntries : Section → Bool
  | statics | members | properties | events => true
  | _ => false

end Section

namespace Node

/-- The keys and values of an object literal, in order. -/
def entries? : Node → Option (List (Node × Node))
  | object _ entries => some (entries.filterMap fun
    | property _ key value => some (key, value)
    | _ => none)
  | _ => none

/-- The keys and values of an object literal. Everything else has none. -/
def entries (n : Node) : List (Node × Node) := n.entries?.getD []

/-- Whether a node is a function. -/
def isFunction : Node → Bool
  | function .. => true
  | _ => false

/-- The parameters of a function as they read, in parentheses. -/
def signature? : Node → Option Text
  | function _ params => some ("(" ++ Text.joinWith ", " (params.map text) ++ ")")
  | _ => none

/-- The name of a class type that a node gives: the value of a string, or the text of the node. -/
def reading : Node → Text
  | string _ value => value
  | n => n.text

end Node

namespace MemberEntry

/-- A class that a node refers to, by a string or by an expression. -/
def reference (n : Node) : MemberEntry := { name := n.reading, node := n }

/-- The classes that a node refers to: those of an array, or a single one. -/
def references : Node → List MemberEntry
  | .array _ elements => elements.map reference
  | n => [reference n]

/-- A method with its parameters. -/
def method (name : Text) (value : Node) : MemberEntry :=
  { name, node := value, signature := value.signature? }

/-- A member that is known by its name only. -/
def plain (entry : Node × Node) : MemberEntry := { name := entry.1.keyName, node := entry.2 }

/-- A member with its first value. -/
def initialized (entry : Node × Node) : MemberEntry :=
  { name := entry.1.keyName, node := entry.2, signature := some ("(=" ++ entry.2.text ++ ")") }

end MemberEntry

/-- The name under which the constructor of a class is listed. -/
def constructorName : Text := "[constructor]"

/-- The name under which the destructor of a class is listed. -/
def destructorName : Text := "[destructor]"

namespace Section

/-- The methods that a section adds to a class. -/
def methods (s : Section) (value : Node) : List MemberEntry :=
  match s with
  | construction => [.method constructorName value]
  | destruction => [.method destructorName value]
  | members =>
    (value.entries.filter (·.2.isFunction)).map fun entry => .method entry.1.keyName entry.2
  | _ => []

/-- The properties that a section adds to a class. -/
def propertiesOf (s : Section) (value : Node) : List MemberEntry :=
  match s with
  | members => (value.entries.filter (!·.2.isFunction)).map .initialized
  | properties => value.entries.map .plain
  | _ => []

end Section

/-- The record of a class with what one section of its body adds to it. -/
def ClassRecord.withSection (r : ClassRecord) (s : Section) (value : Node) : ClassRecord :=
  match s with
  | .parent => { r with parent := some (.reference value) }
  | .mixins => { r with mixins := MemberEntry.references value }
  | .interfaces => { r with interfaces := MemberEntry.references value }
  | .type => { r with type := (ClassType.ofName? value.reading).getD r.type }
  | .statics => { r with statics := r.statics ++ value.entries.map .plain }
  | .events => { r with events := r.events ++ value.entries.map .plain }
  | s => { r with
      methods := r.methods ++ s.methods value
      properties := r.properties ++ s.propertiesOf value }

end ClassTags
