import ClassTags.Node.Basic

/-!
# Class records

What is known of a class: where it is defined, what it is derived from, and its members. Every
member keeps the node it comes from.
-/

namespace ClassTags

/-- What a class declares itself to be. -/
inductive ClassType where
  | plain
  | abstract
  | singleton
  | static
deriving DecidableEq, Repr

namespace ClassType

/-- The name of a class type. -/
def name : ClassType → Text
  | plain => "none"
  | abstract => "abstract"
  | singleton => "singleton"
  | static => "static"

/-- The class type with the given name. -/
def ofName? (t : Text) : Option ClassType :=
  [plain, abstract, singleton, static].find? fun type => type.name == t

end ClassType

/-- What a tag stands for. -/
inductive MemberKind where
  | definition
  | parent
  | mixin
  | interface
  | method
  | property
  | static
  | event
deriving DecidableEq, Repr

/-- The letter that stands for a kind in a tag file. -/
def MemberKind.code : MemberKind → Char
  | definition => 'c'
  | parent => 'x'
  | mixin => 'n'
  | interface => 'i'
  | method => 'm'
  | property => 'p'
  | static => 's'
  | event => 'e'

/-- A member of a class, or another class that it refers to. -/
structure MemberEntry where
  name : Text
  node : Node
  signature : Option Text := none
deriving Repr

/-- The line on which a member stands. -/
def MemberEntry.line (m : MemberEntry) : Nat := m.node.line

/-- What is known of a class. -/
structure ClassRecord where
  /-- The file that defines the class. -/
  path : Text
  name : Text
  /-- The object literal that the class is made from. -/
  body : Node
  type : ClassType := .plain
  parent : Option MemberEntry := none
  mixins : List MemberEntry := []
  interfaces : List MemberEntry := []
  methods : List MemberEntry := []
  properties : List MemberEntry := []
  statics : List MemberEntry := []
  events : List MemberEntry := []
deriving Repr

namespace ClassRecord

/-- The line on which the body of a class begins. -/
def line (r : ClassRecord) : Nat := r.body.line

/-- The members of one kind in the order of their definition. -/
def ofKind (r : ClassRecord) : MemberKind → List MemberEntry
  | .definition => []
  | .parent => r.parent.toList
  | .mixin => r.mixins
  | .interface => r.interfaces
  | .method => r.methods
  | .property => r.properties
  | .static => r.statics
  | .event => r.events

/-- The kinds of members in the order in which they are listed. -/
def listedKinds : List MemberKind := [.mixin, .interface, .method, .property, .static, .event]

/-- All members with their kinds, one kind after the other. -/
def members (r : ClassRecord) : List (MemberKind × MemberEntry) :=
  listedKinds.flatMap fun kind => (r.ofKind kind).map (kind, ·)

end ClassRecord

end ClassTags
