import ClassTags.Text.Basic

/-!
# Paths

Paths are texts whose components are separated by slashes. Exactly two slashes at the head of a path
are not the same as one; three and more are.

Main definitions:

* `Path.normalize` — the path without empty, `.` and removable `..` components;
* `Path.absolute` — the normalized path seen from a directory;
* `Path.join`, `Path.parent` — into and out of a directory;
* `Path.isUnder` — whether a path is another one or lies below it.
-/

namespace ClassTags.Path

/-- The character between components. -/
def separator : Char := '/'

/-- The non-empty components of a path. -/
def components (p : Text) : List Text := (p.splitOn separator).filter fun c => !c.isEmpty

/-- Whether a path begins at the root. -/
def isAbsolute (p : Text) : Bool := p.head? == some separator

/-- The slashes at the head of a normalized path. -/
def leadingSlashes : Text → Text
  | '/' :: '/' :: '/' :: _ => "/"
  | '/' :: '/' :: _ => "//"
  | '/' :: _ => "/"
  | _ => []

/-- Takes one component more into the reversed list of components. `rooted` says that the path
begins at the root, which is its own parent. -/
def pushComponent (rooted : Bool) (done : List Text) (c : Text) : List Text :=
  if c = ("." : Text) then done
  else if c = (".." : Text) then
    match done with
    | [] => if rooted then [] else [c]
    | last :: others => if last = (".." : Text) then c :: done else others
  else c :: done

/-- The components of a path after those that cancel each other are gone. -/
def reducedComponents (p : Text) : List Text :=
  ((components p).foldl (pushComponent (isAbsolute p)) []).reverse

/-- The shortest spelling of a path. Nothing at all becomes `.`. -/
def normalize (p : Text) : Text :=
  let spelled := leadingSlashes p ++ Text.joinWith [separator] (reducedComponents p)
  if spelled.isEmpty then "." else spelled

/-- A path seen from a directory. -/
def join (dir p : Text) : Text :=
  if isAbsolute p then p
  else if dir.isEmpty || dir.getLast? == some separator then dir ++ p
  else dir ++ separator :: p

/-- The normalized path seen from a directory. -/
def absolute (dir p : Text) : Text := normalize (join dir p)

/-- A text without the slashes at its end. -/
def trimSlashes (p : Text) : Text := (p.reverse.dropWhile (· == separator)).reverse

/-- The path up to its last slash. -/
def head (p : Text) : Text := (p.reverse.dropWhile (· != separator)).reverse

/-- The directory that a path lies in. -/
def parent (p : Text) : Text :=
  if (head p).all (· == separator) then head p else trimSlashes (head p)

/-- Whether a path is `root` or lies below it. -/
def isUnder (p root : Text) : Bool :=
  p == root || (trimSlashes root ++ [separator]).isPrefixOf p

end ClassTags.Path
