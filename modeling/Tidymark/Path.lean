/-! # Paths

A path is text. Two texts name one path when they have the same components: repeated slashes,
slashes at the end and dots behind the first component count for nothing. -/
namespace Tidymark.Path

inductive Component where
  | root
  /-- A dot at the start. -/
  | here
  | up
  | name (n : String)
  deriving DecidableEq, Repr

/-- The parts of a text between slashes. -/
def pieces : List Char → List (List Char)
  | [] => [[]]
  | c :: rest =>
    if c = '/' then [] :: pieces rest
    else match pieces rest with
      | [] => [[c]]
      | piece :: others => (c :: piece) :: others

def isAbsolute (path : String) : Bool := path.toList.head? == some '/'

def componentOf? : List Char → Option Component
  | [] => none
  | ['.'] => none
  | ['.', '.'] => some .up
  | piece => some (.name (String.ofList piece))

def components (path : String) : List Component :=
  let first :=
    if isAbsolute path then [.root]
    else if (pieces path.toList).head? == some ['.'] then [.here] else []
  first ++ (pieces path.toList).filterMap componentOf?

def Component.rank : Component → Nat
  | root => 0
  | here => 1
  | up => 2
  | name _ => 3

def Component.before : Component → Component → Bool
  | name m, name n => m < n
  | a, b => a.rank < b.rank

def atMostList : List Component → List Component → Bool
  | [], _ => true
  | _ :: _, [] => false
  | a :: s, b :: t => a.before b || (a == b && atMostList s t)

/-- The order of paths by their components. -/
def atMost (p q : String) : Bool := atMostList (components p) (components q)

/-- Whether two texts name one path. -/
def same (p q : String) : Bool := components p == components q

/-- A path seen from a directory. -/
def join (base path : String) : String :=
  if isAbsolute path || base.isEmpty then path
  else if base.toList.getLast? == some '/' then base ++ path
  else base ++ "/" ++ path

/-- The last component, if it is a name. -/
def fileName? (path : String) : Option String :=
  match (components path).getLast? with
  | some (.name n) => some n
  | _ => none

/-- What follows the last dot of the file name; a dot at the start does not count. -/
def extension? (path : String) : Option String := do
  let name ← fileName? path
  let reversed := name.toList.reverse
  let extension := reversed.takeWhile (· != '.')
  if extension.length + 1 < reversed.length then some (String.ofList extension.reverse) else none

/-- Drops slashes, and dots between them, at the start. -/
def skip : List Char → List Char
  | '/' :: rest => skip rest
  | ['.'] => []
  | '.' :: '/' :: rest => skip rest
  | path => path

/-- Drops slashes, and dots between them, at the end of a path that is read backwards. A path that
is only a slash or a dot stays. -/
def skipBack : List Char → List Char
  | ['/'] => ['/']
  | '/' :: rest => skipBack rest
  | ['.'] => ['.']
  | '.' :: '/' :: rest => if rest.isEmpty then ['/'] else skipBack rest
  | path => path

/-- What is left of a path behind these components; `first` holds at its start. -/
def dropComponents (first : Bool) : List Component → List Char → Option (List Char)
  | [], path => some (if first then path else skip path)
  | c :: cs, path =>
    let start :=
      match path with
      | '/' :: _ => if first then some Component.root else none
      | ['.'] | '.' :: '/' :: _ => if first then some Component.here else none
      | _ => none
    match start with
    | some component => if c == component then dropComponents false cs (path.drop 1) else none
    | none =>
      let path := if first then path else skip path
      let piece := path.takeWhile (· != '/')
      if componentOf? piece == some c then dropComponents false cs (path.drop piece.length)
      else none

/-- A path seen from a directory that it lies in. -/
def strip? (base path : String) : Option String :=
  (dropComponents true (components base) path.toList).map String.ofList

/-- The directory of a path; nothing for a root and for the empty path. -/
def parent? (path : String) : Option String :=
  match (components path).getLast? with
  | none | some .root => none
  | some _ =>
    let behind := (skipBack path.toList.reverse).dropWhile (· != '/')
    some (String.ofList (skipBack behind).reverse)

end Tidymark.Path
