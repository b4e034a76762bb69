/-!
Paths as text and as names. A path text is cut at its slashes; empty names and the name `.` are dropped, while `..` is kept,
for what it means depends on links. Exactly two leading slashes are kept apart from one or from three and more.
-/

namespace FileCensus

/-- Where a path starts. -/
inductive Anchor where
  | here
  | root
  | doubleRoot
  deriving DecidableEq, Repr

structure Path where
  anchor : Anchor
  names : List String
  deriving DecidableEq, Repr

namespace Path

def Anchor.text : Anchor → String
  | .here => ""
  | .root => "/"
  | .doubleRoot => "//"

/-- Cuts a text at every slash; the pieces between slashes may be empty. -/
def cut : List Char → List (List Char)
  | [] => [[]]
  | c :: rest =>
      if c == '/' then [] :: cut rest
      else match cut rest with
        | piece :: pieces => (c :: piece) :: pieces
        | [] => [[c]]

def anchorOf (cs : List Char) : Anchor :=
    match (cs.takeWhile (· == '/')).length with
    | 0 => .here
    | 2 => .doubleRoot
    | _ => .root

/-- A name that a path keeps. -/
def isName (piece : List Char) : Bool :=
    !piece.isEmpty && piece != ['.']

def parse (s : String) : Path :=
    ⟨anchorOf s.toList, ((cut s.toList).filter isName).map String.ofList⟩

def text (p : Path) : String :=
    if p.anchor = .here ∧ p.names = [] then "."
    else Anchor.text p.anchor ++ "/".intercalate p.names

/-- The last name, empty for a path without names. -/
def name (p : Path) : String :=
    p.names.getLastD ""

def parent (p : Path) : Path :=
    { p with names := p.names.dropLast }

/-- The path of an entry of the directory `p`. -/
def child (p : Path) (name : String) : Path :=
    { p with names := p.names ++ [name] }

/-- The text that a listing of `p` gives one of its entries: the text of `p` joined to the name, so that an entry of the
working directory begins with `./`. -/
def entryText (p : Path) (name : String) : String :=
    match p.anchor, p.names with
    | .root, [] => "/" ++ name
    | .doubleRoot, [] => "//" ++ name
    | _, _ => p.text ++ "/" ++ name

/-- The part of a name from its last dot on; there is none when that dot is the first or the last character. -/
def suffixOf (name : List Char) : List Char :=
    let back := name.reverse.takeWhile (· != '.')
    if back.length + 1 < name.length && 0 < back.length then '.' :: back.reverse else []

def suffix (p : Path) : String :=
    String.ofList (suffixOf p.name.toList)

end Path

end FileCensus
