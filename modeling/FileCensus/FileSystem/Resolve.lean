import FileCensus.FileSystem.Node
import FileCensus.Path
import FileCensus.Fault

/-!
From a path to a place. Names are followed from the left; `..` leads to the parent directory of the place reached so far, not
of the path text; a link is replaced by the names of its target. At most forty links are followed in one resolution, which
both makes the process end and decides when a chain of links is reported as a loop.
-/

namespace FileCensus

/-- Where a path leads: to a node, or to a free name in a directory. -/
inductive Spot where
  | node (place : Place)
  | vacant (directory : Place) (name : String)
  deriving DecidableEq, Repr

/-- A request that cannot be carried out: the path text holds a NUL, or the system reports a fault. -/
inductive Refusal where
  | embeddedNul
  | fault (cause : PathFault)
  deriving DecidableEq, Repr

namespace FileSystem

def linkLimit : Nat := 40

def nameLimit : Nat := 255

def pathLimit : Nat := 4096

/-- The names of a link's target. A final slash asks for a directory, just as a final `.` does. -/
def targetNames (target : String) : List String :=
    let pieces := (Path.cut target.toList).filter (fun p => !p.isEmpty)
    let last := if target.endsWith "/" then ["."] else []
    pieces.map String.ofList ++ last

def isAbsolute (target : String) : Bool :=
    target.startsWith "/"

/-- Follows `names` from the directory `here`, handing each link that has to be followed to `chase` together with the names
that remain to be followed from it. -/
def follow (fs : FileSystem) (chase : Place → List String → Except PathFault Spot) (last : Bool) (here : Place) :
    List String → Except PathFault Spot
  | [] => .ok (.node here)
  | name :: rest =>
      match fs.at? here with
      | some (.directory entries) =>
          if name == "." then follow fs chase last here rest
          else if name == ".." then follow fs chase last here.dropLast rest
          else if nameLimit < name.utf8ByteSize then .error .nameTooLong
          else match Node.entryOf entries name with
            | none => if rest.isEmpty then .ok (.vacant here name) else .error .missing
            | some (.link target _) =>
                if rest.isEmpty && !last then .ok (.node (here ++ [name]))
                else chase (if isAbsolute target then [] else here) (targetNames target ++ rest)
            | some _ => follow fs chase last (here ++ [name]) rest
      | some _ => .error .notDirectory
      | none => .error .missing

/-- Follows names from a place with `budget` links to spend. -/
def followLinks (fs : FileSystem) (last : Bool) : (budget : Nat) → Place → List String → Except PathFault Spot
  | 0 => follow fs (fun _ _ => .error .tooManyLinks) last
  | budget + 1 => follow fs (followLinks fs last budget) last

/-- Where a path leads; a link in the last position is followed only if `last` holds. -/
def locate (fs : FileSystem) (last : Bool) (p : Path) : Except Refusal Spot :=
    if p.names.any (·.contains '\x00') then .error .embeddedNul
    else if pathLimit ≤ p.text.utf8ByteSize then .error (.fault .nameTooLong)
    else
      let start := if p.anchor = .here then fs.workingDirectory else []
      match fs.followLinks last linkLimit start p.names with
      | .ok spot => .ok spot
      | .error cause => .error (.fault cause)

/-- The place of an existing node. -/
def find (fs : FileSystem) (last : Bool) (p : Path) : Except Refusal Place :=
    match fs.locate last p with
    | .ok (.node place) => .ok place
    | .ok (.vacant _ _) => .error (.fault .missing)
    | .error r => .error r

end FileSystem

end FileCensus
