import FileCensus.Failure
import FileCensus.FileSystem.Access
import FileCensus.Filter.Matcher

/-!
What a walk asks of a file system. Every question can fail. The kind of an entry is asked for only where links are followed,
and a link that leads nowhere then has none.
-/

namespace FileCensus

structure Probe where
  status : Path → Except Failure Status
  list : Path → Except Failure (List Entry)
  /-- The kind of an entry of a directory, links followed. -/
  kindOf : Path → Entry → Except Failure (Option Kind)
  attributes : AttributeQuery

namespace FileSystem

def kindOf (fs : FileSystem) (directory : Path) (e : Entry) : Except Failure (Option Kind) :=
    if e.kind = .link then
      match fs.status true (directory.child e.name) with
      | .ok s => .ok (some s.kind)
      | .error (.fault .missing) => .ok none
      | .error r => .error (.ofRefusal (directory.entryText e.name) r)
    else .ok (some e.kind)

/-- The attribute bits of a path in a file system that has none: the path must exist. -/
def noAttributes (fs : FileSystem) : AttributeQuery := fun p =>
    match fs.status false p with
    | .ok _ => .ok none
    | .error r => .error (.ofRefusal p.text r)

/-- The answers of a file tree, with a source of attribute bits beside it. -/
def probe (fs : FileSystem) (attributes : AttributeQuery) : Probe where
  status p := (fs.status true p).mapError (.ofRefusal p.text)
  list p := (fs.list p).mapError (.ofRefusal p.text)
  kindOf := fs.kindOf
  attributes := attributes

end FileSystem

end FileCensus
