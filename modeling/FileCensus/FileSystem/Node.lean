/-!
File trees. A directory holds named nodes, a symbolic link holds the text of its target, and everything that is neither a
file, a directory nor a link is a pipe. The size of a file has 64 bits. A place is the list of names that leads to a node
from the root without any link, so two paths lead to one directory exactly when they have one place.
-/

namespace FileCensus

structure FileData where
  size : UInt64
  bytes : List UInt8
  /-- Nanoseconds since 1970. -/
  stamp : Int

def FileData.ofBytes (bytes : List UInt8) (stamp : Int) : FileData :=
    ⟨.ofNat bytes.length, bytes, stamp⟩

inductive Node where
  | file (data : FileData)
  | directory (entries : List (String × Node))
  | link (target : String) (stamp : Int)
  | pipe

inductive Kind where
  | file
  | directory
  | link
  | other
  deriving DecidableEq, Repr

abbrev Place := List String

namespace Node

def kind : Node → Kind
  | .file _ => .file
  | .directory _ => .directory
  | .link _ _ => .link
  | .pipe => .other

def entryOf (entries : List (String × Node)) (name : String) : Option Node :=
    (entries.find? (·.1 == name)).map (·.2)

def child? (n : Node) (name : String) : Option Node :=
    match n with
    | .directory entries => entryOf entries name
    | _ => none

def at? (n : Node) : Place → Option Node
  | [] => some n
  | name :: rest => (n.child? name).bind fun m => m.at? rest

/-- Puts an entry in, in the place of one of the same name if there is one. -/
def putEntry (name : String) (m : Node) : List (String × Node) → List (String × Node)
  | [] => [(name, m)]
  | (n, old) :: rest => if n == name then (n, m) :: rest else (n, old) :: putEntry name m rest

/-- Puts `m` at a place whose directories exist; anything else leaves the tree as it is. -/
def put (n : Node) (m : Node) : Place → Node
  | [] => m
  | name :: rest =>
      match n with
      | .directory entries =>
          match rest, entryOf entries name with
          | [], _ => .directory (putEntry name m entries)
          | _ :: _, some old => .directory (putEntry name (old.put m rest) entries)
          | _ :: _, none => n
      | _ => n

def isDirectory (n : Node) : Bool :=
    n.kind = .directory

end Node

structure FileSystem where
  root : Node
  workingDirectory : Place

def FileSystem.at? (fs : FileSystem) (place : Place) : Option Node :=
    fs.root.at? place

def FileSystem.put (fs : FileSystem) (m : Node) (place : Place) : FileSystem :=
    { fs with root := fs.root.put m place }

end FileCensus
