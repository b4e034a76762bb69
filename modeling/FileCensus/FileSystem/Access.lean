import FileCensus.FileSystem.Resolve

/-!
What a program can ask of a file tree: the status of a path, the entries of a directory in the order of their names, the
content of a file, and the making of directories and files. Questions leave the tree alone; the others return the new tree.
-/

namespace FileCensus

structure Status where
  kind : Kind
  size : UInt64
  /-- Nanoseconds since 1970. -/
  stamp : Int
  /-- Equal for two paths exactly when they lead to one node. -/
  identity : Place

structure Entry where
  name : String
  kind : Kind
  deriving DecidableEq, Repr

namespace FileSystem

/-- The size that is reported for directories, which have no content of their own. -/
def directorySize : UInt64 := 4096

def statusOf (n : Node) (place : Place) : Status :=
    match n with
    | .file data => ⟨.file, data.size, data.stamp, place⟩
    | .directory _ => ⟨.directory, directorySize, 0, place⟩
    | .link target stamp => ⟨.link, .ofNat target.utf8ByteSize, stamp, place⟩
    | .pipe => ⟨.other, 0, 0, place⟩

def status (fs : FileSystem) (last : Bool) (p : Path) : Except Refusal Status := do
    let place ← fs.find last p
    match fs.at? place with
    | some n => .ok (statusOf n place)
    | none => .error (.fault .missing)

def entriesOf (entries : List (String × Node)) : List Entry :=
    (entries.map fun e => (⟨e.1, e.2.kind⟩ : Entry)).mergeSort fun a b => !decide (b.name < a.name)

/-- The entries of a directory, in the order of the code points of their names. -/
def list (fs : FileSystem) (p : Path) : Except Refusal (List Entry) := do
    let place ← fs.find true p
    match fs.at? place with
    | some (.directory entries) => .ok (entriesOf entries)
    | some _ => .error (.fault .notDirectory)
    | none => .error (.fault .missing)

/-- Faults that mean no more than that a path leads nowhere. -/
def leadsNowhere : Refusal → Bool
  | .fault .missing | .fault .notDirectory | .fault .tooManyLinks | .embeddedNul => true
  | .fault _ => false

/-- Whether a path leads to a node, links followed; a fault of another sort is passed on. -/
def exists? (fs : FileSystem) (p : Path) : Except Refusal Bool :=
    match fs.status true p with
    | .ok _ => .ok true
    | .error r => if leadsNowhere r then .ok false else .error r

def isDirectory (fs : FileSystem) (p : Path) : Bool :=
    match fs.status true p with
    | .ok s => s.kind = .directory
    | .error _ => false

def content (fs : FileSystem) (p : Path) : Except Refusal (List UInt8) := do
    let place ← fs.find true p
    match fs.at? place with
    | some (.file data) => .ok data.bytes
    | some (.directory _) => .error (.fault .isDirectory)
    | some _ => .ok []
    | none => .error (.fault .missing)

def makeDirectory (fs : FileSystem) (p : Path) : Except Refusal FileSystem :=
    match fs.locate false p with
    | .ok (.vacant directory name) => .ok (fs.put (.directory []) (directory ++ [name]))
    | .ok (.node _) => .error (.fault .exists_)
    | .error r => .error r

/-- A directory that exists is as good as a new one. -/
def makeOrKeep (fs : FileSystem) (p : Path) : Except Refusal FileSystem :=
    match fs.makeDirectory p with
    | .ok fs => .ok fs
    | .error .embeddedNul => .error .embeddedNul
    | .error r => if fs.isDirectory p then .ok fs else .error r

/-- Makes a directory and those of its parents that are missing; `steps` bounds how many. A refusal names the directory that
could not be made. -/
def makeDirectoriesWithin : (steps : Nat) → FileSystem → Path → Except (Path × Refusal) FileSystem
  | 0, fs, p => (fs.makeOrKeep p).mapError fun r => (p, r)
  | steps + 1, fs, p =>
      match fs.makeOrKeep p with
      | .error (.fault .missing) =>
          if p.names.isEmpty then .error (p, .fault .missing)
          else do
            let fs ← makeDirectoriesWithin steps fs p.parent
            (fs.makeOrKeep p).mapError fun r => (p, r)
      | r => r.mapError fun r => (p, r)

def makeDirectories (fs : FileSystem) (p : Path) : Except (Path × Refusal) FileSystem :=
    makeDirectoriesWithin p.names.length fs p

/-- Opens a file for writing: an existing one is emptied, a missing one is made in its directory. -/
def openForWriting (fs : FileSystem) (p : Path) (stamp : Int) : Except Refusal (FileSystem × Place) := do
    match ← fs.locate true p with
    | .vacant directory name =>
        let place := directory ++ [name]
        .ok (fs.put (.file (.ofBytes [] stamp)) place, place)
    | .node place =>
        match fs.at? place with
        | some (.directory _) => .error (.fault .isDirectory)
        | some (.file _) => .ok (fs.put (.file (.ofBytes [] stamp)) place, place)
        | _ => .ok (fs, place)

/-- Opens a file to add to it, with what it holds already; a missing one is made in its directory. -/
def openForAppending (fs : FileSystem) (p : Path) (stamp : Int) :
    Except Refusal (FileSystem × Place × List UInt8) := do
    match ← fs.locate true p with
    | .vacant directory name =>
        let place := directory ++ [name]
        .ok (fs.put (.file (.ofBytes [] stamp)) place, place, [])
    | .node place =>
        match fs.at? place with
        | some (.directory _) => .error (.fault .isDirectory)
        | some (.file data) => .ok (fs, place, data.bytes)
        | _ => .ok (fs, place, [])

def writeBytes (fs : FileSystem) (place : Place) (bytes : List UInt8) (stamp : Int) : FileSystem :=
    fs.put (.file (.ofBytes bytes stamp)) place

end FileSystem

end FileCensus
