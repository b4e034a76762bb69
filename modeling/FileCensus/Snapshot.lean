import FileCensus.Command.Arguments

/-!
A picture of the file tree of the machine, taken before a command runs. Directories that the command may walk are taken as a
whole, with what their links lead to if links may be followed; of other paths only what lies on the way. The content of a
file is taken only where it is asked for.
-/

namespace FileCensus

structure Snapshot where
  fs : FileSystem
  /-- The directories whose entries have been taken. -/
  listed : List Place

namespace Snapshot

def pathText (place : Place) : String :=
    "/" ++ "/".intercalate place

def entryAt (directory : Place) (name : String) : IO.FS.DirEntry :=
    ⟨pathText directory, name⟩

def stampOf (m : IO.FS.Metadata) : Int :=
    m.modified.sec * 1000000000 + m.modified.nsec.toNat

/-- A target for a link that cannot be followed: a name that no directory has if something is missing on the way, else the
link itself. -/
def blindTarget (e : IO.Error) (place : Place) : String :=
    match e with
    | .noFileOrDirectory .. => "\x00"
    | _ => pathText place

/-- The node of an entry, without the entries of a directory and the content of a file. -/
def nodeAt (directory : Place) (name : String) : IO (Option Node) := do
    let path := (entryAt directory name).path
    match ← path.symlinkMetadata.toBaseIO with
    | .error _ => return none
    | .ok m =>
        match m.type with
        | .dir => return some (.directory [])
        | .file => return some (.file ⟨m.byteSize, [], stampOf m⟩)
        | .other => return some .pipe
        | .symlink =>
            match ← path.metadata.toBaseIO with
            | .ok _ => return some (.link (← IO.FS.realPath path).toString (stampOf m))
            | .error e => return some (.link (blindTarget e (directory ++ [name])) (stampOf m))

/-- The entries of a directory; there are none in one that cannot be listed. -/
def entriesOf (place : Place) : IO (Array IO.FS.DirEntry) := do
    match ← (entryAt place.dropLast (place.getLastD "")).path.readDir.toBaseIO with
    | .ok found => return found
    | .error _ => return #[]

def take (directory : Place) (name : String) : StateT Snapshot IO Unit := do
    let s ← get
    if (s.fs.at? (directory ++ [name])).isNone then
      match ← nodeAt directory name with
      | some n => set { s with fs := s.fs.put n (directory ++ [name]) }
      | none => return

mutual

/-- Takes what lies on the way from a place, and all that is in the directory at its end if `whole` holds. -/
partial def reach (whole follows : Bool) (budget : Nat) (here : Place) : List String → StateT Snapshot IO Unit
  | [] => do
      if whole then list follows budget here
  | name :: rest => do
      if name = ".." then reach whole follows budget here.dropLast rest
      else
        take here name
        let place := here ++ [name]
        match (← get).fs.at? place, budget with
        | some (.link target _), budget + 1 => reach whole follows budget [] (FileSystem.targetNames target ++ rest)
        | some (.link _ _), 0 | none, _ => return
        | some _, _ => reach whole follows budget place rest

/-- Takes a directory with all directories below it. -/
partial def list (follows : Bool) (budget : Nat) (place : Place) : StateT Snapshot IO Unit := do
    let s ← get
    if s.listed.contains place then return
    match s.fs.at? place with
    | some (.directory _) =>
        set { s with listed := place :: s.listed }
        for e in ← entriesOf place do
          take place e.fileName
          match (← get).fs.at? (place ++ [e.fileName]) with
          | some (.directory _) => list follows budget (place ++ [e.fileName])
          | some (.link target _) => if follows then reach true follows (budget - 1) [] (FileSystem.targetNames target)
          | _ => pure ()
    | _ => return

end

/-- Takes the content of the file that a path leads to. -/
def read (p : Path) : StateT Snapshot IO Unit := do
    let s ← get
    match s.fs.find true p with
    | .error _ => return
    | .ok place =>
        match s.fs.at? place with
        | some (.file data) =>
            match ← (IO.FS.readBinFile (pathText place)).toBaseIO with
            | .ok bytes => set { s with fs := s.fs.put (.file { data with bytes := bytes.toList }) place }
            | .error _ => return
        | _ => return

def reachPath (whole follows : Bool) (p : Path) : StateT Snapshot IO Unit := do
    let s ← get
    let start := if p.anchor = .here then s.fs.workingDirectory else []
    reach whole follows FileSystem.linkLimit start p.names

/-- Everything that a command line may have the program look at. -/
def ofWords (words : List String) : IO Snapshot := do
    let directory ← IO.currentDir
    let here := (Path.parse directory.toString).names
    let table : Command.OptionTable :=
      ⟨Command.General.table.flags ++ Command.Request.table.flags,
        Command.General.table.valued ++ Command.Request.table.valued⟩
    let line := (Command.Line.read table true words).toOption.getD ⟨[], []⟩
    let follows := line.mentions? "--follow-symlinks" || line.mentions? "--config-file"
    let files := line.mentions.filterMap fun m =>
      if ["--config-file", "--log-file", "--output"].contains m.option then m.value else none
    let load : StateT Snapshot IO Unit := do
      reach false false 0 [] here
      for text in files do
        reachPath false false (.parse text)
        read (.parse text)
      for text in line.operands do
        reachPath true follows (.parse text)
    return (← load.run ⟨⟨.directory [], here⟩, []⟩).2

end Snapshot

end FileCensus
