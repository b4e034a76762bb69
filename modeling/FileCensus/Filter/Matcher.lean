import FileCensus.Failure
import FileCensus.Glob.Basic

/-!
What a filter can look at: the name of an entry, the attribute bits that some file systems keep, or the path below the root
of the walk. A caller may bring matchers of its own, which look at the path and at the path below the root. Only they and the
question for attribute bits can fail.
-/

namespace FileCensus

/-- The attribute bits of a path, `none` where the file system has no such bits. -/
abbrev AttributeQuery := Path → Except Failure (Option Int)

inductive Matcher where
  /-- A name that begins with a dot. -/
  | hidden
  /-- The attribute bit of hidden files. -/
  | marked
  /-- A name that operating systems give to files of their own. -/
  | system
  | glob (g : Glob)
  /-- A matcher that the caller brings along. -/
  | custom (judge : Path → String → Except Failure Bool)

namespace Matcher

def systemNames : List String :=
    [".DS_Store", "._.DS_Store", ".AppleDouble", ".Spotlight-V100", ".Trashes", ".fseventsd", ".TemporaryItems",
      ".DocumentRevisions-V100", ".VolumeIcon.icns", ".apdisk", "Thumbs.db", "ehthumbs.db", "ehthumbs_vista.db",
      "Desktop.ini", "desktop.ini", "$RECYCLE.BIN", "System Volume Information", ".directory"]

def isHidden (p : Path) : Bool :=
    p.name.startsWith "."

def isSystem (p : Path) : Bool :=
    systemNames.contains p.name

/-- The second lowest bit, in two's complement. -/
def hasHiddenBit (attributes : Int) : Bool :=
    attributes / 2 % 2 = 1

def isMarked (query : AttributeQuery) (p : Path) : Except Failure Bool :=
    (query p).map fun bits => bits.any hasHiddenBit

/-- Whether the file system of a path has attribute bits; a fault of the system counts as no. -/
def supportsMarks (query : AttributeQuery) (p : Path) : Except Failure Bool :=
    match query p with
    | .ok bits => .ok bits.isSome
    | .error (.system _) => .ok false
    | .error f => .error f

def accepts (query : AttributeQuery) (m : Matcher) (path : Path) (relative : String) : Except Failure Bool :=
    match m with
    | .hidden => .ok (isHidden path)
    | .marked => isMarked query path
    | .system => .ok (isSystem path)
    | .glob g => .ok (g.accepts relative)
    | .custom judge => judge path relative

/-- Whether one of the matchers accepts a path; they are asked in turn up to the first that does. -/
def anyAccepts (query : AttributeQuery) (path : Path) (relative : String) : List Matcher → Except Failure Bool
  | [] => .ok false
  | m :: rest => do
      if ← m.accepts query path relative then .ok true else anyAccepts query path relative rest

end Matcher

end FileCensus
