import FileCensus.Config.Options
import FileCensus.Filter.FilterSet

/-!
What a scanner is set to at a time. A change is a sequence of steps, of which some can fail and some write; what is written
stays written, so that all that can fail has to come first. The filters of a job are made from the settings of the moment;
later changes do not reach them.
-/

namespace FileCensus

structure Settings where
  include_ : List Glob
  exclude : List Glob
  ignoreHidden : Bool
  ignoreSystem : Bool
  followLinks : Bool
  maxDepth : Option Nat
  deriving DecidableEq, Repr

namespace Settings

def usual : Settings :=
    ⟨[], [], true, true, false, none⟩

def compile (pattern : String) : Except Failure Glob :=
    (Glob.compile pattern).mapError .glob

def compileAll : List String → Except Failure (List Glob)
  | [] => .ok []
  | p :: rest => do
      let g ← compile p
      let more ← compileAll rest
      .ok (g :: more)

def setIgnoreHidden (s : Settings) (d : Datum) : Settings :=
    { s with ignoreHidden := d.isTrue }

def setIgnoreSystem (s : Settings) (d : Datum) : Settings :=
    { s with ignoreSystem := d.isTrue }

def setFollowLinks (s : Settings) (d : Datum) : Settings :=
    { s with followLinks := d.isTrue }

/-- A depth limit that is set directly is an integer; a text that reads as one is not. -/
def readDepth : Datum → Except OptionFault (Option Nat)
  | .null => .ok none
  | .int n => if n < 0 then .error .belowZero else .ok (some n.toNat)
  | d => .error (.integerExpected d.shown)

/-- A change, step by step. A step that fails leaves the settings as the steps before it have written them. -/
abbrev Edit := ExceptT Failure (StateM Settings) Unit

namespace Edit

/-- Writes what was given; what was not given is not touched. -/
def writeGiven {α : Type} (given : Option α) (write : Settings → α → Settings) : Edit :=
    match given with
    | none => pure ()
    | some v => modify fun s => write s v

/-- Applies options; patterns are added to those already there. -/
def configure (o : Options) : Edit := do
    let included ← compileAll (o.includePattern.getD [])
    let excluded ← compileAll (o.excludePattern.getD [])
    writeGiven o.includeHidden fun s b => { s with ignoreHidden := !b }
    writeGiven o.includeSystem fun s b => { s with ignoreSystem := !b }
    writeGiven o.followLinks fun s b => { s with followLinks := b }
    writeGiven o.maxDepth fun s limit => { s with maxDepth := limit }
    modify fun s => { s with include_ := s.include_ ++ included }
    modify fun s => { s with exclude := s.exclude ++ excluded }

def configureGiven (given : Options.Given) : Edit := do
    let o ← (Options.ofGiven given).mapError Failure.config
    configure o

def addInclude (pattern : String) : Edit := do
    let g ← compile pattern
    modify fun s => { s with include_ := s.include_ ++ [g] }

def addExclude (pattern : String) : Edit := do
    let g ← compile pattern
    modify fun s => { s with exclude := s.exclude ++ [g] }

def setMaxDepth (d : Datum) : Edit := do
    let limit ← (readDepth d).mapError fun fault => Failure.config (.option OptionName.maxDepth.key fault)
    modify fun s => { s with maxDepth := limit }

/-- The settings that a change leaves behind, whether it fails or not. -/
def after (e : Edit) (s : Settings) : Settings :=
    (e.run s).2

/-- The settings after a change, or why there was none. -/
def result (e : Edit) (s : Settings) : Except Failure Settings :=
    (e.run s).1.map fun _ => e.after s

end Edit

def configure (s : Settings) (o : Options) : Except Failure Settings :=
    (Edit.configure o).result s

def configureGiven (s : Settings) (given : Options.Given) : Except Failure Settings :=
    (Edit.configureGiven given).result s

def addInclude (s : Settings) (pattern : String) : Except Failure Settings :=
    (Edit.addInclude pattern).result s

def addExclude (s : Settings) (pattern : String) : Except Failure Settings :=
    (Edit.addExclude pattern).result s

def setMaxDepth (s : Settings) (d : Datum) : Except Failure Settings :=
    (Edit.setMaxDepth d).result s

/-- The matchers that exclude what is ignored; `marks` tells whether there are attribute bits to look at. -/
def ignored (s : Settings) (marks : Bool) : List Matcher :=
    (if s.ignoreHidden then .hidden :: (if marks then [.marked] else []) else []) ++
      (if s.ignoreSystem then [.system] else [])

/-- The filters for a root. Whether its file system has attribute bits is asked only if hidden files are ignored. -/
def filterSet (s : Settings) (supportsMarks : Path → Except Failure Bool) (root : Path) : Except Failure FilterSet := do
    let marks ← if s.ignoreHidden then supportsMarks root else .ok false
    .ok ⟨s.ignored marks ++ s.exclude.map .glob, s.include_.map .glob, s.maxDepth.map Int.ofNat, s.followLinks⟩

end Settings

end FileCensus
