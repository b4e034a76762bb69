import FileCensus.Census.Step
import FileCensus.Command.Arguments
import FileCensus.Command.Report
import FileCensus.Config.File
import FileCensus.Log.File
import FileCensus.Signal.Throttle

/-!
A command from its words to its report. The log is set up before the words after the command's name are looked at, and the
output is made before any root is walked, so that both are part of the tree that is walked. Options on the command line
outdo those of the configuration file. A failure that the command has no words of its own for is passed on.
-/

namespace FileCensus.Command

/-- What a command finds. -/
structure Environment where
  fs : FileSystem
  /-- The reading of the clock that durations and progress go by. -/
  clock : Float
  /-- The time of log lines. -/
  time : String
  /-- The failure of a write to the output stream after so many others. -/
  streamRefusal : Nat → Option Failure
  /-- The failure of a write to an array after so many others. -/
  arrayRefusal : Nat → Option Failure

def openLog (fs : FileSystem) (g : General) : Except Failure (FileSystem × Log) :=
    match g.logFile with
    | none => .ok (fs, .toStream g.level)
    | some p => Log.openFile fs p g.level.name

/-- The settings of a request: the usual ones, changed by the configuration file and then by the command line. -/
def settingsOf (fs : FileSystem) (r : Request) : Except Failure Settings := do
    let options ← match r.configFile with
      | none => .ok Options.none
      | some p => Options.ofFile fs p
    let s ← Settings.usual.configure options
    s.configure r.options

def mainThread : String := "MainThread"

def workerThread : String := "treescan_0"

def schedulerLogger : String := Log.loggerName ++ ".scheduler"

def walkerLogger : String := Log.loggerName ++ ".walker"

def announcementRecord (root : Path) : Log.Level × Log.Record :=
    (.info, ⟨Log.Level.info.name, schedulerLogger, mainThread, Scanner.announcement root, none⟩)

def noticeRecord (n : Notice) : Log.Level × Log.Record :=
    (n.level, ⟨n.level.name, walkerLogger, workerThread, n.message, none⟩)

/-- What the threads of a census have reported. -/
def recordsOf (c : Census) : List (Log.Level × Log.Record) :=
    c.scanner.announced.map announcementRecord ++ c.scanner.jobs.flatMap fun j => j.walk.notices.map noticeRecord

def logged (log : Log) (time : String) (c : Census) : Log :=
    (recordsOf c).foldl (fun log r => log.add r.1 r.2 time) log

/-- The least number of seconds between two reports of progress. -/
def progressInterval : Float := 0.2

def progressLine (e : ProgressEvent) : String :=
    let path := e.path.getD ""
    lineOf ("queued=" ++ toString e.queued ++ " path=" ++ if path = "" then "-" else path)

/-- The reports of progress on entries, all at one reading of the clock. -/
def progressText (clock : Float) (entries : List FileEntry) : String :=
    (entries.foldl (fun (text, t) e =>
      let (t, event) := Throttle.notify t clock (some e.path)
      (text ++ (event.map progressLine).getD "", t)) ("", Throttle.start progressInterval)).1

def notifiedBy (c : Census) : List FileEntry :=
    c.scanner.jobs.flatMap fun j => j.walk.notified

def entryLine (e : FileEntry) : String :=
    lineOf (Json.Value.obj e.fields).text

/-- The entries on the output; those that went into an array are not there. -/
def entriesText (c : Census) : String :=
    if c.writer.isSome then "" else String.join (c.written.map entryLine)

def summaryLine (s : Census.Summary) : String :=
    lineOf (Json.Value.obj s.fields).text

/-- The failure of the write of the summary, which comes after that of the entries, unless these go into an array. -/
def Environment.summaryRefusal (env : Environment) (output : Option Place) (entries : Nat) : Option Failure :=
    env.streamRefusal (if output.isSome then 0 else entries)

/-- The exit code, the last line of the output and the last line on the error stream. The failure of the last write of all is
passed on as it is. -/
def verdict (refusal : Option Failure) (c : Census) : Except Failure (Nat × String × String) :=
    match c.stage, c.summary with
    | .ended none, some s =>
        match refusal with
        | some f => .error f
        | none => .ok (if s.isComplete then 0 else 1, summaryLine s, "")
    | .ended (some .interrupted), _ => .ok (1, "", lineOf "Aborted!")
    | .ended (some (.system fault)), _ => .ok (1, "", complaint ("cannot write entries: " ++ fault.message))
    | .ended (some f), _ => .error f
    | _, _ => .error .jobUnfinished

/-- Writes what the log and the array hold to their files. -/
def saved (fs : FileSystem) (log : Log) (output : Option Place) (c : Census) : FileSystem :=
    let fs := match log.file with
      | some place => fs.writeBytes place log.text.toUTF8.toList 0
      | none => fs
    match output, c.writer with
    | some place, some w => fs.writeBytes place w.text.toUTF8.toList 0
    | _, _ => fs

def surroundingsOf (env : Environment) (fs : FileSystem) (r : Request) : Surroundings FileEntry where
  probe := fs.probe fs.noAttributes
  make := FileEntry.create fs true
  monitor := if r.showsProgress then some fun _ => false else none
  supportsMarks := Matcher.supportsMarks fs.noAttributes
  now := env.clock

def scannerOf (r : Request) (settings : Settings) : Scanner FileEntry :=
    { Scanner.fresh (.fresh (some r.queueSize) (some .fresh)) with settings := settings }

/-- What the census of a request is to do. -/
def planOf (env : Environment) (fs : FileSystem) (r : Request) (output : Option Place) : Census.Plan where
  roots := r.roots
  surroundings := surroundingsOf env fs r
  refusal := if output.isSome then env.arrayRefusal else env.streamRefusal

/-- The census of a request before its threads have had a turn. -/
def censusOf (r : Request) (settings : Settings) (output : Option Place) : Census :=
    Census.start (scannerOf r settings) r.roots (output.map fun _ => .start)

/-- What is left behind when the threads of a census have come this far. -/
def reportOf (env : Environment) (fs : FileSystem) (log : Log) (r : Request) (output : Option Place) (c : Census) :
    Except Failure Report := do
    let (code, out, err) ← verdict (env.summaryRefusal output c.writes.length) c
    let log := logged log env.time c
    let progress := if r.showsProgress then progressText env.clock (notifiedBy c) else ""
    .ok {
      code := code
      out := entriesText c ++ out
      err := (if log.file.isSome then "" else log.text) ++ progress ++ err
      fs := saved fs log output c }

/-- Runs the census of a request, for at most so many turns of its threads. -/
def conduct (turns : Nat) (env : Environment) (fs : FileSystem) (log : Log) (r : Request) (settings : Settings)
    (output : Option Place) : Except Failure Report :=
    reportOf env fs log r output ((censusOf r settings output).run (planOf env fs r output) turns)

/-- Makes the output of a request, if it names one. -/
def openOutput (fs : FileSystem) (r : Request) : Except Failure (FileSystem × Option Place) :=
    match r.output with
    | none => .ok (fs, none)
    | some p => (fs.createFile p 0).map fun (fs, place) => (fs, some place)

/-- What is left behind by a census that was left because its output could not be opened. -/
def refusalOf (fs : FileSystem) (r : Request) (c : Census) : Except Failure Report :=
    match c.stage with
    | .ended (some (.system fault)) =>
        let path := (r.output.map Path.text).getD ""
        .ok (.refused fs ("cannot open output " ++ path ++ ": " ++ fault.message))
    | .ended (some f) => .error f
    | _ => .error .jobUnfinished

/-- Makes the output of a request and runs its census. -/
def carryOut (turns : Nat) (env : Environment) (fs : FileSystem) (log : Log) (r : Request) : Except Failure Report :=
    match settingsOf fs r with
    | .error f => if f.isConfiguration then .ok (.refused fs f.message) else .error f
    | .ok settings =>
        match openOutput fs r with
        | .ok (fs, output) => conduct turns env fs log r settings output
        | .error f =>
            refusalOf fs r ((Census.abandoned (scannerOf r settings) f).run (planOf env fs r none) turns)

def scan (turns : Nat) (env : Environment) (g : General) (words : List String) : Except Failure Report := do
    let (fs, log) ← openLog env.fs g
    match Line.read Request.table true words with
    | .error fault => .ok (.ofUsage fs (some scanName) fault)
    | .ok line =>
        if line.mentions? helpFlag then .ok (.help fs (some scanName))
        else match Request.ofLine fs line with
          | .error (.usage fault) => .ok (.ofUsage fs (some scanName) fault)
          | .error (.failure f) => .error f
          | .ok r => carryOut turns env fs log r

/-- Reads the words before the name of a command and hands on what follows them. -/
def runWith (next : General → List String → Except Failure Report) (fs : FileSystem) (words : List String) :
    Except Failure Report :=
    match Line.read General.table false words with
    | .error fault => .ok (.ofUsage fs none fault)
    | .ok line =>
        if line.mentions? helpFlag then .ok (.help fs none)
        else match General.ofLine line with
          | .error (.usage fault) => .ok (.ofUsage fs none fault)
          | .error (.failure f) => .error f
          | .ok g => next g line.operands

/-- The answer to the name of a command that is not there. A name that looks like an option is read as one first. -/
def unknown (fs : FileSystem) (name : String) (words : List String) : Except Failure Report :=
    let answer := Report.ofUsage fs none (.unknownCommand name)
    if Line.isOption name then runWith (fun _ _ => .ok answer) fs words else .ok answer

/-- Runs the program with the words of its command line, for at most so many turns of its threads. -/
def run (turns : Nat) (env : Environment) (words : List String) : Except Failure Report :=
    if words.isEmpty then .ok (.hint env.fs)
    else runWith (fun g rest =>
      match rest with
      | [] => .ok (.ofUsage env.fs none .noCommand)
      | name :: words =>
          if name = scanName then scan turns env g words else unknown env.fs name rest) env.fs words

end FileCensus.Command
