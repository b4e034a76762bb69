import FileCensus.Walk.Basic

/-!
The steps of a walk. Directories are visited depth first and their entries in the order of their names; every accepted file
becomes an entry that is put on the queue, and after that the count, the latch and the monitor are told, in this order. The
token is looked at before each entry is judged and before each attempt to put one on the queue. While links are followed a
directory is not entered below itself.
-/

namespace FileCensus.Walk

variable {ε : Type}

def go (w : Walk ε) (phase : Phase ε) : Walk ε :=
    { w with phase := phase }

def happen (w : Walk ε) (e : Event ε) : Walk ε :=
    { w with events := e :: w.events }

def say (w : Walk ε) (n : Notice) : Walk ε :=
    w.happen (.said n)

/-- Ends a walk. The identities of ancestors are forgotten if the root directory was opened. -/
def finish (p : Plan ε) (o : Outcome) (w : Walk ε) : Walk ε :=
    { w with
      phase := .ended o
      progress := w.progress.finish p.now
      stack := []
      ancestors := if w.entered then [] else w.ancestors
      entered := false }

def complete (p : Plan ε) (w : Walk ε) : Walk ε :=
    (w.finish p (.ok p.root)).say (.completed p.root w.progress.queued w.progress.skipped w.progress.failed)

/-- Ends a walk with a failure. A fault of the system is reported with the path that it concerns, or else with the root. -/
def fail (p : Plan ε) (f : Failure) (w : Walk ε) : Walk ε :=
    match f with
    | .cancelled _ => (w.say (.cancelled p.root w.progress.queued)).finish p (.error f)
    | .system fault =>
        let place := fault.file?.getD p.root.text
        (w.say (.failed p.root place fault)).finish p (.error (.traversal fault.reason (some place) (some fault)))
    | _ => w.finish p (.error f)

def begin_ (p : Plan ε) (w : Walk ε) : Walk ε :=
    ({ w with progress := w.progress.start p.now }.say (.started p.root)).go .examining

def examine (p : Plan ε) (w : Walk ε) : Walk ε :=
    match p.probe.status p.root with
    | .error f => w.fail p f
    | .ok s =>
        match s.kind with
        | .directory => w.go (.opening p.root [] 0)
        | .file => w.go .judging
        | _ => w.complete p

/-- Lists a directory and makes it the innermost one. -/
def enter (p : Plan ε) (path : Path) (relative : List String) (depth : Nat) (key : Option Place) (w : Walk ε) : Walk ε :=
    match p.probe.list path with
    | .error f => w.fail p f
    | .ok entries =>
        { w with stack := ⟨path, relative, depth, entries, key⟩ :: w.stack, entered := true }.happen (.listed path)
          |>.go .turning

/-- Opens a directory, unless links are followed and it is its own ancestor. -/
def open_ (p : Plan ε) (path : Path) (relative : List String) (depth : Nat) (w : Walk ε) : Walk ε :=
    if !p.filters.followLinks then w.enter p path relative depth none
    else match p.probe.status path with
      | .error f => w.fail p f
      | .ok s =>
          if w.ancestors.contains s.identity then
            { w with entered := true }.say (.loop path) |>.go .turning
          else
            { w with ancestors := s.identity :: w.ancestors }.enter p path relative depth (some s.identity)

/-- Leaves the innermost directory, or takes its next entry. -/
def turn (p : Plan ε) (w : Walk ε) : Walk ε :=
    match w.stack with
    | [] => w.complete p
    | f :: rest =>
        match f.left with
        | [] => { w with stack := rest, ancestors := f.key.elim w.ancestors w.ancestors.erase }
        | e :: left =>
            { w with stack := { f with left := left } :: rest }.go
              (.visiting f.path e (f.relative ++ [e.name]) f.depth)

def skip (w : Walk ε) : Walk ε :=
    { w with progress := w.progress.skip }.go .turning

/-- The kind that an entry counts as. -/
def kindOf (p : Plan ε) (directory : Path) (e : Entry) : Except Failure (Option Kind) :=
    if p.filters.followLinks then p.probe.kindOf directory e else .ok (some e.kind)

/-- Judges an entry that is not excluded by its kind. -/
def judgeKind (p : Plan ε) (directory : Path) (e : Entry) (relative : List String) (depth : Nat) (w : Walk ε) : Walk ε :=
    let path := directory.child e.name
    match kindOf p directory e with
    | .error f => w.fail p f
    | .ok (some .directory) =>
        if p.filters.allowsDepth (Int.ofNat depth + 1) then w.go (.opening path relative (depth + 1)) else w.go .turning
    | .ok (some .file) =>
        match p.filters.isIncluded p.probe.attributes path (relativeText relative) with
        | .error f => w.fail p f
        | .ok false => w.skip
        | .ok true => w.go (.creating path)
    | .ok _ => w.go .turning

def visit (p : Plan ε) (directory : Path) (e : Entry) (relative : List String) (depth : Nat) (w : Walk ε) : Walk ε :=
    let path := directory.child e.name
    let progress := { w.progress.visit with currentPath := some (directory.entryText e.name) }
    let w := { w with progress := progress }.happen (.visited relative)
    match p.filters.isExcluded p.probe.attributes path (relativeText relative) with
    | .error f => w.fail p f
    | .ok true => (w.say (.excluded path)).skip
    | .ok false => w.judgeKind p directory e relative depth

/-- Judges a root that is a file; it is known by its name. -/
def judgeRoot (p : Plan ε) (w : Walk ε) : Walk ε :=
    let relative := p.root.name
    let w := { w with progress := w.progress.visit }.happen (.visited [relative])
    match p.filters.isExcluded p.probe.attributes p.root relative with
    | .error f => w.fail p f
    | .ok true => w.skip
    | .ok false =>
        match p.filters.isIncluded p.probe.attributes p.root relative with
        | .error f => w.fail p f
        | .ok false => w.skip
        | .ok true => w.go (.creating p.root)

/-- Has an entry made. A failure of the factory is recorded and the walk goes on. -/
def create (p : Plan ε) (path : Path) (w : Walk ε) : Walk ε :=
    let w := w.happen (.asked path)
    match p.make path with
    | .error f => ({ w with progress := w.progress.record path.text f }.say (.uncreated path f)).go .turning
    | .ok e => w.go (.offering path e)

/-- One attempt to put an entry on the queue. -/
def offer (p : Plan ε) (path : Path) (e : ε) (w : Walk ε) (c : Channel ε) : Walk ε × Channel ε :=
    match p.refusal with
    | some f => (w.fail p f, c)
    | none =>
        if c.isFull then ((w.happen .turnedAway).go (.offering path e), c)
        else (({ w with progress := w.progress.enqueue }.happen (.put e)).go (.counting path e), c.put e)

def signal (p : Plan ε) (path : Path) (e : ε) (w : Walk ε) (c : Channel ε) : Walk ε × Channel ε :=
    match c.signal with
    | .error f => (w.fail p f, c)
    | .ok c => ((w.happen .signalled).go (.notifying path e), c)

/-- Tells the monitor of an entry. A failure of the monitor is reported and the walk goes on. -/
def notify (p : Plan ε) (path : Path) (e : ε) (w : Walk ε) : Walk ε :=
    match p.monitor with
    | none => w.go .turning
    | some fails =>
        let w' := { w with notifications := w.notifications + 1 }.happen (.notified e)
        (if fails w.notifications then w'.say (.unmonitored path) else w').go .turning

/-- Goes on only if the token has not been cancelled. -/
def unlessCancelled (p : Plan ε) (t : Token) (w : Walk ε) (next : Walk ε → Walk ε) : Walk ε :=
    match t.check with
    | .error f => w.fail p f
    | .ok () => next w

def step (p : Plan ε) (t : Token) (w : Walk ε) (c : Channel ε) : Walk ε × Channel ε :=
    match w.phase with
    | .idle => (w.begin_ p, c)
    | .examining => (w.examine p, c)
    | .opening path relative depth => (w.open_ p path relative depth, c)
    | .turning => (w.turn p, c)
    | .visiting directory e relative depth =>
        (w.unlessCancelled p t fun w => w.visit p directory e relative depth, c)
    | .judging => (w.unlessCancelled p t fun w => w.judgeRoot p, c)
    | .creating path => (w.create p path, c)
    | .offering path e => (w.unlessCancelled p t fun w => w.go (.putting path e), c)
    | .putting path e => w.offer p path e c
    | .counting path e => ((w.happen .counted).go (.signalling path e), c.count)
    | .signalling path e => w.signal p path e c
    | .notifying path e => (w.notify p path e, c)
    | .ended _ => (w, c)

/-- Makes a walk that has ended ready to run once more; what it has counted stays. -/
def again (w : Walk ε) : Walk ε :=
    w.go .idle

/-- Runs a walk for at most so many steps while nothing else happens. -/
def run (p : Plan ε) (t : Token) : (steps : Nat) → Walk ε → Channel ε → Walk ε × Channel ε
  | 0, w, c => (w, c)
  | steps + 1, w, c =>
      match w.phase with
      | .ended _ => (w, c)
      | _ =>
          let (w, c) := w.step p t c
          run p t steps w c

end FileCensus.Walk
