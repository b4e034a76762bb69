import FileCensus.Proofs.Record

/-!
The books of a walk: what has happened to entries, and the figures that are kept of it. Each step
posts a few items at once, and how it does so depends on no more of the walk than the entry that it
has in hand. What the items add up to over a whole run is left to the module on reckoning.
-/

namespace FileCensus

variable {ε : Type}

namespace Topic

def counted : Topic ε Unit where
  of
    | .counted => some ()
    | _ => none
  mute _ := rfl

def signalled : Topic ε Unit where
  of
    | .signalled => some ()
    | _ => none
  mute _ := rfl

def notified : Topic ε ε where
  of
    | .notified entry => some entry
    | _ => none
  mute _ := rfl

end Topic

/-- The books of a walk or of a part of it: events first, then the figures of its progress. -/
structure Sheet (ε : Type) where
  judged : List (List String) := []
  asked : List Path := []
  put : List ε := []
  counted : Nat := 0
  signalled : Nat := 0
  notified : List ε := []
  visited : Nat := 0
  queued : Nat := 0
  skipped : Nat := 0
  failed : Nat := 0
  errors : List ErrorRecord := []

namespace Sheet

instance : Append (Sheet ε) where
  append a b :=
    { judged := a.judged ++ b.judged
      asked := a.asked ++ b.asked
      put := a.put ++ b.put
      counted := a.counted + b.counted
      signalled := a.signalled + b.signalled
      notified := a.notified ++ b.notified
      visited := a.visited + b.visited
      queued := a.queued + b.queued
      skipped := a.skipped + b.skipped
      failed := a.failed + b.failed
      errors := a.errors ++ b.errors }

theorem append_eq (a b : Sheet ε) : a ++ b =
    ⟨a.judged ++ b.judged, a.asked ++ b.asked, a.put ++ b.put, a.counted + b.counted,
      a.signalled + b.signalled, a.notified ++ b.notified, a.visited + b.visited,
      a.queued + b.queued, a.skipped + b.skipped, a.failed + b.failed, a.errors ++ b.errors⟩ := rfl

@[simp] theorem append_empty (a : Sheet ε) : a ++ ({} : Sheet ε) = a := by
  simp [append_eq]

theorem empty_append (a : Sheet ε) : ({} : Sheet ε) ++ a = a := by
  simp [append_eq]

theorem append_assoc (a b c : Sheet ε) : a ++ b ++ c = a ++ (b ++ c) := by
  simp [append_eq, Nat.add_assoc]

end Sheet

/-- What a part of a walk leaves of a channel. -/
def Channel.charged (c : Channel ε) (g : Sheet ε) : Channel ε :=
    { c with
      items := c.items ++ g.put
      total := c.total + g.counted
      latch := c.latch.map fun l => { l with pending := l.pending + g.signalled } }

theorem Channel.charged_of_unused (c : Channel ε) {g : Sheet ε} (put : g.put = [])
    (counted : g.counted = 0) (signalled : g.signalled = 0) : c.charged g = c := by
  simp [charged, put, counted, signalled]

theorem Channel.charged_of_put (c : Channel ε) (e : ε) (n : Nat) :
    c.put e = c.charged { put := [e], queued := n } := by
  simp [charged, put]

theorem Channel.charged_of_count (c : Channel ε) : c.count = c.charged { counted := 1 } := by
  simp [charged, count]

theorem Channel.charged_of_latch (c : Channel ε) {g : Sheet ε} (none : c.latch = none)
    (put : g.put = []) (counted : g.counted = 0) : c.charged g = c := by
  simp only [charged, put, counted, none, List.append_nil, Nat.add_zero, Option.map_none]
  rw [← none]

theorem Channel.charged_of_signal {c c' : Channel ε} (h : c.signal = .ok c') :
    c' = c.charged { signalled := 1 } := by
  cases latch : c.latch with
  | none =>
      simp only [signal, latch, Except.ok.injEq] at h
      subst h
      exact (c.charged_of_latch latch rfl rfl).symm
  | some l =>
      cases closed : l.isSealed <;>
        simp [signal, latch, Latch.signal, closed, Except.map] at h
      simp [charged, latch, closed, ← h]

/-- Where the entry is that a walk has in hand. -/
inductive Hand (ε : Type) where
  | empty
  | chosen (path : Path)
  | made (entry : ε)
  | put (entry : ε)
  | counted (entry : ε)
  | signalled (entry : ε)
  /-- The walk has failed, whatever it had in hand. -/
  | lost

def Phase.hand : Phase ε → Hand ε
  | .creating path => .chosen path
  | .offering _ entry | .putting _ entry => .made entry
  | .counting _ entry => .put entry
  | .signalling _ entry => .counted entry
  | .notifying _ entry => .signalled entry
  | .ended (.error _) => .lost
  | .ended (.ok _) | .idle | .examining | .opening .. | .turning | .visiting .. | .judging => .empty

namespace Plan

variable (p : Plan ε)

def keeps (s : List String) : Bool :=
    p.excludes s matches .ok false

/-- The kind of what a relative path names, links followed as the filters say. -/
def kindAt (fs : FileSystem) (s : List String) : Option Kind :=
    ((p.placeOf fs s).bind fs.at?).map (·.kind)

theorem kindAt_eq_some {fs : FileSystem} {s : List String} {k : Kind} :
    p.kindAt fs s = some k ↔ p.Names fs s k := by
  simp [kindAt, Names, Option.bind_eq_some_iff]

/-- What is recorded of a path that no entry can be made of. -/
def recordOf (path : Path) : Option ErrorRecord :=
    match p.make path with
    | .error f => some ⟨path.text, f.record⟩
    | .ok _ => none

/-- The entries of which the monitor is told, if there is one. -/
def tells (es : List ε) : List ε :=
    if p.monitor.isSome then es else []

end Plan

/-- What a step posts, by what is in hand before it and after. -/
inductive Posts (p : Plan ε) (fs : FileSystem) (c : Channel ε) :
    Hand ε → Sheet ε → Hand ε → Prop where
  | rests {hand} : Posts p fs c hand {} hand
  | stops {hand} (unput : hand = .empty ∨ ∃ entry, hand = .made entry) : Posts p fs c hand {} .lost
  | errs (s) : Posts p fs c .empty { judged := [s], visited := 1 } .lost
  | skips {s} (out : p.keeps s = true → p.Names fs s .file) :
      Posts p fs c .empty { judged := [s], visited := 1, skipped := 1 } .empty
  | passes {s} (kept : p.keeps s = true) (other : p.kindAt fs s ≠ some .file) :
      Posts p fs c .empty { judged := [s], visited := 1 } .empty
  | chooses {s} (kept : p.keeps s = true) (file : p.Names fs s .file) :
      Posts p fs c .empty { judged := [s], visited := 1 } (.chosen (p.root.below s))
  | loses {path f} (answer : p.make path = .error f) :
      Posts p fs c (.chosen path)
        { asked := [path], failed := 1, errors := [⟨path.text, f.record⟩] } .empty
  | makes {path e} (made : p.make path = .ok e) :
      Posts p fs c (.chosen path) { asked := [path] } (.made e)
  | puts (e) : Posts p fs c (.made e) { put := [e], queued := 1 } (.put e)
  | counts (e) : Posts p fs c (.put e) { counted := 1 } (.counted e)
  | signals (e) : Posts p fs c (.counted e) { signalled := 1 } (.signalled e)
  | refuses {e f} (answer : c.signal = .error f) : Posts p fs c (.counted e) {} .lost
  | notifies (e) : Posts p fs c (.signalled e) { notified := p.tells [e] } .empty

namespace Walk

def sheet (w : Walk ε) : Sheet ε where
  judged := w.judged
  asked := w.asked
  put := w.put
  counted := (w.collect .counted).length
  signalled := (w.collect .signalled).length
  notified := w.notified
  visited := w.progress.visited
  queued := w.progress.queued
  skipped := w.progress.skipped
  failed := w.progress.failed
  errors := w.progress.errors

theorem sheet_eq (w : Walk ε) : w.sheet =
    ⟨w.collect .judged, w.collect .asked, w.collect .put, (w.collect .counted).length,
      (w.collect .signalled).length, w.collect .notified, w.progress.visited, w.progress.queued,
      w.progress.skipped, w.progress.failed, w.progress.errors⟩ := rfl

section Sheets

variable (w : Walk ε) (p : Plan ε)

@[simp] theorem sheet_mk {phase : Phase ε} {stack : List Frame} {ancestors : List Place}
    {entered : Bool} {notifications : Nat} :
    (⟨phase, w.progress, stack, ancestors, entered, notifications, w.events⟩ : Walk ε).sheet =
      w.sheet := rfl

@[simp] theorem sheet_go (phase : Phase ε) : (w.go phase).sheet = w.sheet := rfl

theorem sheet_happen (e : Event ε) : (w.happen e).sheet = w.sheet ++
    { judged := (Topic.judged.of e).toList
      asked := (Topic.asked.of e).toList
      put := (Topic.put.of e).toList
      counted := (Topic.counted.of e).toList.length
      signalled := (Topic.signalled.of e).toList.length
      notified := (Topic.notified.of e).toList } := by
  simp only [sheet_eq, collect_happen, List.length_append, Sheet.append_eq, Nat.add_zero,
    List.append_nil]
  rfl

@[simp] theorem sheet_say (n : Notice) : (w.say n).sheet = w.sheet := by
  rw [say, sheet_happen]
  exact Sheet.append_empty _

@[simp] theorem sheet_skip : w.skip.sheet = w.sheet ++ { skipped := 1 } := by
  simp [sheet_eq, Sheet.append_eq, skip, Progress.skip, go]

@[simp] theorem sheet_finish (o : Outcome) : (w.finish p o).sheet = w.sheet := rfl

@[simp] theorem sheet_complete : (w.complete p).sheet = w.sheet := by
  simp [complete]

@[simp] theorem sheet_begin : (w.begin_ p).sheet = w.sheet :=
  sheet_say _ _

@[simp] theorem sheet_fail (f : Failure) : (w.fail p f).sheet = w.sheet := by
  cases f <;> simp [fail]

@[simp] theorem sheet_pushed (f : Frame) (ancestors : List Place) :
    (w.pushed f ancestors).sheet = w.sheet := by
  rw [pushed, sheet_go, sheet_happen]
  exact Sheet.append_empty _

@[simp] theorem sheet_sight (directory : Path) (e : Entry) (relative : List String) :
    (w.sight directory e relative).sheet = w.sheet ++ { judged := [relative], visited := 1 } := by
  rw [sight, sheet_happen]
  simp [sheet_eq, Sheet.append_eq, Progress.visit, Topic.judged, Topic.asked, Topic.put,
    Topic.counted, Topic.signalled, Topic.notified]

@[simp] theorem sheet_sightRoot :
    (w.sightRoot p).sheet = w.sheet ++ { judged := [[p.root.name]], visited := 1 } := by
  rw [sightRoot, sheet_happen]
  simp [sheet_eq, Sheet.append_eq, Progress.visit, collect, trace, Topic.judged, Topic.asked,
    Topic.put, Topic.counted, Topic.signalled, Topic.notified]

theorem sheet_recorded (path : Path) (f : Failure) :
    { w.happen (.asked path) with progress := w.progress.record path.text f }.sheet =
      w.sheet ++ { asked := [path], failed := 1, errors := [⟨path.text, f.record⟩] } := by
  simp [sheet_eq, Sheet.append_eq, Progress.record, Topic.judged, Topic.asked, Topic.put,
    Topic.counted, Topic.signalled, Topic.notified]

theorem sheet_enqueued (entry : ε) :
    ({ w with progress := w.progress.enqueue }.happen (.put entry)).sheet =
      w.sheet ++ { put := [entry], queued := 1 } := by
  rw [sheet_happen]
  simp [sheet_eq, Sheet.append_eq, Progress.enqueue, Topic.judged, Topic.asked, Topic.put,
    Topic.counted, Topic.signalled, Topic.notified, collect, trace]

theorem sheet_notify (path : Path) (entry : ε) :
    (w.notify p path entry).sheet = w.sheet ++ { notified := p.tells [entry] } := by
  simp only [notify, Plan.tells]
  cases p.monitor with
  | none => exact (Sheet.append_empty _).symm
  | some fails =>
      have told : ({ w with notifications := w.notifications + 1 }.happen
          (.notified entry)).sheet = w.sheet ++ { notified := [entry] } :=
        sheet_happen _ _
      simp only
      split
      · rw [sheet_go, sheet_say, told]
        rfl
      · rw [sheet_go, told]
        rfl

end Sheets

/-- A step of a walk with what it posts. -/
structure Posting (p : Plan ε) (fs : FileSystem) (w : Walk ε) (c : Channel ε)
    (r : Walk ε × Channel ε) (g : Sheet ε) : Prop where
  sheet : r.1.sheet = w.sheet ++ g
  channel : r.2 = c.charged g
  posts : Posts p fs c w.phase.hand g r.1.phase.hand

section Steps

variable {p : Plan ε} {fs : FileSystem} {t : Token} {w w' : Walk ε} {c : Channel ε}
  {directory : Path} {e : Entry} {relative : List String} {depth : Nat}

/-- A step that has nothing to post. -/
theorem posting_rests (sheet : w'.sheet = w.sheet) (hand : w'.phase.hand = w.phase.hand) :
    Posting p fs w c (w', c) {} where
  sheet := sheet.trans (Sheet.append_empty _).symm
  channel := (c.charged_of_unused rfl rfl rfl).symm
  posts := by
    rw [hand]
    exact .rests

/-- A step that leaves the channel alone. -/
theorem posting_aside {g : Sheet ε} {before after : Hand ε} (hand : w.phase.hand = before)
    (hand' : w'.phase.hand = after) (sheet : w'.sheet = w.sheet ++ g)
    (posts : Posts p fs c before g after) (put : g.put = []) (counted : g.counted = 0)
    (signalled : g.signalled = 0) : Posting p fs w c (w', c) g where
  sheet := sheet
  channel := (c.charged_of_unused put counted signalled).symm
  posts := by
    rw [hand, hand']
    exact posts

theorem Visits.keeps_eq (visits : w.Visits p fs directory e relative depth) {b : Bool}
    (answer : p.excludesEntry directory e relative = .ok b) : p.keeps relative = !b := by
  rw [visits.excludes] at answer
  cases b <;> simp [Plan.keeps, answer]

theorem Visits.kindAt_eq (visits : w.Visits p fs directory e relative depth)
    {kind : Option Kind} (known : kindOf p directory e = .ok kind) :
    p.kindAt fs relative = kind := by
  apply Option.ext
  intro k
  rw [Plan.kindAt_eq_some, visits.kind known]

theorem Dropped.posting (visits : w.Visits p fs directory e relative depth)
    (h : w.phase = .visiting directory e relative depth)
    (dropped : Dropped p w directory e relative depth w') : ∃ g, Posting p fs w c (w', c) g := by
  have hand : w.phase.hand = .empty := by rw [h]; rfl
  cases dropped with
  | excluded out =>
      have kept : p.keeps relative = false := visits.keeps_eq out
      refine ⟨_, posting_aside hand rfl ?_ (.skips (s := relative) ?_) rfl rfl rfl⟩
      · simp [Sheet.append_eq]
      · simp [kept]
  | tooDeep kept isDirectory _ =>
      have kind := visits.kindAt_eq isDirectory
      refine ⟨_, posting_aside hand rfl (by simp) (.passes (visits.keeps_eq kept) ?_) rfl rfl rfl⟩
      simp [kind]
  | unwanted kept isFile _ =>
      refine ⟨_, posting_aside hand rfl ?_ (.skips (s := relative) fun _ => ?_) rfl rfl rfl⟩
      · simp [Sheet.append_eq]
      · exact (visits.kind isFile).mp rfl
  | neither kept known _ notFile =>
      have kind := visits.kindAt_eq known
      refine ⟨_, posting_aside hand rfl (by simp) (.passes (visits.keeps_eq kept) ?_) rfl rfl rfl⟩
      rw [kind]
      exact notFile

theorem posting_fails {f : Failure} {g : Sheet ε} {before : Hand ε} (hand : w.phase.hand = before)
    (sheet : w'.sheet = w.sheet ++ g) (posts : Posts p fs c before g .lost) (put : g.put = [])
    (counted : g.counted = 0) (signalled : g.signalled = 0) :
    Posting p fs w c (w'.fail p f, c) g := by
  obtain ⟨cause, ended⟩ := fail_phase w' p f
  refine posting_aside hand ?_ (by rw [sheet_fail, sheet]) posts put counted signalled
  rw [ended]
  rfl

theorem Trouble.posting (notJudging : w.phase ≠ .judging) {f : Failure}
    (trouble : Trouble p t w c w' f) : ∃ g, Posting p fs w c (w'.fail p f, c) g := by
  have unposted : w.sheet = w.sheet ++ {} := (Sheet.append_empty _).symm
  cases trouble with
  | cancelled look _ =>
      refine ⟨_, posting_fails rfl unposted (.stops ?_) rfl rfl rfl⟩
      cases phase : w.phase <;> simp_all [looks, Phase.hand]
  | rootStatus h _ | status h _ _ | listing h _ _ | refused h _ =>
      refine ⟨_, posting_fails rfl unposted (.stops ?_) rfl rfl rfl⟩
      simp [h, Phase.hand]
  | excluding h _ _ | sorting h _ _ _ | including h _ _ _ _ =>
      exact ⟨_, posting_fails (by rw [h]; rfl) (sheet_sight _ _ _ _) (.errs _) rfl rfl rfl⟩
  | excludingRoot h _ _ | includingRoot h _ _ _ => exact absurd h notJudging
  | @latched path e _ h answer =>
      have refuses : Posts p fs c (.counted e) {} .lost := .refuses answer
      exact ⟨_, posting_fails (by rw [h]; rfl) unposted refuses rfl rfl rfl⟩

/-- Every step posts what the entry in hand allows. -/
theorem Advance.posting (wf : fs.WellFormed) (reads : p.probe.Reads fs) (fits : w.Fits p fs)
    (directory : p.Names fs [] .directory) {r : Walk ε × Channel ε} (a : Advance p t w c r) :
    ∃ g, Posting p fs w c r g := by
  have notJudging : w.phase ≠ .judging := by
    intro h
    have known := fits.phase
    rw [h] at known
    cases known.2.unique directory
  cases a with
  | fails trouble => exact trouble.posting notJudging
  | begins h | rootDirectory h _ _ | rootFile h _ _ | rootOther h _ _ _ | loops h _ _ _
  | enters h _ _ | completes h _ | takes h _ _ | tries h _ =>
      exact ⟨_, posting_rests (by simp) (by rw [h]; rfl)⟩
  | leaves h _ _ => exact ⟨_, posting_rests rfl rfl⟩
  | turnedAway h _ _ =>
      have unposted := (sheet_happen w .turnedAway).trans (Sheet.append_empty _)
      exact ⟨_, posting_rests unposted (by rw [h]; rfl)⟩
  | drops h _ dropped => exact dropped.posting (fits.visits wf reads h) h
  | descends h _ kept isDirectory _ =>
      have visits := fits.visits wf reads h
      have kind := visits.kindAt_eq isDirectory
      have passes : Posts p fs c .empty _ .empty := .passes (visits.keeps_eq kept) (by simp [kind])
      exact ⟨_, posting_aside (by rw [h]; rfl) rfl (by simp) passes rfl rfl rfl⟩
  | accepts h _ kept isFile _ =>
      have visits := fits.visits wf reads h
      have chooses : Posts p fs c .empty _ _ :=
        .chooses (visits.keeps_eq kept) ((visits.kind isFile).mp rfl)
      refine ⟨_, posting_aside (by rw [h]; rfl) ?_ (by simp) chooses rfl rfl rfl⟩
      rw [go_phase, visits.path]
      rfl
  | dropsRoot h _ _ | acceptsRoot h _ _ _ => exact absurd h notJudging
  | unmade h answer =>
      refine ⟨_, posting_aside (by rw [h]; rfl) rfl ?_ (.loses answer) rfl rfl rfl⟩
      rw [sheet_go, sheet_say]
      exact sheet_recorded ..
  | makes h made =>
      exact ⟨_, posting_aside (by rw [h]; rfl) rfl (sheet_happen _ _) (.makes made) rfl rfl rfl⟩
  | puts h _ _ =>
      refine ⟨_, ?_, c.charged_of_put _ 1, by rw [h]; exact .puts _⟩
      rw [sheet_go]
      exact sheet_enqueued ..
  | counts h =>
      exact ⟨_, sheet_happen _ _, c.charged_of_count, by rw [h]; exact .counts _⟩
  | signals h signalled =>
      refine ⟨_, sheet_happen _ _, Channel.charged_of_signal signalled, ?_⟩
      rw [h]
      exact .signals _
  | notifies h =>
      refine ⟨_, posting_aside (by rw [h]; rfl) (by rw [notify_phase]; rfl) (sheet_notify _ _ _ _)
        (.notifies _) rfl rfl rfl⟩
  | rests h => exact ⟨_, posting_rests rfl rfl⟩

end Steps

end Walk
end FileCensus
