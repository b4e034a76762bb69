import FileCensus.Proofs.Record
import FileCensus.Proofs.Coverage

/-!
Two walks of one directory whose plans call it by different paths. The filters look at the names
below the root; those that may look at more judge a file alike, however it is called.
So each step of one walk is the same step of the other: they judge, put and count the same, and only
the paths are called differently.
-/

namespace FileCensus

/-- The matchers that look at nothing but the names below the root. -/
def Matcher.looksBelow : Matcher → Bool
  | .hidden | .system | .glob _ => true
  | .marked | .custom _ => false

section Matchers

variable {query query' : AttributeQuery} {a b : Path} {relative : String} {x y : Bool}

/-- A matcher that looks below the root only cannot tell two paths of one name apart. -/
theorem Matcher.accepts_eq {m : Matcher} (named : b.name = a.name)
    (above : m.looksBelow = false → ∀ {u v}, m.accepts query a relative = .ok u →
      m.accepts query' b relative = .ok v → v = u)
    (h : m.accepts query a relative = .ok x) (h' : m.accepts query' b relative = .ok y) :
    y = x := by
  cases m with
  | hidden =>
      cases h
      cases h'
      simp only [isHidden, named]
  | system =>
      cases h
      cases h'
      simp only [isSystem, named]
  | glob g => exact Except.ok.inj (h'.symm.trans h)
  | marked | custom _ => exact above rfl h h'

theorem Matcher.anyAccepts_cons {m : Matcher} {ms : List Matcher}
    (h : anyAccepts query a relative (m :: ms) = .ok x) :
    m.accepts query a relative = .ok true ∧ x = true ∨
      m.accepts query a relative = .ok false ∧ anyAccepts query a relative ms = .ok x := by
  simp only [anyAccepts] at h
  cases first : m.accepts query a relative with
  | error f =>
      rw [first] at h
      cases h
  | ok accepted =>
      rw [first] at h
      cases accepted with
      | true => exact Or.inl ⟨rfl, (Except.ok.inj h).symm⟩
      | false => exact Or.inr ⟨rfl, h⟩

theorem Matcher.anyAccepts_eq {ms : List Matcher} (named : b.name = a.name)
    (above : ∀ m ∈ ms, m.looksBelow = false → ∀ {u v}, m.accepts query a relative = .ok u →
      m.accepts query' b relative = .ok v → v = u)
    (h : anyAccepts query a relative ms = .ok x) (h' : anyAccepts query' b relative ms = .ok y) :
    y = x := by
  induction ms with
  | nil => exact Except.ok.inj (h'.symm.trans h)
  | cons m ms ih =>
      have first {u v : Bool} (taken : m.accepts query a relative = .ok u)
          (taken' : m.accepts query' b relative = .ok v) : v = u :=
        accepts_eq named (above m (List.mem_cons_self ..)) taken taken'
      rcases anyAccepts_cons h with ⟨taken, rfl⟩ | ⟨passed, rest⟩ <;>
        rcases anyAccepts_cons h' with ⟨taken', rfl⟩ | ⟨passed', rest'⟩
      · rfl
      · cases first taken passed'
      · cases first passed taken'
      · exact ih (fun m hm => above m (List.mem_cons_of_mem _ hm)) rest rest'

end Matchers

variable {ε : Type}

namespace Plan

/-- Plans that differ in nothing that can be seen from within their roots. The factory may go by the
path below the root, but not by the way to the root. -/
structure Kin (fs : FileSystem) (p q : Plan ε) : Prop where
  filters : q.filters = p.filters
  /-- A matcher that looks at attribute bits, or that the caller has brought, judges a file alike,
  whatever the way to it. -/
  above : ∀ m, m ∈ p.filters.exclude ∨ m ∈ p.filters.include_ → m.looksBelow = false →
    ∀ {d name text u v}, m.accepts p.probe.attributes (p.root.below (d ++ [name])) text = .ok u →
    m.accepts q.probe.attributes (q.root.below (d ++ [name])) text = .ok v → v = u
  reads : p.probe.Reads fs
  reads' : q.probe.Reads fs
  makes : ∀ s, (∃ e, p.make (p.root.below s) = .ok e) ↔ ∃ e, q.make (q.root.below s) = .ok e

/-- Their roots are one directory. -/
structure Matches (fs : FileSystem) (p q : Plan ε) : Prop extends Kin fs p q where
  root : fs.find true q.root = fs.find true p.root
  directory : p.Names fs [] .directory

variable {p q : Plan ε} {fs : FileSystem}

theorem Matches.placeOf_eq (m : Matches fs p q) (s : List String) :
    q.placeOf fs s = p.placeOf fs s := by
  simp only [placeOf, m.root, m.filters]

theorem Matches.names_iff (m : Matches fs p q) (s : List String) (k : Kind) :
    q.Names fs s k ↔ p.Names fs s k := by
  simp only [Names, m.placeOf_eq]

section Entries

variable {s : List String} {directory directory' : Path} {e : Entry} {relative : List String}
  {x y : Bool}
variable (path : directory.child e.name = p.root.below (s ++ [e.name]))
  (path' : directory'.child e.name = q.root.below (s ++ [e.name]))

include path path'

theorem Kin.anyAccepts_eq (k : Kin fs p q) {ms : List Matcher} {text : String}
    (among : ∀ m ∈ ms, m ∈ p.filters.exclude ∨ m ∈ p.filters.include_)
    (h : Matcher.anyAccepts p.probe.attributes (directory.child e.name) text ms = .ok x)
    (h' : Matcher.anyAccepts q.probe.attributes (directory'.child e.name) text ms = .ok y) :
    y = x := by
  rw [path] at h
  rw [path'] at h'
  have named : (q.root.below (s ++ [e.name])).name = (p.root.below (s ++ [e.name])).name := by
    simp [Path.below_snoc, Path.name, Path.child]
  exact Matcher.anyAccepts_eq named (fun m hm above => k.above m (among m hm) above) h h'

theorem Kin.excludesEntry_eq (k : Kin fs p q) (h : p.excludesEntry directory e relative = .ok x)
    (h' : q.excludesEntry directory' e relative = .ok y) : y = x := by
  simp only [excludesEntry, FilterSet.isExcluded, k.filters] at h h'
  exact k.anyAccepts_eq path path' (fun _ => Or.inl) h h'

theorem Kin.includesEntry_eq (k : Kin fs p q) (h : p.includesEntry directory e relative = .ok x)
    (h' : q.includesEntry directory' e relative = .ok y) : y = x := by
  simp only [includesEntry, FilterSet.isIncluded, k.filters] at h h'
  split at h
  · next everything =>
    rw [if_pos everything] at h'
    exact Except.ok.inj (h'.symm.trans h)
  · next some =>
    rw [if_neg some] at h'
    exact k.anyAccepts_eq path path' (fun _ => Or.inr) h h'

end Entries

end Plan

/-- The path of an open directory does not count. -/
structure Frame.Alike (f g : Frame) : Prop where
  relative : g.relative = f.relative
  depth : g.depth = f.depth
  left : g.left = f.left
  key : g.key = f.key

inductive Phase.Alike (p q : Plan ε) : Phase ε → Phase ε → Prop where
  | idle : Alike p q .idle .idle
  | examining : Alike p q .examining .examining
  | opening {path path' relative depth} :
      Alike p q (.opening path relative depth) (.opening path' relative depth)
  | turning : Alike p q .turning .turning
  | visiting {directory directory' e relative depth} :
      Alike p q (.visiting directory e relative depth) (.visiting directory' e relative depth)
  | creating (s : List String) : Alike p q (.creating (p.root.below s)) (.creating (q.root.below s))
  | offering {s : List String} {e e'} (made : p.make (p.root.below s) = .ok e)
      (made' : q.make (q.root.below s) = .ok e') :
      Alike p q (.offering (p.root.below s) e) (.offering (q.root.below s) e')
  | putting {s : List String} {e e'} (made : p.make (p.root.below s) = .ok e)
      (made' : q.make (q.root.below s) = .ok e') :
      Alike p q (.putting (p.root.below s) e) (.putting (q.root.below s) e')
  | counting {path path' e e'} : Alike p q (.counting path e) (.counting path' e')
  | signalling {path path' e e'} : Alike p q (.signalling path e) (.signalling path' e')
  | notifying {path path' e e'} : Alike p q (.notifying path e) (.notifying path' e')
  | completed : Alike p q (.ended (.ok p.root)) (.ended (.ok q.root))
  | failed {f g} : Alike p q (.ended (.error f)) (.ended (.error g))

theorem Phase.Alike.putting_inv {p q : Plan ε} {path : Path} {e : ε} {phase : Phase ε}
    (h : Alike p q (.putting path e) phase) : ∃ path' e', phase = .putting path' e' := by
  cases h with
  | putting _ _ => exact ⟨_, _, rfl⟩

namespace Walk

/-- What a walk has done, but for the entries that it has put. -/
structure Account where
  /-- The relative paths that were judged, in this order. -/
  judged : List (List String)
  visited : Nat
  queued : Nat
  skipped : Nat
  failed : Nat

def account (w : Walk ε) : Account :=
    ⟨w.judged, w.progress.visited, w.progress.queued, w.progress.skipped, w.progress.failed⟩

/-- Two walks have done the same and have put entries for the same files in the same order. -/
structure Agree (p q : Plan ε) (w v : Walk ε) : Prop where
  account : v.account = w.account
  put : ∃ ss, p.Makes ss w.put ∧ q.Makes ss v.put

structure Alike (p q : Plan ε) (w v : Walk ε) : Prop extends Agree p q w v where
  phase : w.phase.Alike p q v.phase
  stack : List.Forall₂ Frame.Alike w.stack v.stack

section Account

variable (w : Walk ε) (p : Plan ε)

@[simp] theorem account_go (phase : Phase ε) : (w.go phase).account = w.account := rfl

theorem account_happen (e : Event ε) (unjudged : Topic.judged.of e = none) :
    (w.happen e).account = w.account := by
  have judged : (w.happen e).judged = w.judged := by simp [judged, unjudged]
  simp only [account, judged]
  rfl

@[simp] theorem account_say (n : Notice) : (w.say n).account = w.account :=
  account_happen w _ rfl

@[simp] theorem account_begin : (w.begin_ p).account = w.account :=
  account_say _ _

@[simp] theorem account_complete : (w.complete p).account = w.account :=
  account_say _ _

@[simp] theorem account_finish (o : Outcome) : (w.finish p o).account = w.account := rfl

@[simp] theorem account_fail (f : Failure) : (w.fail p f).account = w.account := by
  cases f <;> simp [fail]

@[simp] theorem account_skip :
    w.skip.account = { w.account with skipped := w.account.skipped + 1 } := rfl

@[simp] theorem account_sight (directory : Path) (e : Entry) (relative : List String) :
    (w.sight directory e relative).account = { w.account with
      judged := w.account.judged ++ [relative], visited := w.account.visited + 1 } := by
  have judged : (w.sight directory e relative).judged = w.judged ++ [relative] := by
    simp [judged, Topic.judged]
  simp only [account, judged]
  rfl

@[simp] theorem account_pushed (f : Frame) (ancestors : List Place) :
    (w.pushed f ancestors).account = w.account :=
  account_happen _ _ rfl

@[simp] theorem account_notify (path : Path) (entry : ε) :
    (w.notify p path entry).account = w.account := by
  have judged : (w.notify p path entry).judged = w.judged :=
    collect_notify .judged w p path entry rfl
  simp only [account, judged, notify_progress]

end Account

section Equations

variable {p : Plan ε} {w : Walk ε} {path directory : Path} {relative : List String} {depth : Nat}
  {key : Option Place} {entries : List Entry} {s : Status} {e : Entry}

theorem open_unfollowed (off : p.filters.followLinks = false)
    (listed : p.probe.list path = .ok entries) : w.open_ p path relative depth =
      w.pushed ⟨path, relative, depth, entries, none⟩ w.ancestors := by
  simp only [open_, off, Bool.not_false, if_true, enter, listed]
  rfl

theorem open_again (follows : p.filters.followLinks = true) (known : p.probe.status path = .ok s)
    (again : s.identity ∈ w.ancestors) : w.open_ p path relative depth =
      (({ w with entered := true } : Walk ε).say (.loop path)).go .turning := by
  simp only [open_, follows, Bool.not_true, Bool.false_eq_true, if_false, known,
    List.contains_iff_mem.mpr again, if_true]

theorem open_fresh (follows : p.filters.followLinks = true) (known : p.probe.status path = .ok s)
    (new : s.identity ∉ w.ancestors) (listed : p.probe.list path = .ok entries) :
    w.open_ p path relative depth =
      w.pushed ⟨path, relative, depth, entries, some s.identity⟩ (s.identity :: w.ancestors) := by
  simp only [open_, follows, Bool.not_true, Bool.false_eq_true, if_false, known,
    List.contains_iff_mem, if_neg new, enter, listed]
  rfl

theorem visit_excluded (out : p.excludesEntry directory e relative = .ok true) :
    w.visit p directory e relative depth =
      ((w.sight directory e relative).say (.excluded (directory.child e.name))).skip := by
  simp only [visit, out, sight]

theorem visit_kept (kept : p.excludesEntry directory e relative = .ok false) :
    w.visit p directory e relative depth =
      (w.sight directory e relative).judgeKind p directory e relative depth := by
  simp only [visit, kept, sight]

end Equations

/-- A question that a walk asks of the system at its next step fails. -/
inductive Unanswered (p : Plan ε) (t : Token) (w : Walk ε) : Prop where
  | rootStatus {f} (h : w.phase = .examining) (answer : p.probe.status p.root = .error f)
  | status {path relative depth f} (h : w.phase = .opening path relative depth)
      (follows : p.filters.followLinks = true) (answer : p.probe.status path = .error f)
  | listing {path relative depth key ancestors f} (h : w.phase = .opening path relative depth)
      (keyed : Keyed p w path key ancestors) (answer : p.probe.list path = .error f)
  | excluding {directory e relative depth f} (h : w.phase = .visiting directory e relative depth)
      (free : t.check = .ok ()) (answer : p.excludesEntry directory e relative = .error f)
  | sorting {directory e relative depth f} (h : w.phase = .visiting directory e relative depth)
      (free : t.check = .ok ()) (kept : p.excludesEntry directory e relative = .ok false)
      (answer : kindOf p directory e = .error f)
  | including {directory e relative depth f} (h : w.phase = .visiting directory e relative depth)
      (free : t.check = .ok ()) (kept : p.excludesEntry directory e relative = .ok false)
      (isFile : kindOf p directory e = .ok (some .file))
      (answer : p.includesEntry directory e relative = .error f)

theorem Unanswered.trouble {p : Plan ε} {t : Token} {w : Walk ε} (h : Unanswered p t w)
    (c : Channel ε) : ∃ w' f, Trouble p t w c w' f := by
  cases h with
  | rootStatus phase answer => exact ⟨_, _, .rootStatus phase answer⟩
  | status phase follows answer => exact ⟨_, _, .status phase follows answer⟩
  | listing phase keyed answer => exact ⟨_, _, .listing phase keyed answer⟩
  | excluding phase free answer => exact ⟨_, _, .excluding phase free answer⟩
  | sorting phase free kept answer => exact ⟨_, _, .sorting phase free kept answer⟩
  | including phase free kept isFile answer =>
      exact ⟨_, _, .including phase free kept isFile answer⟩

/-- The token, the queue and the latch treat two walks alike at their next steps. -/
structure Evenly (p q : Plan ε) (w : Walk ε) (t t' : Token) (c c' : Channel ε) : Prop where
  token : t'.check = t.check
  full : c'.isFull = c.isFull
  latch : c'.signal.isOk = c.signal.isOk
  refusal : ∀ path e, w.phase = .putting path e → q.refusal.isSome = p.refusal.isSome

section Steps

variable {p q : Plan ε} {fs : FileSystem} {t t' : Token} {w v : Walk ε} {c c' : Channel ε}
  {path path' directory directory' : Path} {relative : List String} {depth : Nat} {e : Entry}

theorem Alike.go (h : Alike p q w v) {a b : Phase ε} (phase : a.Alike p q b) :
    Alike p q (w.go a) (v.go b) where
  account := h.account
  put := h.put
  phase := phase
  stack := h.stack

theorem Alike.say (h : Alike p q w v) (n n' : Notice) : Alike p q (w.say n) (v.say n') where
  account := by simp [h.account]
  put := by simpa using h.put
  phase := h.phase
  stack := h.stack

theorem Alike.skip (h : Alike p q w v) : Alike p q w.skip v.skip where
  account := by simp [h.account]
  put := h.put
  phase := .turning
  stack := h.stack

theorem Alike.sight (h : Alike p q w v) (directory directory' : Path) (e : Entry)
    (relative : List String) :
    Alike p q (w.sight directory e relative) (v.sight directory' e relative) where
  account := by simp [h.account]
  put := by simpa using h.put
  phase := h.phase
  stack := h.stack

theorem Alike.happen (h : Alike p q w v) {a b : Event ε} (unjudged : Topic.judged.of a = none)
    (unjudged' : Topic.judged.of b = none) (unput : Topic.put.of a = none)
    (unput' : Topic.put.of b = none) : Alike p q (w.happen a) (v.happen b) where
  account := by rw [account_happen v b unjudged', account_happen w a unjudged, h.account]
  put := by simpa [put_eq, unput, unput'] using h.put
  phase := h.phase
  stack := h.stack

theorem Alike.record (h : Alike p q w v) (text text' : String) (f g : Failure) :
    Alike p q { w with progress := w.progress.record text f }
      { v with progress := v.progress.record text' g } where
  account := congrArg (fun a : Account => { a with failed := a.failed + 1 }) h.account
  put := h.put
  phase := h.phase
  stack := h.stack

theorem Alike.enqueue (h : Alike p q w v) {s : List String} {x y : ε}
    (made : p.make (p.root.below s) = .ok x) (made' : q.make (q.root.below s) = .ok y) :
    Alike p q ({ w with progress := w.progress.enqueue }.happen (.put x))
      ({ v with progress := v.progress.enqueue }.happen (.put y)) where
  account := by
    rw [account_happen _ (.put x) rfl, account_happen _ (.put y) rfl]
    exact congrArg (fun a : Account => { a with queued := a.queued + 1 }) h.account
  put := by
    obtain ⟨ss, makes, makes'⟩ := h.put
    refine ⟨ss ++ [s], ?_, ?_⟩
    · rw [happen_put_put]
      exact List.rel_append makes (.cons made .nil)
    · rw [happen_put_put]
      exact List.rel_append makes' (.cons made' .nil)
  phase := h.phase
  stack := h.stack

theorem Alike.complete (h : Alike p q w v) : Alike p q (w.complete p) (v.complete q) where
  account := by simp [h.account]
  put := by simpa using h.put
  phase := .completed
  stack := .nil

theorem Alike.fail (h : Alike p q w v) (f g : Failure) : Alike p q (w.fail p f) (v.fail q g) where
  account := by simp [h.account]
  put := by simpa using h.put
  phase := by
    obtain ⟨f', ended⟩ := fail_phase w p f
    obtain ⟨g', ended'⟩ := fail_phase v q g
    rw [ended, ended']
    exact .failed
  stack := by simp

theorem Alike.pushed (h : Alike p q w v) (path path' : Path) (relative : List String) (depth : Nat)
    (left : List Entry) (key : Option Place) (ancestors ancestors' : List Place) :
    Alike p q (w.pushed ⟨path, relative, depth, left, key⟩ ancestors)
      (v.pushed ⟨path', relative, depth, left, key⟩ ancestors') where
  account := by simp [h.account]
  put := by simpa using h.put
  phase := .turning
  stack := .cons ⟨rfl, rfl, rfl, rfl⟩ h.stack

theorem keys_eq {fs gs : List Frame} (h : List.Forall₂ Frame.Alike fs gs) :
    gs.filterMap (·.key) = fs.filterMap (·.key) := by
  induction h with
  | nil => rfl
  | cons alike _ ih => simp only [List.filterMap_cons, alike.key, ih]

theorem Alike.examines (m : Plan.Matches fs p q) (h : Alike p q w v) (phase : w.phase = .examining)
    (phase' : v.phase = .examining) (answers : ¬ Unanswered p t w)
    (answers' : ¬ Unanswered q t' v) : Alike p q (w.examine p) (v.examine q) := by
  obtain ⟨s, known⟩ := answered fun f answer => answers (.rootStatus phase answer)
  obtain ⟨s', known'⟩ := answered fun f answer => answers' (.rootStatus phase' answer)
  have kind : s.kind = .directory := (names_root m.reads known).unique m.directory
  have kind' : s'.kind = .directory :=
    ((m.names_iff _ _).mp (names_root m.reads' known')).unique m.directory
  simp only [examine, known, kind, known', kind']
  exact h.go .opening

theorem Alike.turns (h : Alike p q w v) (phase : w.phase = .turning) (phase' : v.phase = .turning) :
    Alike p q (w.turn p) (v.turn q) := by
  have stack := h.stack
  cases top : w.stack with
  | nil =>
      rw [top, List.forall₂_nil_left_iff] at stack
      simp only [turn, top, stack]
      exact h.complete
  | cons f rest =>
      rw [top, List.forall₂_cons_left_iff] at stack
      obtain ⟨g, rest', alike, rests, top'⟩ := stack
      simp only [turn, top, top', alike.left]
      cases left : f.left with
      | nil => exact ⟨⟨h.account, h.put⟩, by rw [phase, phase']; exact .turning, rests⟩
      | cons e left =>
          simp only [alike.relative, alike.depth]
          exact ⟨⟨h.account, h.put⟩, .visiting, .cons ⟨rfl, rfl, rfl, alike.key⟩ rests⟩

section Answers

variable (m : Plan.Matches fs p q) (wf : fs.WellFormed) (fits : w.Fits p fs) (fits' : v.Fits q fs)

include m wf fits fits'

/-- The walks open one directory. -/
theorem opens_eq (phase : w.phase = .opening path relative depth)
    (phase' : v.phase = .opening path' relative depth) {here here' : Place}
    (found : fs.find true path = .ok here) (found' : fs.find true path' = .ok here') :
    here' = here := by
  obtain ⟨rfl, -, opens⟩ := fits.opens phase
  obtain ⟨rfl, -, opens'⟩ := fits'.opens phase'
  have place := opens.place_eq wf fits.frames found
  have place' := opens'.place_eq wf fits'.frames found'
  rw [m.placeOf_eq, place, Option.some.injEq] at place'
  exact place'.symm

theorem status_eq (phase : w.phase = .opening path relative depth)
    (phase' : v.phase = .opening path' relative depth) {s s' : Status}
    (known : p.probe.status path = .ok s) (known' : q.probe.status path' = .ok s') :
    s'.identity = s.identity :=
  opens_eq m wf fits fits' phase phase' (FileSystem.status_ok (m.reads.status known)).1
    (FileSystem.status_ok (m.reads'.status known')).1

theorem listing_eq (phase : w.phase = .opening path relative depth)
    (phase' : v.phase = .opening path' relative depth) {es es' : List Entry}
    (listed : p.probe.list path = .ok es) (listed' : q.probe.list path' = .ok es') : es' = es := by
  obtain ⟨here, entries, found, directory, rfl⟩ := FileSystem.list_ok (m.reads.list listed)
  obtain ⟨here', entries', found', directory', rfl⟩ := FileSystem.list_ok (m.reads'.list listed')
  obtain rfl := opens_eq m wf fits fits' phase phase' found found'
  rw [directory, Option.some.injEq, Node.directory.injEq] at directory'
  rw [directory']

variable (answers : ¬ Unanswered p t w) (answers' : ¬ Unanswered q t' v)

include answers answers'

theorem Alike.opens (h : Alike p q w v) (phase : w.phase = .opening path relative depth)
    (phase' : v.phase = .opening path' relative depth) :
    Alike p q (w.open_ p path relative depth) (v.open_ q path' relative depth) := by
  cases follows : p.filters.followLinks with
  | false =>
      have follows' : q.filters.followLinks = false := by rw [m.filters, follows]
      obtain ⟨es, listed⟩ :=
        answered fun f answer => answers (.listing phase (.unfollowed follows) answer)
      obtain ⟨es', listed'⟩ :=
        answered fun f answer => answers' (.listing phase' (.unfollowed follows') answer)
      cases listing_eq m wf fits fits' phase phase' listed listed'
      rw [open_unfollowed follows listed, open_unfollowed follows' listed']
      exact h.pushed ..
  | true =>
      have follows' : q.filters.followLinks = true := by rw [m.filters, follows]
      obtain ⟨s, known⟩ := answered fun f answer => answers (.status phase follows answer)
      obtain ⟨s', known'⟩ := answered fun f answer => answers' (.status phase' follows' answer)
      have identity := status_eq m wf fits fits' phase phase' known known'
      have kept : v.ancestors = w.ancestors := by
        rw [fits.ancestors (by simp [phase]), fits'.ancestors (by simp [phase']), keys_eq h.stack]
      by_cases again : s.identity ∈ w.ancestors
      · have again' : s'.identity ∈ v.ancestors := by rw [identity, kept]; exact again
        rw [open_again follows known again, open_again follows' known' again']
        have within : Alike p q { w with entered := true } { v with entered := true } :=
          ⟨⟨h.account, h.put⟩, h.phase, h.stack⟩
        exact (within.say _ _).go .turning
      · have new : s'.identity ∉ v.ancestors := by rw [identity, kept]; exact again
        obtain ⟨es, listed⟩ :=
          answered fun f answer => answers (.listing phase (.fresh follows known again) answer)
        obtain ⟨es', listed'⟩ :=
          answered fun f answer => answers' (.listing phase' (.fresh follows' known' new) answer)
        cases listing_eq m wf fits fits' phase phase' listed listed'
        rw [open_fresh follows known again listed, open_fresh follows' known' new listed', identity]
        exact h.pushed ..

theorem Alike.judges (phase : w.phase = .visiting directory e relative depth)
    (phase' : v.phase = .visiting directory' e relative depth) (free : t.check = .ok ())
    (free' : t'.check = .ok ())
    (kept : p.excludesEntry directory e relative = .ok false)
    (kept' : q.excludesEntry directory' e relative = .ok false) {x y : Walk ε}
    (h : Alike p q x y) :
    Alike p q (x.judgeKind p directory e relative depth)
      (y.judgeKind q directory' e relative depth) := by
  obtain ⟨kind, known⟩ := answered fun f answer => answers (.sorting phase free kept answer)
  obtain ⟨kind', known'⟩ := answered fun f answer => answers' (.sorting phase' free' kept' answer)
  have visits := fits.visits wf m.reads phase
  have visits' := fits'.visits wf m.reads' phase'
  have same : kind' = kind := by
    apply Option.ext
    intro k
    rw [visits.kind known, visits'.kind known', m.names_iff]
  subst same
  simp only [judgeKind, known, known']
  cases kind' with
  | none => exact h.go .turning
  | some kind =>
      cases kind with
      | directory =>
          simp only [m.filters]
          split
          · exact h.go .opening
          · exact h.go .turning
      | file =>
          obtain ⟨b, wanted⟩ :=
            answered fun f answer => answers (.including phase free kept known answer)
          obtain ⟨b', wanted'⟩ :=
            answered fun f answer => answers' (.including phase' free' kept' known' answer)
          obtain ⟨f, rest, -, rfl, -⟩ := visits.shape
          obtain rfl := m.includesEntry_eq visits.path visits'.path wanted wanted'
          simp only [wanted, wanted']
          cases b' with
          | false => exact h.skip
          | true =>
              rw [visits.path, visits'.path]
              exact h.go (.creating _)
      | link | other => exact h.go .turning

theorem Alike.visits (h : Alike p q w v) (phase : w.phase = .visiting directory e relative depth)
    (phase' : v.phase = .visiting directory' e relative depth) (free : t.check = .ok ())
    (free' : t'.check = .ok ()) :
    Alike p q (w.visit p directory e relative depth) (v.visit q directory' e relative depth) := by
  obtain ⟨b, out⟩ := answered fun f answer => answers (.excluding phase free answer)
  obtain ⟨b', out'⟩ := answered fun f answer => answers' (.excluding phase' free' answer)
  have visits := fits.visits wf m.reads phase
  have visits' := fits'.visits wf m.reads' phase'
  obtain ⟨f, rest, -, rfl, -⟩ := visits.shape
  obtain rfl := m.excludesEntry_eq visits.path visits'.path out out'
  have seen := h.sight directory directory' e (f.relative ++ [e.name])
  cases b' with
  | true =>
      rw [visit_excluded out, visit_excluded out']
      exact (seen.say _ _).skip
  | false =>
      rw [visit_kept out, visit_kept out']
      exact seen.judges m wf fits fits' answers answers' phase phase' free free' out out'

end Answers

theorem Alike.creates (m : Plan.Matches fs p q) (h : Alike p q w v) (s : List String) :
    Alike p q (w.create p (p.root.below s)) (v.create q (q.root.below s)) := by
  have asks : Alike p q (w.happen (.asked (p.root.below s))) (v.happen (.asked (q.root.below s))) :=
    h.happen rfl rfl rfl rfl
  cases made : p.make (p.root.below s) with
  | ok x =>
      obtain ⟨y, made'⟩ := (m.makes s).mp ⟨x, made⟩
      simp only [create, made, made']
      exact asks.go (.offering made made')
  | error f =>
      obtain ⟨g, made'⟩ : ∃ g, q.make (q.root.below s) = .error g := by
        cases made' : q.make (q.root.below s) with
        | error g => exact ⟨g, rfl⟩
        | ok y =>
            obtain ⟨x, found⟩ := (m.makes s).mpr ⟨y, made'⟩
            cases made.symm.trans found
      simp only [create, made, made']
      exact ((asks.record _ _ f g).say _ _).go .turning

theorem Alike.unlessCancelled (h : Alike p q w v) (token : t'.check = t.check)
    {next next' : Walk ε → Walk ε} (on : t.check = .ok () → Alike p q (next w) (next' v)) :
    Alike p q (w.unlessCancelled p t next) (v.unlessCancelled q t' next') := by
  simp only [Walk.unlessCancelled, token]
  split
  · exact h.fail _ _
  · next free => exact on free

theorem Alike.offers (h : Alike p q w v) {s : List String} {x y : ε}
    (made : p.make (p.root.below s) = .ok x) (made' : q.make (q.root.below s) = .ok y)
    (refusal : q.refusal.isSome = p.refusal.isSome) (full : c'.isFull = c.isFull) :
    Alike p q (w.offer p (p.root.below s) x c).1 (v.offer q (q.root.below s) y c').1 := by
  simp only [offer, full]
  cases refused : p.refusal with
  | some f =>
      rw [refused, Option.isSome_some, Option.isSome_iff_exists] at refusal
      obtain ⟨g, refused'⟩ := refusal
      rw [refused']
      exact h.fail f g
  | none =>
      rw [refused, Option.isSome_none, Option.isSome_eq_false_iff, Option.isNone_iff_eq_none]
        at refusal
      rw [refusal]
      simp only
      split
      · have turned : Alike p q (w.happen .turnedAway) (v.happen .turnedAway) :=
          h.happen rfl rfl rfl rfl
        exact turned.go (.offering made made')
      · exact (h.enqueue made made').go .counting

theorem Alike.signals (h : Alike p q w v) (path path' : Path) (x y : ε)
    (latch : c'.signal.isOk = c.signal.isOk) :
    Alike p q (w.signal p path x c).1 (v.signal q path' y c').1 := by
  simp only [signal]
  cases answer : c.signal <;> cases answer' : c'.signal <;>
    rw [answer, answer'] at latch
  case error.error f g => exact h.fail f g
  case error.ok | ok.error => cases latch
  case ok.ok =>
    have told : Alike p q (w.happen .signalled) (v.happen .signalled) :=
      h.happen rfl rfl rfl rfl
    exact told.go .notifying

theorem Alike.notifies (h : Alike p q w v) (path path' : Path) (x y : ε) :
    Alike p q (w.notify p path x) (v.notify q path' y) where
  account := by simp [h.account]
  put := by simpa using h.put
  phase := by simpa using Phase.Alike.turning
  stack := by simpa using h.stack

/-- The walks stay alike for one more step. -/
theorem Alike.step (m : Plan.Matches fs p q) (wf : fs.WellFormed) (fits : w.Fits p fs)
    (fits' : v.Fits q fs) (h : Alike p q w v) (answers : ¬ Unanswered p t w)
    (answers' : ¬ Unanswered q t' v) (even : Evenly p q w t t' c c') :
    Alike p q (w.step p t c).1 (v.step q t' c').1 := by
  have alike := h.phase
  generalize phase : w.phase = a at alike
  generalize phase' : v.phase = b at alike
  cases alike with
  | idle =>
      simp only [Walk.step, phase, phase']
      exact ⟨⟨by simp [h.account], by simpa using h.put⟩, .examining, h.stack⟩
  | examining =>
      simp only [Walk.step, phase, phase']
      exact h.examines m phase phase' answers answers'
  | opening =>
      simp only [Walk.step, phase, phase']
      exact h.opens m wf fits fits' answers answers' phase phase'
  | turning =>
      simp only [Walk.step, phase, phase']
      exact h.turns phase phase'
  | visiting =>
      simp only [Walk.step, phase, phase']
      refine h.unlessCancelled even.token fun free => ?_
      exact h.visits m wf fits fits' answers answers' phase phase' free (even.token.trans free)
  | creating s =>
      simp only [Walk.step, phase, phase']
      exact h.creates m s
  | offering made made' =>
      simp only [Walk.step, phase, phase']
      exact h.unlessCancelled even.token fun _ => h.go (.putting made made')
  | putting made made' =>
      simp only [Walk.step, phase, phase']
      exact h.offers made made' (even.refusal _ _ phase) even.full
  | counting =>
      have counted : Alike p q (w.happen .counted) (v.happen .counted) :=
        h.happen rfl rfl rfl rfl
      simp only [Walk.step, phase, phase']
      exact counted.go .signalling
  | signalling =>
      simp only [Walk.step, phase, phase']
      exact h.signals _ _ _ _ even.latch
  | notifying =>
      simp only [Walk.step, phase, phase']
      exact h.notifies ..
  | completed | failed =>
      simp only [Walk.step, phase, phase']
      exact h

end Steps

end Walk
end FileCensus
