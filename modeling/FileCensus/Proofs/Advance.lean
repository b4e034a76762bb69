import FileCensus.Walk.Step

/-!
What one step of a walk can do. The step is cut into its outcomes once, each with what has been
asked and answered before it and with the exact walk and channel after it; what a walk keeps is
shown by going through these outcomes.
-/

namespace FileCensus

abbrev Plan.excludesEntry {ε : Type} (p : Plan ε) (directory : Path) (e : Entry)
    (relative : List String) : Except Failure Bool :=
    p.filters.isExcluded p.probe.attributes (directory.child e.name) (Walk.relativeText relative)

abbrev Plan.includesEntry {ε : Type} (p : Plan ε) (directory : Path) (e : Entry)
    (relative : List String) : Except Failure Bool :=
    p.filters.isIncluded p.probe.attributes (directory.child e.name) (Walk.relativeText relative)

namespace Walk

variable {ε : Type}

section Fields

variable (w : Walk ε) (p : Plan ε) (f : Failure) (n : Notice) (e : Event ε) (phase : Phase ε)

@[simp] theorem go_phase : (w.go phase).phase = phase := rfl
@[simp] theorem go_stack : (w.go phase).stack = w.stack := rfl
@[simp] theorem go_ancestors : (w.go phase).ancestors = w.ancestors := rfl
@[simp] theorem go_put : (w.go phase).put = w.put := rfl

@[simp] theorem happen_phase : (w.happen e).phase = w.phase := rfl
@[simp] theorem happen_stack : (w.happen e).stack = w.stack := rfl
@[simp] theorem happen_ancestors : (w.happen e).ancestors = w.ancestors := rfl

@[simp] theorem happen_put_put (entry : ε) : (w.happen (.put entry)).put = w.put ++ [entry] := by
  simp [put, trace, happen]

theorem happen_put (h : ∀ entry, e ≠ .put entry) : (w.happen e).put = w.put := by
  cases e with
  | put entry => exact absurd rfl (h entry)
  | said _ | listed _ | visited _ | asked _ | turnedAway | counted | signalled | notified _ =>
      simp [put, trace, happen]

theorem asked_put (path : Path) : (w.happen (.asked path)).put = w.put := happen_put _ _ nofun

@[simp] theorem say_phase : (w.say n).phase = w.phase := rfl
@[simp] theorem say_stack : (w.say n).stack = w.stack := rfl
@[simp] theorem say_ancestors : (w.say n).ancestors = w.ancestors := rfl
@[simp] theorem say_put : (w.say n).put = w.put := happen_put _ _ nofun

@[simp] theorem skip_phase : w.skip.phase = .turning := rfl
@[simp] theorem skip_stack : w.skip.stack = w.stack := rfl
@[simp] theorem skip_ancestors : w.skip.ancestors = w.ancestors := rfl
@[simp] theorem skip_put : w.skip.put = w.put := rfl

@[simp] theorem finish_phase (o : Outcome) : (w.finish p o).phase = .ended o := rfl
@[simp] theorem finish_stack (o : Outcome) : (w.finish p o).stack = [] := rfl
@[simp] theorem finish_put (o : Outcome) : (w.finish p o).put = w.put := rfl

@[simp] theorem complete_phase : (w.complete p).phase = .ended (.ok p.root) := rfl
@[simp] theorem complete_stack : (w.complete p).stack = [] := rfl
@[simp] theorem complete_put : (w.complete p).put = w.put := by simp [complete]

theorem fail_phase : ∃ g, (w.fail p f).phase = .ended (.error g) := by
  cases f <;> exact ⟨_, rfl⟩

@[simp] theorem fail_stack : (w.fail p f).stack = [] := by
  cases f <;> rfl

@[simp] theorem fail_put : (w.fail p f).put = w.put := by
  cases f <;> simp [fail]

@[simp] theorem begin_phase : (w.begin_ p).phase = .examining := rfl
@[simp] theorem begin_stack : (w.begin_ p).stack = w.stack := rfl
@[simp] theorem begin_put : (w.begin_ p).put = w.put := say_put _ _

section Notify

variable (path : Path) (entry : ε)

@[simp] theorem notify_phase : (w.notify p path entry).phase = .turning := by
  simp only [notify]
  split <;> rfl

@[simp] theorem notify_stack : (w.notify p path entry).stack = w.stack := by
  simp only [notify]
  split
  · rfl
  · split <;> rfl

@[simp] theorem notify_ancestors : (w.notify p path entry).ancestors = w.ancestors := by
  simp only [notify]
  split
  · rfl
  · split <;> rfl

@[simp] theorem notify_put : (w.notify p path entry).put = w.put := by
  simp only [notify]
  split
  · rfl
  · next fails monitor =>
    let counted : Walk ε := { w with notifications := w.notifications + 1 }
    have told : (counted.happen (.notified entry)).put = w.put := happen_put _ _ nofun
    split
    · rw [go_put, say_put, told]
    · rw [go_put, told]

end Notify

end Fields

/-- A walk that has taken note of the entry that it is about to judge. -/
def sight (w : Walk ε) (directory : Path) (e : Entry) (relative : List String) : Walk ε :=
    let progress := { w.progress.visit with currentPath := some (directory.entryText e.name) }
    { w with progress := progress }.happen (.visited relative)

/-- The same for a root that is a file. -/
def sightRoot (p : Plan ε) (w : Walk ε) : Walk ε :=
    { w with progress := w.progress.visit }.happen (.visited [p.root.name])

section Sights

variable (w : Walk ε) (p : Plan ε) (directory : Path) (e : Entry) (relative : List String)

@[simp] theorem sight_stack : (w.sight directory e relative).stack = w.stack := rfl
@[simp] theorem sight_ancestors : (w.sight directory e relative).ancestors = w.ancestors := rfl
@[simp] theorem sight_put : (w.sight directory e relative).put = w.put := happen_put _ _ nofun

@[simp] theorem sightRoot_stack : (w.sightRoot p).stack = w.stack := rfl
@[simp] theorem sightRoot_ancestors : (w.sightRoot p).ancestors = w.ancestors := rfl
@[simp] theorem sightRoot_put : (w.sightRoot p).put = w.put := happen_put _ _ nofun

end Sights

/-- The walk after its innermost directory has been listed. -/
def pushed (w : Walk ε) (f : Frame) (ancestors : List Place) : Walk ε :=
    let w := { w with ancestors := ancestors, stack := f :: w.stack, entered := true }
    (w.happen (.listed f.path)).go .turning

@[simp] theorem pushed_phase (w : Walk ε) (f : Frame) (a : List Place) :
    (w.pushed f a).phase = .turning := rfl
@[simp] theorem pushed_stack (w : Walk ε) (f : Frame) (a : List Place) :
    (w.pushed f a).stack = f :: w.stack := rfl
@[simp] theorem pushed_ancestors (w : Walk ε) (f : Frame) (a : List Place) :
    (w.pushed f a).ancestors = a := rfl
@[simp] theorem pushed_put (w : Walk ε) (f : Frame) (a : List Place) : (w.pushed f a).put = w.put :=
  happen_put _ _ nofun

/-- How the key of a directory that is opened comes about, with the identities that are kept from
then on. -/
inductive Keyed (p : Plan ε) (w : Walk ε) (path : Path) : Option Place → List Place → Prop where
  | unfollowed (h : p.filters.followLinks = false) : Keyed p w path none w.ancestors
  | fresh {s : Status} (follows : p.filters.followLinks = true)
      (known : p.probe.status path = .ok s) (new : s.identity ∉ w.ancestors) :
      Keyed p w path (some s.identity) (s.identity :: w.ancestors)

/-- The phases that begin with a look at the token. -/
def looks : Phase ε → Bool
  | .visiting .. | .judging | .offering .. => true
  | _ => false

/-- What makes a walk fail, with the walk as it is at that moment. -/
inductive Trouble (p : Plan ε) (t : Token) (w : Walk ε) (c : Channel ε) :
    Walk ε → Failure → Prop where
  | cancelled {f} (h : looks w.phase = true) (answer : t.check = .error f) : Trouble p t w c w f
  | rootStatus {f} (h : w.phase = .examining) (answer : p.probe.status p.root = .error f) :
      Trouble p t w c w f
  | status {path relative depth f} (h : w.phase = .opening path relative depth)
      (follows : p.filters.followLinks = true) (answer : p.probe.status path = .error f) :
      Trouble p t w c w f
  | listing {path relative depth key ancestors f} (h : w.phase = .opening path relative depth)
      (keyed : Keyed p w path key ancestors) (answer : p.probe.list path = .error f) :
      Trouble p t w c { w with ancestors := ancestors } f
  | excluding {directory e relative depth f} (h : w.phase = .visiting directory e relative depth)
      (free : t.check = .ok ())
      (answer : p.excludesEntry directory e relative = .error f) :
      Trouble p t w c (w.sight directory e relative) f
  | sorting {directory e relative depth f} (h : w.phase = .visiting directory e relative depth)
      (free : t.check = .ok ())
      (kept : p.excludesEntry directory e relative = .ok false)
      (answer : kindOf p directory e = .error f) : Trouble p t w c (w.sight directory e relative) f
  | including {directory e relative depth f} (h : w.phase = .visiting directory e relative depth)
      (free : t.check = .ok ())
      (kept : p.excludesEntry directory e relative = .ok false)
      (isFile : kindOf p directory e = .ok (some .file))
      (answer : p.includesEntry directory e relative = .error f) :
      Trouble p t w c (w.sight directory e relative) f
  | excludingRoot {f} (h : w.phase = .judging) (free : t.check = .ok ())
      (answer : p.filters.isExcluded p.probe.attributes p.root p.root.name = .error f) :
      Trouble p t w c (w.sightRoot p) f
  | includingRoot {f} (h : w.phase = .judging) (free : t.check = .ok ())
      (kept : p.filters.isExcluded p.probe.attributes p.root p.root.name = .ok false)
      (answer : p.filters.isIncluded p.probe.attributes p.root p.root.name = .error f) :
      Trouble p t w c (w.sightRoot p) f
  | refused {path entry f} (h : w.phase = .putting path entry) (answer : p.refusal = some f) :
      Trouble p t w c w f
  | latched {path entry f} (h : w.phase = .signalling path entry) (answer : c.signal = .error f) :
      Trouble p t w c w f

/-- Why an entry that was judged leads to nothing more, with the walk after it. -/
inductive Dropped (p : Plan ε) (w : Walk ε) (directory : Path) (e : Entry) (relative : List String)
    (depth : Nat) : Walk ε → Prop where
  | excluded
      (out : p.excludesEntry directory e relative = .ok true) :
      Dropped p w directory e relative depth
        (((w.sight directory e relative).say (.excluded (directory.child e.name))).skip)
  | tooDeep
      (kept : p.excludesEntry directory e relative = .ok false)
      (isDirectory : kindOf p directory e = .ok (some .directory))
      (deep : p.filters.allowsDepth (Int.ofNat depth + 1) = false) :
      Dropped p w directory e relative depth ((w.sight directory e relative).go .turning)
  | unwanted
      (kept : p.excludesEntry directory e relative = .ok false)
      (isFile : kindOf p directory e = .ok (some .file))
      (out : p.includesEntry directory e relative = .ok false) :
      Dropped p w directory e relative depth (w.sight directory e relative).skip
  | neither {kind}
      (kept : p.excludesEntry directory e relative = .ok false)
      (known : kindOf p directory e = .ok kind) (notDirectory : kind ≠ some .directory)
      (notFile : kind ≠ some .file) :
      Dropped p w directory e relative depth ((w.sight directory e relative).go .turning)

section Dropped

variable {p : Plan ε} {w w' : Walk ε} {directory : Path} {e : Entry} {relative : List String}
  {depth : Nat}

theorem Dropped.phase (h : Dropped p w directory e relative depth w') : w'.phase = .turning := by
  cases h <;> rfl

theorem Dropped.stack (h : Dropped p w directory e relative depth w') : w'.stack = w.stack := by
  cases h <;> rfl

theorem Dropped.ancestors (h : Dropped p w directory e relative depth w') :
    w'.ancestors = w.ancestors := by
  cases h <;> rfl

theorem Dropped.put (h : Dropped p w directory e relative depth w') : w'.put = w.put := by
  cases h <;> simp

end Dropped

/-- The outcomes of a step. -/
inductive Advance (p : Plan ε) (t : Token) (w : Walk ε) (c : Channel ε) :
    Walk ε × Channel ε → Prop where
  | fails {w' f} (trouble : Trouble p t w c w' f) : Advance p t w c (w'.fail p f, c)
  | begins (h : w.phase = .idle) : Advance p t w c (w.begin_ p, c)
  | rootDirectory {s} (h : w.phase = .examining) (known : p.probe.status p.root = .ok s)
      (isDirectory : s.kind = .directory) : Advance p t w c (w.go (.opening p.root [] 0), c)
  | rootFile {s} (h : w.phase = .examining) (known : p.probe.status p.root = .ok s)
      (isFile : s.kind = .file) : Advance p t w c (w.go .judging, c)
  | rootOther {s} (h : w.phase = .examining) (known : p.probe.status p.root = .ok s)
      (notDirectory : s.kind ≠ .directory) (notFile : s.kind ≠ .file) :
      Advance p t w c (w.complete p, c)
  | loops {path relative depth s} (h : w.phase = .opening path relative depth)
      (follows : p.filters.followLinks = true) (known : p.probe.status path = .ok s)
      (again : s.identity ∈ w.ancestors) :
      Advance p t w c ({ w with entered := true }.say (.loop path) |>.go .turning, c)
  | enters {path relative depth key ancestors entries} (h : w.phase = .opening path relative depth)
      (keyed : Keyed p w path key ancestors) (listed : p.probe.list path = .ok entries) :
      Advance p t w c (w.pushed ⟨path, relative, depth, entries, key⟩ ancestors, c)
  | completes (h : w.phase = .turning) (empty : w.stack = []) : Advance p t w c (w.complete p, c)
  | leaves {f rest} (h : w.phase = .turning) (top : w.stack = f :: rest) (used : f.left = []) :
      Advance p t w c
        ({ w with stack := rest, ancestors := f.key.elim w.ancestors w.ancestors.erase }, c)
  | takes {f rest e left} (h : w.phase = .turning) (top : w.stack = f :: rest)
      (some : f.left = e :: left) :
      Advance p t w c ({ w with stack := { f with left := left } :: rest }.go
        (.visiting f.path e (f.relative ++ [e.name]) f.depth), c)
  | drops {directory e relative depth w'} (h : w.phase = .visiting directory e relative depth)
      (free : t.check = .ok ()) (dropped : Dropped p w directory e relative depth w') :
      Advance p t w c (w', c)
  | descends {directory e relative depth} (h : w.phase = .visiting directory e relative depth)
      (free : t.check = .ok ())
      (kept : p.excludesEntry directory e relative = .ok false)
      (isDirectory : kindOf p directory e = .ok (some .directory))
      (shallow : p.filters.allowsDepth (Int.ofNat depth + 1) = true) :
      Advance p t w c ((w.sight directory e relative).go
        (.opening (directory.child e.name) relative (depth + 1)), c)
  | accepts {directory e relative depth} (h : w.phase = .visiting directory e relative depth)
      (free : t.check = .ok ())
      (kept : p.excludesEntry directory e relative = .ok false)
      (isFile : kindOf p directory e = .ok (some .file))
      (wanted : p.includesEntry directory e relative = .ok true) :
      Advance p t w c ((w.sight directory e relative).go (.creating (directory.child e.name)), c)
  | dropsRoot (h : w.phase = .judging) (free : t.check = .ok ())
      (out : p.filters.isExcluded p.probe.attributes p.root p.root.name = .ok true ∨
        p.filters.isExcluded p.probe.attributes p.root p.root.name = .ok false ∧
          p.filters.isIncluded p.probe.attributes p.root p.root.name = .ok false) :
      Advance p t w c ((w.sightRoot p).skip, c)
  | acceptsRoot (h : w.phase = .judging) (free : t.check = .ok ())
      (kept : p.filters.isExcluded p.probe.attributes p.root p.root.name = .ok false)
      (wanted : p.filters.isIncluded p.probe.attributes p.root p.root.name = .ok true) :
      Advance p t w c ((w.sightRoot p).go (.creating p.root), c)
  | unmade {path f} (h : w.phase = .creating path) (answer : p.make path = .error f) :
      Advance p t w c
        (({ w.happen (.asked path) with progress := w.progress.record path.text f }.say
          (.uncreated path f)).go .turning, c)
  | makes {path e} (h : w.phase = .creating path) (made : p.make path = .ok e) :
      Advance p t w c ((w.happen (.asked path)).go (.offering path e), c)
  | tries {path e} (h : w.phase = .offering path e) (free : t.check = .ok ()) :
      Advance p t w c (w.go (.putting path e), c)
  | turnedAway {path e} (h : w.phase = .putting path e) (willing : p.refusal = none)
      (full : c.isFull = true) : Advance p t w c ((w.happen .turnedAway).go (.offering path e), c)
  | puts {path e} (h : w.phase = .putting path e) (willing : p.refusal = none)
      (room : c.isFull = false) :
      Advance p t w c
        (({ w with progress := w.progress.enqueue }.happen (.put e)).go (.counting path e), c.put e)
  | counts {path e} (h : w.phase = .counting path e) :
      Advance p t w c ((w.happen .counted).go (.signalling path e), c.count)
  | signals {path e c'} (h : w.phase = .signalling path e) (signalled : c.signal = .ok c') :
      Advance p t w c ((w.happen .signalled).go (.notifying path e), c')
  | notifies {path e} (h : w.phase = .notifying path e) : Advance p t w c (w.notify p path e, c)
  | rests {o} (h : w.phase = .ended o) : Advance p t w c (w, c)

section Outcomes

variable {p : Plan ε} {t : Token} {w : Walk ε} {c : Channel ε}

theorem examine_advances (h : w.phase = .examining) : Advance p t w c (w.examine p, c) := by
  simp only [examine]
  split
  · next f answer => exact .fails (.rootStatus h answer)
  · next s known =>
    split
    · next isDirectory => exact .rootDirectory h known isDirectory
    · next isFile => exact .rootFile h known isFile
    · next notDirectory notFile => exact .rootOther h known notDirectory notFile

theorem enter_advances {path : Path} {relative : List String} {depth : Nat} {key : Option Place}
    {ancestors : List Place} (h : w.phase = .opening path relative depth)
    (keyed : Keyed p w path key ancestors) :
    Advance p t w c (enter p path relative depth key { w with ancestors := ancestors }, c) := by
  simp only [enter]
  split
  · next f answer => exact .fails (.listing h keyed answer)
  · next entries listed => exact .enters h keyed listed

theorem open_advances {path : Path} {relative : List String} {depth : Nat}
    (h : w.phase = .opening path relative depth) :
    Advance p t w c (w.open_ p path relative depth, c) := by
  simp only [open_]
  split
  · next stays => exact enter_advances h (.unfollowed (by simpa using stays))
  · next on =>
    have follows : p.filters.followLinks = true := by simpa using on
    split
    · next f answer => exact .fails (.status h follows answer)
    · next s known =>
      split
      · next again => exact .loops h follows known (by simpa using again)
      · next new => exact enter_advances h (.fresh follows known (by simpa using new))

theorem turn_advances (h : w.phase = .turning) : Advance p t w c (w.turn p, c) := by
  simp only [turn]
  split
  · next empty => exact .completes h empty
  · next f rest top =>
    split
    · next used => exact .leaves h top used
    · next e left some => exact .takes h top some

theorem visit_advances {directory : Path} {e : Entry} {relative : List String} {depth : Nat}
    (h : w.phase = .visiting directory e relative depth) (free : t.check = .ok ()) :
    Advance p t w c (w.visit p directory e relative depth, c) := by
  simp only [visit]
  split
  · next f answer => exact .fails (.excluding h free answer)
  · next out => exact .drops h free (.excluded out)
  · next kept =>
    simp only [judgeKind]
    split
    · next f answer => exact .fails (.sorting h free kept answer)
    · next isDirectory =>
      split
      · next shallow => exact .descends h free kept isDirectory shallow
      · next deep => exact .drops h free (.tooDeep kept isDirectory (by simpa using deep))
    · next isFile =>
      split
      · next f answer => exact .fails (.including h free kept isFile answer)
      · next out => exact .drops h free (.unwanted kept isFile out)
      · next wanted => exact .accepts h free kept isFile wanted
    · next kind notDirectory notFile known =>
      refine .drops h free (.neither kept known ?_ ?_)
      · rintro rfl
        exact notDirectory rfl
      · rintro rfl
        exact notFile rfl

theorem judgeRoot_advances (h : w.phase = .judging) (free : t.check = .ok ()) :
    Advance p t w c (w.judgeRoot p, c) := by
  simp only [judgeRoot]
  split
  · next f answer => exact .fails (.excludingRoot h free answer)
  · next out => exact .dropsRoot h free (Or.inl out)
  · next kept =>
    split
    · next f answer => exact .fails (.includingRoot h free kept answer)
    · next out => exact .dropsRoot h free (Or.inr ⟨kept, out⟩)
    · next wanted => exact .acceptsRoot h free kept wanted

theorem create_advances {path : Path} (h : w.phase = .creating path) :
    Advance p t w c (w.create p path, c) := by
  simp only [create]
  split
  · next f answer => exact .unmade h answer
  · next e made => exact .makes h made

theorem offer_advances {path : Path} {e : ε} (h : w.phase = .putting path e) :
    Advance p t w c (w.offer p path e c) := by
  simp only [offer]
  split
  · next f answer => exact .fails (.refused h answer)
  · next willing =>
    split
    · next full => exact .turnedAway h willing full
    · next room => exact .puts h willing (by simpa using room)

theorem signal_advances {path : Path} {e : ε} (h : w.phase = .signalling path e) :
    Advance p t w c (w.signal p path e c) := by
  simp only [signal]
  split
  · next f answer => exact .fails (.latched h answer)
  · next c' signalled => exact .signals h signalled

theorem unlessCancelled_advances {next : Walk ε → Walk ε} (h : looks w.phase = true)
    (on : t.check = .ok () → Advance p t w c (next w, c)) :
    Advance p t w c (w.unlessCancelled p t next, c) := by
  simp only [unlessCancelled]
  split
  · next f answer => exact .fails (.cancelled h answer)
  · next free => exact on free

end Outcomes

theorem step_advances (p : Plan ε) (t : Token) (w : Walk ε) (c : Channel ε) :
    Advance p t w c (w.step p t c) := by
  simp only [step]
  split
  · next h => exact .begins h
  · next h => exact examine_advances h
  · next h => exact open_advances h
  · next h => exact turn_advances h
  · next h => exact unlessCancelled_advances (by rw [h]; rfl) fun free => visit_advances h free
  · next h => exact unlessCancelled_advances (by rw [h]; rfl) fun free => judgeRoot_advances h free
  · next h => exact create_advances h
  · next h => exact unlessCancelled_advances (by rw [h]; rfl) fun free => .tries h free
  · next h => exact offer_advances h
  · next h => exact .counts h
  · next h => exact signal_advances h
  · next h => exact .notifies h
  · next h => exact .rests h

end Walk
end FileCensus
