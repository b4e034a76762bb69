import FileCensus.Proofs.Acceptance
import FileCensus.Proofs.Advance

/-!
The stack of open directories. They lie one in the other, each is a directory that the walk has to
go into, and the identities that the walk keeps are those of the open directories and no others. No
step breaks this, whatever the token, the queue and the latch do, and whether the system answers or
not.
-/

namespace FileCensus

variable {ε : Type}

/-- What is known of an open directory. -/
structure Frame.Fits (p : Plan ε) (fs : FileSystem) (f : Frame) : Prop where
  path : f.path = p.root.below f.relative
  depth : f.depth = f.relative.length
  enters : p.Enters fs f.relative
  key : f.key = if p.filters.followLinks then p.placeOf fs f.relative else none
  listing : ∃ here entries, p.placeOf fs f.relative = some here ∧ fs.find true f.path = .ok here ∧
    fs.at? here = some (.directory entries) ∧ f.left <:+ FileSystem.entriesOf entries

/-- Each directory is an entry of the one below it on the stack, and the last is the root. -/
def Nested : List Frame → Prop
  | [] => True
  | [f] => f.relative = []
  | f :: g :: rest => (∃ name, f.relative = g.relative ++ [name]) ∧ Nested (g :: rest)

theorem Nested.tail {f : Frame} {rest : List Frame} (h : Nested (f :: rest)) : Nested rest := by
  cases rest with
  | nil => trivial
  | cons g rest => exact h.2

theorem Nested.length {f : Frame} {rest : List Frame} (h : Nested (f :: rest)) :
    rest.length = f.relative.length := by
  induction rest generalizing f with
  | nil => simpa using (congrArg List.length h).symm
  | cons g rest ih =>
      obtain ⟨⟨name, eq⟩, below⟩ := h
      simp [eq, ih below]

/-- The open directories are those on the way to the innermost one. -/
theorem Nested.mem_iff {f : Frame} {rest : List Frame} (h : Nested (f :: rest)) {t : List String} :
    t <+: f.relative ↔ ∃ g ∈ f :: rest, g.relative = t := by
  induction rest generalizing f with
  | nil =>
      have root : f.relative = [] := h
      simp [root, eq_comm]
  | cons g rest ih =>
      obtain ⟨⟨name, eq⟩, below⟩ := h
      rw [eq, List.prefix_concat_iff, ih below, ← eq]
      simp [eq_comm]

theorem Nested.pairwise_ne {f : Frame} {rest : List Frame} (h : Nested (f :: rest)) :
    (f :: rest).Pairwise fun g g' => g.relative ≠ g'.relative := by
  induction rest generalizing f with
  | nil => simp
  | cons g rest ih =>
      obtain ⟨⟨name, eq⟩, below⟩ := h
      refine List.pairwise_cons.mpr ⟨fun g' hg' same => ?_, ih below⟩
      have above := (below.mem_iff (t := g'.relative)).mpr ⟨g', hg', rfl⟩
      exact Plan.prefix_ne_snoc above (same ▸ eq)

/-- A directory that is about to be opened: the root, or an entry of the innermost open
directory. -/
structure Plan.Opens (p : Plan ε) (fs : FileSystem) (stack : List Frame) (relative : List String) :
    Prop where
  directory : p.Names fs relative .directory
  above :
    (relative = [] ∧ stack = []) ∨
      ∃ f rest name, stack = f :: rest ∧ relative = f.relative ++ [name] ∧
        p.excludes relative = .ok false ∧ p.filters.allowsDepth relative.length = true

def Phase.Fits (p : Plan ε) (fs : FileSystem) (stack : List Frame) : Phase ε → Prop
  | .idle | .examining => stack = []
  | .opening path relative depth =>
      path = p.root.below relative ∧ depth = relative.length ∧ p.Opens fs stack relative
  | .visiting directory e relative depth =>
      ∃ f rest here entries, stack = f :: rest ∧ directory = f.path ∧
        relative = f.relative ++ [e.name] ∧ depth = f.depth ∧
        p.placeOf fs f.relative = some here ∧ fs.find true f.path = .ok here ∧
        fs.at? here = some (.directory entries) ∧ e ∈ FileSystem.entriesOf entries
  | .judging => stack = [] ∧ p.Names fs [] .file
  | .creating path => ∃ s, path = p.root.below s ∧ p.Accepts fs s
  | .offering path e | .putting path e =>
      ∃ s, path = p.root.below s ∧ p.Accepts fs s ∧ p.make path = .ok e
  | .turning | .counting .. | .signalling .. | .notifying .. => True
  | .ended _ => stack = []

/-- What is known of a walk at each moment. -/
structure Walk.Fits (p : Plan ε) (fs : FileSystem) (w : Walk ε) : Prop where
  frames : ∀ f ∈ w.stack, f.Fits p fs
  nested : Nested w.stack
  ancestors : (∀ o, w.phase ≠ .ended o) → w.ancestors = w.stack.filterMap (·.key)
  phase : w.phase.Fits p fs w.stack

namespace Plan

variable {p : Plan ε} {fs : FileSystem} {d relative : List String} {name : String} {here : Place}

theorem excludes_snoc (d : List String) (name : String) :
    p.excludes (d ++ [name]) = p.filters.isExcluded p.probe.attributes ((p.root.below d).child name)
      (Walk.relativeText (d ++ [name])) := by
  simp [excludes, relativeForm, Path.below_snoc]

theorem includes_snoc (d : List String) (name : String) :
    p.includes (d ++ [name]) = p.filters.isIncluded p.probe.attributes ((p.root.below d).child name)
      (Walk.relativeText (d ++ [name])) := by
  simp [includes, relativeForm, Path.below_snoc]

/-- The kind that the walk sees is the kind of what the entry names. -/
theorem kindOf_iff (wf : fs.WellFormed) (reads : p.probe.Reads fs)
    (place : p.placeOf fs d = some here) (found : fs.find true (p.root.below d) = .ok here)
    {entries : List (String × Node)} (listed : fs.at? here = some (.directory entries)) {e : Entry}
    (he : e ∈ FileSystem.entriesOf entries) {kind : Option Kind}
    (h : Walk.kindOf p (p.root.below d) e = .ok kind) {k : Kind} :
    kind = some k ↔ p.Names fs (d ++ [e.name]) k := by
  simp only [Names, placeOf_snoc, place, Option.bind_some]
  simp only [Walk.kindOf] at h
  cases follows : p.filters.followLinks with
  | true =>
      rw [follows, if_pos rfl] at h
      exact FileSystem.kindOf_ok wf found listed he (reads.kindOf h)
  | false =>
      rw [follows, if_neg Bool.false_ne_true] at h
      cases h
      obtain ⟨n, member, same⟩ := FileSystem.mem_entriesOf.mp he
      have entry := Node.entryOf_of_mem (wf.distinct listed) member
      have leads := FileSystem.next_of_entry false listed entry (Or.inr rfl)
      have node := (FileSystem.at?_snoc listed e.name).trans entry
      simp [leads, node, same]

theorem Enters.snoc (h : p.Enters fs d) (directory : p.Names fs (d ++ [name]) .directory)
    (kept : p.excludes (d ++ [name]) = .ok false)
    (shallow : p.filters.allowsDepth (d ++ [name]).length = true)
    (new : p.filters.followLinks = true →
      ∀ t, t <+: d → p.placeOf fs t ≠ p.placeOf fs (d ++ [name])) :
    p.Enters fs (d ++ [name]) where
  directory t pre := by
    rcases List.prefix_concat_iff.mp pre with rfl | within
    · exact directory
    · exact h.directory t within
  kept t pre ne := by
    rcases List.prefix_concat_iff.mp pre with rfl | within
    · exact kept
    · exact h.kept t within ne
  shallow := Or.inr shallow
  loopFree follows t u ht hu same := by
    rcases List.prefix_concat_iff.mp ht with rfl | t' <;>
      rcases List.prefix_concat_iff.mp hu with rfl | u'
    · rfl
    · exact absurd same.symm (new follows u u')
    · exact absurd same (new follows t t')
    · exact h.loopFree follows t u t' u' same

theorem enters_nil (h : p.Names fs [] .directory) : p.Enters fs [] where
  directory t pre := by
    cases List.prefix_nil.mp pre
    exact h
  kept t pre ne := absurd (List.prefix_nil.mp pre) ne
  shallow := Or.inl rfl
  loopFree _ t u ht hu _ := by rw [List.prefix_nil.mp ht, List.prefix_nil.mp hu]

end Plan

/-- A directory that is opened is found where its relative path leads. -/
theorem Plan.Opens.place_eq {p : Plan ε} {fs : FileSystem} {stack : List Frame}
    {relative : List String} {q : Place} (wf : fs.WellFormed) (frames : ∀ f ∈ stack, f.Fits p fs)
    (h : p.Opens fs stack relative) (found : fs.find true (p.root.below relative) = .ok q) :
    p.placeOf fs relative = some q := by
  obtain ⟨r, n, place, node, directory⟩ := h.directory
  rcases h.above with ⟨rfl, -⟩ | ⟨f, rest, name, rfl, rfl, -, -⟩
  · exact placeOf_nil (by simpa using found)
  · have fits := frames f (by simp)
    obtain ⟨here, entries, above, within, -, -⟩ := fits.listing
    rw [placeOf_snoc, above, Option.bind_some] at place
    rw [Path.below_snoc, ← fits.path] at found
    have same := FileSystem.next_eq_of_find wf within found place node (by simp [directory])
    rw [placeOf_snoc, above, Option.bind_some, place, same]

theorem mem_keys_iff {p : Plan ε} {fs : FileSystem} {f : Frame} {rest : List Frame}
    (follows : p.filters.followLinks = true) (frames : ∀ g ∈ f :: rest, g.Fits p fs)
    (nested : Nested (f :: rest)) {q : Place} :
    q ∈ (f :: rest).filterMap (·.key) ↔ ∃ t, t <+: f.relative ∧ p.placeOf fs t = some q := by
  rw [List.mem_filterMap]
  constructor
  · rintro ⟨g, hg, key⟩
    rw [(frames g hg).key, if_pos follows] at key
    exact ⟨g.relative, nested.mem_iff.mpr ⟨g, hg, rfl⟩, key⟩
  · rintro ⟨t, pre, place⟩
    obtain ⟨g, hg, rfl⟩ := nested.mem_iff.mp pre
    exact ⟨g, hg, by rw [(frames g hg).key, if_pos follows, place]⟩

theorem Plan.Opens.enters {p : Plan ε} {fs : FileSystem} {w : Walk ε} {relative : List String}
    {key : Option Place} {ancestors : List Place} (wf : fs.WellFormed) (reads : p.probe.Reads fs)
    (fits : w.Fits p fs) (alive : ∀ o, w.phase ≠ .ended o) (h : p.Opens fs w.stack relative)
    (keyed : Walk.Keyed p w (p.root.below relative) key ancestors) : p.Enters fs relative := by
  rcases h.above with ⟨rfl, -⟩ | ⟨f, rest, name, top, rfl, kept, shallow⟩
  · exact enters_nil h.directory
  · have enters := (fits.frames f (by simp [top])).enters
    refine enters.snoc h.directory kept shallow fun follows t pre same => ?_
    cases keyed with
    | unfollowed off => simp [follows] at off
    | fresh _ known new =>
        obtain ⟨found, -⟩ := FileSystem.status_ok (reads.status known)
        rw [h.place_eq wf fits.frames found] at same
        rw [fits.ancestors alive, top] at new
        refine new ((mem_keys_iff follows ?_ (top ▸ fits.nested)).mpr ⟨t, pre, same⟩)
        exact fun g hg => fits.frames g (top ▸ hg)

namespace Walk

variable {p : Plan ε} {fs : FileSystem} {t : Token} {w w' : Walk ε} {c : Channel ε}

theorem Fits.of_ended {o : Outcome} (stack : w.stack = []) (phase : w.phase = .ended o) :
    w.Fits p fs where
  frames f hf := by simp [stack] at hf
  nested := by rw [stack]; trivial
  ancestors awake := absurd phase (awake o)
  phase := by rw [phase]; exact stack

theorem Fits.opens (fits : w.Fits p fs) {path : Path} {relative : List String} {depth : Nat}
    (h : w.phase = .opening path relative depth) :
    path = p.root.below relative ∧ depth = relative.length ∧ p.Opens fs w.stack relative := by
  have known := fits.phase
  rwa [h] at known

/-- A step that leaves the open directories alone has only its phase to answer for. -/
theorem Fits.of_same (fits : w.Fits p fs) (awake : ∀ o, w.phase ≠ .ended o)
    (stack : w'.stack = w.stack) (ancestors : w'.ancestors = w.ancestors)
    (phase : w'.phase.Fits p fs w.stack) : w'.Fits p fs where
  frames f hf := fits.frames f (stack ▸ hf)
  nested := stack ▸ fits.nested
  ancestors _ := by rw [ancestors, stack, fits.ancestors awake]
  phase := stack ▸ phase

theorem Fits.pushed (wf : fs.WellFormed) (reads : p.probe.Reads fs) (fits : w.Fits p fs)
    {path : Path} {relative : List String} {depth : Nat} {key : Option Place}
    {ancestors : List Place} {entries : List Entry} (h : w.phase = .opening path relative depth)
    (keyed : Keyed p w path key ancestors) (listed : p.probe.list path = .ok entries) :
    (w.pushed ⟨path, relative, depth, entries, key⟩ ancestors).Fits p fs := by
  have awake : ∀ o, w.phase ≠ .ended o := by simp [h]
  obtain ⟨rfl, rfl, opens⟩ := fits.opens h
  obtain ⟨here, es, found, directory, rfl⟩ := FileSystem.list_ok (reads.list listed)
  have place := opens.place_eq wf fits.frames found
  have keys : key = if p.filters.followLinks then p.placeOf fs relative else none := by
    cases keyed with
    | unfollowed off => simp [off]
    | fresh follows known _ =>
        obtain ⟨same, -⟩ := FileSystem.status_ok (reads.status known)
        rw [if_pos follows, opens.place_eq wf fits.frames same]
  constructor
  · intro f hf
    rcases List.mem_cons.mp hf with rfl | old
    · exact ⟨rfl, rfl, opens.enters wf reads fits awake keyed, keys,
        here, es, place, found, directory, List.suffix_refl _⟩
    · exact fits.frames f old
  · rcases opens.above with ⟨rfl, empty⟩ | ⟨f, rest, name, top, rfl, -, -⟩
    · simp [empty, Nested]
    · have nested := fits.nested
      simp only [pushed_stack, top] at nested ⊢
      exact ⟨⟨name, rfl⟩, nested⟩
  · intro _
    -- the new identity is kept exactly if the new directory has a key
    cases keyed <;> simp [fits.ancestors awake]
  · trivial

theorem Fits.popped (fits : w.Fits p fs) (awake : ∀ o, w.phase ≠ .ended o) {f : Frame}
    {rest : List Frame} (turning : w.phase = .turning) (top : w.stack = f :: rest) :
    { w with stack := rest, ancestors := f.key.elim w.ancestors w.ancestors.erase }.Fits p fs := by
  have nested := fits.nested
  rw [top] at nested
  refine ⟨fun g hg => fits.frames g (by simp_all), nested.tail, fun _ => ?_, ?_⟩
  · have kept := fits.ancestors awake
    rw [top, List.filterMap_cons] at kept
    cases key : f.key <;> simp_all
  · simp [turning, Phase.Fits]

theorem Fits.taken (fits : w.Fits p fs) (awake : ∀ o, w.phase ≠ .ended o) {f : Frame}
    {rest : List Frame} {e : Entry} {left : List Entry} (top : w.stack = f :: rest)
    (some : f.left = e :: left) :
    ({ w with stack := { f with left := left } :: rest }.go
      (.visiting f.path e (f.relative ++ [e.name]) f.depth)).Fits p fs := by
  have frame := fits.frames f (by simp [top])
  obtain ⟨here, entries, place, found, listed, inside⟩ := frame.listing
  have nested := fits.nested
  rw [some] at inside
  rw [top] at nested
  refine ⟨fun g hg => ?_, ?_, fun _ => ?_, ?_⟩
  · rcases List.mem_cons.mp hg with rfl | old
    · exact ⟨frame.path, frame.depth, frame.enters, frame.key,
        here, entries, place, found, listed, (List.suffix_cons e left).trans inside⟩
    · exact fits.frames g (by simp [top, old])
  · cases rest <;> exact nested
  · simp [fits.ancestors awake, top, List.filterMap_cons]
  · have member := inside.subset (List.mem_cons_self ..)
    exact ⟨_, rest, here, entries, rfl, rfl, rfl, rfl, place, found, listed, member⟩

/-- What is asked about an entry that is visited is asked about its relative path. -/
structure Visits (p : Plan ε) (fs : FileSystem) (w : Walk ε) (directory : Path) (e : Entry)
    (relative : List String) (depth : Nat) : Prop where
  shape : ∃ f rest, w.stack = f :: rest ∧ relative = f.relative ++ [e.name] ∧ p.Enters fs f.relative
  path : directory.child e.name = p.root.below relative
  depth : depth + 1 = relative.length
  kind : ∀ {kind k}, kindOf p directory e = .ok kind → (kind = some k ↔ p.Names fs relative k)
  excludes : p.excludesEntry directory e relative = p.excludes relative
  includes : p.includesEntry directory e relative = p.includes relative

theorem Fits.visits (wf : fs.WellFormed) (reads : p.probe.Reads fs) (fits : w.Fits p fs)
    {directory : Path} {e : Entry} {relative : List String} {depth : Nat}
    (h : w.phase = .visiting directory e relative depth) :
    w.Visits p fs directory e relative depth := by
  have known := fits.phase
  rw [h] at known
  obtain ⟨f, rest, here, entries, top, rfl, rfl, rfl, place, found, listed, he⟩ := known
  have frame := fits.frames f (by simp [top])
  rw [frame.path] at found ⊢
  refine ⟨⟨f, rest, top, rfl, frame.enters⟩, (Path.below_snoc _ _ _).symm, ?_, ?_, ?_, ?_⟩
  · simp [frame.depth]
  · exact fun answer => Plan.kindOf_iff wf reads place found listed he answer
  · rw [Plan.excludes_snoc]
  · rw [Plan.includes_snoc]

theorem Visits.accepts {directory : Path} {e : Entry} {relative : List String} {depth : Nat}
    (visits : w.Visits p fs directory e relative depth) (file : p.Names fs relative .file)
    (kept : p.excludes relative = .ok false) (wanted : p.includes relative = .ok true) :
    p.Accepts fs relative := by
  obtain ⟨f, rest, -, rfl, enters⟩ := visits.shape
  exact Plan.accepts_snoc_iff.mpr ⟨enters, file, kept, wanted⟩

theorem accepts_root (file : p.Names fs [] .file)
    (kept : p.filters.isExcluded p.probe.attributes p.root p.root.name = .ok false)
    (wanted : p.filters.isIncluded p.probe.attributes p.root p.root.name = .ok true) :
    p.Accepts fs [] where
  onWay t pre ne := absurd (List.prefix_nil.mp pre) ne
  file := file
  kept := by simpa [Plan.excludes, Plan.relativeForm] using kept
  wanted := by simpa [Plan.includes, Plan.relativeForm] using wanted
  shallow := Or.inl (Nat.zero_le 1)
  loopFree _ t u ht t' _ _ _ := absurd (List.prefix_nil.mp ht) t'

theorem names_root (reads : p.probe.Reads fs) {s : Status} (known : p.probe.status p.root = .ok s) :
    p.Names fs [] s.kind := by
  obtain ⟨found, n, node, kind⟩ := FileSystem.status_ok (reads.status known)
  exact ⟨s.identity, n, Plan.placeOf_nil found, node, kind⟩

/-- No outcome of a step breaks what is known of a walk. -/
theorem Fits.advance (wf : fs.WellFormed) (reads : p.probe.Reads fs) (fits : w.Fits p fs)
    {r : Walk ε × Channel ε} (a : Advance p t w c r) : r.1.Fits p fs := by
  have known := fits.phase
  cases a with
  | fails trouble =>
      obtain ⟨g, ended⟩ := fail_phase _ p _
      exact .of_ended (fail_stack _ _ _) ended
  | begins h =>
      rw [h] at known
      exact fits.of_same (by simp [h]) rfl rfl known
  | rootDirectory h status isDirectory =>
      rw [h] at known
      have directory := isDirectory ▸ names_root reads status
      exact fits.of_same (by simp [h]) rfl rfl ⟨by simp, rfl, directory, Or.inl ⟨rfl, known⟩⟩
  | rootFile h status isFile =>
      rw [h] at known
      exact fits.of_same (by simp [h]) rfl rfl ⟨known, isFile ▸ names_root reads status⟩
  | rootOther h _ _ _ => exact .of_ended (complete_stack _ _) (complete_phase _ _)
  | loops h _ _ _ => exact fits.of_same (by simp [h]) rfl rfl trivial
  | enters h keyed listed => exact fits.pushed wf reads h keyed listed
  | completes h _ => exact .of_ended (complete_stack _ _) (complete_phase _ _)
  | leaves h top _ => exact fits.popped (by simp [h]) h top
  | takes h top some => exact fits.taken (by simp [h]) top some
  | drops h free dropped =>
      refine fits.of_same (by simp [h]) dropped.stack dropped.ancestors ?_
      rw [dropped.phase]
      trivial
  | descends h free kept isDirectory shallow =>
      have visits := fits.visits wf reads h
      obtain ⟨_, rest, top, eq, -⟩ := visits.shape
      have depth := visits.depth
      have directory := (visits.kind isDirectory).mp rfl
      refine fits.of_same (by simp [h]) rfl rfl ⟨visits.path, depth, directory, Or.inr ?_⟩
      refine ⟨_, rest, _, top, eq, visits.excludes ▸ kept, ?_⟩
      rw [← depth]
      exact shallow
  | accepts h free kept isFile wanted =>
      have visits := fits.visits wf reads h
      refine fits.of_same (by simp [h]) rfl rfl ⟨_, visits.path, ?_⟩
      have file := (visits.kind isFile).mp rfl
      exact visits.accepts file (visits.excludes ▸ kept) (visits.includes ▸ wanted)
  | dropsRoot h _ _ => exact fits.of_same (by simp [h]) rfl rfl trivial
  | acceptsRoot h _ kept wanted =>
      rw [h] at known
      exact fits.of_same (by simp [h]) rfl rfl ⟨[], by simp, accepts_root known.2 kept wanted⟩
  | unmade h _ => exact fits.of_same (by simp [h]) rfl rfl trivial
  | makes h made =>
      rw [h] at known
      obtain ⟨s, eq, accepts⟩ := known
      exact fits.of_same (by simp [h]) rfl rfl ⟨s, eq, accepts, made⟩
  | tries h _ | turnedAway h _ _ =>
      rw [h] at known
      exact fits.of_same (by simp [h]) rfl rfl known
  | puts h _ _ | counts h | signals h _ => exact fits.of_same (by simp [h]) rfl rfl trivial
  | notifies h =>
      exact fits.of_same (by simp [h]) (by simp) (by simp) (by simp [Phase.Fits])
  | rests h => exact fits

theorem Fits.mem_ancestors_iff (fits : w.Fits p fs) (awake : ∀ o, w.phase ≠ .ended o) {q : Place} :
    q ∈ w.ancestors ↔ ∃ f ∈ w.stack, f.key = some q := by
  rw [fits.ancestors awake, List.mem_filterMap]

theorem Fits.key_directory (fits : w.Fits p fs) (follows : p.filters.followLinks = true) {f : Frame}
    (hf : f ∈ w.stack) : ∃ q entries, f.key = some q ∧ fs.at? q = some (.directory entries) := by
  have frame := fits.frames f hf
  obtain ⟨q, entries, place, -, directory, -⟩ := frame.listing
  exact ⟨q, entries, by rw [frame.key, if_pos follows, place], directory⟩

theorem Fits.keys_nodup (fits : w.Fits p fs) (follows : p.filters.followLinks = true) :
    (w.stack.map (·.key)).Nodup := by
  cases top : w.stack with
  | nil => exact List.nodup_nil
  | cons f rest =>
      have nested := fits.nested
      rw [top] at nested
      refine List.pairwise_map.mpr (nested.pairwise_ne.imp_of_mem ?_)
      intro g g' hg hg' different same
      apply different
      have above := nested.mem_iff.mpr ⟨g, hg, rfl⟩
      have above' := nested.mem_iff.mpr ⟨g', hg', rfl⟩
      rw [(fits.frames g (top ▸ hg)).key, (fits.frames g' (top ▸ hg')).key, if_pos follows,
        if_pos follows] at same
      exact (fits.frames f (by simp [top])).enters.loopFree follows _ _ above above' same

/-- A walk that is about to run, for the first time or once more, and keeps no identities. -/
structure Ready (w : Walk ε) : Prop where
  idle : w.phase = .idle
  stack : w.stack = []
  ancestors : w.ancestors = []

theorem ready_fresh (root : Path) : (fresh root : Walk ε).Ready :=
  ⟨rfl, rfl, rfl⟩

theorem Ready.awake (ready : w.Ready) (o : Outcome) : w.phase ≠ .ended o := by
  rw [ready.idle]
  nofun

theorem Ready.fits (ready : w.Ready) : w.Fits p fs where
  frames f hf := by simp [ready.stack] at hf
  nested := by rw [ready.stack]; trivial
  ancestors _ := by rw [ready.ancestors, ready.stack]; rfl
  phase := by rw [ready.idle]; exact ready.stack

end Walk
end FileCensus
