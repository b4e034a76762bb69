import FileCensus.Proofs.Stack

/-!
What a walk still has to do, as a list of relative paths: the one that it is at, then the entries
left in the open directories from the innermost outwards. Each stands for itself and everything
below it. What has been put on the queue followed by this agenda is in order at every moment, and no
accepted file is missing from both.
-/

namespace FileCensus

/-- Two relative paths part, and the first goes on with the smaller name. -/
def Before (x y : List String) : Prop :=
    ∃ c a u b v, x = c ++ a :: u ∧ y = c ++ b :: v ∧ a < b

theorem Before.lt {x y : List String} (h : Before x y) : x < y := by
  obtain ⟨c, a, u, b, v, rfl, rfl, less⟩ := h
  exact List.append_left_lt (List.Lex.rel less)

theorem Before.extend {x y x' y' : List String} (h : Before x y) (hx : x <+: x') (hy : y <+: y') :
    Before x' y' := by
  obtain ⟨c, a, u, b, v, rfl, rfl, less⟩ := h
  obtain ⟨u', rfl⟩ := hx
  obtain ⟨v', rfl⟩ := hy
  exact ⟨c, a, u ++ u', b, v ++ v', by simp, by simp, less⟩

theorem before_snoc {d : List String} {a b : String} (h : a < b) : Before (d ++ [a]) (d ++ [b]) :=
  ⟨d, a, [], b, [], rfl, rfl, h⟩

theorem pairwise_before_replace {done rest kids : List (List String)} {a : List String}
    (h : (done ++ a :: rest).Pairwise Before) (sorted : kids.Pairwise Before)
    (below : ∀ k ∈ kids, a <+: k) : (done ++ (kids ++ rest)).Pairwise Before := by
  obtain ⟨hdone, ⟨ha, hrest⟩, cross⟩ : done.Pairwise Before ∧
      ((∀ y ∈ rest, Before a y) ∧ rest.Pairwise Before) ∧
      ∀ x ∈ done, ∀ y ∈ a :: rest, Before x y := by
    simpa [List.pairwise_append] using h
  refine List.pairwise_append.mpr ⟨hdone, List.pairwise_append.mpr ⟨sorted, hrest, ?_⟩, ?_⟩
  · exact fun k hk y hy => (ha y hy).extend (below k hk) (List.prefix_refl y)
  · intro x hx y hy
    cases List.mem_append.mp hy with
    | inl kid => exact (cross x hx a (by simp)).extend (List.prefix_refl x) (below y kid)
    | inr later => exact cross x hx y (by simp [later])

/-- A sorted list that leaves out only later elements is a prefix. -/
theorem prefix_of_settled {xs ys : List (List String)} (hx : xs.Pairwise (· < ·))
    (hy : ys.Pairwise (· < ·)) (sub : xs ⊆ ys) (settled : ∀ y ∈ ys, y ∈ xs ∨ ∀ x ∈ xs, x < y) :
    xs <+: ys := by
  induction xs generalizing ys with
  | nil => exact List.nil_prefix
  | cons x xs ih =>
      cases ys with
      | nil => simpa using sub (List.mem_cons_self ..)
      | cons y ys =>
          rw [List.pairwise_cons] at hx hy
          have first : x = y := by
            have notAfter : ¬ x < y := by
              intro less
              cases List.mem_cons.mp (sub (List.mem_cons_self ..)) with
              | inl same => exact absurd less (same ▸ lt_irrefl x)
              | inr later => exact lt_asymm less (hy.1 x later)
            cases settled y (by simp) with
            | inl mem =>
                cases List.mem_cons.mp mem with
                | inl same => exact same.symm
                | inr later => exact absurd (hx.1 y later) notAfter
            | inr after => exact absurd (after x (by simp)) notAfter
          subst first
          refine List.cons_prefix_cons.mpr ⟨rfl, ih hx.2 hy.2 (fun z hz => ?_) (fun z hz => ?_)⟩
          · exact (List.mem_cons.mp (sub (List.mem_cons_of_mem x hz))).resolve_left (hx.1 z hz).ne'
          · cases settled z (by simp [hz]) with
            | inl mem => exact Or.inl ((List.mem_cons.mp mem).resolve_left (hy.1 z hz).ne')
            | inr after => exact Or.inr fun x' hx' => after x' (by simp [hx'])

variable {ε : Type}

def Frame.agenda (f : Frame) : List (List String) :=
    f.left.map fun e => f.relative ++ [e.name]

/-- What a walk is at; of a path that has been accepted, the part below the root. -/
def Phase.agenda (root : Path) : Phase ε → List (List String)
  | .idle | .examining | .judging => [[]]
  | .opening _ relative _ | .visiting _ _ relative _ => [relative]
  | .creating path | .offering path _ | .putting path _ => [path.names.drop root.names.length]
  | .turning | .counting .. | .signalling .. | .notifying .. | .ended _ => []

def Walk.agenda (root : Path) (w : Walk ε) : List (List String) :=
    w.phase.agenda root ++ w.stack.flatMap Frame.agenda

theorem Path.drop_below (root : Path) (s : List String) :
    (root.below s).names.drop root.names.length = s := by
  simp [Path.below]

/-- How `done`, the files put on the queue after the entries of `earlier` walks, and the agenda
share what is accepted. A walk that fails loses its agenda; `settled` is what remains then. -/
structure Walk.Tally (p : Plan ε) (fs : FileSystem) (earlier : List ε) (done : List (List String))
    (w : Walk ε) : Prop where
  sound : ∀ s ∈ done, p.Accepts fs s
  entries : ∃ new, w.put = earlier ++ new ∧ p.Makes done new
  ordered : (done ++ w.agenda p.root).Pairwise Before
  covered : (∀ f, w.phase ≠ .ended (.error f)) →
    ∀ s ∈ p.accepted fs, s ∈ done ∨ ∃ a ∈ w.agenda p.root, a <+: s
  settled : ∀ s ∈ p.accepted fs, s ∈ done ∨ ∀ x ∈ done, Before x s

namespace Plan

variable {p : Plan ε} {fs : FileSystem} {s t : List String}

theorem Accepts.kept_above (h : p.Accepts fs s) (pre : t <+: s) (ne : t ≠ []) :
    p.excludes t = .ok false := by
  by_cases same : t = s
  · exact same ▸ h.kept
  · exact (h.onWay t pre ne same).2

theorem Accepts.eq_of_file (h : p.Accepts fs s) (pre : t <+: s) (file : p.Names fs t .file) :
    t = s := by
  by_contra proper
  cases file.unique (names_directory_of_below h.file pre proper)

theorem Accepts.ne_of_directory (h : p.Accepts fs s) (directory : p.Names fs t .directory) :
    t ≠ s := by
  rintro rfl
  cases directory.unique h.file

theorem Accepts.names_above (h : p.Accepts fs s) (pre : t <+: s) :
    p.Names fs t .file ∨ p.Names fs t .directory := by
  by_cases same : t = s
  · exact Or.inl (same ▸ h.file)
  · exact Or.inr (names_directory_of_below h.file pre same)

theorem allowsDepth_mono {f : FilterSet} {m n : Int} (le : m ≤ n) (h : f.allowsDepth n = true) :
    f.allowsDepth m = true := by
  cases limit : f.maxDepth with
  | none => simp [FilterSet.allowsDepth, limit]
  | some k =>
      simp only [FilterSet.allowsDepth, limit, decide_eq_true_eq] at h ⊢
      omega

theorem Accepts.shallow_above (h : p.Accepts fs s) (pre : t <+: s) (proper : t ≠ s) (ne : t ≠ []) :
    p.filters.allowsDepth t.length = true := by
  have longer : t.length < s.length :=
    lt_of_le_of_ne pre.length_le fun same => proper (pre.eq_of_length same)
  have nonempty := List.length_pos_of_ne_nil ne
  refine allowsDepth_mono ?_ (h.shallow.resolve_left (by omega))
  omega

end Plan

namespace Walk

variable {p : Plan ε} {fs : FileSystem} {earlier : List ε} {done : List (List String)} {t : Token}
  {w w' : Walk ε}
  {c : Channel ε}

theorem Tally.settled_of_covered (ordered : (done ++ w.agenda p.root).Pairwise Before)
    (covered : ∀ s ∈ p.accepted fs, s ∈ done ∨ ∃ a ∈ w.agenda p.root, a <+: s) :
    ∀ s ∈ p.accepted fs, s ∈ done ∨ ∀ x ∈ done, Before x s := by
  intro s hs
  refine (covered s hs).imp_right ?_
  rintro ⟨a, ha, pre⟩ x hx
  exact ((List.pairwise_append.mp ordered).2.2 x hx a ha).extend (List.prefix_refl x) pre

/-- The path that the walk is at gives way to paths below it, which take over all that is accepted
there. -/
theorem Tally.replace (h : w.Tally p fs earlier done) (awake : ∀ o, w.phase ≠ .ended o)
    (put : w'.put = w.put) {a : List String} {kids rest : List (List String)}
    (old : w.agenda p.root = a :: rest) (new : w'.agenda p.root = kids ++ rest)
    (sorted : kids.Pairwise Before) (below : ∀ k ∈ kids, a <+: k)
    (covers : ∀ s ∈ p.accepted fs, a <+: s → ∃ k ∈ kids, k <+: s) : w'.Tally p fs earlier done := by
  have ordered : (done ++ w'.agenda p.root).Pairwise Before :=
    new ▸ pairwise_before_replace (old ▸ h.ordered) sorted below
  have covered : ∀ s ∈ p.accepted fs, s ∈ done ∨ ∃ a ∈ w'.agenda p.root, a <+: s := by
    intro s hs
    refine (h.covered (fun _ => awake _) s hs).imp_right ?_
    rintro ⟨b, hb, pre⟩
    rw [old] at hb
    rcases List.mem_cons.mp hb with rfl | later
    · obtain ⟨k, hk, pre⟩ := covers s hs pre
      exact ⟨k, by simp [new, hk], pre⟩
    · exact ⟨b, by simp [new, later], pre⟩
  exact ⟨h.sound, put ▸ h.entries, ordered, fun _ => covered,
    Tally.settled_of_covered ordered covered⟩

theorem Tally.drop (h : w.Tally p fs earlier done) (awake : ∀ o, w.phase ≠ .ended o)
    (put : w'.put = w.put) {a : List String} (old : w.agenda p.root = a :: w'.agenda p.root)
    (nothing : ∀ s, p.Accepts fs s → a <+: s → ∀ e, p.make (p.root.below s) ≠ .ok e) :
    w'.Tally p fs earlier done := by
  have same : w'.agenda p.root = [] ++ w'.agenda p.root := rfl
  refine h.replace awake put old same .nil nofun fun s hs pre => ?_
  obtain ⟨accepts, e, made⟩ := Plan.mem_accepted.mp hs
  exact absurd made (nothing s accepts pre e)

theorem Tally.keep (h : w.Tally p fs earlier done) (awake : ∀ o, w.phase ≠ .ended o)
    (put : w'.put = w.put) (agenda : w'.agenda p.root = w.agenda p.root) :
    w'.Tally p fs earlier done where
  sound := h.sound
  entries := put ▸ h.entries
  ordered := agenda ▸ h.ordered
  covered _ := agenda ▸ h.covered fun _ => awake _
  settled := h.settled

theorem Tally.stop (h : w.Tally p fs earlier done) (put : w'.put = w.put) (stack : w'.stack = [])
    {f : Failure} (phase : w'.phase = .ended (.error f)) : w'.Tally p fs earlier done where
  sound := h.sound
  entries := put ▸ h.entries
  ordered := by
    have none : w'.agenda p.root = [] := by simp [agenda, phase, stack, Phase.agenda]
    rw [none, List.append_nil]
    exact (List.pairwise_append.mp h.ordered).1
  covered awake := absurd phase (awake f)
  settled := h.settled

theorem Trouble.put {f : Failure} (h : Trouble p t w c w' f) : w'.put = w.put := by
  cases h with
  | cancelled _ _ | rootStatus _ _ | status _ _ _ | listing _ _ _ | refused _ _ | latched _ _ => rfl
  | excluding _ _ _ | sorting _ _ _ _ | including _ _ _ _ _ => exact sight_put _ _ _ _
  | excludingRoot _ _ _ | includingRoot _ _ _ _ => exact sightRoot_put _ _

theorem Tally.entered (wf : fs.WellFormed) (reads : p.probe.Reads fs) (fits : w.Fits p fs)
    (h : w.Tally p fs earlier done) {path : Path} {relative : List String} {depth : Nat}
    {key : Option Place} {ancestors : List Place} {entries : List Entry}
    (phase : w.phase = .opening path relative depth) (listed : p.probe.list path = .ok entries) :
    (w.pushed ⟨path, relative, depth, entries, key⟩ ancestors).Tally p fs earlier done := by
  obtain ⟨rfl, -, opens⟩ := fits.opens phase
  obtain ⟨here, es, found, directory, rfl⟩ := FileSystem.list_ok (reads.list listed)
  have place := opens.place_eq wf fits.frames found
  have old : w.agenda p.root = relative :: w.stack.flatMap Frame.agenda := by
    simp [agenda, phase, Phase.agenda]
  let f : Frame := ⟨p.root.below relative, relative, depth, FileSystem.entriesOf es, key⟩
  have new : (w.pushed f ancestors).agenda p.root = f.agenda ++ w.stack.flatMap Frame.agenda := by
    simp [agenda, Phase.agenda]
  refine h.replace (by simp [phase]) (pushed_put _ _ _) old new ?_ ?_ ?_
  · refine (FileSystem.entriesOf_sorted (wf.distinct directory)).map _ ?_
    exact fun _ _ less => before_snoc less
  · simp [f, Frame.agenda]
  · intro s hs pre
    have accepts := (Plan.mem_accepted.mp hs).1
    obtain ⟨rest, rfl⟩ := pre
    cases rest with
    | nil => exact absurd (List.append_nil _).symm (accepts.ne_of_directory opens.directory)
    | cons name rest =>
        obtain ⟨q, -, leads, -⟩ := accepts.file
        obtain ⟨here', es', n, place', directory', found'⟩ := Plan.placeOf_below leads
        cases place.symm.trans place'
        cases directory.symm.trans directory'
        have member : (⟨name, n.kind⟩ : Entry) ∈ FileSystem.entriesOf es :=
          FileSystem.mem_entriesOf.mpr ⟨n, Node.mem_of_entryOf found', rfl⟩
        exact ⟨relative ++ [name], List.mem_map.mpr ⟨_, member, rfl⟩, ⟨rest, by simp⟩⟩

/-- A directory that is its own ancestor holds no accepted file by this way. -/
theorem Tally.looped (wf : fs.WellFormed) (reads : p.probe.Reads fs) (fits : w.Fits p fs)
    (h : w.Tally p fs earlier done) {path : Path} {relative : List String} {depth : Nat}
    {s : Status} (phase : w.phase = .opening path relative depth)
    (follows : p.filters.followLinks = true) (known : p.probe.status path = .ok s)
    (again : s.identity ∈ w.ancestors) (put : w'.put = w.put)
    (agenda' : w'.agenda p.root = w.stack.flatMap Frame.agenda) : w'.Tally p fs earlier done := by
  have awake : ∀ o, w.phase ≠ .ended o := by simp [phase]
  obtain ⟨rfl, -, opens⟩ := fits.opens phase
  obtain ⟨found, -⟩ := FileSystem.status_ok (reads.status known)
  have place := opens.place_eq wf fits.frames found
  refine h.drop awake put (a := relative) (by rw [agenda']; simp [agenda, phase, Phase.agenda]) ?_
  intro file accepts pre _ _
  have proper := accepts.ne_of_directory opens.directory
  rw [fits.ancestors awake] at again
  rcases opens.above with ⟨-, empty⟩ | ⟨f, rest, name, top, eq, -, -⟩
  · simp [empty] at again
  · rw [top] at again
    have frames : ∀ g ∈ f :: rest, g.Fits p fs := fun g hg => fits.frames g (top ▸ hg)
    obtain ⟨u, hu, place'⟩ := (mem_keys_iff follows frames (top ▸ fits.nested)).mp again
    have within : u <+: relative := hu.trans ⟨[name], eq.symm⟩
    have higher : u ≠ relative := eq ▸ Plan.prefix_ne_snoc hu
    have above : u ≠ file := by
      rintro rfl
      exact higher (within.eq_of_length_le pre.length_le)
    exact higher (accepts.loopFree follows u relative (within.trans pre) above pre proper
      (place'.trans place.symm))

theorem Tally.dropped (wf : fs.WellFormed) (reads : p.probe.Reads fs) (fits : w.Fits p fs)
    (h : w.Tally p fs earlier done) {directory : Path} {e : Entry} {relative : List String}
    {depth : Nat} (phase : w.phase = .visiting directory e relative depth)
    (dropped : Dropped p w directory e relative depth w') : w'.Tally p fs earlier done := by
  have visits := fits.visits wf reads phase
  have nonempty : relative ≠ [] := by
    obtain ⟨f, rest, -, eq, -⟩ := visits.shape
    simp [eq]
  have rest : w.agenda p.root = relative :: w'.agenda p.root := by
    simp [agenda, phase, dropped.phase, dropped.stack, Phase.agenda]
  refine h.drop (by simp [phase]) dropped.put rest fun s accepts pre _ _ => ?_
  cases dropped with
  | excluded out =>
      rw [visits.excludes, accepts.kept_above pre nonempty] at out
      cases out
  | tooDeep _ isDirectory deep =>
      have proper := accepts.ne_of_directory ((visits.kind isDirectory).mp rfl)
      have shallow := accepts.shallow_above pre proper nonempty
      rw [← visits.depth] at shallow
      exact absurd shallow (by simpa using deep)
  | unwanted _ isFile out =>
      cases accepts.eq_of_file pre ((visits.kind isFile).mp rfl)
      rw [visits.includes, accepts.wanted] at out
      cases out
  | neither _ known notDirectory notFile =>
      cases accepts.names_above pre with
      | inl file => exact notFile ((visits.kind known).mpr file)
      | inr directory => exact notDirectory ((visits.kind known).mpr directory)

theorem Tally.enqueued (h : w.Tally p fs earlier done) (awake : ∀ o, w.phase ≠ .ended o)
    {s : List String} {e : ε} (accepts : p.Accepts fs s) (made : p.make (p.root.below s) = .ok e)
    (old : w.agenda p.root = s :: w'.agenda p.root) (put : w'.put = w.put ++ [e]) :
    w'.Tally p fs earlier (done ++ [s]) := by
  have ordered : ((done ++ [s]) ++ w'.agenda p.root).Pairwise Before := by
    simpa [old] using h.ordered
  have covered : ∀ s' ∈ p.accepted fs, s' ∈ done ++ [s] ∨ ∃ a ∈ w'.agenda p.root, a <+: s' := by
    intro s' hs
    rcases h.covered (fun _ => awake _) s' hs with before | ⟨a, ha, pre⟩
    · exact Or.inl (List.mem_append_left _ before)
    · rw [old] at ha
      rcases List.mem_cons.mp ha with rfl | later
      · have same := (Plan.mem_accepted.mp hs).1.eq_of_file pre accepts.file
        exact Or.inl (by simp [same])
      · exact Or.inr ⟨a, later, pre⟩
  refine ⟨fun s' hs => ?_, ?_, ordered, fun _ => covered, Tally.settled_of_covered ordered covered⟩
  · cases List.mem_append.mp hs with
    | inl before => exact h.sound s' before
    | inr last => exact List.mem_singleton.mp last ▸ accepts
  · obtain ⟨new, eq, entries⟩ := h.entries
    refine ⟨new ++ [e], ?_, List.rel_append entries (.cons made .nil)⟩
    rw [put, eq, List.append_assoc]

theorem agenda_of_path {s : List String}
    (phase : w.phase.agenda p.root = [(p.root.below s).names.drop p.root.names.length]) :
    w.agenda p.root = s :: w.stack.flatMap Frame.agenda := by
  rw [agenda, phase, Path.drop_below, List.singleton_append]

/-- Every step keeps the account; what has been done only grows. -/
theorem Tally.advance (wf : fs.WellFormed) (reads : p.probe.Reads fs) (fits : w.Fits p fs)
    (h : w.Tally p fs earlier done) {r : Walk ε × Channel ε} (a : Advance p t w c r) :
    ∃ new, r.1.Tally p fs earlier (done ++ new) := by
  have known := fits.phase
  have same : r.1.Tally p fs earlier done → ∃ new, r.1.Tally p fs earlier (done ++ new) :=
    fun kept => ⟨[], by simpa using kept⟩
  -- only a put adds to what has been done; an outcome that drops its path must show it worthless
  cases a with
  | fails trouble =>
      obtain ⟨g, ended⟩ := fail_phase _ p _
      exact same (h.stop (by simp [trouble.put]) (fail_stack _ _ _) ended)
  | begins ph | rootDirectory ph _ _ | rootFile ph _ _ =>
      exact same (h.keep (by simp [ph]) (by simp) (by simp [agenda, ph, Phase.agenda]))
  | rootOther ph status notDirectory notFile =>
      refine same (h.drop (a := []) (by simp [ph]) (by simp) ?_ fun s accepts _ _ _ => ?_)
      · rw [ph] at known
        simp [agenda, ph, Phase.agenda, show w.stack = [] from known]
      · cases accepts.names_above List.nil_prefix with
        | inl file => exact notFile ((names_root reads status).unique file)
        | inr directory => exact notDirectory ((names_root reads status).unique directory)
  | loops ph follows status again =>
      refine same (h.looped wf reads fits ph follows status again (by simp; rfl) ?_)
      simp [agenda, Phase.agenda]
  | enters ph keyed listed => exact same (h.entered wf reads fits ph listed)
  | completes ph empty =>
      exact same (h.keep (by simp [ph]) (by simp) (by simp [agenda, ph, empty, Phase.agenda]))
  | leaves ph top used =>
      refine same (h.keep (by simp [ph]) rfl ?_)
      simp [agenda, ph, top, Phase.agenda, Frame.agenda, used]
  | takes ph top some =>
      refine same (h.keep (by simp [ph]) (by simp; rfl) ?_)
      simp [agenda, ph, top, Phase.agenda, Frame.agenda, some]
  | drops ph free dropped => exact same (h.dropped wf reads fits ph dropped)
  | descends ph free kept isDirectory shallow =>
      exact same (h.keep (by simp [ph]) (by simp) (by simp [agenda, ph, Phase.agenda]))
  | accepts ph free kept isFile wanted =>
      have visits := fits.visits wf reads ph
      refine same (h.keep (by simp [ph]) (by simp) ?_)
      simp [agenda, ph, Phase.agenda, visits.path, Path.drop_below]
  | dropsRoot ph free out =>
      rw [ph] at known
      have old : w.agenda p.root = [] :: ((w.sightRoot p).skip).agenda p.root := by
        simp [agenda, ph, Phase.agenda]
      refine same (h.drop (by simp [ph]) (by simp) old ?_)
      intro s accepts pre _ _
      cases accepts.eq_of_file pre known.2
      rcases out with out | ⟨-, out⟩
      · have kept := accepts.kept
        simp [Plan.excludes, Plan.relativeForm, out] at kept
      · have wanted := accepts.wanted
        simp [Plan.includes, Plan.relativeForm, out] at wanted
  | acceptsRoot ph free kept wanted =>
      exact same (h.keep (by simp [ph]) (by simp) (by simp [agenda, ph, Phase.agenda]))
  | unmade ph answer =>
      rw [ph] at known
      obtain ⟨s, rfl, accepts⟩ := known
      have old := agenda_of_path (p := p) (w := w) (s := s) (by rw [ph, Phase.agenda])
      refine same (h.drop (a := s) (by simp [ph]) (by simp; exact asked_put _ _) ?_ ?_)
      · simpa [agenda, Phase.agenda] using old
      · intro s' accepts' pre e made
        cases accepts'.eq_of_file pre accepts.file
        cases answer.symm.trans made
  | makes ph made =>
      exact same (h.keep (by simp [ph]) (by simp [happen_put]) (by simp [agenda, ph, Phase.agenda]))
  | tries ph _ =>
      exact same (h.keep (by simp [ph]) (by simp) (by simp [agenda, ph, Phase.agenda]))
  | turnedAway ph _ _ =>
      exact same (h.keep (by simp [ph]) (by simp [happen_put]) (by simp [agenda, ph, Phase.agenda]))
  | puts ph _ _ =>
      rw [ph] at known
      obtain ⟨s, rfl, accepts, made⟩ := known
      have old := agenda_of_path (p := p) (w := w) (s := s) (by rw [ph, Phase.agenda])
      refine ⟨[s], h.enqueued (by simp [ph]) accepts made ?_ (by simp; rfl)⟩
      simpa [agenda, Phase.agenda] using old
  | counts ph | signals ph _ =>
      exact same (h.keep (by simp [ph]) (by simp [happen_put]) (by simp [agenda, ph, Phase.agenda]))
  | notifies ph =>
      exact same (h.keep (by simp [ph]) (by simp) (by simp [agenda, ph, Phase.agenda]))
  | rests ph => exact same h

theorem Ready.tally (ready : w.Ready) : w.Tally p fs w.put [] := by
  have whole : w.agenda p.root = [[]] := by
    simp [agenda, ready.idle, ready.stack, Phase.agenda]
  constructor
  · exact fun _ hs => nomatch hs
  · exact ⟨[], (List.append_nil _).symm, .nil⟩
  · rw [whole]
    exact List.pairwise_singleton _ _
  · intro _ s _
    exact Or.inr ⟨[], by simp [whole], List.nil_prefix⟩
  · exact fun _ _ => Or.inr fun _ hx => nomatch hx

/-- What has been put on the queue is the beginning of what is accepted. -/
theorem Tally.prefix_accepted (h : w.Tally p fs earlier done) : done <+: p.accepted fs := by
  have sorted : done.Pairwise (· < ·) := (List.pairwise_append.mp h.ordered).1.imp Before.lt
  apply prefix_of_settled sorted (p.accepted_sorted fs)
  · intro s hs
    obtain ⟨new, -, makes⟩ := h.entries
    obtain ⟨e, -, made⟩ := makes.exists_of_mem hs
    exact Plan.mem_accepted.mpr ⟨h.sound s hs, e, made⟩
  · intro s hs
    exact (h.settled s hs).imp_right fun before x hx => (before x hx).lt

/-- A walk that has come to a good end has put everything that is accepted. -/
theorem Tally.eq_accepted (h : w.Tally p fs earlier done) (nothing : w.agenda p.root = [])
    (well : ∀ f, w.phase ≠ .ended (.error f)) : done = p.accepted fs := by
  apply h.prefix_accepted.eq_of_length_le
  have all : p.accepted fs ⊆ done := by
    intro s hs
    rcases h.covered well s hs with before | ⟨a, ha, -⟩
    · exact before
    · rw [nothing] at ha
      cases ha
  have distinct : (p.accepted fs).Nodup := (p.accepted_sorted fs).imp ne_of_lt
  exact (distinct.subperm all).length_le

end Walk
end FileCensus
