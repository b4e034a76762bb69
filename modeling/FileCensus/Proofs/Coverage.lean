import FileCensus.Proofs.Termination
import Mathlib

/-!
An undisturbed walk puts exactly the accepted files on the queue, in the order of their names. While
links are followed, a directory that is its own ancestor is passed over; no file is lost by this,
for a way through such a directory can be cut short. The cut needs filters that look at names only:
a glob may tell the long way from the short one.
-/

namespace FileCensus
namespace Walk

variable {ε : Type} {p : Plan ε} {fs : FileSystem} {t : Token} {w w' : Walk ε} {c : Channel ε}
  {r : Course ε}

/-- No question to the system fails, no matcher does, the token is not cancelled, neither the queue
nor the latch refuses an entry, and each put comes to an end. -/
structure Undisturbed (p : Plan ε) (r : Course ε) (w : Walk ε) : Prop where
  calm : ∀ n w' f, ¬ Trouble p (r.token n) (w.after p r n) (r.channel n) w' f
  putsEnd : ∀ n, ∃ m, n ≤ m ∧ puts (w.after p r m).phase = false

theorem Advance.of_ended {o : Outcome} {s : Walk ε × Channel ε} (a : Advance p t w c s)
    (h : s.1.phase = .ended o) :
    w.phase = .ended o ∨ o = .ok p.root ∨ ∃ w' f, Trouble p t w c w' f := by
  cases a with
  | fails trouble => exact Or.inr (Or.inr ⟨_, _, trouble⟩)
  | rootOther _ _ _ _ | completes _ _ =>
      rw [complete_phase, Phase.ended.injEq] at h
      exact Or.inr (Or.inl h.symm)
  | rests _ => exact Or.inl h
  | leaves turning _ _ => simp [turning] at h
  | drops _ _ dropped => simp [dropped.phase] at h
  | _ => simp at h

/-- An undisturbed walk can only end with the root that it was given. -/
theorem Undisturbed.outcome (calm : Undisturbed p r w) (awake : ∀ o, w.phase ≠ .ended o) (n : Nat)
    {o : Outcome} (h : (w.after p r n).phase = .ended o) : o = .ok p.root := by
  induction n with
  | zero => exact absurd h (awake o)
  | succ n ih =>
      rcases (step_advances p (r.token n) (w.after p r n) (r.channel n)).of_ended h with
        before | completed | ⟨w', f, trouble⟩
      · exact ih before
      · exact completed
      · exact absurd trouble (calm.calm n w' f)

theorem answered {α : Type} {x : Except Failure α} (h : ∀ f, x ≠ .error f) : ∃ a, x = .ok a := by
  cases x with
  | error f => exact absurd rfl (h f)
  | ok a => exact ⟨a, rfl⟩

theorem Undisturbed.root_known (calm : Undisturbed p r w) (idle : w.phase = .idle) :
    ∃ s, p.probe.status p.root = .ok s := by
  have examining : (w.after p r 1).phase = .examining := by
    simp only [after, step, idle, begin_phase]
  exact answered fun f answer => calm.calm 1 _ f (.rootStatus examining answer)

theorem Trouble.awake {f : Failure} (h : Trouble p t w c w' f) (o : Outcome) :
    w.phase ≠ .ended o := by
  intro ended
  cases h with
  | cancelled look _ => simp [ended, looks] at look
  | rootStatus phase _ | status phase _ _ | listing phase _ _ | excluding phase _ _
  | sorting phase _ _ _ | including phase _ _ _ _ | excludingRoot phase _ _
  | includingRoot phase _ _ _ | refused phase _ | latched phase _ => simp [ended] at phase

/-- What makes a walk fail does make it fail. -/
theorem Trouble.step {f : Failure} (h : Trouble p t w c w' f) :
    w.step p t c = (w'.fail p f, c) := by
  cases h with
  | cancelled look answer =>
      cases phase : w.phase <;> simp [phase, looks] at look <;>
        simp [Walk.step, phase, unlessCancelled, answer]
  | rootStatus phase answer => simp [Walk.step, phase, examine, answer]
  | status phase follows answer => simp [Walk.step, phase, open_, follows, answer]
  | @listing path relative depth _ _ _ phase keyed answer =>
      have opens : w.step p t c = (w.open_ p path relative depth, c) := by
        simp only [Walk.step, phase]
      rw [opens]
      cases keyed with
      | unfollowed off => simp [open_, off, enter, answer]
      | fresh follows known new => simp [open_, follows, known, new, enter, answer]
  | excluding phase free answer =>
      simp [Walk.step, phase, unlessCancelled, free, visit, answer, sight]
  | sorting phase free kept answer =>
      simp [Walk.step, phase, unlessCancelled, free, visit, kept, judgeKind, answer, sight]
  | including phase free kept isFile answer =>
      simp [Walk.step, phase, unlessCancelled, free, visit, kept, judgeKind, isFile, answer, sight]
  | excludingRoot phase free answer =>
      simp [Walk.step, phase, unlessCancelled, free, judgeRoot, answer, sightRoot]
  | includingRoot phase free kept answer =>
      simp [Walk.step, phase, unlessCancelled, free, judgeRoot, kept, answer, sightRoot]
  | refused phase answer => simp [Walk.step, phase, offer, answer]
  | latched phase answer => simp [Walk.step, phase, signal, answer]

/-- A walk that comes to a good end was not disturbed. -/
theorem undisturbed_of_completed {n : Nat} {path : Path}
    (h : (w.after p r n).phase = .ended (.ok path)) : Undisturbed p r w where
  calm m w' f trouble := by
    by_cases le : n ≤ m
    · exact trouble.awake (.ok path) (by rw [after_of_ended h le, h])
    · obtain ⟨g, failed⟩ := fail_phase w' p f
      have next : (w.after p r (m + 1)).phase = .ended (.error g) := by
        simp only [after, trouble.step, failed]
      rw [after_of_ended next (by omega), next] at h
      cases h
  putsEnd m := by
    refine ⟨max n m, Nat.le_max_right n m, ?_⟩
    rw [after_of_ended h (Nat.le_max_left n m), h]
    rfl

/-- A walk that has come to a good end was not disturbed, and it stays as it is. -/
theorem settled_of_outcome {n : Nat} (h : (w.after p r n).outcome?.any (·.isOk) = true) :
    Undisturbed p r w ∧ ∀ m, n ≤ m → w.after p r m = w.after p r n := by
  cases phase : (w.after p r n).phase with
  | ended o =>
      cases o with
      | ok path => exact ⟨undisturbed_of_completed phase, fun m le => after_of_ended phase le⟩
      | error f => simp [outcome?, phase, Except.isOk, Except.toBool] at h
  | _ => simp [outcome?, phase] at h

/-- The probe of `loopPlan`, with the answers that a walk asks for written out. -/
def loopProbe : Probe :=
    { loopPlan.probe with
      status := fun p =>
        if p = ⟨.here, ["loop"]⟩ then .ok ⟨.directory, 4096, 0, []⟩ else loopPlan.probe.status p
      list := fun p =>
        if p = ⟨.here, []⟩ then .ok [⟨"a", .file⟩, ⟨"loop", .link⟩] else loopPlan.probe.list p
      kindOf := fun p e =>
        if p = ⟨.here, []⟩ ∧ e = ⟨"loop", .link⟩ then .ok (some .directory)
        else loopPlan.probe.kindOf p e }

theorem loopProbe_eq : loopProbe = loopPlan.probe := by
  have status : loopTree.status true ⟨.here, ["loop"]⟩ = .ok ⟨.directory, 4096, 0, []⟩ := by cbv
  have list : loopTree.list ⟨.here, []⟩ = .ok [⟨"a", .file⟩, ⟨"loop", .link⟩] := by cbv
  have kind : loopTree.kindOf ⟨.here, []⟩ ⟨"loop", .link⟩ = .ok (some .directory) := by cbv
  show loopProbe =
    ⟨loopPlan.probe.status, loopPlan.probe.list, loopPlan.probe.kindOf, loopPlan.probe.attributes⟩
  rw [loopProbe, Probe.mk.injEq]
  refine ⟨?_, ?_, ?_, rfl⟩
  · funext p
    by_cases link : p = ⟨.here, ["loop"]⟩ <;>
      simp [link, loopPlan, FileSystem.probe, status, Except.mapError]
  · funext p
    by_cases root : p = ⟨.here, []⟩ <;>
      simp [root, loopPlan, FileSystem.probe, list, Except.mapError]
  · funext p e
    by_cases entry : p = ⟨.here, []⟩ ∧ e = ⟨"loop", .link⟩ <;>
      simp [entry, loopPlan, FileSystem.probe, kind]

theorem loop_undisturbed : Undisturbed loopPlan quietCourse (fresh loopPlan.root) := by
  have ends : ((fresh loopPlan.root).after { loopPlan with probe := loopProbe }
      quietCourse 16).outcome?.any (·.isOk) = true := by
    decide +kernel
  rw [loopProbe_eq] at ends
  exact (settled_of_outcome ends).1

theorem tally_after (wf : fs.WellFormed) (reads : p.probe.Reads fs) (fits : w.Fits p fs)
    {earlier : List ε} {done : List (List String)} (h : w.Tally p fs earlier done) (r : Course ε)
    (n : Nat) : ∃ more, (w.after p r n).Tally p fs earlier (done ++ more) := by
  induction n with
  | zero => exact ⟨[], by rwa [List.append_nil]⟩
  | succ n ih =>
      obtain ⟨more, tally⟩ := ih
      obtain ⟨new, tally⟩ := tally.advance wf reads (fits_after wf reads fits r n)
        (step_advances p (r.token n) (w.after p r n) (r.channel n))
      exact ⟨more ++ new, by rwa [← List.append_assoc]⟩

/-- An undisturbed walk comes to a good end, and by then it has put what is accepted. -/
theorem ends_with_accepted (wf : fs.WellFormed) (reads : p.probe.Reads fs) (ready : w.Ready)
    (calm : Undisturbed p r w) :
    ∃ n es, p.Makes (p.accepted fs) es ∧
      ∀ m, n ≤ m → (w.after p r m).phase = .ended (.ok p.root) ∧
        (w.after p r m).put = w.put ++ es := by
  obtain ⟨n, o, ended⟩ := ends wf reads ready.fits r calm.putsEnd
  have good : o = .ok p.root := calm.outcome ready.awake n ended
  subst good
  obtain ⟨done, tally⟩ := tally_after wf reads ready.fits ready.tally r n
  rw [List.nil_append] at tally
  have empty := (fits_after wf reads ready.fits r n).phase
  rw [ended] at empty
  have nothing : (w.after p r n).agenda p.root = [] := by
    simp [agenda, ended, Phase.agenda, show _ = [] from empty]
  have all := tally.eq_accepted nothing (by simp [ended])
  obtain ⟨es, put, makes⟩ := tally.entries
  refine ⟨n, es, all ▸ makes, fun m le => ?_⟩
  rw [after_of_ended ended le]
  exact ⟨ended, put⟩

/-- The walk over a whole tree meets its specification: once it has ended, the queue has been given
one entry for each accepted file, in the order of the relative paths. A root that is a file is
covered as well; then the only relative path is the empty one. -/
theorem puts_exactly_accepted (wf : fs.WellFormed) (reads : p.probe.Reads fs) (ready : w.Ready)
    (calm : Undisturbed p r w) :
    (p.accepted fs).Pairwise (· < ·) ∧
      (∀ s, s ∈ p.accepted fs ↔ p.Accepts fs s ∧ ∃ e, p.make (p.root.below s) = .ok e) ∧
      ∃ n es, p.Makes (p.accepted fs) es ∧
        ∀ m, n ≤ m → (w.after p r m).phase = .ended (.ok p.root) ∧
          (w.after p r m).put = w.put ++ es :=
  ⟨p.accepted_sorted fs, fun _ => Plan.mem_accepted, ends_with_accepted wf reads ready calm⟩

theorem loop_puts_exactly_accepted :
    loopTree.WellFormed ∧ loopPlan.probe.Reads loopTree ∧
      (fresh loopPlan.root : Walk String).Ready ∧
      Undisturbed loopPlan quietCourse (fresh loopPlan.root) ∧
      ∃ n es, loopPlan.Makes (loopPlan.accepted loopTree) es ∧ ∀ m, n ≤ m →
        ((fresh loopPlan.root).after loopPlan quietCourse m).phase = .ended (.ok loopPlan.root) ∧
        ((fresh loopPlan.root).after loopPlan quietCourse m).put = es :=
  have ready := ready_fresh loopPlan.root
  ⟨loopTree_wellFormed, loopPlan_reads, ready, loop_undisturbed,
    (puts_exactly_accepted loopTree_wellFormed loopPlan_reads ready loop_undisturbed).2.2⟩

end Walk

/-- A matcher that looks at nothing but the name of an entry. -/
def Matcher.LooksAtName (query : AttributeQuery) (m : Matcher) : Prop :=
    ∀ a b : Path, a.name = b.name → ∀ x y, m.accepts query a x = m.accepts query b y

/-- Hidden files and those of operating systems are known by their names. -/
theorem Matcher.looksAtName_of_eq (query : AttributeQuery) {m : Matcher}
    (h : m = .hidden ∨ m = .system) : m.LooksAtName query := by
  intro a b same x y
  rcases h with rfl | rfl
  · simp only [accepts, isHidden, same]
  · simp only [accepts, isSystem, same]

theorem FilterSet.isExcluded_of_name {f : FilterSet} {query : AttributeQuery}
    (h : ∀ m ∈ f.exclude, m.LooksAtName query) {a b : Path} (same : a.name = b.name)
    (x y : String) : f.isExcluded query a x = f.isExcluded query b y := by
  simp only [isExcluded]
  generalize f.exclude = ms at h
  induction ms with
  | nil => rfl
  | cons m ms ih =>
      have first := h m (List.mem_cons_self ..) a b same x y
      have rest := ih fun m' hm => h m' (List.mem_cons_of_mem m hm)
      simp only [Matcher.anyAccepts, first, rest]

namespace Plan

variable {ε : Type} {p : Plan ε} {fs : FileSystem} {s t u rest : List String} {q : Place}

theorem excludes_of_last (byName : ∀ m ∈ p.filters.exclude, m.LooksAtName p.probe.attributes)
    (t u : List String) (name : String) : p.excludes (t ++ [name]) = p.excludes (u ++ [name]) := by
  rw [excludes_snoc, excludes_snoc]
  exact FilterSet.isExcluded_of_name byName (by simp [Path.name, Path.child]) _ _

/-- A chain of names that no filter stops, though it may go through a directory more than once. -/
structure Reaches (p : Plan ε) (fs : FileSystem) (s : List String) (q : Place) : Prop where
  nonempty : s ≠ []
  place : p.placeOf fs s = some q
  kept : ∀ t, t <+: s → t ≠ [] → p.excludes t = .ok false
  shallow : p.filters.allowsDepth ((s.length : Int) - 1) = true

/-- The names between two visits of one directory can be left out. -/
theorem Reaches.cut (byName : ∀ m ∈ p.filters.exclude, m.LooksAtName p.probe.attributes)
    (h : p.Reaches fs (u ++ rest) q) (pre : t <+: u) (more : rest ≠ [])
    (same : p.placeOf fs t = p.placeOf fs u) : p.Reaches fs (t ++ rest) q where
  nonempty := List.append_ne_nil_of_right_ne_nil t more
  place := by rw [placeOf_append, same, ← placeOf_append, h.place]
  kept v hv ne := by
    cases List.prefix_or_prefix_of_prefix hv (List.prefix_append t rest) with
    | inl within => exact h.kept v ((within.trans pre).trans (List.prefix_append u rest)) ne
    | inr beyond =>
        obtain ⟨v, rfl⟩ := beyond
        rw [List.prefix_append_right_inj] at hv
        rcases List.eq_nil_or_concat' v with rfl | ⟨v, name, rfl⟩
        · rw [List.append_nil] at ne ⊢
          exact h.kept t (pre.trans (List.prefix_append u rest)) ne
        · have within := (List.prefix_append_right_inj u).mpr hv
          have long := h.kept (u ++ (v ++ [name])) within (by simp)
          rw [← List.append_assoc] at long ⊢
          rwa [excludes_of_last byName _ (u ++ v)]
  shallow := by
    have shorter := pre.length_le
    refine allowsDepth_mono ?_ h.shallow
    simp only [List.length_append, Nat.cast_add]
    omega

/-- Whatever is reached is reached without going through a directory twice. -/
theorem Reaches.exists_loopFree
    (byName : ∀ m ∈ p.filters.exclude, m.LooksAtName p.probe.attributes)
    (h : p.Reaches fs s q) :
    ∃ s', p.Reaches fs s' q ∧ p.LoopFree fs s' := by
  induction size : s.length using Nat.strong_induction_on generalizing s with
  | _ k ih =>
      by_cases simple : p.LoopFree fs s
      · exact ⟨s, h, simple⟩
      · simp only [LoopFree] at simple
        push Not at simple
        obtain ⟨t, u, ht, t', hu, u', same, different⟩ := simple
        -- of the two visits the later one is left out
        wlog pre : t <+: u generalizing t u
        · exact this u t hu u' ht t' same.symm different.symm
            ((List.prefix_or_prefix_of_prefix ht hu).resolve_left pre)
        obtain ⟨rest, rfl⟩ := hu
        have more : rest ≠ [] := by
          rintro rfl
          exact u' (List.append_nil u).symm
        have shorter : t.length < u.length :=
          lt_of_le_of_ne pre.length_le fun eq => different (pre.eq_of_length eq)
        exact ih (t ++ rest).length (by simp [← size, shorter]) (h.cut byName pre more same) rfl

theorem Reaches.accepts (everything : p.filters.include_ = []) (h : p.Reaches fs s q)
    (simple : p.LoopFree fs s) {data : FileData} (file : fs.at? q = some (.file data)) :
    p.Accepts fs s := by
  have named : p.Names fs s .file := ⟨q, .file data, h.place, file, rfl⟩
  constructor
  · intro t pre ne proper
    exact ⟨names_directory_of_below named pre proper, h.kept t pre ne⟩
  · exact named
  · exact h.kept s (List.prefix_refl s) h.nonempty
  · simp [includes, FilterSet.isIncluded, everything]
  · exact Or.inr h.shallow
  · intro _
    exact simple

end Plan

namespace Walk

variable {ε : Type} {p : Plan ε} {fs : FileSystem} {w : Walk ε} {r : Course ε}

/-- Passing over a directory that is its own ancestor loses no file: however a file is reached, an
entry for it is put on the queue under some path that leads to it. -/
theorem loops_lose_no_file (wf : fs.WellFormed) (reads : p.probe.Reads fs)
    (everything : p.filters.include_ = [])
    (byName : ∀ m ∈ p.filters.exclude, m.LooksAtName p.probe.attributes)
    (makes : ∀ path, ∃ e, p.make path = .ok e) (ready : w.Ready) (calm : Undisturbed p r w)
    {s : List String} {q : Place} {data : FileData} (file : fs.at? q = some (.file data))
    (reached : p.Reaches fs s q) :
    ∃ s' e, p.placeOf fs s' = some q ∧ p.make (p.root.below s') = .ok e ∧
      ∃ n es, e ∈ es ∧ ∀ m, n ≤ m → (w.after p r m).put = w.put ++ es := by
  obtain ⟨s', reached', simple⟩ := reached.exists_loopFree byName
  have accepts := reached'.accepts everything simple file
  have member : s' ∈ p.accepted fs := Plan.mem_accepted.mpr ⟨accepts, makes _⟩
  obtain ⟨n, es, all, ends⟩ := ends_with_accepted wf reads ready calm
  obtain ⟨e, put, made⟩ := all.exists_of_mem member
  exact ⟨s', e, reached'.place, made, n, es, put, fun m le => (ends m le).2⟩

theorem loop_reaches : loopPlan.Reaches loopTree ["loop", "loop", "a"] ["a"] where
  nonempty := nofun
  place := by
    have root : loopTree.find true ⟨.here, []⟩ = .ok [] := by cbv
    have back : loopTree.next true [] "loop" = some [] := by cbv
    have file : loopTree.next true [] "a" = some ["a"] := by cbv
    simp [Plan.placeOf, loopPlan, root, Except.toOption, FileSystem.trail, back, file]
  kept t pre ne := by
    have options := (List.mem_inits t _).mpr pre
    simp only [List.inits, List.map, List.mem_cons, List.not_mem_nil, or_false] at options
    rcases options with rfl | rfl | rfl | rfl
    · exact absurd rfl ne
    · decide +kernel
    · decide +kernel
    · decide +kernel
  shallow := rfl

theorem loop_loses_no_file :
    loopPlan.filters.followLinks = true ∧ loopPlan.Reaches loopTree ["loop", "loop", "a"] ["a"] ∧
      ∃ s' e, loopPlan.placeOf loopTree s' = some ["a"] ∧
        loopPlan.make (loopPlan.root.below s') = .ok e ∧
        ∃ n es, e ∈ es ∧
          ∀ m, n ≤ m → ((fresh loopPlan.root).after loopPlan quietCourse m).put = es := by
  refine ⟨rfl, loop_reaches, ?_⟩
  have file : loopTree.at? ["a"] = some (.file ⟨0, [], 0⟩) := rfl
  refine loops_lose_no_file loopTree_wellFormed loopPlan_reads rfl ?_ ?_
    (ready_fresh loopPlan.root) loop_undisturbed file loop_reaches
  · intro m hm
    exact Matcher.looksAtName_of_eq _ (Or.inl (List.mem_singleton.mp hm))
  · intro path
    exact ⟨path.text, rfl⟩

end Walk
end FileCensus
