import FileCensus.Proofs.Likeness
import FileCensus.Proofs.Solitude
import FileCensus.Proofs.Spelling

/-!
A root under different spellings. Whatever text leads to a directory, a walk of it judges the same
relative paths, puts entries for the same files and counts the same.
-/

namespace FileCensus

variable {ε : Type}

namespace Plan

/-- Their roots are two spellings of one directory. -/
structure Respells (fs : FileSystem) (a b : String) (p q : Plan ε) : Prop extends Kin fs p q where
  root : p.root = Path.parse a
  root' : q.root = Path.parse b
  leads : ∃ here entries, fs.Leads a here ∧ fs.Leads b here ∧
    fs.at? here = some (.directory entries)

variable {p q : Plan ε} {fs : FileSystem}

theorem Respells.matched {a b : String} (h : Respells fs a b p q) {s s' : Status}
    (known : p.probe.status p.root = .ok s) (known' : q.probe.status q.root = .ok s') :
    Matches fs p q := by
  obtain ⟨here, entries, leads, leads', directory⟩ := h.leads
  have found := (FileSystem.status_ok (h.reads.status known)).1
  have found' := (FileSystem.status_ok (h.reads'.status known')).1
  have place : s.identity = here := leads.find_eq (h.root ▸ found)
  have place' : s'.identity = here := leads'.find_eq (h.root' ▸ found')
  rw [place] at found
  rw [place'] at found'
  exact ⟨h.toKin, found'.trans found.symm, here, _, placeOf_nil found, directory, rfl⟩

end Plan

/-- At each moment two walks find the same token, and queues and latches that take as much. -/
structure Course.Even (r r' : Course ε) : Prop where
  token : ∀ n, r'.token n = r.token n
  full : ∀ n, (r'.channel n).isFull = (r.channel n).isFull
  latch : ∀ n, (r'.channel n).signal.isOk = (r.channel n).signal.isOk

namespace Walk

section Runs

variable {p q : Plan ε} {fs : FileSystem} {w v : Walk ε} {r r' : Course ε}

theorem alike_fresh (p q : Plan ε) : Alike p q (fresh p.root) (fresh q.root) where
  account := rfl
  put := ⟨[], .nil, .nil⟩
  phase := .idle
  stack := .nil

/-- By induction on the steps: walks that are treated alike stay alike. -/
theorem Alike.after (m : Plan.Matches fs p q) (wf : fs.WellFormed) (fits : w.Fits p fs)
    (fits' : v.Fits q fs) (h : Alike p q w v)
    (answers : ∀ n, ¬ Unanswered p (r.token n) (w.after p r n))
    (answers' : ∀ n, ¬ Unanswered q (r'.token n) (v.after q r' n))
    (even : ∀ n, Alike p q (w.after p r n) (v.after q r' n) → Evenly p q (w.after p r n)
      (r.token n) (r'.token n) (r.channel n) (r'.channel n)) (n : Nat) :
    Alike p q (w.after p r n) (v.after q r' n) := by
  induction n with
  | zero => exact h
  | succ n ih =>
      exact ih.step m wf (fits_after wf m.reads fits r n) (fits_after wf m.reads' fits' r' n)
        (answers n) (answers' n) (even n ih)

theorem root_known_of_answers (idle : w.phase = .idle)
    (answers : ∀ n, ¬ Unanswered p (r.token n) (w.after p r n)) :
    ∃ s, p.probe.status p.root = .ok s := by
  have examining : (w.after p r 1).phase = .examining := by
    simp only [after, Walk.step, idle, begin_phase]
  exact answered fun f answer => answers 1 (.rootStatus examining answer)

theorem Undisturbed.answers (calm : Undisturbed p r w) (n : Nat) :
    ¬ Unanswered p (r.token n) (w.after p r n) := by
  intro unanswered
  obtain ⟨w', f, trouble⟩ := unanswered.trouble (r.channel n)
  exact calm.calm n w' f trouble

theorem Undisturbed.willing (calm : Undisturbed p r w) {n : Nat} {path : Path} {e : ε}
    (phase : (w.after p r n).phase = .putting path e) : p.refusal = none := by
  cases refusal : p.refusal with
  | none => rfl
  | some f => exact absurd (.refused phase refusal) (calm.calm n _ f)

theorem settled_account (w : Walk ε) : w.settled.account = w.account := by
  have judged : w.settled.judged = w.judged := by
    simp only [judged, collect, trace, settled, List.filterMap_reverse, List.filterMap_filter]
    congr 2
    funext e
    cases e <;> rfl
  simp only [account, judged]
  rfl

/-- An undisturbed walk goes as it goes by itself, but for its attempts on a full queue. -/
theorem Undisturbed.settled_eq (calm : Undisturbed p r w) (n : Nat) :
    ∃ k, (w.after p r n).settled = w.alone p none k := by
  induction n with
  | zero => exact ⟨0, rfl⟩
  | succ n ih =>
      obtain ⟨k, same⟩ := ih
      have hindered := calm.calm n
      rw [Walk.after]
      cases step_echoes p (r.token n) (w.after p r n) (r.channel n) with
      | attempt still => exact ⟨k, still.trans same⟩
      | one on => exact ⟨k + 1, by rw [on, same, alone_succ]⟩
      | two on => exact ⟨k + 2, by rw [on, same, alone_succ, alone_succ]⟩
      | cancelled look flagged _ =>
          have answer : (r.token n).check = .error Token.stop := by simp [Token.check, flagged]
          exact absurd (.cancelled look answer) (hindered _ _)
      | refused phase answer _ => exact absurd (.latched phase answer) (hindered _ _)

/-- What an undisturbed walk comes to, it comes to by itself. -/
theorem Undisturbed.ends_alone (wf : fs.WellFormed) (reads : p.probe.Reads fs)
    (calm : Undisturbed p r (fresh p.root)) :
    ∃ n k, ((fresh p.root).after p r n).phase = .ended (.ok p.root) ∧
      ((fresh p.root).after p r n).settled = (fresh p.root).alone p none k ∧
      Undisturbed p (.alone none) (fresh p.root) := by
  have ready := ready_fresh (ε := ε) p.root
  obtain ⟨n, o, ended⟩ := ends wf reads ready.fits r calm.putsEnd
  obtain rfl := calm.outcome ready.awake n ended
  obtain ⟨k, same⟩ := calm.settled_eq n
  have final : ((fresh p.root).after p (.alone none) k).phase = .ended (.ok p.root) := by
    have settled := settled_of_ended ended
    rwa [same] at settled
  exact ⟨n, k, ended, same, undisturbed_of_completed final⟩

/-- How the root is spelled cannot be seen from what the walks do. -/
structure Indistinguishable (p q : Plan ε) : Prop where
  /-- Two undisturbed walks come to a good end, and then they have judged the same relative paths in
  the same order, have put entries for the same files in the same order, and have counted the
  same. -/
  finished : ∀ {r r' : Course ε}, Undisturbed p r (fresh p.root) → Undisturbed q r' (fresh q.root) →
    ∃ n, ∀ m m', n ≤ m → n ≤ m' →
      ((fresh p.root).after p r m).phase = .ended (.ok p.root) ∧
      ((fresh q.root).after q r' m').phase = .ended (.ok q.root) ∧
      Agree p q ((fresh p.root).after p r m) ((fresh q.root).after q r' m')
  /-- The same holds at each moment of two walks that are treated alike, whatever stops them, as
  long as the system answers. -/
  abreast : ∀ {r r' : Course ε}, r.Even r' → q.refusal.isSome = p.refusal.isSome →
    (∀ n, ¬ Unanswered p (r.token n) ((fresh p.root).after p r n)) →
    (∀ n, ¬ Unanswered q (r'.token n) ((fresh q.root).after q r' n)) →
    ∀ n, Agree p q ((fresh p.root).after p r n) ((fresh q.root).after q r' n)

theorem undisturbed_agree (m : Plan.Matches fs p q) (wf : fs.WellFormed)
    (calm : Undisturbed p r (fresh p.root)) (calm' : Undisturbed q r' (fresh q.root)) :
    ∃ n, ∀ m m', n ≤ m → n ≤ m' →
      ((fresh p.root).after p r m).phase = .ended (.ok p.root) ∧
      ((fresh q.root).after q r' m').phase = .ended (.ok q.root) ∧
      Agree p q ((fresh p.root).after p r m) ((fresh q.root).after q r' m') := by
  obtain ⟨n, k, ended, same, alone⟩ := calm.ends_alone wf m.reads
  obtain ⟨n', k', ended', same', alone'⟩ := calm'.ends_alone wf m.reads'
  -- by themselves the walks go side by side; each comes to what it comes to by itself
  have alike : ∀ j, Alike p q ((fresh p.root).alone p none j) ((fresh q.root).alone q none j) := by
    refine (alike_fresh p q).after m wf (ready_fresh p.root).fits (ready_fresh q.root).fits
      alone.answers alone'.answers fun j h => ⟨rfl, rfl, rfl, fun path e putting => ?_⟩
    obtain ⟨path', e', putting'⟩ := (putting ▸ h.phase).putting_inv
    rw [alone.willing putting, alone'.willing putting']
  have last : (fresh p.root).alone p none (max k k') = ((fresh p.root).after p r n).settled := by
    rw [same]
    exact after_of_ended (same ▸ settled_of_ended ended) (Nat.le_max_left k k')
  have last' : (fresh q.root).alone q none (max k k') = ((fresh q.root).after q r' n').settled := by
    rw [same']
    exact after_of_ended (same' ▸ settled_of_ended ended') (Nat.le_max_right k k')
  have agree := (alike (max k k')).toAgree
  rw [last, last'] at agree
  refine ⟨max n n', fun m m' le le' => ?_⟩
  rw [after_of_ended ended (by omega), after_of_ended ended' (by omega)]
  refine ⟨ended, ended', ?_, ?_⟩
  · rw [← settled_account, agree.account, settled_account]
  · simpa using agree.put

/-- Whatever two texts lead to one directory, walks of it by one and by the other cannot be told
apart. -/
theorem respelled_indistinguishable (wf : fs.WellFormed) {a b : String}
    (h : Plan.Respells fs a b p q) : Indistinguishable p q where
  finished {r r'} calm calm' := by
    obtain ⟨s, known⟩ := calm.root_known rfl
    obtain ⟨s', known'⟩ := calm'.root_known rfl
    exact undisturbed_agree (h.matched known known') wf calm calm'
  abreast {r r'} even refusal answers answers' := by
    obtain ⟨s, known⟩ := root_known_of_answers rfl answers
    obtain ⟨s', known'⟩ := root_known_of_answers rfl answers'
    intro n
    have alike := (alike_fresh p q).after (h.matched known known') wf (ready_fresh p.root).fits
      (ready_fresh q.root).fits answers answers' (fun n _ =>
        ⟨congrArg Token.check (even.token n), even.full n, even.latch n, fun _ _ _ => refusal⟩) n
    exact alike.toAgree

/-- The walk of `loopPlan` by another spelling of its root, through the link that the root holds. -/
def respelledPlan : Plan String :=
    { loopPlan with root := ⟨.root, ["loop"]⟩ }

theorem respelledPlan_respells : Plan.Respells loopTree "." "/./loop//" loopPlan respelledPlan where
  root := rfl
  root' := rfl
  leads := ⟨[], _, ⟨by decide, by cbv⟩, ⟨by decide, by cbv⟩, rfl⟩
  filters := rfl
  above m among above := by
    have only : m = .hidden := by simpa [loopPlan] using among
    rw [only] at above
    cases above
  reads := loopPlan_reads
  reads' := loopPlan_reads
  makes s := ⟨fun _ => ⟨_, rfl⟩, fun _ => ⟨_, rfl⟩⟩

/-- The probe of `respelledPlan`, with the answers that a walk asks for written out. -/
def respelledProbe : Probe :=
    { loopPlan.probe with
      status := fun p =>
        if p = ⟨.root, ["loop"]⟩ ∨ p = ⟨.root, ["loop", "loop"]⟩ then
          .ok ⟨.directory, 4096, 0, []⟩
        else loopPlan.probe.status p
      list := fun p =>
        if p = ⟨.root, ["loop"]⟩ then .ok [⟨"a", .file⟩, ⟨"loop", .link⟩]
        else loopPlan.probe.list p
      kindOf := fun p e =>
        if p = ⟨.root, ["loop"]⟩ ∧ e = ⟨"loop", .link⟩ then .ok (some .directory)
        else loopPlan.probe.kindOf p e }

theorem respelledProbe_eq : respelledProbe = loopPlan.probe := by
  have status : loopTree.status true ⟨.root, ["loop"]⟩ = .ok ⟨.directory, 4096, 0, []⟩ := by cbv
  have again : loopTree.status true ⟨.root, ["loop", "loop"]⟩ = .ok ⟨.directory, 4096, 0, []⟩ := by
    cbv
  have list : loopTree.list ⟨.root, ["loop"]⟩ = .ok [⟨"a", .file⟩, ⟨"loop", .link⟩] := by cbv
  have kind : loopTree.kindOf ⟨.root, ["loop"]⟩ ⟨"loop", .link⟩ = .ok (some .directory) := by cbv
  show respelledProbe =
    ⟨loopPlan.probe.status, loopPlan.probe.list, loopPlan.probe.kindOf, loopPlan.probe.attributes⟩
  rw [respelledProbe, Probe.mk.injEq]
  refine ⟨?_, ?_, ?_, rfl⟩
  · funext p
    by_cases root : p = ⟨.root, ["loop"]⟩ <;> by_cases link : p = ⟨.root, ["loop", "loop"]⟩ <;>
      simp [root, link, loopPlan, FileSystem.probe, status, again, Except.mapError]
  · funext p
    by_cases root : p = ⟨.root, ["loop"]⟩ <;>
      simp [root, loopPlan, FileSystem.probe, list, Except.mapError]
  · funext p e
    by_cases entry : p = ⟨.root, ["loop"]⟩ ∧ e = ⟨"loop", .link⟩ <;>
      simp [entry, loopPlan, FileSystem.probe, kind]

theorem respelled_undisturbed :
    Undisturbed respelledPlan quietCourse (fresh respelledPlan.root) := by
  have ends : ((fresh respelledPlan.root).after { respelledPlan with probe := respelledProbe }
      quietCourse 16).outcome?.any (·.isOk) = true := by
    decide +kernel
  rw [respelledProbe_eq] at ends
  exact (settled_of_outcome ends).1

theorem loop_respelled_indistinguishable :
    loopTree.WellFormed ∧ Plan.Respells loopTree "." "/./loop//" loopPlan respelledPlan ∧
      Undisturbed loopPlan quietCourse (fresh loopPlan.root) ∧
      Undisturbed respelledPlan quietCourse (fresh respelledPlan.root) ∧
      (∃ n, ∀ m m', n ≤ m → n ≤ m' → Agree loopPlan respelledPlan
        ((fresh loopPlan.root).after loopPlan quietCourse m)
        ((fresh respelledPlan.root).after respelledPlan quietCourse m')) ∧
      ∀ n, Agree loopPlan respelledPlan ((fresh loopPlan.root).after loopPlan quietCourse n)
        ((fresh respelledPlan.root).after respelledPlan quietCourse n) := by
  have same := respelled_indistinguishable loopTree_wellFormed respelledPlan_respells
  obtain ⟨n, agree⟩ := same.finished loop_undisturbed respelled_undisturbed
  exact ⟨loopTree_wellFormed, respelledPlan_respells, loop_undisturbed, respelled_undisturbed,
    ⟨n, fun m m' le le' => (agree m m' le le').2.2⟩,
    same.abreast ⟨fun _ => rfl, fun _ => rfl, fun _ => rfl⟩ rfl loop_undisturbed.answers
      respelled_undisturbed.answers⟩

end Runs

end Walk
end FileCensus
