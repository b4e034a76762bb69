import FileCensus.Proofs.Cancellation
import FileCensus.Proofs.Solitude

/-!
What is left of a walk that is interrupted. A cancelled walk has put the beginning of what it would
have put; one that fails at a node has put exactly what comes before that node; and one that is
turned away by a sealed latch has put the entry that it could not signal. The counts and the times
are in order at every end. Which matcher or question fails is left open, and so is when.
-/

namespace FileCensus

variable {ε : Type}

/-- The same course without a request to stop. -/
def Course.uncancelled (r : Course ε) : Course ε :=
    ⟨fun _ => .fresh, r.channel⟩

namespace Walk

/-- The entry that was put last and has not been signalled. -/
def unsignalled? : Phase ε → Option ε
  | .counting _ e | .signalling _ e => some e
  | _ => none

variable {p : Plan ε} {fs : FileSystem} {t : Token} {w w' : Walk ε} {c : Channel ε} {r : Course ε}

theorem step_uncancelled (free : looks w.phase = true → t.isCancelled = false) :
    w.step p t c = w.step p .fresh c := by
  cases phase : w.phase with
  | visiting _ _ _ _ | judging | offering _ _ =>
      have free : t.isCancelled = false := free (by rw [phase]; rfl)
      have same : t = .fresh := by
        cases t
        cases free
        rfl
      rw [same]
  | _ => simp only [step, phase]

theorem uncancelled_after (p : Plan ε) (w : Walk ε) (r : Course ε) (n : Nat) :
    w.after p r n = w.after p r.uncancelled n ∨
      ∃ o, (w.after p r n).phase = .ended o ∧
        (w.after p r n).put <+: (w.after p r.uncancelled n).put := by
  induction n with
  | zero => exact Or.inl rfl
  | succ n ih =>
      have grows := collect_after .put p w r.uncancelled (Nat.le_succ n)
      rcases ih with same | ⟨o, ended, before⟩
      · by_cases seen : looks (w.after p r n).phase = true ∧ (r.token n).isCancelled = true
        · have stops : Trouble p (r.token n) (w.after p r n) (r.channel n) _ Token.stop :=
            .cancelled seen.1 (by simp [Token.check, seen.2])
          obtain ⟨g, ended⟩ := fail_phase (w.after p r n) p Token.stop
          refine Or.inr ⟨.error g, ?_, ?_⟩
          · rw [after, stops.step, ended]
          · rw [after, stops.step, fail_put, same]
            exact grows
        · refine Or.inl ?_
          rw [after, after, step_uncancelled (by simpa using seen), same]
          rfl
      · have rests := after_of_ended ended (Nat.le_succ n)
        rw [Nat.succ_eq_add_one] at rests grows
        rw [rests]
        exact Or.inr ⟨o, ended, before.trans grows⟩

theorem uncancelled_put (p : Plan ε) (w : Walk ε) (r : Course ε) (n : Nat) :
    (w.after p r n).put <+: (w.after p r.uncancelled n).put := by
  rcases uncancelled_after p w r n with same | ⟨-, -, before⟩
  · rw [same]
  · exact before

/-- What has been put before the node that a walk is at is what is accepted before it. -/
theorem Tally.done_eq {earlier : List ε} {done : List (List String)} {x : List String}
    {rest : List (List String)} (h : w.Tally p fs earlier done) (awake : ∀ o, w.phase ≠ .ended o)
    (agenda : w.agenda p.root = x :: rest) : done = (p.accepted fs).filter (· < x) := by
  have ordered := h.ordered
  rw [agenda, List.pairwise_append] at ordered
  obtain ⟨sorted, later, cross⟩ := ordered
  rw [List.pairwise_cons] at later
  apply (sorted.imp Before.lt).eq_of_mem_iff ((p.accepted_sorted fs).filter _)
  intro s
  rw [List.mem_filter, decide_eq_true_eq]
  constructor
  · intro hs
    exact ⟨h.prefix_accepted.subset hs, (cross s hs x (List.mem_cons_self ..)).lt⟩
  · rintro ⟨hs, less⟩
    rcases h.covered (fun _ => awake _) s hs with before | ⟨a, ha, pre⟩
    · exact before
    · rw [agenda] at ha
      rcases List.mem_cons.mp ha with rfl | after
      · exact absurd less pre.le
      · have beyond : x < s := ((later.1 a after).extend (List.prefix_refl x) pre).lt
        exact absurd less (lt_asymm beyond)

/-- A fault of the system concerns the node that comes first in what is left to do. -/
theorem Trouble.agenda (wf : fs.WellFormed) (reads : p.probe.Reads fs) (fits : w.Fits p fs)
    {fault : Fault} (h : Trouble p t w c w' (.system fault)) :
    ∃ x, w.phase.path? p.root = some (p.root.below x) ∧
      w.agenda p.root = x :: w.stack.flatMap Frame.agenda := by
  have known := fits.phase
  cases h with
  | cancelled _ answer =>
      simp only [Token.check] at answer
      split at answer <;> cases answer
  | rootStatus h _ | excludingRoot h _ _ | includingRoot h _ _ _ =>
      exact ⟨[], by simp [h, Phase.path?], by simp [Walk.agenda, h, Phase.agenda]⟩
  | @status path relative depth _ h _ _ | @listing path relative depth _ _ _ h _ _ =>
      rw [h] at known
      exact ⟨relative, by rw [h, Phase.path?, known.1], by simp [Walk.agenda, h, Phase.agenda]⟩
  | @excluding _ _ relative _ _ h _ _ | @sorting _ _ relative _ _ h _ _ _
  | @including _ _ relative _ _ h _ _ _ _ =>
      have visits := fits.visits wf reads h
      refine ⟨relative, ?_, by simp [Walk.agenda, h, Phase.agenda]⟩
      rw [h, Phase.path?, visits.path]
  | refused h _ =>
      rw [h] at known
      obtain ⟨s, rfl, -⟩ := known
      exact ⟨s, by rw [h, Phase.path?], agenda_of_path (by rw [h, Phase.agenda])⟩
  | latched _ answer => cases (Channel.signal_error answer).1

theorem Advance.last_put {s : Walk ε × Channel ε} (a : Advance p t w c s)
    (last : ∀ e, unsignalled? w.phase = some e → ∃ es, w.put = es ++ [e]) :
    ∀ e, unsignalled? s.1.phase = some e → ∃ es, s.1.put = es ++ [e] := by
  intro e he
  cases a with
  | @fails w' f trouble =>
      obtain ⟨g, ended⟩ := fail_phase w' p f
      simp [ended, unsignalled?] at he
  | drops _ _ dropped => simp [dropped.phase, unsignalled?] at he
  | puts h _ _ =>
      cases he
      exact ⟨w.put, happen_put_put _ _⟩
  | counts h =>
      obtain ⟨es, put⟩ := last e (by rw [h]; exact he)
      exact ⟨es, by simpa [happen_put] using put⟩
  | leaves h _ _ | rests h => exact last e he
  | _ => simp [unsignalled?] at he

/-- In every end the times are set and nothing counts as being visited. -/
theorem Advance.finished {s : Walk ε × Channel ε} (a : Advance p t w c s) {o : Outcome}
    (ended : s.1.phase = .ended o) :
    s.1 = w ∨ s.1.progress.endTime = some p.now ∧ s.1.progress.currentPath = none := by
  cases a with
  | @fails w' f trouble => cases f <;> exact Or.inr ⟨rfl, rfl⟩
  | rootOther _ _ _ _ | completes _ _ => exact Or.inr ⟨rfl, rfl⟩
  | rests _ => exact Or.inl rfl
  | leaves turning _ _ => simp [turning] at ended
  | drops _ _ dropped => simp [dropped.phase] at ended
  | _ => simp at ended

theorem last_put_after (awake : unsignalled? w.phase = none) (r : Course ε) (n : Nat) :
    ∀ e, unsignalled? (w.after p r n).phase = some e → ∃ es, (w.after p r n).put = es ++ [e] := by
  induction n with
  | zero =>
      intro e he
      simp [after, awake] at he
  | succ n ih => exact (step_advances p _ _ _).last_put ih

theorem finished_after (awake : ∀ o, w.phase ≠ .ended o) (r : Course ε) {n : Nat} {o : Outcome}
    (ended : (w.after p r n).phase = .ended o) :
    (w.after p r n).progress.endTime = some p.now ∧
      (w.after p r n).progress.currentPath = none := by
  induction n with
  | zero => exact absurd ended (awake o)
  | succ n ih =>
      rcases (step_advances p (r.token n) (w.after p r n) (r.channel n)).finished ended with
        same | tidy
      · have same : w.after p r (n + 1) = w.after p r n := same
        rw [same] at ended ⊢
        exact ih ended
      · exact tidy

theorem counted_after (p : Plan ε) (w : Walk ε) (r : Course ε) (n : Nat) :
    ∃ es, (w.after p r n).put = w.put ++ es ∧
      (w.after p r n).progress.queued = w.progress.queued + es.length := by
  induction n with
  | zero => exact ⟨[], (List.append_nil _).symm, rfl⟩
  | succ n ih =>
      obtain ⟨es, put, queued⟩ := ih
      obtain ⟨new, step⟩ := (step_advances p (r.token n) (w.after p r n) (r.channel n)).delivers
      refine ⟨es ++ new, step.put.trans ?_, step.queued.trans ?_⟩
      · rw [put, List.append_assoc]
      · rw [queued, List.length_append, Nat.add_assoc]

/-- Neither the factory nor the monitor ends a walk, whatever they fail with. -/
theorem step_goes_on
    (h : (∃ path, w.phase = .creating path) ∨ ∃ path e, w.phase = .notifying path e)
    (o : Outcome) : (w.step p t c).1.phase ≠ .ended o := by
  rcases h with ⟨path, phase⟩ | ⟨path, e, phase⟩
  · simp only [step, phase, create]
    split <;> simp
  · simp [step, phase]

/-- What is left of a walk, wherever it is interrupted. -/
structure Tidy (p : Plan ε) (fs : FileSystem) (r : Course ε) (w : Walk ε) : Prop where
  uncancelled : ∀ n, (w.after p r n).put <+: (w.after p r.uncancelled n).put
  unstopped : ∀ r' : Course ε, (∀ n, (r'.token n).isCancelled = false) →
    (∀ n f, (r'.channel n).signal ≠ .error f) →
    (∀ n, ∃ m, n ≤ m ∧ puts (w.after p r' m).phase = false) →
    ∃ m o, (w.after p r' m).phase = .ended o ∧
      ∀ n, (w.after p r n).put <+: (w.after p r' m).put
  faulted : ∀ n w' fault,
    Trouble p (r.token n) (w.after p r n) (r.channel n) w' (.system fault) →
    ∃ x es, (w.after p r n).phase.path? p.root = some (p.root.below x) ∧
      p.Makes ((p.accepted fs).filter (· < x)) es ∧ ∀ m, n < m →
        (w.after p r m).phase = .ended (.error (.traversal fault.reason
          (some (fault.file?.getD p.root.text)) (some fault))) ∧
        (w.after p r m).put = w.put ++ es
  latched : ∀ n path e l, (w.after p r n).phase = .signalling path e →
    (r.channel n).latch = some l → l.isSealed = true → ∃ es, ∀ m, n < m →
      (w.after p r m).phase = .ended (.error .latchSealed) ∧ (w.after p r m).put = es ++ [e]
  finished : ∀ n o, (w.after p r n).phase = .ended o →
    (w.after p r n).progress.endTime = some p.now ∧ (w.after p r n).progress.currentPath = none
  counted : ∀ n, ∃ es, (w.after p r n).put = w.put ++ es ∧
    (w.after p r n).progress.queued = w.progress.queued + es.length
  goesOn : ∀ n,
    ((∃ path, (w.after p r n).phase = .creating path) ∨
      ∃ path e, (w.after p r n).phase = .notifying path e) →
    ∀ o, (w.after p r (n + 1)).phase ≠ .ended o

theorem faulted_after (wf : fs.WellFormed) (reads : p.probe.Reads fs) (ready : w.Ready)
    {n : Nat} {fault : Fault}
    (trouble : Trouble p (r.token n) (w.after p r n) (r.channel n) w' (.system fault)) :
    ∃ x es, (w.after p r n).phase.path? p.root = some (p.root.below x) ∧
      p.Makes ((p.accepted fs).filter (· < x)) es ∧ ∀ m, n < m →
        (w.after p r m).phase = .ended (.error (.traversal fault.reason
          (some (fault.file?.getD p.root.text)) (some fault))) ∧
        (w.after p r m).put = w.put ++ es := by
  obtain ⟨x, node, agenda⟩ := trouble.agenda wf reads (fits_after wf reads ready.fits r n)
  obtain ⟨done, tally⟩ := tally_after wf reads ready.fits ready.tally r n
  obtain ⟨es, put, makes⟩ := tally.entries
  have next : w.after p r (n + 1) = w'.fail p (.system fault) := by rw [after, trouble.step]
  have ended : (w.after p r (n + 1)).phase = .ended (.error (.traversal fault.reason
      (some (fault.file?.getD p.root.text)) (some fault))) := by
    rw [next]
    rfl
  refine ⟨x, es, node, ?_, ?_⟩
  · rw [List.nil_append] at tally makes
    rwa [← tally.done_eq trouble.awake agenda]
  · intro m late
    rw [after_of_ended ended late]
    refine ⟨ended, ?_⟩
    rw [next, fail_put, trouble.put, put]

theorem latched_after (ready : w.Ready) {n : Nat} {path : Path} {e : ε} {l : Latch}
    (phase : (w.after p r n).phase = .signalling path e) (latch : (r.channel n).latch = some l)
    (closed : l.isSealed = true) : ∃ es, ∀ m, n < m →
      (w.after p r m).phase = .ended (.error .latchSealed) ∧ (w.after p r m).put = es ++ [e] := by
  have awake : unsignalled? w.phase = none := by rw [ready.idle]; rfl
  obtain ⟨es, put⟩ := last_put_after awake r n e (by rw [phase]; rfl)
  have refusal : (r.channel n).signal = .error .latchSealed := by
    simp [Channel.signal, latch, Latch.signal, closed, Except.map]
  have trouble : Trouble p (r.token n) (w.after p r n) (r.channel n) _ .latchSealed :=
    .latched phase refusal
  have next : w.after p r (n + 1) = (w.after p r n).fail p .latchSealed := by
    rw [after, trouble.step]
  have ended : (w.after p r (n + 1)).phase = .ended (.error .latchSealed) := by
    rw [next]
    rfl
  refine ⟨es, fun m late => ?_⟩
  rw [after_of_ended ended late]
  exact ⟨ended, by rw [next, fail_put, put]⟩

/-- A walk leaves the beginning of what it was to put, or exactly what comes before the node where
the system fails it, or ends with the entry that a sealed latch was not told of; and it leaves its
times and counts in order. -/
theorem ends_tidily (wf : fs.WellFormed) (reads : p.probe.Reads fs) (ready : w.Ready)
    (r : Course ε) : Tidy p fs r w where
  uncancelled n := uncancelled_put p w r n
  unstopped r' free unsealed putsEnd := by
    obtain ⟨m, o, ended⟩ := ends wf reads ready.fits r' putsEnd
    exact ⟨m, o, ended, fun n => put_grows_to free unsealed ended n⟩
  faulted _ _ _ trouble := faulted_after wf reads ready trouble
  latched _ _ _ _ phase latch closed := latched_after ready phase latch closed
  finished _ _ ended := finished_after ready.awake r ended
  counted n := counted_after p w r n
  goesOn _ h o := step_goes_on h o

theorem loop_ends_tidily : loopTree.WellFormed ∧ loopPlan.probe.Reads loopTree ∧
    (fresh loopPlan.root : Walk String).Ready ∧
    Tidy loopPlan loopTree stuckCourse (fresh loopPlan.root) :=
  have ready := ready_fresh loopPlan.root
  ⟨loopTree_wellFormed, loopPlan_reads, ready,
    ends_tidily loopTree_wellFormed loopPlan_reads ready stuckCourse⟩

end Walk
end FileCensus
