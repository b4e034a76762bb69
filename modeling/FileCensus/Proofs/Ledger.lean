import FileCensus.Proofs.Filtering
import FileCensus.Proofs.Sealing

/-!
What a census knows of its jobs at every moment: each was planned with the settings of the scanner
for the root in its place, its walk goes over the tree that the census was started on, and it has
come to what it comes to by itself. A turn of either thread touches a job in one way or leaves all
jobs alone; only the last step of a submission brings a new one.
-/

namespace FileCensus

variable {ε : Type}

/-- The plan of a job on a root, by the settings alone. -/
def Settings.plan (s : Settings) (w : Surroundings ε) (root : Path) : Except Failure (Plan ε) := do
    let filters ← s.filterSet w.supportsMarks root
    .ok ⟨root, filters, w.probe, w.make, w.monitor, none, w.now⟩

theorem Scanner.plan_eq (s : Scanner ε) (w : Surroundings ε) (root : Path) :
    s.plan w root = s.settings.plan w root := rfl

/-- What a plan has from its root and from what is around the scanner. -/
structure Plan.IsFor (w : Surroundings ε) (root : Path) (q : Plan ε) : Prop where
  root : q.root = root
  probe : q.probe = w.probe
  make : q.make = w.make
  refusal : q.refusal = none

theorem Settings.plan_isFor {s : Settings} {w : Surroundings ε} {root : Path} {q : Plan ε}
    (h : s.plan w root = .ok q) : q.IsFor w root := by
  obtain ⟨filters, -, made⟩ := ok_of_bind h
  cases made
  exact ⟨rfl, rfl, rfl, rfl⟩

/-- The walk of a job goes over a given tree. -/
structure Job.Grounded (fs : FileSystem) (j : Job ε) : Prop where
  reads : j.plan.probe.Reads fs
  fits : j.walk.Fits j.plan fs
  tally : ∃ done, j.walk.Tally j.plan fs [] done

namespace Job.Grounded

variable {fs : FileSystem} {j : Job ε}

theorem fresh {q : Plan ε} (reads : q.probe.Reads fs) : (Job.fresh q).Grounded fs where
  reads := reads
  fits := (Walk.ready_fresh q.root).fits
  tally := ⟨[], (Walk.ready_fresh q.root).tally⟩

theorem step (wf : fs.WellFormed) (h : j.Grounded fs) (t : Token) (c : Channel ε) :
    Job.Grounded fs { j with walk := (j.walk.step j.plan t c).1 } where
  reads := h.reads
  fits := h.fits.advance wf h.reads (Walk.step_advances _ t _ c)
  tally := by
    obtain ⟨done, tally⟩ := h.tally
    obtain ⟨more, tally⟩ := tally.advance wf h.reads h.fits (Walk.step_advances _ t _ c)
    exact ⟨done ++ more, tally⟩

end Job.Grounded

theorem Walk.step_capacity (q : Plan ε) (t : Token) (w : Walk ε) (c : Channel ε) :
    (w.step q t c).2.capacity = c.capacity := by
  cases phase : w.phase with
  | putting path e =>
      simp only [step, phase, offer]
      split
      · rfl
      · split <;> rfl
  | signalling path e =>
      simp only [step, phase, Walk.signal]
      split
      · rfl
      · next answer =>
        obtain ⟨-, latch, same⟩ := Channel.signal_ok answer
        rw [same]
  | _ => simp only [step, phase, Channel.count]

namespace Core

theorem Moves.capacity {c c' : Core ε} {calls : List Call} (move : c.Moves c' calls) :
    c'.channel.capacity = c.channel.capacity := by
  cases move with
  | walks _ _ _ => exact Walk.step_capacity _ _ _ _
  | _ => rfl

theorem Performs.capacity {c c' : Core ε} {call : Call} {more : List Call}
    (performs : c.Performs call c' more) : c'.channel.capacity = c.channel.capacity := by
  cases performs <;> rfl

theorem Tells.capacity {c c' : Core ε} (tell : c.Tells c') :
    c'.channel.capacity = c.channel.capacity := by
  cases tell with
  | tells _ performs => exact performs.capacity

/-- The outcomes of a turn for the jobs, unless it enters one. -/
inductive Serves (c c' : Core ε) : Prop where
  | same (jobs : c'.jobs = c.jobs)
  | moves {calls : List Call} (move : c.Moves c' calls)
  | registers {n : Nat} {k : Callback} {calls : List Call} (add : c.Registers n k c' calls)

variable {c c' : Core ε} {fs : FileSystem}

/-- What holds of a job whatever becomes of its handle and however far its walk goes on. -/
theorem Serves.forall_jobs {P : Job ε → Prop} (serves : c.Serves c')
    (h : ∀ (n : Nat) j, c.jobs[n]? = some j → P j)
    (handle : ∀ j hd, P j → P { j with handle := hd })
    (walk : ∀ n j, c.worker = .running n → c.jobs[n]? = some j → P j →
      P { j with walk := (j.walk.step j.plan j.handle.token c.channel).1 }) :
    ∀ (n : Nat) j, c'.jobs[n]? = some j → P j := by
  cases serves with
  | same jobs =>
      rw [jobs]
      exact h
  | moves move =>
      cases move with
      | rests | strays _ _ | halts _ _ | frees _ => exact h
      | handles job _ | drops _ job _ _ | starts _ _ job _ | settles _ job _ _ =>
          exact forall_set h (handle _ _ (h _ _ job))
      | walks runs job _ => exact forall_set h (walk _ _ runs job (h _ _ job))
  | registers add =>
      cases add with
      | lost _ | answers _ _ => exact h
      | joins job _ => exact forall_set h (handle _ _ (h _ _ job))

theorem Serves.plans (serves : c.Serves c') : c'.plans = c.plans := by
  cases serves with
  | same jobs => rw [Core.plans, jobs, Core.plans]
  | moves move => exact move.plans
  | registers add => exact add.plans

theorem Separate.serves (h : c.Separate)
    (unsealed : ∀ n, c.worker = .running n → c.channel.IsOpen) (serves : c.Serves c') :
    c'.Separate := by
  cases serves with
  | same jobs =>
      rw [Separate, jobs]
      exact h
  | moves move => exact h.moves unsealed move
  | registers add =>
      cases add with
      | lost _ | answers _ _ => exact h
      | joins job _ =>
          have apart := h _ _ job
          exact forall_set h apart

/-- What is known of the jobs: which plans they have, and where their walks are. -/
structure Booked (fs : FileSystem) (planned : Nat → Plan ε → Prop) (c : Core ε) : Prop where
  plans : ∀ (n : Nat) q, c.plans[n]? = some q → planned n q
  grounded : ∀ (n : Nat) j, c.jobs[n]? = some j → j.Grounded fs
  separate : c.Separate

variable {planned : Nat → Plan ε → Prop}

theorem Booked.serves (wf : fs.WellFormed) (h : c.Booked fs planned)
    (unsealed : ∀ n, c.worker = .running n → c.channel.IsOpen) (serves : c.Serves c') :
    c'.Booked fs planned where
  plans := by
    rw [serves.plans]
    exact h.plans
  grounded := by
    refine serves.forall_jobs h.grounded ?_ ?_
    · exact fun j hd grounded => ⟨grounded.reads, grounded.fits, grounded.tally⟩
    · exact fun n j _ _ grounded => grounded.step wf _ _
  separate := h.separate.serves unsealed serves

theorem Booked.enters (h : c.Booked fs planned) {q : Plan ε} (new : planned c.jobs.length q)
    (reads : q.probe.Reads fs) : (c.entered q).Booked fs planned where
  plans n q' found := by
    have plans : (c.entered q).plans = c.plans ++ [q] := by
      simp [Core.plans, Job.fresh]
    rw [plans] at found
    rcases getElem?_snoc_cases found with ⟨-, old⟩ | ⟨last, rfl⟩
    · exact h.plans n q' old
    · rw [last, Core.plans, List.length_map]
      exact new
  grounded := forall_append h.grounded (.fresh reads)
  separate := forall_append h.separate (Walk.apart_self _ _ _)

end Core

namespace Scanner

variable (s : Scanner ε)

theorem workStep_serves : s.core.Serves s.workStep.core := by
  rcases s.workStep_cases with ⟨-, move⟩ | tell
  · exact .moves move
  · exact .same tell.jobs

theorem addCallback_capacity (n : Nat) (k : Callback) :
    (s.addCallback n k).1.channel.capacity = s.channel.capacity := by
  simp only [addCallback]
  split <;> rfl

theorem startGroup_capacity (size : Nat) :
    (s.startGroup size).1.channel.capacity = s.channel.capacity := by
  simp only [startGroup]
  split <;> rfl

theorem workStep_capacity : s.workStep.channel.capacity = s.channel.capacity := by
  rcases s.workStep_cases with ⟨-, move⟩ | tell
  · exact move.capacity
  · exact tell.capacity

end Scanner

namespace Census

variable {p : Plan} {c : Census} {settings : Settings} {fs : FileSystem}

def Stage.isSubmitting : Stage → Bool
  | .submitting _ _ => true
  | _ => false

/-- A turn that is not about a submission. -/
structure Aside (c c' : Census) : Prop where
  serves : c.core.Serves c'.core
  settings : c'.scanner.settings = c.scanner.settings
  capacity : c'.scanner.channel.capacity = c.scanner.channel.capacity
  accepted : c'.accepted = c.accepted
  stage : c'.stage.isSubmitting = false

theorem aside_of_same {c c' : Census} (scanner : c'.scanner = c.scanner)
    (accepted : c'.accepted = c.accepted) (stage : c'.stage.isSubmitting = false) : c.Aside c' where
  serves := .same (by rw [core, scanner, core])
  settings := by rw [scanner]
  capacity := by rw [scanner]
  accepted := accepted
  stage := stage

theorem tell_aside {c : Census} {call : Call} {before after : Stage}
    (other : after.isSubmitting = false) :
    (c.go before).Aside ({ c with scanner := (c.scanner.perform call).1 }.go after) where
  serves := .same (c.scanner.perform_performs call).jobs
  settings := c.scanner.perform_settings call
  capacity := (c.scanner.perform_performs call).capacity
  accepted := rfl
  stage := other

theorem stopStep_aside {c : Census} {exit : Exit} {progress : Stopping} {before after : Stage}
    (other : after.isSubmitting = false) :
    (c.go before).Aside
      ({ c with scanner := (c.scanner.stopStep exit.kind progress).2.1 }.go after) where
  serves := .moves (c.scanner.stopStep_moves exit.kind progress)
  settings := c.scanner.stopStep_settings exit.kind progress
  capacity := (c.scanner.stopStep_moves exit.kind progress).capacity
  accepted := rfl
  stage := other

theorem Proceeds.aside {c' : Census} (turn : Proceeds p c c')
    (other : c.stage.isSubmitting = false) : c.Aside c' := by
  cases turn with
  | rests _ _ => exact aside_of_same rfl rfl other
  | submitted _ _ | accepts _ _ _ _ | refuses _ _ _ _ | submits _ _ _ _ _ _ => cases other
  | groups c =>
      exact ⟨.same (c.scanner.startGroup_jobs _), c.scanner.startGroup_settings _,
        c.scanner.startGroup_capacity _, rfl, rfl⟩
  | registers c n _ group =>
      exact ⟨.registers (c.scanner.addCallback_registers n (.countDown group)),
        c.scanner.addCallback_settings n _, c.scanner.addCallback_capacity n _, rfl, rfl⟩
  | tells _ _ _ _ _ | informs _ _ _ _ _ _ => exact tell_aside rfl
  | stops _ _ _ _ _ _ | dismisses _ _ _ _ _ _ => exact stopStep_aside rfl
  | signalled _ _ _ _ _ | takes _ _ _ _ => exact ⟨.same rfl, rfl, rfl, rfl, rfl⟩
  | registered _ _ | told _ _ _ | exhausts _ _ | prints _ _ _ _ | appends _ _ _ _ _ _ _
  | fails _ _ _ _ | closes _ | blames _ _ | summarises _ | handled _ _ _ | left _ _ _
  | closed _ _ _ | dismissed _ _ _ _ | joins _ _ _ => exact aside_of_same rfl rfl rfl

/-- The jobs are planned with the settings, each for the root in its place. -/
def planned (p : Plan) (s : Settings) (n : Nat) (q : FileCensus.Plan FileEntry) : Prop :=
    ∃ root, p.roots[n]? = some root ∧ s.plan p.surroundings root = .ok q

/-- What is known of the jobs, and of the roots that are still to be submitted. -/
structure Ledger (p : Plan) (s : Settings) (fs : FileSystem) (c : Census) : Prop where
  settings : c.scanner.settings = s
  left : ∀ left submission, c.stage = .submitting left submission →
    left = p.roots.drop c.accepted.length
  entering : ∀ root rest q, c.stage = .submitting (root :: rest) (.entering q) →
    s.plan p.surroundings root = .ok q
  booked : c.core.Booked fs (planned p s)
  room : c.scanner.channel.capacity ≠ some 0

variable {s : Settings} {seals : Nat} {others : Callback → Nat}

theorem Kept.isOpen (h : c.Kept p others seals) (n : Nat) (runs : c.core.worker = .running n) :
    c.core.channel.IsOpen := by
  obtain ⟨got, sound, -⟩ := h.sound
  exact sound.isOpen runs

theorem Ledger.workStep (h : c.Ledger p s fs) (wf : fs.WellFormed) (kept : c.Kept p others seals) :
    c.workStep.Ledger p s fs where
  settings := c.scanner.workStep_settings.trans h.settings
  left := h.left
  entering := h.entering
  booked := h.booked.serves wf kept.isOpen c.scanner.workStep_serves
  room := by
    change c.scanner.workStep.channel.capacity ≠ some 0
    rw [c.scanner.workStep_capacity]
    exact h.room

theorem Ledger.aside {c' : Census} (h : c.Ledger p s fs) (wf : fs.WellFormed)
    (kept : c.Kept p others seals) (aside : c.Aside c') : c'.Ledger p s fs where
  settings := aside.settings.trans h.settings
  left left submission stage := by
    have other := aside.stage
    rw [stage] at other
    cases other
  entering root rest q stage := by
    have other := aside.stage
    rw [stage] at other
    cases other
  booked := h.booked.serves wf kept.isOpen aside.serves
  room := by
    rw [aside.capacity]
    exact h.room

/-- Nothing but the submission goes on. -/
theorem Ledger.goes (h : c.Ledger p s fs) {root : Path} {rest : List Path}
    {before after : Submission FileEntry} (stage : c.stage = .submitting (root :: rest) before)
    {scanner : Scanner FileEntry} (settings : scanner.settings = c.scanner.settings)
    (capacity : scanner.channel.capacity = c.scanner.channel.capacity)
    (entering : ∀ q, after = .entering q → s.plan p.surroundings root = .ok q)
    (booked : scanner.core.Booked fs (planned p s)) :
    Ledger p s fs ({ c with scanner := scanner }.go (.submitting (root :: rest) after)) where
  settings := settings.trans h.settings
  left left submission same := by
    cases same
    exact h.left _ _ stage
  entering root' rest' q same := by
    cases same
    exact entering q rfl
  booked := booked
  room := by
    change scanner.channel.capacity ≠ some 0
    rw [capacity]
    exact h.room

theorem Ledger.submits (h : c.Ledger p s fs) (kept : c.Kept p others seals)
    (reads : p.surroundings.probe.Reads fs) {root : Path} {rest : List Path}
    {submission : Submission FileEntry} (stage : c.stage = .submitting (root :: rest) submission)
    (unanswered : ∀ n, submission ≠ .accepted n) :
    Ledger p s fs ({ c with scanner := (c.scanner.submitStep p.surroundings root submission).2 }.go
      (.submitting (root :: rest) (c.scanner.submitStep p.surroundings root submission).1)) := by
  cases submission with
  | accepted n => exact absurd rfl (unanswered n)
  | refused f => exact h.goes stage rfl rfl (fun _ entering => by cases entering) h.booked
  | asking =>
      refine h.goes stage rfl rfl (fun q entering => ?_) h.booked
      simp only [Scanner.submitStep] at entering
      split at entering <;> cases entering
  | preparing =>
      cases plan : c.scanner.plan p.surroundings root with
      | error f =>
          simp only [Scanner.submitStep, Scanner.prepare, plan, bind, Except.bind]
          exact h.goes stage rfl rfl (fun _ entering => by cases entering) h.booked
      | ok q =>
          simp only [Scanner.submitStep, Scanner.prepare, plan, bind, Except.bind]
          refine h.goes stage rfl rfl (fun q' entering => ?_) h.booked
          cases entering
          rw [← h.settings, ← Scanner.plan_eq, plan]
  | entering q =>
      have plan := h.entering root rest q stage
      cases closed : c.scanner.isClosed with
      | true =>
          simp only [Scanner.submitStep, closed, if_true]
          exact h.goes stage rfl rfl (fun _ entering => by cases entering) h.booked
      | false =>
          cases halted : c.scanner.isStopped with
          | true =>
              simp only [Scanner.submitStep, closed, halted, Bool.false_eq_true, if_false, if_true]
              exact h.goes stage rfl rfl (fun _ entering => by cases entering) h.booked
          | false =>
              simp only [Scanner.submitStep, closed, halted, Bool.false_eq_true, if_false]
              refine h.goes stage rfl rfl (fun _ entering => by cases entering)
                (h.booked.enters (q := q) ⟨root, ?_, plan⟩ ?_)
              · have number := congrArg List.length kept.numbered
                rw [stage] at number
                simp only [Stage.entered, List.append_nil, List.length_range] at number
                have left := h.left _ _ stage
                change p.roots[c.scanner.jobs.length]? = some root
                rw [← number, ← List.head?_drop, ← left, List.head?_cons]
              · rw [(Settings.plan_isFor plan).probe]
                exact reads

theorem Ledger.proceeds {c' : Census} (h : c.Ledger p s fs) (wf : fs.WellFormed)
    (kept : c.Kept p others seals) (reads : p.surroundings.probe.Reads fs)
    (turn : Proceeds p c c') : c'.Ledger p s fs := by
  cases submitting : c.stage.isSubmitting with
  | false => exact h.aside wf kept (turn.aside submitting)
  | true =>
      cases turn with
      | rests _ _ => exact h
      | submitted _ _ | refuses _ _ _ _ => exact h.aside wf kept (aside_of_same rfl rfl rfl)
      | accepts c root rest n =>
          refine ⟨h.settings, fun left submission same => ?_, fun _ _ _ same => (by cases same),
            h.booked, h.room⟩
          cases same
          change rest = p.roots.drop (c.accepted ++ [n]).length
          have left : root :: rest = p.roots.drop c.accepted.length := h.left _ _ rfl
          rw [List.length_append, List.length_singleton, ← List.tail_drop, ← left, List.tail_cons]
      | submits _ _ _ _ unanswered _ => exact h.submits kept reads rfl unanswered
      | _ => cases submitting

theorem ledger_start (p : Plan) (s : Settings) (fs : FileSystem) {capacity : Option Nat}
    (room : capacity ≠ some 0) (latch : Option Latch) (writer : Option Json.ArrayWriter) :
    (start { Scanner.fresh (.fresh capacity latch) with settings := s } p.roots writer).Ledger
      p s fs where
  settings := rfl
  left left submission same := by
    cases same
    rfl
  entering root rest q same := by
    cases (Stage.submitting.inj same).2
  booked := ⟨fun _ _ found => (by cases found), fun _ _ found => (by cases found),
    fun _ _ found => (by cases found)⟩
  room := room

end Census

end FileCensus
