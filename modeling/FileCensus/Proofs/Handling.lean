import FileCensus.Proofs.Stages

/-!
What happens to the handle of one job: the worker takes the job up and settles it, and those who
hold the handle ask for its cancellation, in steps between which everything else may go on. However
the two are mixed, all that the handle shows is of one piece; and once the job is done, it shows the
same for good. To ask for the outcome changes nothing, so asking is a turn that does nothing here.
-/

namespace FileCensus

variable {κ : Type}

/-- A handle with the requests to cancel its job. -/
structure Handling (κ : Type) where
  handle : Handle κ
  requests : List Cancelling

inductive Handling.Turn (κ : Type) where
  | start
  | settle (o : Outcome)
  | addCallback (k : κ)
  | askResult
  | askFailure
  | request
  | goOn (i : Nat)

namespace Handling

def fresh (root : Path) : Handling κ :=
    ⟨.fresh root, []⟩

/-- One turn; one that the job is not in the stage for does nothing. -/
def step (x : Handling κ) : Turn κ → Handling κ
  | .start =>
      match x.handle.future.start with
      | .ok (_, future) => { x with handle := { x.handle with future := future } }
      | .error _ => x
  | .settle o =>
      match x.handle.future.settle o with
      | .ok (future, _) => { x with handle := { x.handle with future := future } }
      | .error _ => x
  | .addCallback k => { x with handle := (x.handle.addCallback k).1 }
  | .askResult | .askFailure => x
  | .request => { x with requests := x.requests ++ [.asking] }
  | .goOn i =>
      match x.requests[i]? with
      | none => x
      | some c =>
          let (c, handle, _) := x.handle.cancelStep c
          { handle := handle, requests := x.requests.set i c }

def follow (turns : List (Turn κ)) (x : Handling κ) : Handling κ :=
    turns.foldl step x

theorem follow_append (before after : List (Turn κ)) (x : Handling κ) :
    x.follow (before ++ after) = (x.follow before).follow after :=
  List.foldl_append

variable {x : Handling κ}

theorem step_goOn {i : Nat} {c : Cancelling} (found : x.requests[i]? = some c) :
    x.step (.goOn i) =
      ⟨(x.handle.cancelStep c).2.1, x.requests.set i (x.handle.cancelStep c).1⟩ := by
  simp only [step, found]

theorem step_last (h : Handle κ) (rest : List Cancelling) (c : Cancelling) :
    (Handling.mk h (rest ++ [c])).step (.goOn rest.length) =
      ⟨(h.cancelStep c).2.1, rest ++ [(h.cancelStep c).1]⟩ := by
  have found : (rest ++ [c])[rest.length]? = some c := by simp
  rw [step_goOn found]
  simp

/-- A request that nobody comes in between is a request made in one go. -/
theorem follow_cancel (h : Handle κ) (rest : List Cancelling) :
    (Handling.mk h rest).follow (.request :: List.replicate 5 (.goOn rest.length)) =
      ⟨h.cancel.2.1, rest ++ [.answered h.cancel.1]⟩ := by
  have begins : (Handling.mk h rest).step .request = ⟨h, rest ++ [.asking]⟩ := rfl
  simp only [follow, List.replicate, List.foldl_cons, List.foldl_nil, begins, step_last]
  obtain ⟨root, ⟨stage, callbacks⟩, token⟩ := h
  cases stage with
  | pending | running | cancelled | cancelledNoted | finished _ => rfl

/-- What a turn keeps of the handle: the root, and the way that the job has come. -/
structure Onward (h h' : Handle κ) : Prop where
  root : h'.root = h.root
  stage : h.future.stage.Onward h'.future.stage
  flagged : h.token.isCancelled = true → h'.token.isCancelled = true

theorem Onward.refl (h : Handle κ) : Onward h h :=
  ⟨rfl, .stays, id⟩

theorem Onward.trans {a b c : Handle κ} (h : Onward a b) (g : Onward b c) : Onward a c where
  root := g.root.trans h.root
  stage := h.stage.trans g.stage
  flagged f := g.flagged (h.flagged f)

theorem cancelStep_onward (c : Cancelling) (h : Handle κ) : Onward h (h.cancelStep c).2.1 := by
  have change := h.cancelStep_change c
  refine ⟨?_, change.onward, ?_⟩
  · cases c with
    | asking | flagging | withdrawing | checking | reporting | answered _ => rfl
  · cases c with
    | flagging => exact fun _ => rfl
    | asking | withdrawing | checking | reporting | answered _ => exact id

theorem step_onward (x : Handling κ) (t : Turn κ) : Onward x.handle (x.step t).handle := by
  cases t with
  | start =>
      simp only [step]
      split
      · next future answer => exact ⟨rfl, Future.start_onward answer, id⟩
      · exact .refl _
  | settle o =>
      simp only [step]
      split
      · next future ran answer => exact ⟨rfl, Future.settle_onward answer, id⟩
      · exact .refl _
  | addCallback k =>
      refine ⟨rfl, ?_, id⟩
      simp only [step, Handle.addCallback, Handle.withFuture, Future.addCallback_stage]
      exact .stays
  | askResult | askFailure | request => exact .refl _
  | goOn i =>
      simp only [step]
      split
      · exact .refl _
      · next c found => exact cancelStep_onward c x.handle

theorem follow_onward (turns : List (Turn κ)) (x : Handling κ) :
    Onward x.handle (x.follow turns).handle := by
  induction turns generalizing x with
  | nil => exact .refl _
  | cons t turns ih => exact (x.step_onward t).trans (ih (x.step t))

end Handling

namespace Handle

/-- What it means that a handle is in a status, by what it answers. -/
def Has (h : Handle κ) : JobStatus → Prop
  | .pending => h.isRunning = false ∧ h.isDone = false
  | .running => h.isRunning = true
  | .completed => h.isDone = true ∧ ∃ p, h.result = .ok p
  | .failed => h.isDone = true ∧ h.isCancelled = false ∧ ∃ f, h.failure = .ok (some f)
  | .cancelled => h.isCancelled = true

/-- All that a handle shows is of one piece. -/
structure Coherent (h : Handle κ) : Prop where
  status : ∃ s, h.Has s ∧ (∀ s', h.Has s' → s' = s) ∧
    h.shown = "<ScanHandle root=" ++ Text.quoted h.root.text ++ " " ++ s.text ++ ">"
  running : h.isRunning = true → h.isDone = false
  cancelled : h.isCancelled = true → h.isDone = true
  unfinished : h.result = .error .jobUnfinished ↔ h.isDone = false
  undecided : h.failure = .error .jobUnfinished ↔ h.isDone = false
  withdrawn : h.isDone = true → (h.isCancelled = true ↔ h.result = .error .jobCancelled) ∧
    (h.isCancelled = true ↔ h.failure = .error .jobCancelled)
  succeeded : h.isDone = true → h.isCancelled = false →
    (h.failure = .ok none ↔ ∃ p, h.result = .ok p)
  failed : ∀ f, h.failure = .ok (some f) → h.result = .error f

/-- A handle that shows the same as another. -/
structure LooksLike (h' h : Handle κ) : Prop where
  isDone : h'.isDone = h.isDone
  isCancelled : h'.isCancelled = h.isCancelled
  isRunning : h'.isRunning = h.isRunning
  shown : h'.shown = h.shown
  result : h'.result = h.result
  failure : h'.failure = h.failure

/-- A job does not fail with what stands for a withdrawn or an unfinished job. -/
def IsProper (h : Handle κ) : Prop :=
    ∀ f, h.future.stage = .finished (.error f) → f ≠ .jobCancelled ∧ f ≠ .jobUnfinished

/-- All the answers of a handle. -/
structure Answers (h : Handle κ) (status : JobStatus) (running done cancelled : Bool)
    (result : Outcome) (failure : Except Failure (Option Failure)) : Prop where
  status : h.status = status
  running : h.isRunning = running
  done : h.isDone = done
  cancelled : h.isCancelled = cancelled
  result : h.result = result
  failure : h.failure = failure

/-- The answers that go together. -/
inductive Face (h : Handle κ) : Prop where
  | pending (answers : h.Answers .pending false false false (.error .jobUnfinished)
      (.error .jobUnfinished))
  | running (answers : h.Answers .running true false false (.error .jobUnfinished)
      (.error .jobUnfinished))
  | completed {p} (answers : h.Answers .completed false true false (.ok p) (.ok none))
  | failed {f} (answers : h.Answers .failed false true false (.error f) (.ok (some f)))
      (proper : f ≠ .jobCancelled ∧ f ≠ .jobUnfinished)
  | cancelled (answers : h.Answers .cancelled false true true (.error .jobCancelled)
      (.error .jobCancelled))

theorem answers_of_failed {h : Handle κ} {f : Failure}
    (failed : h.future.stage = .finished (.error f)) (other : f.isCancellation = false) :
    h.Answers .failed false true false (.error f) (.ok (some f)) := by
  constructor
  · simp [status, isCancelled, failed, other]
  · simp [isRunning, Future.isRunning, failed]
  · simp [isDone, Future.isDone, failed]
  · simp [isCancelled, failed, other]
  · simp only [result, Future.result, failed]
    split
    · next m same => cases same; cases other
    · rfl
  · simp only [failure, Future.failure, failed]
    split
    · next m same => cases same; cases other
    · rfl

theorem IsProper.face {h : Handle κ} (proper : h.IsProper) : h.Face := by
  obtain ⟨root, ⟨stage, callbacks⟩, token⟩ := h
  cases stage with
  | pending => exact .pending ⟨rfl, rfl, rfl, rfl, rfl, rfl⟩
  | running => exact .running ⟨rfl, rfl, rfl, rfl, rfl, rfl⟩
  | cancelled | cancelledNoted => exact .cancelled ⟨rfl, rfl, rfl, rfl, rfl, rfl⟩
  | finished o =>
      cases o with
      | ok p => exact .completed ⟨rfl, rfl, rfl, rfl, rfl, rfl⟩
      | error f =>
          by_cases stopped : ∃ m, f = .cancelled m
          · obtain ⟨m, rfl⟩ := stopped
            exact .cancelled ⟨rfl, rfl, rfl, rfl, rfl, rfl⟩
          · refine .failed (answers_of_failed rfl ?_) (proper f rfl)
            unfold Failure.isCancellation
            split
            · next m => exact absurd ⟨m, rfl⟩ stopped
            · rfl

theorem Face.has {h : Handle κ} (face : h.Face) (s : JobStatus) : h.Has s ↔ s = h.status := by
  cases face with
  | pending a | running a | completed a | failed a _ | cancelled a =>
      cases s <;> simp [Has, a.status, a.running, a.done, a.cancelled, a.result, a.failure]

theorem Face.coherent {h : Handle κ} (face : h.Face) : h.Coherent where
  status := ⟨h.status, (face.has _).mpr rfl, fun s' has => (face.has s').mp has, rfl⟩
  running := by
    intro running
    cases face with
    | running a => exact a.done
    | pending a | completed a | failed a _ | cancelled a => simp [a.running] at running
  cancelled := by
    intro cancelled
    cases face with
    | cancelled a => exact a.done
    | pending a | running a | completed a | failed a _ => simp [a.cancelled] at cancelled
  unfinished := by
    cases face with
    | failed a proper => simp [a.result, a.done, proper.2]
    | pending a | running a | completed a | cancelled a => simp [a.result, a.done]
  undecided := by
    cases face with
    | pending a | running a | completed a | failed a _ | cancelled a => simp [a.failure, a.done]
  withdrawn := by
    intro done
    cases face with
    | failed a proper => simp [a.cancelled, a.result, a.failure, proper.1]
    | completed a | cancelled a => simp [a.cancelled, a.result, a.failure]
    | pending a | running a => simp [a.done] at done
  succeeded := by
    intro done kept
    cases face with
    | completed a | failed a _ => simp [a.result, a.failure]
    | pending a | running a => simp [a.done] at done
    | cancelled a => simp [a.cancelled] at kept
  failed := by
    intro f failure
    cases face with
    | failed a _ =>
        rw [a.failure] at failure
        cases failure
        exact a.result
    | pending a | running a | completed a | cancelled a => simp [a.failure] at failure

theorem stage_of_result {h : Handle κ} {p : Path} (result : h.result = .ok p) :
    h.future.stage = .finished (.ok p) := by
  obtain ⟨root, ⟨stage, callbacks⟩, token⟩ := h
  cases stage with
  | pending | running | cancelled | cancelledNoted => cases result
  | finished o =>
      simp only [Handle.result, Future.result] at result
      split at result
      · cases result
      · rw [result]

/-- A job that is done shows the same for good. -/
theorem looksLike_of_onward {h h' : Handle κ} (onward : Handling.Onward h h')
    (done : h.isDone = true) : h'.LooksLike h := by
  obtain ⟨root, ⟨stage, callbacks⟩, token⟩ := h
  obtain ⟨root', ⟨stage', callbacks'⟩, token'⟩ := h'
  have same : root' = root := onward.root
  subst same
  have way : stage.Onward stage' := onward.stage
  cases way with
  | stays | notes => exact ⟨rfl, rfl, rfl, rfl, rfl, rfl⟩
  | leaves | finishes => cases done

end Handle

namespace Handling

variable {x : Handling κ}

/-- A job is finished only as it was settled. -/
theorem settled_of_finished {t : Turn κ} {o : Outcome}
    (finished : (x.step t).handle.future.stage = .finished o) :
    x.handle.future.stage = .finished o ∨ t = .settle o := by
  cases t with
  | start =>
      simp only [step] at finished
      split at finished
      · next future answer =>
        rcases Future.start_ok answer with ⟨-, after, -⟩ | ⟨-, after, -⟩
        · cases after.symm.trans finished
        · cases after.symm.trans finished
      · exact Or.inl finished
  | settle o' =>
      simp only [step] at finished
      split at finished
      · next future ran answer =>
        cases (Future.settle_ok answer).2.symm.trans finished
        exact Or.inr rfl
      · exact Or.inl finished
  | addCallback k =>
      simp only [step, Handle.addCallback, Handle.withFuture, Future.addCallback_stage] at finished
      exact Or.inl finished
  | askResult | askFailure | request => exact Or.inl finished
  | goOn i =>
      refine Or.inl ?_
      simp only [step] at finished
      split at finished
      · exact finished
      · next c found =>
        rcases (x.handle.cancelStep_change c).stage with same | ⟨-, after⟩ | ⟨-, after⟩
        · rw [← same]
          exact finished
        · cases after.symm.trans finished
        · cases after.symm.trans finished

theorem settled_of_follow {turns : List (Turn κ)} {root : Path} {o : Outcome}
    (finished : ((fresh root).follow turns).handle.future.stage = .finished o) :
    .settle o ∈ turns := by
  induction turns using List.reverseRecOn with
  | nil => cases finished
  | append_singleton turns t ih =>
      rw [follow_append] at finished
      rcases settled_of_finished finished with before | rfl
      · exact List.mem_append_left _ (ih before)
      · simp

/-- Whatever is done with a job and its handle, and in whatever order: what the handle shows is of
one piece, a root that it gives is one that the job was settled with, and once the job is done the
handle shows the same for good. -/
theorem follow_coherent (root : Path) (turns : List (Turn κ))
    (proper : ∀ f, .settle (.error f) ∈ turns → f ≠ .jobCancelled ∧ f ≠ .jobUnfinished) :
    ((fresh root).follow turns).handle.Coherent ∧
      ((fresh root).follow turns).handle.root = root ∧
      (∀ p, ((fresh root).follow turns).handle.result = .ok p → .settle (.ok p) ∈ turns) ∧
      (((fresh root).follow turns).handle.isDone = true → ∀ later,
        ((fresh root).follow (turns ++ later)).handle.LooksLike
          ((fresh root).follow turns).handle) := by
  have whole : ((fresh root).follow turns).handle.IsProper :=
    fun f finished => proper f (settled_of_follow finished)
  refine ⟨whole.face.coherent, (follow_onward turns (fresh root)).root, ?_, ?_⟩
  · intro p result
    exact settled_of_follow (Handle.stage_of_result result)
  · intro done later
    rw [follow_append]
    exact Handle.looksLike_of_onward (follow_onward later _) done

/-- The job heeds its token while the request that set it is still on its way. -/
def stoppedTurns : List (Turn Unit) :=
    [.start, .request, .goOn 0, .goOn 0, .settle (.error Token.stop), .goOn 0, .goOn 0, .goOn 0]

theorem stopped_follow_coherent :
    (∀ f, .settle (.error f) ∈ stoppedTurns → f ≠ .jobCancelled ∧ f ≠ .jobUnfinished) ∧
      ((fresh ⟨.here, ["t"]⟩).follow stoppedTurns).handle.Coherent ∧
      ((fresh ⟨.here, ["t"]⟩).follow stoppedTurns).handle.isCancelled = true ∧
      ((fresh ⟨.here, ["t"]⟩).follow stoppedTurns).requests = [.answered true] := by
  have proper : ∀ f, .settle (.error f) ∈ stoppedTurns →
      f ≠ .jobCancelled ∧ f ≠ .jobUnfinished := by
    intro f settled
    simp only [stoppedTurns, List.mem_cons, List.not_mem_nil] at settled
    have same : f = Token.stop := by simpa using settled
    rw [same]
    exact ⟨nofun, nofun⟩
  exact ⟨proper, (follow_coherent _ stoppedTurns proper).1, rfl, rfl⟩

end Handling
end FileCensus
