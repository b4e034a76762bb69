import FileCensus.Proofs.Order

/-!
A job goes through its stages in one direction, whoever moves it: it leaves the first one once, and
a job that is done changes no more but in that the worker takes note of a withdrawal. Nothing is
said of how long a stage lasts.
-/

namespace FileCensus

variable {ε κ : Type}

/-- What a stage may have become at a later time. -/
inductive Stage.Onward : Stage → Stage → Prop where
  | stays {a} : Onward a a
  | leaves {a} : Onward .pending a
  | finishes {o} : Onward .running (.finished o)
  | notes : Onward .cancelled .cancelledNoted

namespace Stage.Onward

variable {a b c : Stage}

theorem trans (h : a.Onward b) (g : b.Onward c) : a.Onward c := by
  cases h with
  | stays => exact g
  | leaves => exact .leaves
  | finishes => cases g; exact .finishes
  | notes => cases g; exact .notes

theorem left (h : a.Onward b) (past : a ≠ .pending) : b ≠ .pending := by
  cases h with
  | stays => exact past
  | leaves => exact absurd rfl past
  | finishes | notes => exact nofun

theorem started (h : a.Onward b) (started : a.isStarted = true) : b.isStarted = true := by
  cases h with
  | stays => exact started
  | finishes => rfl
  | leaves | notes => cases started

/-- A job that is past its first stage is not taken up any more. -/
theorem isStarted_eq (h : a.Onward b) (past : a ≠ .pending) : b.isStarted = a.isStarted := by
  cases h with
  | stays | finishes | notes => rfl
  | leaves => exact absurd rfl past

end Stage.Onward

theorem Stage.Passes.onward {a b : Stage} (h : a.Passes b) : a.Onward b := by
  rcases h with rfl | ⟨rfl, rfl⟩ | ⟨rfl, rfl⟩
  · exact .stays
  · exact .leaves
  · exact .notes

namespace Future

variable {f f' : Future κ}

theorem start_ok {starts : Bool} (h : f.start = .ok (starts, f')) :
    f.stage = .pending ∧ f'.stage = .running ∧ starts = true ∨
      f.stage = .cancelled ∧ f'.stage = .cancelledNoted ∧ starts = false := by
  cases stage : f.stage with
  | pending =>
      simp only [start, stage] at h
      cases h
      exact Or.inl ⟨rfl, rfl, rfl⟩
  | cancelled =>
      simp only [start, stage] at h
      cases h
      exact Or.inr ⟨rfl, rfl, rfl⟩
  | running | cancelledNoted | finished _ => simp [start, stage] at h

theorem start_onward {starts : Bool} (h : f.start = .ok (starts, f')) :
    f.stage.Onward f'.stage := by
  rcases start_ok h with ⟨before, -, -⟩ | ⟨before, after, -⟩
  · rw [before]
    exact .leaves
  · rw [before, after]
    exact .notes

theorem settle_ok {o : Outcome} {ran : List κ} (h : f.settle o = .ok (f', ran)) :
    f.isDone = false ∧ f'.stage = .finished o := by
  cases done : f.isDone with
  | true => simp [settle, done] at h
  | false =>
      simp only [settle, done, Bool.false_eq_true, if_false] at h
      cases h
      exact ⟨rfl, rfl⟩

theorem settle_onward {o : Outcome} {ran : List κ} (h : f.settle o = .ok (f', ran)) :
    f.stage.Onward f'.stage := by
  obtain ⟨undone, finished⟩ := settle_ok h
  rw [finished]
  cases stage : f.stage with
  | pending => exact .leaves
  | running => exact .finishes
  | cancelled | cancelledNoted | finished _ => simp [isDone, stage] at undone

theorem addCallback_stage (f : Future κ) (k : κ) : (f.addCallback k).1.stage = f.stage := by
  simp only [addCallback]
  split <;> rfl

end Future

theorem Handle.Change.onward {h h' : Handle κ} {ran : List κ} (c : h.Change h' ran) :
    h.future.stage.Onward h'.future.stage :=
  c.stage.onward

namespace Core

variable {c c' : Core ε} {calls : List Call} {n m : Nat} {j j' : Job ε}

theorem onward_set {a : Job ε} (job : c.jobs[n]? = some j)
    (onward : j.handle.future.stage.Onward j'.handle.future.stage) (found : c.jobs[m]? = some a) :
    ∃ a', (c.jobs.set n j')[m]? = some a' ∧
      a.handle.future.stage.Onward a'.handle.future.stage := by
  by_cases same : n = m
  · subst same
    cases job.symm.trans found
    exact ⟨j', List.getElem?_set_self (List.getElem?_eq_some_iff.mp job).1, onward⟩
  · exact ⟨a, by rw [List.getElem?_set_ne same, found], .stays⟩

theorem Moves.onward (move : c.Moves c' calls) (found : c.jobs[m]? = some j) :
    ∃ j', c'.jobs[m]? = some j' ∧ j.handle.future.stage.Onward j'.handle.future.stage := by
  cases move with
  | rests | strays _ _ | halts _ _ | frees _ => exact ⟨j, found, .stays⟩
  | handles job change | drops _ job change _ => exact onward_set job change.onward found
  | starts _ _ job pending =>
      apply onward_set job _ found
      rw [pending]
      exact .leaves
  | walks _ job _ => exact onward_set job .stays found
  | @settles n j o _ job _ undone =>
      apply onward_set job _ found
      cases stage : j.handle.future.stage with
      | pending => exact .leaves
      | running => exact .finishes
      | cancelled | cancelledNoted | finished _ => simp [Future.isDone, stage] at undone

end Core
end FileCensus
