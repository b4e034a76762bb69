import FileCensus.Proofs.Handling

/-!
What a request to cancel a job answers, when the job may be taken up or settled between any two of
its steps. It denies only a job that is done and not cancelled, it grants only a job that is
cancelled or has been told to stop while it ran, and after five steps of its own it has answered.
Whether a job that was told to stop heeds it is not decided here.
-/

namespace FileCensus

variable {κ : Type}

/-- How many steps a request still takes at most. -/
def Cancelling.ahead : Cancelling → Nat
  | .asking => 5
  | .flagging => 4
  | .withdrawing => 3
  | .checking => 2
  | .reporting => 1
  | .answered _ => 0

theorem Handle.cancelStep_ahead (h : Handle κ) (c : Cancelling) :
    (h.cancelStep c).1.ahead ≤ c.ahead - 1 := by
  cases c with
  | asking | withdrawing | checking =>
      simp only [Handle.cancelStep]
      split <;> simp [Cancelling.ahead]
  | flagging | reporting | answered _ => simp [Handle.cancelStep, Cancelling.ahead]

/-- What a request may rely on when it has come this far. -/
def Handle.Supports (h : Handle κ) : Cancelling → Prop
  | .asking | .flagging => True
  | .withdrawing => h.token.isCancelled = true
  | .checking => h.token.isCancelled = true ∧ h.future.stage.isStarted = true
  | .reporting => h.isDone = true
  | .answered granted =>
      if granted then h.isCancelled = true ∨ h.token.isCancelled = true
      else h.isDone = true ∧ h.isCancelled = false

namespace Handle

variable {h h' : Handle κ} {c : Cancelling}

theorem finished_of_kept (done : h.isDone = true) (kept : h.isCancelled = false) :
    ∃ o, h.future.stage = .finished o ∧ ∀ m, o ≠ .error (.cancelled m) := by
  cases stage : h.future.stage with
  | pending | running => simp [isDone, Future.isDone, stage] at done
  | cancelled | cancelledNoted => simp [isCancelled, stage] at kept
  | finished o =>
      refine ⟨o, rfl, ?_⟩
      rintro m rfl
      simp [isCancelled, stage, Failure.isCancellation] at kept

theorem isCancelled_isDone (cancelled : h.isCancelled = true) : h.isDone = true := by
  cases stage : h.future.stage with
  | pending | running => simp [isCancelled, stage] at cancelled
  | cancelled | cancelledNoted | finished _ => simp [isDone, Future.isDone, stage]

theorem isCancelled_of_onward (onward : Handling.Onward h h') (cancelled : h.isCancelled = true) :
    h'.isCancelled = true := by
  rw [(looksLike_of_onward onward (isCancelled_isDone cancelled)).isCancelled, cancelled]

theorem isRunning_of_started (started : h.future.stage.isStarted = true)
    (undone : h.isDone = false) : h.isRunning = true := by
  cases stage : h.future.stage with
  | pending | cancelled | cancelledNoted => simp [stage, Stage.isStarted] at started
  | running => simp [isRunning, Future.isRunning, stage]
  | finished _ => simp [isDone, Future.isDone, stage] at undone

/-- What a request relies on is never taken back. -/
theorem Supports.onward (supports : h.Supports c) (onward : Handling.Onward h h') :
    h'.Supports c := by
  cases c with
  | asking | flagging => trivial
  | withdrawing => exact onward.flagged supports
  | checking => exact ⟨onward.flagged supports.1, onward.stage.started supports.2⟩
  | reporting => exact (looksLike_of_onward onward supports).isDone.trans supports
  | answered granted =>
      cases granted with
      | true => exact supports.imp (isCancelled_of_onward onward) onward.flagged
      | false =>
          have same := looksLike_of_onward onward supports.1
          exact ⟨same.isDone.trans supports.1, same.isCancelled.trans supports.2⟩

/-- How a request comes to be granted. -/
theorem Supports.granted (supports : h.Supports c)
    (granted : (h.cancelStep c).1 = .answered true) :
    (h.cancelStep c).2.1.isCancelled = true ∨ c = .answered true ∨
      c = .checking ∧ h.isRunning = true ∧ h.token.isCancelled = true := by
  cases c with
  | asking =>
      simp only [Handle.cancelStep] at granted
      split at granted <;> cases granted
  | flagging => cases granted
  | withdrawing =>
      refine Or.inl ?_
      cases stage : h.future.stage with
      | pending | cancelled | cancelledNoted =>
          simp [Handle.cancelStep, Future.cancel, stage, isCancelled]
      | running | finished _ => simp [Handle.cancelStep, Future.cancel, stage] at granted
  | checking =>
      cases done : h.isDone with
      | true => simp [Handle.cancelStep, done] at granted
      | false => exact Or.inr (Or.inr ⟨rfl, isRunning_of_started supports.2 done, supports.1⟩)
  | reporting =>
      simp only [Handle.cancelStep, Cancelling.answered.injEq] at granted
      exact Or.inl granted
  | answered _ => exact Or.inr (Or.inl granted)

theorem Supports.cancelStep (supports : h.Supports c) :
    (h.cancelStep c).2.1.Supports (h.cancelStep c).1 := by
  cases c with
  | asking =>
      cases done : h.isDone with
      | true => simp only [Handle.cancelStep, done, if_true]; exact done
      | false => simp only [Handle.cancelStep, done]; trivial
  | flagging => rfl
  | withdrawing =>
      have flagged : h.token.isCancelled = true := supports
      cases stage : h.future.stage with
      | pending | cancelled | cancelledNoted =>
          simp [Handle.cancelStep, Future.cancel, stage, Supports, isCancelled]
      | running | finished _ =>
          simp [Handle.cancelStep, Future.cancel, stage, Supports, flagged, Stage.isStarted]
  | checking =>
      cases done : h.isDone with
      | true => simp only [Handle.cancelStep, done, if_true]; exact done
      | false => simp only [Handle.cancelStep, done]; exact Or.inr supports.1
  | reporting =>
      cases cancelled : h.isCancelled with
      | true => simp only [Handle.cancelStep, cancelled]; exact Or.inl cancelled
      | false => simp only [Handle.cancelStep, cancelled]; exact ⟨supports, cancelled⟩
  | answered granted => exact supports

end Handle

namespace Handling

variable {x : Handling κ} {i : Nat} {c : Cancelling}

def Turn.isGoOn (i : Nat) : Turn κ → Bool
  | .goOn j => i == j
  | _ => false

theorem step_requests {t : Turn κ} (found : x.requests[i]? = some c) (other : t ≠ .goOn i) :
    (x.step t).requests[i]? = some c := by
  cases t with
  | start | settle _ =>
      simp only [step]
      split <;> exact found
  | addCallback _ | askResult | askFailure => exact found
  | request =>
      have less := (List.getElem?_eq_some_iff.mp found).1
      exact (List.getElem?_append_left less).trans found
  | goOn j =>
      have different : j ≠ i := by
        intro same
        exact other (by rw [same])
      simp only [step]
      split
      · exact found
      · exact (List.getElem?_set_ne different).trans found

theorem step_own (found : x.requests[i]? = some c) :
    (x.step (.goOn i)).requests[i]? = some (x.handle.cancelStep c).1 := by
  rw [step_goOn found]
  exact List.getElem?_set_self (List.getElem?_eq_some_iff.mp found).1

/-- How a request has come to where it is. -/
theorem step_requests_cases {t : Turn κ} (found : (x.step t).requests[i]? = some c) :
    x.requests[i]? = some c ∧ t ≠ .goOn i ∨ c = .asking ∨
      ∃ c₀, t = .goOn i ∧ x.requests[i]? = some c₀ ∧ c = (x.handle.cancelStep c₀).1 := by
  by_cases own : t = .goOn i
  · subst own
    cases before : x.requests[i]? with
    | none =>
        simp only [step, before] at found
        cases found
    | some c₀ =>
        have answer := Option.some.inj (found.symm.trans (step_own before))
        exact Or.inr (Or.inr ⟨c₀, rfl, rfl, answer⟩)
  · cases before : x.requests[i]? with
    | some c₀ =>
        cases found.symm.trans (step_requests before own)
        exact Or.inl ⟨rfl, own⟩
    | none =>
        refine Or.inr (Or.inl ?_)
        cases t with
        | start | settle _ =>
            simp only [step] at found
            split at found <;> cases before.symm.trans found
        | addCallback _ | askResult | askFailure => cases before.symm.trans found
        | request =>
            rcases getElem?_snoc_cases found with ⟨-, old⟩ | ⟨-, new⟩
            · cases before.symm.trans old
            · exact new
        | goOn j =>
            have different : j ≠ i := fun same => own (by rw [same])
            simp only [step] at found
            split at found
            · cases before.symm.trans found
            · rw [List.getElem?_set_ne different] at found
              cases before.symm.trans found

/-- Every request has what it relies on. -/
theorem follow_supports (root : Path) (turns : List (Turn κ)) (i : Nat) (c : Cancelling)
    (found : ((fresh root).follow turns).requests[i]? = some c) :
    ((fresh root).follow turns).handle.Supports c := by
  induction turns using List.reverseRecOn generalizing c with
  | nil => cases found
  | append_singleton turns t ih =>
      rw [follow_append] at found ⊢
      rcases step_requests_cases found with ⟨before, -⟩ | rfl | ⟨c₀, rfl, before, rfl⟩
      · exact (ih c before).onward (step_onward _ t)
      · trivial
      · change (step _ (.goOn i)).handle.Supports _
        rw [step_goOn before]
        exact (ih c₀ before).cancelStep

/-- At its second look a request found the job running, and told to stop. -/
def FoundRunning (root : Path) (turns : List (Turn κ)) (i : Nat) : Prop :=
    ∃ before after, turns = before ++ .goOn i :: after ∧
      ((fresh root).follow before).requests[i]? = some .checking ∧
      ((fresh root).follow before).handle.isRunning = true ∧
      ((fresh root).follow before).handle.token.isCancelled = true

theorem FoundRunning.snoc {root : Path} {turns : List (Turn κ)} (h : FoundRunning root turns i)
    (t : Turn κ) : FoundRunning root (turns ++ [t]) i := by
  obtain ⟨before, after, rfl, found⟩ := h
  exact ⟨before, after ++ [t], by simp, found⟩

theorem FoundRunning.flagged {root : Path} {turns : List (Turn κ)}
    (h : FoundRunning root turns i) :
    ((fresh root).follow turns).handle.token.isCancelled = true := by
  obtain ⟨before, after, rfl, -, -, flagged⟩ := h
  rw [follow_append]
  exact (follow_onward (.goOn i :: after) _).flagged flagged

theorem granted_of_follow (root : Path) (turns : List (Turn κ)) (i : Nat)
    (granted : ((fresh root).follow turns).requests[i]? = some (.answered true)) :
    ((fresh root).follow turns).handle.isCancelled = true ∨ FoundRunning root turns i := by
  induction turns using List.reverseRecOn with
  | nil => cases granted
  | append_singleton turns t ih =>
      have onward := step_onward ((fresh root).follow turns) t
      rw [follow_append] at granted ⊢
      rcases step_requests_cases granted with ⟨before, -⟩ | answer | ⟨c₀, rfl, before, answer⟩
      · cases ih before with
        | inl cancelled => exact Or.inl (Handle.isCancelled_of_onward onward cancelled)
        | inr running => exact Or.inr (running.snoc t)
      · cases answer
      -- The last step was the request's own, so what it relies on decides.
      · have supports := follow_supports root turns i c₀ before
        rcases supports.granted answer.symm with cancelled | rfl | ⟨rfl, running, flagged⟩
        · refine Or.inl ?_
          change (step _ (.goOn i)).handle.isCancelled = true
          rw [step_goOn before]
          exact cancelled
        · cases ih before with
          | inl cancelled => exact Or.inl (Handle.isCancelled_of_onward onward cancelled)
          | inr running => exact Or.inr (running.snoc _)
        · exact Or.inr ⟨turns, [], rfl, before, running, flagged⟩

theorem countP_own (turns : List (Turn κ)) :
    (.goOn i :: turns).countP (Turn.isGoOn i) = turns.countP (Turn.isGoOn i) + 1 := by
  simp [Turn.isGoOn]

theorem countP_other {t : Turn κ} (other : t ≠ .goOn i) (turns : List (Turn κ)) :
    (t :: turns).countP (Turn.isGoOn i) = turns.countP (Turn.isGoOn i) := by
  cases t with
  | goOn j =>
      have different : i ≠ j := fun same => other (by rw [same])
      simp [Turn.isGoOn, different]
  | start | settle _ | addCallback _ | askResult | askFailure | request => simp [Turn.isGoOn]

/-- A request has answered after at most five steps of its own. -/
theorem answered_of_steps (turns : List (Turn κ)) (found : x.requests[i]? = some c)
    (steps : c.ahead ≤ turns.countP (Turn.isGoOn i)) :
    ∃ granted, (x.follow turns).requests[i]? = some (.answered granted) := by
  induction turns generalizing x c with
  | nil =>
      cases c with
      | answered granted => exact ⟨granted, found⟩
      | asking | flagging | withdrawing | checking | reporting => simp [Cancelling.ahead] at steps
  | cons t turns ih =>
      by_cases own : t = .goOn i
      · subst own
        rw [countP_own] at steps
        apply ih (step_own found)
        have less := x.handle.cancelStep_ahead c
        omega
      · rw [countP_other own] at steps
        exact ih (step_requests found own) steps

/-- A request that came when the job was done, with the steps that it still takes. -/
inductive IsLate : Cancelling → Nat → Prop where
  | asking : IsLate .asking 2
  | reporting : IsLate .reporting 1
  | answered : IsLate (.answered false) 0

theorem IsLate.cancelStep {h : Handle κ} {n : Nat} (late : IsLate c n) (done : h.isDone = true)
    (kept : h.isCancelled = false) :
    IsLate (h.cancelStep c).1 (n - 1) ∧ (h.cancelStep c).2.1 = h := by
  cases late with
  | asking =>
      simp only [Handle.cancelStep, done, if_true]
      exact ⟨.reporting, trivial⟩
  | reporting =>
      simp only [Handle.cancelStep, kept]
      exact ⟨.answered, trivial⟩
  | answered => exact ⟨.answered, rfl⟩

theorem denied_of_late {n : Nat} (turns : List (Turn κ)) (found : x.requests[i]? = some c)
    (late : IsLate c n) (done : x.handle.isDone = true) (kept : x.handle.isCancelled = false)
    (steps : n ≤ turns.countP (Turn.isGoOn i)) :
    (x.follow turns).requests[i]? = some (.answered false) := by
  induction turns generalizing x c n with
  | nil =>
      cases late with
      | answered => exact found
      | asking | reporting => simp at steps
  | cons t turns ih =>
      have same := Handle.looksLike_of_onward (step_onward x t) done
      have done' := same.isDone.trans done
      have kept' := same.isCancelled.trans kept
      by_cases own : t = .goOn i
      · subst own
        rw [countP_own] at steps
        exact ih (step_own found) (late.cancelStep done kept).1 done' kept' (by omega)
      · rw [countP_other own] at steps
        exact ih (step_requests found own) late done' kept' steps

/-- Nothing but other requests reaches the handle of a job that is done. -/
theorem step_handle_of_late {n : Nat} {t : Turn κ} (found : x.requests[i]? = some c)
    (late : IsLate c n) (done : x.handle.isDone = true) (kept : x.handle.isCancelled = false)
    (alone : ∀ j, j ≠ i → t ≠ .goOn j) : (x.step t).handle = x.handle := by
  cases t with
  | start =>
      simp only [step]
      split
      · next future answer =>
        rcases Future.start_ok answer with ⟨before, -⟩ | ⟨before, -⟩
        · simp [Handle.isDone, Future.isDone, before] at done
        · simp [Handle.isCancelled, before] at kept
      · rfl
  | settle o =>
      simp only [step]
      split
      · next future ran answer =>
        have undone : x.handle.isDone = false := (Future.settle_ok answer).1
        rw [done] at undone
        cases undone
      · rfl
  | addCallback k =>
      have done : x.handle.future.isDone = true := done
      simp [step, Handle.addCallback, Handle.withFuture, Future.addCallback, done]
  | askResult | askFailure | request => rfl
  | goOn j =>
      by_cases same : j = i
      · subst same
        rw [step_goOn found]
        exact (late.cancelStep done kept).2
      · exact absurd rfl (alone j same)

theorem follow_handle_of_late {n : Nat} (turns : List (Turn κ))
    (found : x.requests[i]? = some c) (late : IsLate c n) (done : x.handle.isDone = true)
    (kept : x.handle.isCancelled = false) (alone : ∀ j, j ≠ i → .goOn j ∉ turns) :
    (x.follow turns).handle = x.handle := by
  induction turns generalizing x c n with
  | nil => rfl
  | cons t turns ih =>
      have same : (x.step t).handle = x.handle := by
        apply step_handle_of_late found late done kept
        intro j other here
        exact alone j other (by simp [here])
      have rest : ∀ j, j ≠ i → .goOn j ∉ turns :=
        fun j other later => alone j other (List.mem_cons_of_mem t later)
      have done' : (x.step t).handle.isDone = true := by rw [same, done]
      have kept' : (x.step t).handle.isCancelled = false := by rw [same, kept]
      rw [← same]
      by_cases own : t = .goOn i
      · subst own
        exact ih (step_own found) (late.cancelStep done kept).1 done' kept' rest
      · exact ih (step_requests found own) late done' kept' rest

/-- A job that was withdrawn before anybody took it up is never taken up. -/
theorem withdrawn_of_pending (turns : List (Turn κ)) (found : x.requests[i]? = some .withdrawing)
    (pending : x.handle.future.stage = .pending) :
    ((x.step (.goOn i)).follow turns).handle.isCancelled = true ∧
      ((x.step (.goOn i)).follow turns).handle.future.stage.isStarted = false := by
  have onward := follow_onward turns (x.step (.goOn i))
  have withdrawn : (x.step (.goOn i)).handle.future.stage = .cancelled := by
    rw [step_goOn found]
    simp [Handle.cancelStep, Future.cancel, pending]
  constructor
  · apply Handle.isCancelled_of_onward onward
    simp [Handle.isCancelled, withdrawn]
  · rw [onward.stage.isStarted_eq (by simp [withdrawn]), withdrawn]
    rfl

/-- What can be relied on in the answer of the request `i`, after these turns. -/
structure Truthful (root : Path) (turns : List (Turn κ)) (i : Nat) : Prop where
  denied : ((fresh root).follow turns).requests[i]? = some (.answered false) →
    ((fresh root).follow turns).handle.isDone = true ∧
      ((fresh root).follow turns).handle.isCancelled = false ∧
      ∃ o, ((fresh root).follow turns).handle.future.stage = .finished o ∧
        ∀ m, o ≠ .error (.cancelled m)
  granted : ((fresh root).follow turns).requests[i]? = some (.answered true) →
    ((fresh root).follow turns).handle.isCancelled = true ∨
      ((fresh root).follow turns).handle.token.isCancelled = true ∧ FoundRunning root turns i
  late : ∀ before after, turns = before ++ .request :: after →
    ((fresh root).follow before).requests.length = i →
    ((fresh root).follow before).handle.isDone = true →
    ((fresh root).follow before).handle.isCancelled = false →
      (2 ≤ after.countP (Turn.isGoOn i) →
        ((fresh root).follow turns).requests[i]? = some (.answered false)) ∧
      ((∀ j, j ≠ i → .goOn j ∉ after) →
        ((fresh root).follow turns).handle = ((fresh root).follow before).handle)
  withdrawn : ∀ before after, turns = before ++ .goOn i :: after →
    ((fresh root).follow before).requests[i]? = some .withdrawing →
    ((fresh root).follow before).handle.future.stage = .pending →
      ((fresh root).follow turns).handle.isCancelled = true ∧
        ((fresh root).follow turns).handle.future.stage.isStarted = false
  answers : ∀ before after, turns = before ++ .request :: after →
    ((fresh root).follow before).requests.length = i → 5 ≤ after.countP (Turn.isGoOn i) →
      ∃ granted, ((fresh root).follow turns).requests[i]? = some (.answered granted)

theorem step_request (x : Handling κ) :
    (x.step .request).requests[x.requests.length]? = some .asking := by
  simp [step]

/-- A request to cancel tells the truth, whatever happens to the job between its steps. -/
theorem follow_truthful (root : Path) (turns : List (Turn κ)) (i : Nat) :
    Truthful root turns i where
  denied denied := by
    obtain ⟨done, kept⟩ := follow_supports root turns i _ denied
    exact ⟨done, kept, Handle.finished_of_kept done kept⟩
  granted granted := by
    cases granted_of_follow root turns i granted with
    | inl cancelled => exact Or.inl cancelled
    | inr running => exact Or.inr ⟨running.flagged, running⟩
  late := by
    rintro before after rfl rfl done kept
    have found := step_request ((fresh root).follow before)
    rw [follow_append]
    exact ⟨denied_of_late after found .asking done kept,
      follow_handle_of_late after found .asking done kept⟩
  withdrawn := by
    rintro before after rfl found pending
    rw [follow_append]
    exact withdrawn_of_pending after found pending
  answers := by
    rintro before after rfl rfl steps
    rw [follow_append]
    exact answered_of_steps after (step_request _) steps

end Handling
end FileCensus
