import FileCensus.Proofs.Roster

/-!
Each job of a scanner belongs to one submission: one that was accepted with the number of the job,
or the one that holds the lock. A submission that is refused has no job, and it is refused only
because the scanner was closed or because its filters could not be made.
-/

namespace FileCensus

variable {ε : Type}

namespace Reception

variable {w : Surroundings ε} {x y : Reception ε}

/-- A submission that has its job entered, or is about to have it entered. -/
def Owns (x : Reception ε) (i n : Nat) : Prop :=
    (∃ root, x.traffic.submissions[i]? = some (root, .accepted n)) ∨
      ∃ e, x.inside = some (i, e) ∧ e.job? = some n

/-- Each job belongs to one submission, and a refusal has its reason. -/
structure Owned (w : Surroundings ε) (x : Reception ε) : Prop where
  entering : ∀ (i : Nat) e, x.inside = some (i, e) →
    ∃ root p, x.traffic.submissions[i]? = some (root, .entering p)
  owner : ∀ n, n < x.scanner.jobs.length → ∃ i, x.Owns i n
  entered : ∀ i n, x.Owns i n → n < x.scanner.jobs.length
  unique : ∀ i i' n, x.Owns i n → x.Owns i' n → i = i'
  refused : ∀ (i : Nat) root f, x.traffic.submissions[i]? = some (root, .refused f) →
    f = .closed ∨ w.supportsMarks root = .error f

/-- A submission that was refused has no job. -/
theorem Owned.not_owns_of_refused (h : x.Owned w) {i : Nat} {root : Path} {f : Failure}
    (refused : x.traffic.submissions[i]? = some (root, .refused f)) (n : Nat) : ¬x.Owns i n := by
  rintro (⟨r, accepted⟩ | ⟨e, inside, -⟩)
  · cases refused.symm.trans accepted
  · obtain ⟨r, p, entering⟩ := h.entering i e inside
    cases refused.symm.trans entering

theorem Owned.of_owns (h : x.Owned w) (length : y.scanner.jobs.length = x.scanner.jobs.length)
    (owns : ∀ i n, y.Owns i n ↔ x.Owns i n)
    (entering : ∀ (i : Nat) e, y.inside = some (i, e) →
      ∃ root p, y.traffic.submissions[i]? = some (root, .entering p))
    (refused : ∀ (i : Nat) root f, y.traffic.submissions[i]? = some (root, .refused f) →
      f = .closed ∨ w.supportsMarks root = .error f) : y.Owned w where
  entering := entering
  owner n less := by
    obtain ⟨i, owner⟩ := h.owner n (length ▸ less)
    exact ⟨i, (owns i n).mpr owner⟩
  entered i n owner := by
    rw [length]
    exact h.entered i n ((owns i n).mp owner)
  unique i i' n owner owner' := h.unique i i' n ((owns i n).mp owner) ((owns i' n).mp owner')
  refused := refused

theorem Owned.of_same (h : x.Owned w) (length : y.scanner.jobs.length = x.scanner.jobs.length)
    (submissions : y.traffic.submissions = x.traffic.submissions) (inside : y.inside = x.inside) :
    y.Owned w := by
  apply h.of_owns length
  · intro i n
    rw [Owns, submissions, inside, Owns]
  · rw [inside, submissions]
    exact h.entering
  · rw [submissions]
    exact h.refused

theorem Owned.answers (h : x.Owned w) {i : Nat} {root : Path} {a b : Submission ε}
    {s : Scanner ε} (found : x.traffic.submissions[i]? = some (root, a))
    (free : ∀ p, a = .entering p → x.inside = none) (next : Submission.Next w root a b)
    (jobs : s.jobs = x.scanner.jobs) :
    Owned w { x with traffic := { x.traffic with
      scanner := s
      submissions := x.traffic.submissions.set i (root, b) } } := by
  have less := (List.getElem?_eq_some_iff.mp found).1
  have accepted : ∀ (k n : Nat) r, (x.traffic.submissions.set i (root, b))[k]? =
      some (r, .accepted n) ↔ x.traffic.submissions[k]? = some (r, .accepted n) := by
    intro k n r
    by_cases same : i = k
    · subst same
      rw [List.getElem?_set_self less, found]
      simp only [Option.some.injEq, Prod.mk.injEq, next.accepted]
    · rw [List.getElem?_set_ne same]
  refine h.of_owns (congrArg List.length jobs) ?_ ?_ ?_
  · intro k n
    simp only [Owns, accepted]
  · intro k e inside
    obtain ⟨r, p, entering⟩ := h.entering k e inside
    have other : i ≠ k := by
      rintro rfl
      cases found.symm.trans entering
      have none := free p rfl
      rw [none] at inside
      cases inside
    exact ⟨r, p, by rw [List.getElem?_set_ne other, entering]⟩
  · intro k r f refused
    rcases getElem?_set_cases refused with ⟨rfl, same⟩ | ⟨-, old⟩
    · cases same
      rcases next.refused f rfl with before | closed | marks
      · subst before
        exact h.refused k root f found
      · exact Or.inl closed
      · exact Or.inr marks
    · exact h.refused k r f old

theorem owns_of_inside {i k n : Nat} {e : Admission ε} (inside : x.inside = some (i, e)) :
    x.Owns k n ↔ (∃ root, x.traffic.submissions[k]? = some (root, .accepted n)) ∨
      k = i ∧ e.job? = some n := by
  rw [Owns, inside]
  constructor
  · rintro (accepted | ⟨e', same, job⟩)
    · exact Or.inl accepted
    · cases same
      exact Or.inr ⟨rfl, job⟩
  · rintro (accepted | ⟨rfl, job⟩)
    · exact Or.inl accepted
    · exact Or.inr ⟨e, rfl, job⟩

theorem owns_of_free {k n : Nat} (free : x.inside = none) :
    x.Owns k n ↔ ∃ root, x.traffic.submissions[k]? = some (root, .accepted n) := by
  rw [Owns, free]
  simp

/-- The submission that holds the lock goes on with the same job. -/
theorem Owned.goes (h : x.Owned w) {i : Nat} {e e' : Admission ε} (inside : x.inside = some (i, e))
    (inside' : y.inside = some (i, e')) (job : e'.job? = e.job?)
    (submissions : y.traffic.submissions = x.traffic.submissions)
    (length : y.scanner.jobs.length = x.scanner.jobs.length) : y.Owned w := by
  apply h.of_owns length
  · intro k n
    rw [owns_of_inside inside, owns_of_inside inside', submissions, job]
  · intro k e'' inside''
    cases inside'.symm.trans inside''
    rw [submissions]
    exact h.entering i e inside
  · rw [submissions]
    exact h.refused

theorem Owned.schedules (h : x.Owned w) {i : Nat} {p : Plan ε} {left kept : List Nat}
    (inside : x.inside = some (i, .scheduling p)) :
    Owned w { x.withScanner (x.scanner.schedule p) with
      inside := some (i, .sifting x.scanner.jobs.length left kept) } := by
  have owns : ∀ k n : Nat, Owns { x.withScanner (x.scanner.schedule p) with
      inside := some (i, .sifting x.scanner.jobs.length left kept) } k n ↔
      x.Owns k n ∨ k = i ∧ n = x.scanner.jobs.length := by
    intro k n
    rw [owns_of_inside rfl, owns_of_inside inside]
    simp [withScanner, Admission.job?, eq_comm]
  have length : (x.scanner.schedule p).jobs.length = x.scanner.jobs.length + 1 := by
    simp [Scanner.schedule]
  constructor
  · intro k e' inside'
    cases inside'
    exact h.entering i _ inside
  · intro n less
    have less : n < (x.scanner.schedule p).jobs.length := less
    by_cases last : n = x.scanner.jobs.length
    · exact ⟨i, (owns i n).mpr (Or.inr ⟨rfl, last⟩)⟩
    · obtain ⟨k, owner⟩ := h.owner n (by omega)
      exact ⟨k, (owns k n).mpr (Or.inl owner)⟩
  · intro k n owner
    change n < (x.scanner.schedule p).jobs.length
    cases (owns k n).mp owner with
    | inl old =>
        have less := h.entered k n old
        omega
    | inr new => omega
  · intro k k' n owner owner'
    rcases (owns k n).mp owner with old | ⟨this, last⟩
    · rcases (owns k' n).mp owner' with old' | ⟨this', last'⟩
      · exact h.unique k k' n old old'
      · have less := h.entered k n old
        omega
    · rcases (owns k' n).mp owner' with old' | ⟨this', last'⟩
      · have less := h.entered k' n old'
        omega
      · rw [this, this']
  · exact h.refused

theorem Owned.accepts (h : x.Owned w) {i n : Nat} {e : Admission ε} {s : Scanner ε}
    (inside : x.inside = some (i, e)) (job : e.job? = some n)
    (length : s.jobs.length = x.scanner.jobs.length) :
    Owned w { x with
      traffic := { x.traffic with
        scanner := s
        submissions := x.traffic.submissions.modify i fun q => (q.1, .accepted n) }
      inside := none } := by
  obtain ⟨root, p, found⟩ := h.entering i e inside
  refine h.of_owns length ?_ ?_ ?_
  -- The job passes from the admission to the submission, and stays with the same one.
  · intro k m
    rw [owns_of_free rfl, owns_of_inside inside, job]
    by_cases same : i = k
    · subst same
      simp [found]
    · simp [same, Ne.symm same]
  · intro k e' inside'
    cases inside'
  · intro k r f refused
    by_cases same : i = k
    · subst same
      simp [found] at refused
    · apply h.refused k r f
      simpa [same] using refused

theorem Owned.goOn (h : x.Owned w) (closing : x.Closing) {i : Nat} {e : Admission ε}
    (inside : x.inside = some (i, e)) : (x.goOn i e).Owned w := by
  cases e with
  | scheduling p =>
      have going := closing.going inside
      simp only [Reception.goOn, Scanner.enterStep, going, Bool.false_eq_true, if_false]
      exact h.schedules inside
  | sifting n left kept =>
      cases left with
      | nil | cons _ _ => exact h.goes inside rfl rfl rfl rfl
  | resifting n left kept =>
      cases left with
      | nil => exact h.accepts inside rfl rfl
      | cons m left => exact h.goes inside rfl rfl rfl rfl

theorem Owned.moves (h : x.Owned w) (closing : x.Closing) (move : Moves w x y) : y.Owned w := by
  cases move with
  | rests | calls | awaits _ | looks => exact h.of_same rfl rfl rfl
  | works _ length _ submissions _ => exact h.of_same length submissions rfl
  | answers found free next jobs _ => exact h.answers found free next jobs
  | enters inside => exact h.goOn closing inside
  | @winds i q _ _ =>
      have move := x.scanner.stopStep_moves q.kind q.phase
      exact h.of_same move.length rfl rfl
  | @scans root =>
      have accepted : ∀ (i n : Nat) r, (x.traffic.submissions ++ [(root, .asking)])[i]? =
          some (r, .accepted n) ↔ x.traffic.submissions[i]? = some (r, .accepted n) := by
        intro i n r
        constructor
        · intro found
          rcases getElem?_snoc_cases found with ⟨-, old⟩ | ⟨-, new⟩
          · exact old
          · cases new
        · intro found
          rw [List.getElem?_append_left (List.getElem?_eq_some_iff.mp found).1, found]
      refine h.of_owns rfl ?_ ?_ ?_
      · intro i n
        simp only [Owns, accepted]
      · intro i e inside
        obtain ⟨r, p, found⟩ := h.entering i e inside
        refine ⟨r, p, ?_⟩
        rw [List.getElem?_append_left (List.getElem?_eq_some_iff.mp found).1, found]
      · intro i r f refused
        rcases getElem?_snoc_cases refused with ⟨-, old⟩ | ⟨-, new⟩
        · exact h.refused i r f old
        · cases new
  | @admits i root p free _ found =>
      refine h.of_owns rfl ?_ ?_ ?_
      · intro k n
        rw [owns_of_free free, owns_of_inside rfl]
        simp [Admission.job?]
      · intro k e inside
        cases inside
        exact ⟨root, p, found⟩
      · exact h.refused

end Reception
end FileCensus
