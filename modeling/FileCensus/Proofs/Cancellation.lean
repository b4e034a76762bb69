import FileCensus.Proofs.Coverage
import FileCensus.Proofs.Record

/-!
A walk whose token has been cancelled. It looks at the token before it judges an entry and before
each attempt to put one, so a request to stop is followed by no more than what comes before the next
look: one call of the factory or one put, and one listing. The request may come in the middle of a
step, so nothing is assumed of what that step sees of it. The walk then comes to its end, whether
the queue gives way or not.
-/

namespace FileCensus

variable {ε : Type}

/-- The path of the node that a walk has at hand. -/
def Phase.path? (root : Path) : Phase ε → Option Path
  | .idle | .examining | .judging => some root
  | .opening path _ _ | .creating path => some path
  | .offering path _ | .putting path _ | .counting path _ | .signalling path _ |
    .notifying path _ => some path
  | .visiting directory e _ _ => some (directory.child e.name)
  | .turning | .ended _ => none

namespace Walk

/-- The entries that are still to be judged in the directories that are open. -/
def toVisit (w : Walk ε) : List (List String) :=
    match w.phase with
    | .idle | .examining | .ended _ => []
    | .judging => [[]]
    | .visiting _ _ relative _ => relative :: w.stack.flatMap Frame.agenda
    | _ => w.stack.flatMap Frame.agenda

/-- The factory calls and puts that come before the next look at the token. -/
def entriesDue : Phase ε → Nat
  | .creating _ | .putting .. => 1
  | _ => 0

def listingsDue : Phase ε → Nat
  | .idle | .examining | .opening .. => 1
  | _ => 0

/-- The factory calls and puts up to the next look at the token. -/
def entriesSpent (w : Walk ε) : Nat :=
    w.asked.length + w.put.length + entriesDue w.phase

def listingsSpent (w : Walk ε) : Nat :=
    w.listed.length + listingsDue w.phase

/-- At most so many steps are left once the token is cancelled: each directory has to be left. -/
def stepsLeft (w : Walk ε) : Nat :=
    match w.phase with
    | .ended _ => 0
    | .visiting .. | .judging | .offering .. => 1
    | .turning => w.stack.length + 2
    | .creating _ | .notifying .. => w.stack.length + 3
    | .opening .. | .signalling .. => w.stack.length + 4
    | .examining | .counting .. => w.stack.length + 5
    | .idle | .putting .. => w.stack.length + 6

/-- Whether all that a walk had at hand is done with. -/
def isFreed : Phase ε → Bool
  | .turning | .visiting .. | .ended _ => true
  | _ => false

variable {p : Plan ε} {t : Token} {w w' : Walk ε} {c : Channel ε} {s : Walk ε × Channel ε}

/-- Only a look at the token, and one that finds nothing, lets a walk do more. -/
theorem Advance.entries_le (a : Advance p t w c s) :
    s.1.entriesSpent ≤ w.entriesSpent ∨
      t.check = .ok () ∧ s.1.entriesSpent ≤ w.asked.length + w.put.length + 1 := by
  simp only [entriesSpent, asked_eq, put_eq]
  cases a with
  | @fails w' f trouble =>
      obtain ⟨g, ended⟩ := fail_phase w' p f
      have asked := trouble.collect_eq (k := .asked) fun _ => rfl
      have put := trouble.collect_eq (k := .put) fun _ => rfl
      simp only [collect_fail, asked, put, ended]
      exact Or.inl (Nat.le_add_right _ _)
  | drops _ _ dropped =>
      have asked := dropped.collect_eq (k := .asked) fun _ => rfl
      have put := dropped.collect_eq (k := .put) fun _ => rfl
      simp only [asked, put, dropped.phase]
      exact Or.inl (Nat.le_add_right _ _)
  | descends h free _ _ _ | accepts h free _ _ _ | dropsRoot h free _ | acceptsRoot h free _ _
  | tries h free => exact Or.inr ⟨free, by simp [Topic.asked, Topic.put, entriesDue]⟩
  | begins h | rootDirectory h _ _ | rootFile h _ _ | rootOther h _ _ _ | loops h _ _ _
  | enters h _ _ | completes h _ | takes h _ _ | turnedAway h _ _ | counts h | signals h _ =>
      exact Or.inl (by simp [h, Topic.asked, Topic.put, entriesDue])
  | unmade h _ | makes h _ | puts h _ _ =>
      refine Or.inl ?_
      simp [h, Topic.asked, Topic.put, entriesDue]
      omega
  | notifies h => exact Or.inl (by simp [collect_notify, Topic.asked, Topic.put, entriesDue])
  | leaves _ _ _ | rests _ => exact Or.inl (Nat.le_refl _)

theorem Advance.listings_le (a : Advance p t w c s) :
    s.1.listingsSpent ≤ w.listingsSpent ∨
      t.check = .ok () ∧ s.1.listingsSpent ≤ w.listed.length + 1 := by
  simp only [listingsSpent, listed]
  cases a with
  | @fails w' f trouble =>
      obtain ⟨g, ended⟩ := fail_phase w' p f
      have listed := trouble.collect_eq (k := .listed) fun _ => rfl
      simp only [collect_fail, listed, ended]
      exact Or.inl (Nat.le_add_right _ _)
  | drops _ _ dropped =>
      have listed := dropped.collect_eq (k := .listed) fun _ => rfl
      simp only [listed, dropped.phase]
      exact Or.inl (Nat.le_add_right _ _)
  | descends h free _ _ _ | accepts h free _ _ _ | dropsRoot h free _ | acceptsRoot h free _ _
  | tries h free => exact Or.inr ⟨free, by simp [Topic.listed, listingsDue]⟩
  | begins h | rootDirectory h _ _ | rootFile h _ _ | rootOther h _ _ _ | loops h _ _ _
  | enters h _ _ | completes h _ | takes h _ _ | turnedAway h _ _ | counts h | signals h _
  | unmade h _ | makes h _ | puts h _ _ =>
      exact Or.inl (by simp [h, Topic.listed, listingsDue])
  | notifies h => exact Or.inl (by simp [collect_notify, Topic.listed, listingsDue])
  | leaves _ _ _ | rests _ => exact Or.inl (Nat.le_refl _)

/-- A walk gets no new node to hand unless it was done with the one before. -/
theorem Advance.path?_eq (a : Advance p t w c s) :
    s.1.phase.path? p.root = w.phase.path? p.root ∨ isFreed s.1.phase = true := by
  cases a with
  | @fails w' f trouble =>
      obtain ⟨g, ended⟩ := fail_phase w' p f
      exact Or.inr (by rw [ended]; rfl)
  | drops _ _ dropped => exact Or.inr (by rw [dropped.phase]; rfl)
  | begins h | rootDirectory h _ _ | rootFile h _ _ | makes h _ | turnedAway h _ _ | puts h _ _
  | counts h | signals h _ | descends h _ _ _ _ | accepts h _ _ _ _ | acceptsRoot h _ _ _
  | tries h _ => exact Or.inl (by simp [h, Phase.path?])
  | rootOther _ _ _ _ | loops _ _ _ _ | enters _ _ _ | completes _ _ | takes _ _ _ | unmade _ _
  | dropsRoot _ _ _ | notifies _ => exact Or.inr (by simp [isFreed])
  | leaves _ _ _ | rests _ => exact Or.inl rfl

theorem Trouble.isFreed {f : Failure} (h : Trouble p t w c w' f) (blind : looks w.phase = false) :
    isFreed w.phase = false := by
  cases h with
  | cancelled look _ =>
      rw [look] at blind
      cases blind
  | excluding h _ _ | sorting h _ _ _ | including h _ _ _ _ =>
      rw [h] at blind
      cases blind
  | rootStatus h _ | status h _ _ | listing h _ _ | excludingRoot h _ _ | includingRoot h _ _ _
  | refused h _ | latched h _ => simp [h, Walk.isFreed]

section Flagged

variable (flagged : t.isCancelled = true)
include flagged

theorem not_free : t.check ≠ .ok () := by
  simp [Token.check, flagged]

theorem step_of_flagged (look : looks w.phase = true) :
    w.step p t c = (w.fail p Token.stop, c) :=
  Trouble.step (.cancelled look (by simp [Token.check, flagged]))

theorem Advance.judged_eq (a : Advance p t w c s) : s.1.judged = w.judged := by
  simp only [judged]
  cases a with
  | drops _ free _ | descends _ free _ _ _ | accepts _ free _ _ _ | dropsRoot _ free _
  | acceptsRoot _ free _ _ | tries _ free => exact absurd free (not_free flagged)
  | fails trouble =>
      rw [collect_fail]
      cases trouble with
      | excluding _ free _ | sorting _ free _ _ | including _ free _ _ _ | excludingRoot _ free _
      | includingRoot _ free _ _ => exact absurd free (not_free flagged)
      | _ => rfl
  | begins h | rootDirectory h _ _ | rootFile h _ _ | rootOther h _ _ _ | loops h _ _ _
  | enters h _ _ | completes h _ | takes h _ _ | turnedAway h _ _ | counts h | signals h _
  | unmade h _ | makes h _ | puts h _ _ => simp [Topic.judged]
  | notifies h => simp [collect_notify, Topic.judged]
  | leaves _ _ _ | rests _ => rfl

theorem Advance.isFreed (a : Advance p t w c s) (freed : isFreed w.phase = true) :
    Walk.isFreed s.1.phase = true := by
  cases a with
  | drops _ free _ | descends _ free _ _ _ | accepts _ free _ _ _ | dropsRoot _ free _
  | acceptsRoot _ free _ _ | tries _ free => exact absurd free (not_free flagged)
  | @fails w' f trouble =>
      obtain ⟨g, ended⟩ := fail_phase w' p f
      rw [ended]
      rfl
  | begins h | rootDirectory h _ _ | rootFile h _ _ | rootOther h _ _ _ | loops h _ _ _
  | enters h _ _ | unmade h _ | makes h _ | turnedAway h _ _ | puts h _ _ | counts h
  | signals h _ | notifies h => simp [h, Walk.isFreed] at freed
  | completes _ _ => rfl
  | takes _ _ _ => rfl
  | leaves _ _ _ | rests _ => exact freed

/-- Where an entry is left to visit, a walk can only fail. -/
theorem Advance.toVisit_ne (a : Advance p t w c s) (more : w.toVisit ≠ []) :
    s.1.toVisit ≠ [] ∨ ∃ f, s.1.phase = .ended (.error f) := by
  cases a with
  | drops _ free _ | descends _ free _ _ _ | accepts _ free _ _ _ | dropsRoot _ free _
  | acceptsRoot _ free _ _ | tries _ free => exact absurd free (not_free flagged)
  | @fails w' f trouble => exact Or.inr (fail_phase w' p f)
  | begins h | rootDirectory h _ _ | rootFile h _ _ | rootOther h _ _ _ | rests h =>
      simp [toVisit, h] at more
  | completes h empty => simp [toVisit, h, empty] at more
  | loops h _ _ _ | unmade h _ | makes h _ | turnedAway h _ _ | puts h _ _ | counts h
  | signals h _ | notifies h =>
      refine Or.inl ?_
      simpa [toVisit, h] using more
  | enters h _ _ =>
      refine Or.inl ?_
      simp only [toVisit, h, pushed_phase, pushed_stack, List.flatMap_cons] at more ⊢
      exact List.append_ne_nil_of_right_ne_nil _ more
  | leaves h top used =>
      refine Or.inl ?_
      simpa [toVisit, h, top, Frame.agenda, used] using more
  | takes h _ _ => exact Or.inl (List.cons_ne_nil _ _)

theorem Advance.stepsLeft_lt (a : Advance p t w c s) (awake : ∀ o, w.phase ≠ .ended o) :
    s.1.stepsLeft < w.stepsLeft := by
  cases a with
  | drops _ free _ | descends _ free _ _ _ | accepts _ free _ _ _ | dropsRoot _ free _
  | acceptsRoot _ free _ _ | tries _ free => exact absurd free (not_free flagged)
  | @fails w' f trouble =>
      obtain ⟨g, ended⟩ := fail_phase w' p f
      simp only [stepsLeft, ended]
      cases phase : w.phase with
      | ended o => exact absurd phase (awake o)
      | _ => simp
  | begins h | rootDirectory h _ _ | rootFile h _ _ | rootOther h _ _ _
  | completes h _ | loops h _ _ _ | unmade h _ | makes h _ | turnedAway h _ _ | puts h _ _
  | counts h | signals h _ | notifies h | enters h _ _ => simp [stepsLeft, h]
  | leaves h top used => simp [stepsLeft, h, top]
  | takes h _ _ => simp [stepsLeft, h]
  | rests h => exact absurd h (awake _)

end Flagged

/-- How a walk comes to its end once its token has been cancelled, before or during the step `k`: it
sees the token, or it fails at what it has at hand at this step, or nothing is left to visit. -/
inductive Ending (p : Plan ε) (r : Course ε) (k : Nat) (w : Walk ε) (o : Outcome) : Prop where
  | stopped (o_eq : o = .error Token.stop)
  | failed {m : Nat} {w' : Walk ε} {f : Failure} (late : k ≤ m)
      (trouble : Trouble p (r.token m) (w.after p r m) (r.channel m) w' f)
      (unseen : looks (w.after p r m).phase = true → (r.token m).isCancelled = false)
      (node : (w.after p r m).phase.path? p.root = (w.after p r k).phase.path? p.root)
      (o_eq : (w'.fail p f).phase = .ended o)
  | returned (nothing : ∀ m, k < m → (w.after p r m).toVisit = []) (o_eq : o = .ok p.root)

/-- What follows a request to stop that comes before or during the step `k`. -/
structure WindsUp (p : Plan ε) (r : Course ε) (k : Nat) (w : Walk ε) : Prop where
  entries : ∀ n, k ≤ n → ∃ asked put, (w.after p r n).asked = (w.after p r k).asked ++ asked ∧
    (w.after p r n).put = (w.after p r k).put ++ put ∧ asked.length + put.length ≤ 1
  listings : ∀ n, k ≤ n → ∃ listed,
    (w.after p r n).listed = (w.after p r k).listed ++ listed ∧ listed.length ≤ 1
  judged : ∀ n, k < n → (w.after p r n).judged = (w.after p r (k + 1)).judged
  retries : ∀ m n path e, k < m → m ≤ n → (w.after p r m).phase = .offering path e →
    (w.after p r n).put = (w.after p r m).put
  ending : ∃ n o, k ≤ n ∧ (w.after p r n).phase = .ended o ∧ Ending p r k w o

section Run

variable {r : Course ε} {k : Nat} (flagged : ∀ n, k < n → (r.token n).isCancelled = true)
include flagged

theorem entriesSpent_after {n : Nat} (late : k < n) :
    (w.after p r n).entriesSpent ≤
      (w.after p r k).asked.length + (w.after p r k).put.length + 1 := by
  induction late with
  | refl =>
      rcases (step_advances p (r.token k) (w.after p r k) (r.channel k)).entries_le with
        kept | ⟨-, seen⟩
      · have due : entriesDue (w.after p r k).phase ≤ 1 := by
          simp only [entriesDue]
          split <;> decide
        apply Nat.le_trans kept
        simp only [entriesSpent]
        omega
      · exact seen
  | @step n late ih =>
      rcases (step_advances p (r.token n) (w.after p r n) (r.channel n)).entries_le with
        kept | ⟨free, -⟩
      · exact Nat.le_trans kept ih
      · exact absurd free (not_free (flagged n late))

theorem listingsSpent_after {n : Nat} (late : k < n) :
    (w.after p r n).listingsSpent ≤ (w.after p r k).listed.length + 1 := by
  induction late with
  | refl =>
      rcases (step_advances p (r.token k) (w.after p r k) (r.channel k)).listings_le with
        kept | ⟨-, seen⟩
      · have due : listingsDue (w.after p r k).phase ≤ 1 := by
          simp only [listingsDue]
          split <;> decide
        apply Nat.le_trans kept
        simp only [listingsSpent]
        omega
      · exact seen
  | @step n late ih =>
      rcases (step_advances p (r.token n) (w.after p r n) (r.channel n)).listings_le with
        kept | ⟨free, -⟩
      · exact Nat.le_trans kept ih
      · exact absurd free (not_free (flagged n late))

theorem judged_after {n : Nat} (late : k < n) :
    (w.after p r n).judged = (w.after p r (k + 1)).judged := by
  induction late with
  | refl => rfl
  | @step n late ih => exact ((step_advances p _ _ _).judged_eq (flagged n late)).trans ih

theorem put_after_offering {m n : Nat} {path : Path} {e : ε} (late : k < m) (le : m ≤ n)
    (h : (w.after p r m).phase = .offering path e) : (w.after p r n).put = (w.after p r m).put := by
  have look : looks (w.after p r m).phase = true := by rw [h]; rfl
  have next : w.after p r (m + 1) = (w.after p r m).fail p Token.stop := by
    rw [after, step_of_flagged (flagged m late) look]
  obtain ⟨g, ended⟩ := fail_phase (w.after p r m) p Token.stop
  rw [← next] at ended
  cases le with
  | refl => rfl
  | step le => rw [after_of_ended ended (Nat.succ_le_succ le), next, fail_put]

/-- Nothing is waited for: the steps that are left are counted. -/
theorem exists_ended : ∃ n o, k ≤ n ∧ (w.after p r n).phase = .ended o := by
  suffices fromAny : ∀ m, k < m → ∃ n o, k ≤ n ∧ (w.after p r n).phase = .ended o from
    fromAny (k + 1) (Nat.lt_succ_self k)
  intro m
  induction left : (w.after p r m).stepsLeft using Nat.strong_induction_on generalizing m with
  | _ left' ih =>
      intro late
      by_cases awake : ∀ o, (w.after p r m).phase ≠ .ended o
      · have less := (step_advances p (r.token m) (w.after p r m) (r.channel m)).stepsLeft_lt
          (flagged m late) awake
        rw [left] at less
        exact ih _ less (m + 1) rfl (Nat.lt_succ_of_lt late)
      · push Not at awake
        obtain ⟨o, ended⟩ := awake
        exact ⟨m, o, Nat.le_of_lt late, ended⟩

/-- Until it is done with it, a walk has the node at hand that it had when the request came. -/
theorem path?_after {m : Nat} (le : k ≤ m) :
    (w.after p r m).phase.path? p.root = (w.after p r k).phase.path? p.root ∨
      k < m ∧ isFreed (w.after p r m).phase = true := by
  induction le with
  | refl => exact Or.inl rfl
  | @step m le ih =>
      have a := step_advances p (r.token m) (w.after p r m) (r.channel m)
      rcases ih with same | ⟨late, freed⟩
      · rcases a.path?_eq with kept | freed
        · exact Or.inl (Eq.trans kept same)
        · exact Or.inr ⟨Nat.lt_succ_of_le le, freed⟩
      · exact Or.inr ⟨Nat.lt_succ_of_le le, a.isFreed (flagged m late) freed⟩

theorem toVisit_after {m n : Nat} {path : Path} (late : k < m) (le : m ≤ n)
    (h : (w.after p r n).phase = .ended (.ok path)) : (w.after p r m).toVisit = [] := by
  by_contra more
  have still : (w.after p r n).toVisit ≠ [] ∨ ∃ f, (w.after p r n).phase = .ended (.error f) := by
    clear h
    induction le with
    | refl => exact Or.inl more
    | @step n le ih =>
        rcases ih with more | ⟨f, ended⟩
        · exact (step_advances p _ _ _).toVisit_ne (flagged n (Nat.lt_of_lt_of_le late le)) more
        · exact Or.inr ⟨f, by rw [after_of_ended ended (Nat.le_succ n), ended]⟩
  rcases still with more | ⟨f, ended⟩
  · simp [toVisit, h] at more
  · rw [h] at ended
    cases ended

theorem ending_after (running : ∀ o, (w.after p r k).phase ≠ .ended o) {n : Nat} {o : Outcome}
    (le : k ≤ n) (h : (w.after p r n).phase = .ended o) : Ending p r k w o := by
  obtain ⟨m, first, last, awake, ended⟩ := exists_last_step running le h
  by_cases seen : looks (w.after p r m).phase = true ∧ (r.token m).isCancelled = true
  · have next : w.after p r (m + 1) = (w.after p r m).fail p Token.stop := by
      rw [after, step_of_flagged seen.2 seen.1]
    rw [next] at ended
    exact .stopped (Phase.ended.inj ended).symm
  · rcases (step_advances p (r.token m) (w.after p r m) (r.channel m)).of_ended ended with
      before | completed | ⟨w', f, trouble⟩
    · exact absurd before (awake o)
    · subst completed
      exact .returned (fun j late => if le : j ≤ n then toVisit_after flagged late le h else
        toVisit_after flagged late (Nat.le_refl j) (by rw [after_of_ended h (by omega), h])) rfl
    · have unseen : looks (w.after p r m).phase = true → (r.token m).isCancelled = false := by
        intro look
        simpa [look] using seen
      refine .failed first trouble unseen ?_ ?_
      · rcases path?_after flagged first with same | ⟨late, freed⟩
        · exact same
        · -- what is done with its node does nothing before the next look
          have blind : looks (w.after p r m).phase = false := by
            simpa [flagged m late] using unseen
          rw [trouble.isFreed blind] at freed
          cases freed
      · rwa [after, trouble.step] at ended

/-- A request to stop lets a walk do no more than one call of the factory or one put, and one
listing; nothing is judged any more. The walk comes to its end, however often its queue is full. -/
theorem winds_up_of_cancelled (running : ∀ o, (w.after p r k).phase ≠ .ended o) :
    WindsUp p r k w where
  entries n le := by
    obtain ⟨asked, asked_eq⟩ := collect_after .asked p w r le
    obtain ⟨put, put_eq⟩ := collect_after .put p w r le
    refine ⟨asked, put, asked_eq.symm, put_eq.symm, ?_⟩
    have spent : (w.after p r n).asked.length + (w.after p r n).put.length ≤
        (w.after p r k).asked.length + (w.after p r k).put.length + 1 := by
      rcases Nat.eq_or_lt_of_le le with rfl | late
      · exact Nat.le_succ _
      · exact Nat.le_trans (Nat.le_add_right _ _) (entriesSpent_after flagged late)
    simp only [Walk.asked_eq, Walk.put_eq, ← asked_eq, ← put_eq, List.length_append] at spent
    omega
  listings n le := by
    obtain ⟨listed, listed_eq⟩ := collect_after .listed p w r le
    refine ⟨listed, listed_eq.symm, ?_⟩
    have spent : (w.after p r n).listed.length ≤ (w.after p r k).listed.length + 1 := by
      rcases Nat.eq_or_lt_of_le le with rfl | late
      · exact Nat.le_succ _
      · exact Nat.le_trans (Nat.le_add_right _ _) (listingsSpent_after flagged late)
    simp only [Walk.listed, ← listed_eq, List.length_append] at spent
    omega
  judged n late := judged_after flagged late
  retries m n path e late le h := put_after_offering flagged late le h
  ending := by
    obtain ⟨n, o, le, ended⟩ := exists_ended flagged
    exact ⟨n, o, le, ended, ending_after flagged running le ended⟩

end Run

/-- The queue never has room, and nobody cancels before the first attempt to put an entry. -/
def stuckCourse : Course String :=
    ⟨fun n => ⟨7 < n⟩, fun _ => .fresh (some 0) none⟩

theorem loop_stuck (o : Outcome) :
    ((fresh loopPlan.root).after loopPlan stuckCourse 7).phase ≠ .ended o := by
  have putting : puts ((fresh loopPlan.root).after { loopPlan with probe := loopProbe }
      stuckCourse 7).phase = true := by
    decide +kernel
  rw [loopProbe_eq] at putting
  intro ended
  have ended : ((fresh loopPlan.root).after { loopPlan with probe := loopPlan.probe }
      stuckCourse 7).phase = .ended o := ended
  rw [ended] at putting
  cases putting

theorem loop_winds_up_of_cancelled :
    (∀ n, 7 < n → (stuckCourse.token n).isCancelled = true) ∧
      (∀ o, ((fresh loopPlan.root).after loopPlan stuckCourse 7).phase ≠ .ended o) ∧
      WindsUp loopPlan stuckCourse 7 (fresh loopPlan.root) := by
  have flagged : ∀ n, 7 < n → (stuckCourse.token n).isCancelled = true := by
    intro n late
    simpa [stuckCourse] using late
  exact ⟨flagged, loop_stuck, winds_up_of_cancelled flagged loop_stuck⟩

end Walk
end FileCensus
