import FileCensus.Proofs.Reception

/-!
The lists that a stop and a wait go through hold every job that is not done, in the order of
submission; the one exception is the job of the submission that holds the lock, which comes last.
Jobs may be done while the lists are being gone through, since whoever finds a job not done keeps
it. A scanner that has been closed lets nobody in any more.
-/

namespace FileCensus

variable {ε : Type}

namespace Core

/-- A list with all of the first so many jobs that are not done, in the order of submission. -/
structure Roll (c : Core ε) (count : Nat) (l : List Nat) : Prop where
  sorted : l.Pairwise (· < ·)
  below : ∀ n ∈ l, n < count
  whole : ∀ n (j : Job ε), n < count → c.jobs[n]? = some j → j.handle.isDone = false → n ∈ l

variable {c c' : Core ε} {count : Nat} {l : List Nat}

theorem Roll.ages (h : c.Roll count l) (ages : c.Ages c') (old : count ≤ c.jobs.length) :
    c'.Roll count l where
  sorted := h.sorted
  below := h.below
  whole n j' less job' undone := by
    obtain ⟨j, job, later, -⟩ := ages.before (Nat.lt_of_lt_of_le less old) job'
    exact h.whole n j less job (later.undone undone)

theorem Roll.snoc (h : c.Roll count l) : c.Roll (count + 1) (l ++ [count]) where
  sorted := by
    refine List.pairwise_append.mpr ⟨h.sorted, List.pairwise_singleton _ _, ?_⟩
    intro n listed m last
    cases List.mem_singleton.mp last
    exact h.below n listed
  below n listed := by
    rcases List.mem_append.mp listed with old | last
    · have less := h.below n old
      omega
    · cases List.mem_singleton.mp last
      omega
  whole n j less job undone := by
    by_cases last : n = count
    · simp [last]
    · exact List.mem_append_left _ (h.whole n j (by omega) job undone)

theorem roll_nil (c : Core ε) : c.Roll 0 [] where
  sorted := .nil
  below := nofun
  whole _ _ less := nomatch less

end Core

namespace Scanner

variable {s : Scanner ε} {count : Nat}

theorem sift_roll {n : Nat} {left kept : List Nat} (h : s.core.Roll count (kept ++ n :: left)) :
    s.core.Roll count (s.sift n kept ++ left) := by
  cases done : s.isDone n with
  | false => simpa [sift, done] using h
  | true =>
      have fewer : (kept ++ left).Sublist (kept ++ n :: left) :=
        (List.sublist_cons_self n left).append_left kept
      simp only [sift, done, if_true]
      refine ⟨h.sorted.sublist fewer, fun m listed => h.below m (fewer.subset listed), ?_⟩
      intro m j less job undone
      have listed := h.whole m j less job undone
      have other : m ≠ n := by
        rintro rfl
        rw [s.isDone_of_job job, undone] at done
        cases done
      simpa [other] using listed

theorem enterStep_flags (s : Scanner ε) (e : Admission ε) :
    (s.enterStep e).2.isClosed = s.isClosed ∧ (s.enterStep e).2.isStopped = s.isStopped := by
  cases e with
  | scheduling p =>
      simp only [enterStep]
      split <;> exact ⟨rfl, rfl⟩
  | sifting n left kept | resifting n left kept => cases left <;> exact ⟨rfl, rfl⟩

end Scanner

/-- The list that a submission goes through, as far as it has come. -/
def Admission.list? : Admission ε → Option (List Nat)
  | .scheduling _ => none
  | .sifting _ left kept | .resifting _ left kept => some (kept ++ left)

namespace Reception

variable {w : Surroundings ε} {x y : Reception ε}

/-- The job that is being entered. -/
def entering? (x : Reception ε) : Option Nat :=
    x.inside.bind (·.2.job?)

/-- How many jobs have been entered. -/
def count (x : Reception ε) : Nat :=
    x.entering?.getD x.scanner.jobs.length

theorem count_of_free (free : x.inside = none) : x.count = x.scanner.jobs.length := by
  rw [count, entering?, free]
  rfl

theorem count_of_inside {i : Nat} {e : Admission ε} (inside : x.inside = some (i, e)) :
    x.count = e.job?.getD x.scanner.jobs.length := by
  rw [count, entering?, inside]
  rfl

/-- The lists are whole, and so is the one that is being gone through. -/
structure Listed (x : Reception ε) : Prop where
  last : ∀ n, x.entering? = some n → x.scanner.jobs.length = n + 1
  stoppable : x.scanner.core.Roll x.count x.scanner.stoppable
  awaited : x.scanner.core.Roll x.count x.scanner.awaited
  going : ∀ i e l, x.inside = some (i, e) → e.list? = some l → x.scanner.core.Roll x.count l

theorem Listed.count_le (h : x.Listed) : x.count ≤ x.scanner.jobs.length := by
  cases entering : x.entering? with
  | none => simp [count, entering]
  | some n =>
      have last := h.last n entering
      simp only [count, entering, Option.getD_some]
      omega

theorem Listed.of_ages (h : x.Listed) (ages : x.scanner.core.Ages y.scanner.core)
    (length : y.scanner.jobs.length = x.scanner.jobs.length)
    (lists : y.scanner.desk.lists = x.scanner.desk.lists) (inside : y.inside = x.inside) :
    y.Listed := by
  have entering : y.entering? = x.entering? := by rw [entering?, inside, entering?]
  have count : y.count = x.count := by rw [Reception.count, entering, length, Reception.count]
  have stoppable : y.scanner.stoppable = x.scanner.stoppable := congrArg Prod.fst lists
  have awaited : y.scanner.awaited = x.scanner.awaited := congrArg Prod.snd lists
  constructor
  · rw [entering, length]
    exact h.last
  · rw [count, stoppable]
    exact h.stoppable.ages ages h.count_le
  · rw [count, awaited]
    exact h.awaited.ages ages h.count_le
  · intro i e l inside' list
    rw [count]
    rw [inside] at inside'
    exact (h.going i e l inside' list).ages ages h.count_le

theorem listed_of_free (free : x.inside = none)
    (stoppable : x.scanner.core.Roll x.scanner.jobs.length x.scanner.stoppable)
    (awaited : x.scanner.core.Roll x.scanner.jobs.length x.scanner.awaited) : x.Listed := by
  have entering : x.entering? = none := by rw [entering?, free]; rfl
  have count := count_of_free free
  constructor
  · intro n found
    rw [entering] at found
    cases found
  · rwa [count]
  · rwa [count]
  · intro i e l inside
    rw [free] at inside
    cases inside

theorem listed_of_inside {i n : Nat} {e : Admission ε} {l : List Nat}
    (inside : x.inside = some (i, e)) (job : e.job? = some n) (list : e.list? = some l)
    (last : x.scanner.jobs.length = n + 1) (stoppable : x.scanner.core.Roll n x.scanner.stoppable)
    (awaited : x.scanner.core.Roll n x.scanner.awaited) (going : x.scanner.core.Roll n l) :
    x.Listed := by
  have entering : x.entering? = some n := by rw [entering?, inside]; exact job
  have count : x.count = n := by rw [count_of_inside inside, job]; rfl
  constructor
  · intro m found
    cases entering.symm.trans found
    exact last
  · rwa [count]
  · rwa [count]
  · intro i' e' l' inside' list'
    cases inside.symm.trans inside'
    cases list.symm.trans list'
    rwa [count]

theorem Listed.goOn (h : x.Listed) {i : Nat} {e : Admission ε} (inside : x.inside = some (i, e)) :
    (x.goOn i e).Listed := by
  have stoppable := h.stoppable
  have awaited := h.awaited
  have count := count_of_inside inside
  have entering : x.entering? = e.job? := by rw [entering?, inside]; rfl
  rw [count] at stoppable awaited
  cases e with
  | scheduling p =>
      cases stopped : x.scanner.isStopped with
      | true =>
          simp only [Reception.goOn, Scanner.enterStep, stopped, if_true]
          exact listed_of_free rfl stoppable awaited
      | false =>
          simp only [Reception.goOn, Scanner.enterStep, stopped, Bool.false_eq_true, if_false]
          -- The new job is the last one, so the lists stay whole up to it.
          have ages := x.scanner.core.ages_entered p
          have stoppable := stoppable.ages ages (Nat.le_refl _)
          have awaited := awaited.ages ages (Nat.le_refl _)
          have length : (x.scanner.schedule p).jobs.length = x.scanner.jobs.length + 1 := by
            simp [Scanner.schedule]
          exact listed_of_inside rfl rfl rfl length stoppable awaited stoppable
  | sifting n left kept =>
      have going := h.going _ _ _ inside rfl
      have last := h.last n entering
      rw [count] at going
      cases left with
      | nil =>
          rw [List.append_nil] at going
          exact listed_of_inside rfl rfl rfl last going awaited awaited
      | cons m left =>
          exact listed_of_inside rfl rfl rfl last stoppable awaited (Scanner.sift_roll going)
  | resifting n left kept =>
      have going := h.going _ _ _ inside rfl
      have last := h.last n entering
      rw [count] at going
      cases left with
      | nil =>
          rw [List.append_nil] at going
          apply listed_of_free rfl
          · exact last ▸ stoppable.snoc
          · exact last ▸ going.snoc
      | cons m left =>
          exact listed_of_inside rfl rfl rfl last stoppable awaited (Scanner.sift_roll going)

theorem Listed.moves (h : x.Listed) (regular : x.traffic.Regular) (move : Moves w x y) :
    y.Listed := by
  cases move with
  | rests | scans | calls | awaits _ | looks => exact h.of_ages (.of_jobs rfl) rfl rfl rfl
  | works ages length desk _ _ => exact h.of_ages ages length (congrArg Desk.lists desk) rfl
  | answers _ _ _ jobs desk =>
      exact h.of_ages (.of_jobs jobs) (congrArg _ jobs) (congrArg Desk.lists desk) rfl
  | @admits i root p free _ _ =>
      have entered := count_of_inside (x := { x with inside := some (i, .scheduling p) }) rfl
      have same := (count_of_free free).trans entered.symm
      refine ⟨nofun, same ▸ h.stoppable, same ▸ h.awaited, ?_⟩
      intro i e l inside list
      cases inside
      cases list
  | enters inside => exact h.goOn inside
  | @winds i q found free =>
      have move := x.scanner.stopStep_moves q.kind q.phase
      have lists := congrArg Desk.lists (x.scanner.stopStep_desk q.kind q.phase)
      exact h.of_ages (move.ages regular.orderly) move.length lists rfl

/-- Whom a closed scanner keeps out. -/
structure Closing (x : Reception ε) : Prop where
  stopped : x.scanner.isStopped = true → x.scanner.isClosed = true
  marked : ∀ q ∈ x.traffic.stops, q.phase ≠ .marking → x.scanner.isClosed = true
  opened : x.inside.isSome = true → x.scanner.isClosed = false

/-- While a submission holds the lock the scanner is open. -/
theorem Closing.opened_of_inside (h : x.Closing) {i : Nat} {e : Admission ε}
    (inside : x.inside = some (i, e)) : x.scanner.isClosed = false :=
  h.opened (by rw [inside]; rfl)

theorem Closing.going (h : x.Closing) {i : Nat} {e : Admission ε}
    (inside : x.inside = some (i, e)) : x.scanner.isStopped = false := by
  cases stopped : x.scanner.isStopped with
  | false => rfl
  | true =>
      have closed := h.stopped stopped
      rw [h.opened_of_inside inside] at closed
      cases closed

theorem Closing.of_desk (h : x.Closing) (closed : y.scanner.isClosed = x.scanner.isClosed)
    (stopped : y.scanner.isStopped = x.scanner.isStopped)
    (stops : y.traffic.stops = x.traffic.stops)
    (inside : y.inside.isSome = true → x.inside.isSome = true) : y.Closing where
  stopped := by rw [stopped, closed]; exact h.stopped
  marked := by rw [stops, closed]; exact h.marked
  opened held := by rw [closed]; exact h.opened (inside held)

theorem Closing.moves (h : x.Closing) (move : Moves w x y) : y.Closing := by
  cases move with
  | rests | scans | awaits _ | looks => exact h.of_desk rfl rfl rfl id
  | works _ _ desk _ stops =>
      exact h.of_desk (congrArg Desk.isClosed desk) (congrArg Desk.isStopped desk) stops id
  | answers _ _ _ _ desk =>
      exact h.of_desk (congrArg Desk.isClosed desk) (congrArg Desk.isStopped desk) rfl id
  | admits _ opened _ => exact ⟨h.stopped, h.marked, fun _ => opened⟩
  | enters inside =>
      obtain ⟨closed, stopped⟩ := x.scanner.enterStep_flags _
      rw [← goOn_scanner] at closed stopped
      exact h.of_desk closed stopped (goOn_stops _ _) fun _ => by rw [inside]; rfl
  | calls =>
      refine ⟨h.stopped, ?_, h.opened⟩
      intro q listed past
      rcases List.mem_append.mp listed with old | new
      · exact h.marked q old past
      · exact absurd (List.mem_singleton.mp new ▸ rfl) past
  | @winds i q found free =>
      have desk := x.scanner.stopStep_desk q.kind q.phase
      have closed : (x.scanner.stopStep q.kind q.phase).2.1.isClosed = _ :=
        congrArg Desk.isClosed desk
      have stopped : (x.scanner.stopStep q.kind q.phase).2.1.isStopped = _ :=
        congrArg Desk.isStopped desk
      have kept := h.marked q (List.mem_of_getElem? found)
      simp only at closed stopped
      by_cases marking : q.phase = .marking
      · have shut : (x.scanner.stopStep q.kind q.phase).2.1.isClosed = true := by
          rw [closed, marking]
          exact Bool.or_true _
        refine ⟨fun _ => shut, fun _ _ _ => shut, fun held => ?_⟩
        simp [free marking] at held
      · have shut : (x.scanner.stopStep q.kind q.phase).2.1.isClosed = true := by
          rw [closed, kept marking]
          rfl
        refine ⟨fun _ => shut, fun _ _ _ => shut, fun held => ?_⟩
        have opened := h.opened held
        rw [kept marking] at opened
        cases opened

end Reception
end FileCensus
