import FileCensus.Proofs.Agenda
import Mathlib.Algebra.Order.BigOperators.Group.List
import Mathlib.Data.Set.Card

/-!
A walk ends. Each entry that is taken from an open directory pays for the directory that it may lead
to: a directory that lies deeper is worth less by more than the number of entries that a directory
can have, and none lies deeper than there are directories. Only attempts to put an entry on a full
queue cost nothing, so a walk goes on for ever only if one of its puts does.
-/

namespace FileCensus

/-- What a walk finds at its steps: the token, and the channel as others have left it. Nothing is
assumed of what happens to them between two steps. -/
structure Course (ε : Type) where
  token : Nat → Token
  channel : Nat → Channel ε

/-- More than any directory of the tree has entries. -/
def FileSystem.breadth (fs : FileSystem) : Nat :=
    (fs.directories.map fun q => match fs.at? q with
      | some (.directory entries) => entries.length
      | _ => 0).sum + 2

theorem FileSystem.length_lt_breadth {fs : FileSystem} {q : Place} {entries : List (String × Node)}
    (h : fs.at? q = some (.directory entries)) : (entriesOf entries).length + 2 ≤ fs.breadth := by
  have member : entries.length ∈ fs.directories.map fun q => match fs.at? q with
      | some (.directory entries) => entries.length
      | _ => 0 :=
    List.mem_map.mpr ⟨q, mem_directories h, by rw [h]⟩
  have bound := List.single_le_sum (fun _ _ => Nat.zero_le _) _ member
  simp only [entriesOf, List.length_mergeSort, List.length_map]
  exact Nat.add_le_add_right bound 2

theorem FileSystem.finite_directories (fs : FileSystem) :
    {q | ∃ entries, fs.at? q = some (.directory entries)}.Finite :=
  fs.directories.toFinset.finite_toSet.subset
    fun _ ⟨_, h⟩ => List.mem_toFinset.mpr (mem_directories h)

namespace Walk

variable {ε : Type}

/-- A walk after so many steps. -/
def after (w : Walk ε) (p : Plan ε) (r : Course ε) : Nat → Walk ε
  | 0 => w
  | n + 1 => ((after w p r n).step p (r.token n) (r.channel n)).1

/-- What the open directories may still cost, in a tree of so many directories with less than `base`
entries each. -/
def stackCost (base height : Nat) : List Frame → Nat
  | [] => 0
  | f :: rest =>
      (f.left.length + 1) * base ^ (height - (rest.length + 1)) + stackCost base height rest

/-- What the path that a walk is at may cost. -/
def phaseCost (base height depth : Nat) : Phase ε → Nat
  | .idle | .examining | .opening .. | .visiting .. | .judging => base ^ (height - depth)
  | .creating _ | .offering .. | .putting .. | .counting .. | .signalling .. | .notifying .. => 1
  | .turning | .ended _ => 0

/-- The phases between two looks at the stack, the later the less. -/
def phaseRank : Phase ε → Nat
  | .idle => 12
  | .examining => 11
  | .turning => 10
  | .visiting .. | .judging => 9
  | .opening .. => 8
  | .creating _ => 7
  | .offering .. | .putting .. => 6
  | .counting .. => 5
  | .signalling .. => 4
  | .notifying .. => 3
  | .ended _ => 0

def effort (fs : FileSystem) (w : Walk ε) : Nat :=
    13 * (stackCost fs.breadth fs.directories.length w.stack +
      phaseCost fs.breadth fs.directories.length w.stack.length w.phase) + phaseRank w.phase

/-- Whether a walk is trying to put an entry on the queue. -/
def puts : Phase ε → Bool
  | .offering .. | .putting .. => true
  | _ => false

variable {p : Plan ε} {fs : FileSystem} {t : Token} {w w' : Walk ε} {c : Channel ε}

theorem effort_of_ended {o : Outcome} (phase : w.phase = .ended o) (stack : w.stack = []) :
    w.effort fs = 0 := by
  simp [effort, phase, stack, stackCost, phaseCost, phaseRank]

theorem effort_pos (awake : ∀ o, w.phase ≠ .ended o) : 0 < w.effort fs := by
  have rank : 0 < phaseRank w.phase := by
    cases phase : w.phase with
    | ended o => exact absurd phase (awake o)
    | _ => simp [phaseRank]
  simp only [effort]
  omega

theorem cost_pos (fs : FileSystem) (n : Nat) : 0 < fs.breadth ^ n :=
  Nat.pow_pos (Nat.lt_of_lt_of_le (Nat.zero_lt_succ 1) (Nat.le_add_left 2 _))

theorem effort_lt (w w' : Walk ε) (stack : w'.stack = w.stack)
    (less : let cost := phaseCost fs.breadth fs.directories.length w.stack.length
      cost w'.phase < cost w.phase ∧ phaseRank w'.phase ≤ 12 ∨
        cost w'.phase ≤ cost w.phase ∧ phaseRank w'.phase < phaseRank w.phase) :
    w'.effort fs < w.effort fs := by
  simp only [effort, stack]
  simp only at less
  omega

theorem effort_lt_of_ended (awake : ∀ o, w.phase ≠ .ended o) {o : Outcome}
    (phase : w'.phase = .ended o) (stack : w'.stack = []) : w'.effort fs < w.effort fs := by
  rw [effort_of_ended phase stack]
  exact effort_pos awake

theorem Fits.height_le (fits : w.Fits p fs) : w.stack.length ≤ fs.directories.length := by
  cases top : w.stack with
  | nil => exact Nat.zero_le _
  | cons f rest =>
      have nested := fits.nested
      rw [top] at nested
      have deep := (fits.frames f (by simp [top])).enters.length_lt
      rw [← nested.length] at deep
      exact deep

/-- The entries of a directory that is opened are worth less than the directory was. -/
theorem effort_pushed {f : Frame} {ancestors : List Place} (fits : (w.pushed f ancestors).Fits p fs)
    {path : Path} {relative : List String} {depth : Nat}
    (phase : w.phase = .opening path relative depth)
    (listing : ∃ q entries, fs.at? q = some (.directory entries) ∧
      f.left = FileSystem.entriesOf entries) :
    (w.pushed f ancestors).effort fs < w.effort fs := by
  obtain ⟨q, entries, directory, left⟩ := listing
  have breadth := FileSystem.length_lt_breadth directory
  have height : w.stack.length + 1 ≤ fs.directories.length := by simpa using fits.height_le
  obtain ⟨below, eq⟩ := Nat.exists_eq_add_of_le height
  have inside : fs.directories.length - (w.stack.length + 1) = below := by omega
  have outside : fs.directories.length - w.stack.length = below + 1 := by omega
  have worth := cost_pos fs below
  have less : (f.left.length + 2) * fs.breadth ^ below ≤ fs.breadth ^ (below + 1) := by
    rw [Nat.pow_succ, Nat.mul_comm _ fs.breadth, left]
    exact Nat.mul_le_mul_right _ breadth
  simp only [effort, phase, pushed_stack, pushed_phase, stackCost, phaseCost, phaseRank, inside,
    outside]
  rw [Nat.add_mul] at less ⊢
  omega

theorem effort_popped {f : Frame} {rest : List Frame} (h : w.phase = .turning)
    (top : w.stack = f :: rest) (phase : w'.phase = .turning) (stack : w'.stack = rest) :
    w'.effort fs < w.effort fs := by
  have worth := cost_pos fs (fs.directories.length - (rest.length + 1))
  simp only [effort, h, top, phase, stack, stackCost, phaseCost, phaseRank, Nat.add_mul]
  omega

theorem effort_taken {f : Frame} {rest : List Frame} {e : Entry} {left : List Entry}
    {directory : Path} {relative : List String} {depth : Nat} (h : w.phase = .turning)
    (top : w.stack = f :: rest) (some : f.left = e :: left) :
    ({ w with stack := { f with left := left } :: rest }.go
      (.visiting directory e relative depth)).effort fs < w.effort fs := by
  simp only [effort, h, top, go_phase, go_stack, stackCost, phaseCost, phaseRank, some,
    List.length_cons, Nat.add_mul]
  omega

/-- Every step costs something, unless it is an attempt to put an entry on a queue that is full. -/
theorem effort_advance (wf : fs.WellFormed) (reads : p.probe.Reads fs) (fits : w.Fits p fs)
    {r : Walk ε × Channel ε} (a : Advance p t w c r) (awake : ∀ o, w.phase ≠ .ended o) :
    r.1.effort fs < w.effort fs ∨
      (puts w.phase = true ∧ puts r.1.phase = true ∧ r.1.effort fs = w.effort fs) := by
  have after := fits.advance wf reads a
  have worth := cost_pos fs (fs.directories.length - w.stack.length)
  cases a with
  | fails trouble =>
      obtain ⟨g, ended⟩ := fail_phase _ p _
      exact Or.inl (effort_lt_of_ended awake ended (fail_stack _ _ _))
  | rootOther h _ _ _ | completes h _ =>
      exact Or.inl (effort_lt_of_ended awake (complete_phase _ _) (complete_stack _ _))
  | begins h | rootDirectory h _ _ | rootFile h _ _ | descends h _ _ _ _ =>
      exact Or.inl (effort_lt _ _ rfl (Or.inr (by simp [h, phaseCost, phaseRank])))
  | loops h _ _ _ | dropsRoot h _ _ =>
      exact Or.inl (effort_lt _ _ rfl (Or.inl (by simpa [h, phaseCost, phaseRank] using worth)))
  | enters h keyed listed =>
      obtain ⟨q, entries, -, directory, left⟩ := FileSystem.list_ok (reads.list listed)
      exact Or.inl (effort_pushed after h ⟨q, entries, directory, left⟩)
  | leaves h top used => exact Or.inl (effort_popped h top h rfl)
  | takes h top some => exact Or.inl (effort_taken h top some)
  | drops h _ dropped =>
      refine Or.inl (effort_lt _ _ dropped.stack (Or.inl ?_))
      simpa [h, dropped.phase, phaseCost, phaseRank] using worth
  | accepts h _ _ _ _ | acceptsRoot h _ _ _ =>
      refine Or.inl (effort_lt _ _ rfl (Or.inr ⟨?_, by simp [h, phaseRank]⟩))
      simpa [h, phaseCost] using Nat.succ_le_of_lt worth
  | unmade h _ => exact Or.inl (effort_lt _ _ rfl (Or.inl (by simp [h, phaseCost, phaseRank])))
  | makes h _ | puts h _ _ | counts h | signals h _ =>
      exact Or.inl (effort_lt _ _ rfl (Or.inr (by simp [h, phaseCost, phaseRank])))
  | tries h _ | turnedAway h _ _ =>
      refine Or.inr ⟨by simp [h, Walk.puts], by simp [Walk.puts], ?_⟩
      simp [effort, h, phaseCost, phaseRank]
  | notifies h =>
      exact Or.inl (effort_lt _ _ (by simp) (Or.inl (by simp [h, phaseCost, phaseRank])))
  | rests h => exact absurd h (awake _)

theorem fits_after (wf : fs.WellFormed) (reads : p.probe.Reads fs) (fits : w.Fits p fs)
    (r : Course ε) (n : Nat) : (w.after p r n).Fits p fs := by
  induction n with
  | zero => exact fits
  | succ n ih => exact ih.advance wf reads (step_advances p _ _ _)

theorem after_of_ended {r : Course ε} {n m : Nat} {o : Outcome}
    (h : (w.after p r n).phase = .ended o) (le : n ≤ m) : w.after p r m = w.after p r n := by
  induction le with
  | refl => rfl
  | step _ ih => simp [after, ih, step, h]

theorem exists_last_step {r : Course ε} {k n : Nat} {o : Outcome}
    (running : ∀ o, (w.after p r k).phase ≠ .ended o) (le : k ≤ n)
    (h : (w.after p r n).phase = .ended o) :
    ∃ m, k ≤ m ∧ m < n ∧ (∀ o, (w.after p r m).phase ≠ .ended o) ∧
      (w.after p r (m + 1)).phase = .ended o := by
  induction le with
  | refl => exact absurd h (running o)
  | @step n le ih =>
      by_cases awake : ∀ o, (w.after p r n).phase ≠ .ended o
      · exact ⟨n, le, Nat.lt_succ_self n, awake, h⟩
      · push Not at awake
        obtain ⟨o', before⟩ := awake
        rw [after_of_ended before (Nat.le_succ n), before] at h
        obtain ⟨m, first, last, found⟩ := ih (by rw [before, h])
        exact ⟨m, first, Nat.lt_succ_of_lt last, found⟩

/-- As long as a walk only tries to put one entry, it has the same to do; after that it has less. -/
theorem effort_after (wf : fs.WellFormed) (reads : p.probe.Reads fs) (fits : w.Fits p fs)
    (r : Course ε) {n m : Nat} (trying : puts (w.after p r n).phase = true) (le : n ≤ m) :
    (w.after p r m).effort fs < (w.after p r n).effort fs ∨
      (puts (w.after p r m).phase = true ∧
        (w.after p r m).effort fs = (w.after p r n).effort fs) := by
  induction le with
  | refl => exact Or.inr ⟨trying, rfl⟩
  | @step m le ih =>
      rw [Nat.succ_eq_add_one]
      by_cases awake : ∀ o, (w.after p r m).phase ≠ .ended o
      · have next : (w.after p r (m + 1)).effort fs < (w.after p r m).effort fs ∨
            (puts (w.after p r m).phase = true ∧ puts (w.after p r (m + 1)).phase = true ∧
              (w.after p r (m + 1)).effort fs = (w.after p r m).effort fs) :=
          effort_advance wf reads (fits_after wf reads fits r m) (step_advances p _ _ _) awake
        rcases next with less | ⟨-, still, same⟩ <;> rcases ih with before | ⟨-, before⟩
        · exact Or.inl (by omega)
        · exact Or.inl (by omega)
        · exact Or.inl (by omega)
        · exact Or.inr ⟨still, by omega⟩
      · push Not at awake
        obtain ⟨o, ended⟩ := awake
        have rests := after_of_ended ended (Nat.le_succ m)
        rw [rests]
        exact ih

/-- A walk whose puts all come to an end comes to an end itself. -/
theorem ends (wf : fs.WellFormed) (reads : p.probe.Reads fs) (fits : w.Fits p fs) (r : Course ε)
    (putsEnd : ∀ n, ∃ m, n ≤ m ∧ puts (w.after p r m).phase = false) :
    ∃ n o, (w.after p r n).phase = .ended o := by
  suffices fromAny : ∀ k n, (w.after p r n).effort fs = k →
      ∃ n o, (w.after p r n).phase = .ended o from
    fromAny _ 0 rfl
  intro k
  -- on the effort; attempts that cost nothing are passed over to the end of the put
  induction k using Nat.strong_induction_on with
  | _ k ih =>
      rintro n rfl
      by_cases awake : ∀ o, (w.after p r n).phase ≠ .ended o
      · obtain ⟨m, le, free⟩ := putsEnd n
        rcases effort_advance wf reads (fits_after wf reads fits r n)
          (step_advances p (r.token n) (w.after p r n) (r.channel n)) awake with less | ⟨trying, -⟩
        · exact ih _ less (n + 1) rfl
        · rcases effort_after wf reads fits r trying le with less | ⟨still, -⟩
          · exact ih _ less m rfl
          · rw [free] at still
            cases still
      · push Not at awake
        obtain ⟨o, ended⟩ := awake
        exact ⟨n, o, ended⟩

theorem step_offering {path : Path} {e : ε} (h : w.phase = .offering path e) :
    (w.step p t c).1.phase = .putting path e ∨ puts (w.step p t c).1.phase = false := by
  simp only [step, h, unlessCancelled]
  split
  · obtain ⟨g, ended⟩ := fail_phase w p _
    exact Or.inr (by rw [ended]; rfl)
  · exact Or.inl rfl

theorem step_putting {path : Path} {e : ε} (h : w.phase = .putting path e)
    (room : c.isFull = false) : puts (w.step p t c).1.phase = false := by
  simp only [step, h, offer, room]
  split
  · obtain ⟨g, ended⟩ := fail_phase w p _
    rw [ended]
    rfl
  · rfl

/-- On a queue that is never full every put comes to an end. -/
theorem puts_end_of_room {r : Course ε} (room : ∀ n, (r.channel n).isFull = false) (n : Nat) :
    ∃ m, n ≤ m ∧ puts (w.after p r m).phase = false := by
  cases phase : (w.after p r n).phase with
  | putting path e => exact ⟨n + 1, Nat.le_succ n, step_putting phase (room n)⟩
  | offering path e =>
      cases step_offering (p := p) (t := r.token n) (c := r.channel n) phase with
      | inl next => exact ⟨n + 2, Nat.le_add_right n 2, step_putting next (room (n + 1))⟩
      | inr free => exact ⟨n + 1, Nat.le_succ n, free⟩
  | _ => exact ⟨n, Nat.le_refl n, by rw [phase]; rfl⟩

/-- The identities that a walk keeps are exactly those of the open directories, which are all
different and so no more than the tree has. -/
structure ExactAncestors (fs : FileSystem) (w : Walk ε) : Prop where
  keyed : ∀ f ∈ w.stack, ∃ q entries, f.key = some q ∧ fs.at? q = some (.directory entries)
  distinct : (w.stack.map (·.key)).Nodup
  ancestors : ∀ q, q ∈ w.ancestors ↔ ∃ f ∈ w.stack, f.key = some q
  height : w.stack.length ≤ {q | ∃ entries, fs.at? q = some (.directory entries)}.ncard

theorem Fits.exactAncestors (fits : w.Fits p fs) (follows : p.filters.followLinks = true)
    (awake : ∀ o, w.phase ≠ .ended o) : w.ExactAncestors fs where
  keyed _ hf := fits.key_directory follows hf
  distinct := fits.keys_nodup follows
  ancestors _ := fits.mem_ancestors_iff awake
  height := by
    have inside : ((w.stack.map (·.key)).toFinset : Set (Option Place)) ⊆
        some '' {q | ∃ entries, fs.at? q = some (.directory entries)} := by
      intro key hk
      obtain ⟨f, hf, rfl⟩ := List.mem_map.mp (List.mem_toFinset.mp hk)
      obtain ⟨q, entries, same, directory⟩ := fits.key_directory follows hf
      exact ⟨q, ⟨entries, directory⟩, same.symm⟩
    have bound := Set.ncard_le_ncard inside (fs.finite_directories.image some)
    have distinct := fits.keys_nodup follows
    rwa [Set.ncard_coe_finset, List.toFinset_card_of_nodup distinct, List.length_map,
      Set.ncard_image_of_injective _ (Option.some_injective _)] at bound

/-- A consumer takes every entry at once and nobody cancels. -/
def quietCourse : Course String :=
    ⟨fun _ => .fresh, fun _ => .fresh none none⟩

/-- While links are followed, whatever loops they form, a walk whose puts come to an end comes to an
end itself, and until then it keeps exactly the identities of the directories that are open. Neither
a limit of the depth nor an uncancelled token is needed, nor that the system answers. -/
theorem ends_with_exactAncestors (wf : fs.WellFormed) (reads : p.probe.Reads fs)
    (follows : p.filters.followLinks = true) (ready : w.Ready) (r : Course ε)
    (putsEnd : ∀ n, ∃ m, n ≤ m ∧ puts (w.after p r m).phase = false) :
    (∃ n o, (w.after p r n).phase = .ended o) ∧
      ∀ n, (∀ o, (w.after p r n).phase ≠ .ended o) → (w.after p r n).ExactAncestors fs := by
  refine ⟨ends wf reads ready.fits r putsEnd, ?_⟩
  intro n awake
  exact (fits_after wf reads ready.fits r n).exactAncestors follows awake

theorem loop_ends_with_exactAncestors : loopTree.WellFormed ∧ loopPlan.probe.Reads loopTree ∧
    loopPlan.filters.followLinks = true ∧ (fresh loopPlan.root : Walk String).Ready ∧
    (∀ n, ∃ m, n ≤ m ∧ puts ((fresh loopPlan.root).after loopPlan quietCourse m).phase = false) ∧
    (∃ n o, ((fresh loopPlan.root).after loopPlan quietCourse n).phase = .ended o) ∧
    ∀ n, (∀ o, ((fresh loopPlan.root).after loopPlan quietCourse n).phase ≠ .ended o) →
      ((fresh loopPlan.root).after loopPlan quietCourse n).ExactAncestors loopTree :=
  have ready := ready_fresh loopPlan.root
  have putsEnd := puts_end_of_room fun _ => rfl
  ⟨loopTree_wellFormed, loopPlan_reads, rfl, ready, putsEnd,
    ends_with_exactAncestors loopTree_wellFormed loopPlan_reads rfl ready quietCourse putsEnd⟩

end Walk
end FileCensus
