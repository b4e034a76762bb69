import FileCensus.Proofs.Coverage

/-!
A walker that is run many times. It is to forget the identities of the open directories whenever a
run ends, and so it does, whatever ends the run, with one exception: when the identity of the root
has been taken and the listing of the root is then refused, the identity stays. The next run that
opens the root takes it for its own ancestor, puts nothing, and only then forgets it. The system may
answer differently at every step; that the tree stays the same is assumed.
-/

namespace FileCensus

variable {ε : Type}

namespace Walk

/-- The root is opened and its identity is known. -/
def OpensRoot (p : Plan ε) (w : Walk ε) : Prop :=
    p.filters.followLinks = true ∧ w.phase = .opening p.root [] 0 ∧
      ∃ s, p.probe.status p.root = .ok s

/-- The identity of the root is taken, and then the listing of the root is refused. -/
def RefusesRoot (p : Plan ε) (w : Walk ε) : Prop :=
    p.filters.followLinks = true ∧ w.phase = .opening p.root [] 0 ∧
      ∃ s f, p.probe.status p.root = .ok s ∧ s.identity ∉ w.ancestors ∧
        p.probe.list p.root = .error f

theorem RefusesRoot.opens {p : Plan ε} {w : Walk ε} (h : w.RefusesRoot p) : w.OpensRoot p := by
  obtain ⟨follows, phase, s, -, known, -⟩ := h
  exact ⟨follows, phase, s, known⟩

/-- A moment of a walker's life: a step of its walk, with what the plan, the token and the channel
are at that moment, or the order to run once more. -/
inductive Moment (ε : Type) where
  | step (p : Plan ε) (t : Token) (c : Channel ε)
  | again

/-- The order to run once more is only given to a walk that has ended. -/
def meet (w : Walk ε) : Moment ε → Walk ε
  | .step p t c => (w.step p t c).1
  | .again =>
      match w.phase with
      | .ended _ => w.again
      | _ => w

/-- The runs of one walker, one after the other. Its root, which is a directory, and its filters
stay the same; each question to the system is answered as the tree is, or fails. -/
structure Life (ε : Type) (fs : FileSystem) where
  root : Path
  filters : FilterSet
  place : Place
  entries : List (String × Node)
  found : fs.find true root = .ok place
  directory : fs.at? place = some (.directory entries)
  moment : Nat → Moment ε
  own : ∀ {n p t c}, moment n = .step p t c →
    p.root = root ∧ p.filters = filters ∧ p.probe.Reads fs

namespace Life

variable {fs : FileSystem}

def walk (l : Life ε fs) : Nat → Walk ε
  | 0 => fresh l.root
  | n + 1 => (l.walk n).meet (l.moment n)

def Opens (l : Life ε fs) (n : Nat) : Prop :=
    ∃ p t c, l.moment n = .step p t c ∧ (l.walk n).OpensRoot p

def Refuses (l : Life ε fs) (n : Nat) : Prop :=
    ∃ p t c, l.moment n = .step p t c ∧ (l.walk n).RefusesRoot p

/-- The root was not opened again since its listing was refused. -/
def Barred (l : Life ε fs) (n : Nat) : Prop :=
    ∃ k < n, l.Refuses k ∧ ∀ m, k < m → m < n → ¬ l.Opens m

variable {l : Life ε fs} {n : Nat}

theorem not_barred_zero : ¬ l.Barred 0 := by
  rintro ⟨k, before, -⟩
  exact Nat.not_lt_zero k before

theorem barred_succ : l.Barred (n + 1) ↔ l.Refuses n ∨ l.Barred n ∧ ¬ l.Opens n := by
  constructor
  · rintro ⟨k, before, refused, since⟩
    rcases Nat.lt_succ_iff_lt_or_eq.mp before with earlier | rfl
    · exact Or.inr ⟨⟨k, earlier, refused, fun m after less => since m after (by omega)⟩,
        since n earlier (Nat.lt_succ_self n)⟩
    · exact Or.inl refused
  · rintro (refused | ⟨⟨k, before, refused, since⟩, unopened⟩)
    · exact ⟨n, Nat.lt_succ_self n, refused, fun m after less => by omega⟩
    · refine ⟨k, by omega, refused, fun m after less => ?_⟩
      rcases Nat.lt_succ_iff_lt_or_eq.mp less with earlier | rfl
      · exact since m after earlier
      · exact unopened

/-- A moment at which the root is not opened bars nothing and lifts no bar. -/
theorem barred_succ_of_unopened (h : ¬ l.Opens n) : l.Barred (n + 1) ↔ l.Barred n := by
  have calm : ¬ l.Refuses n := by
    rintro ⟨p, t, c, moment, refused⟩
    exact h ⟨p, t, c, moment, refused.opens⟩
  rw [barred_succ]
  exact ⟨fun b => (b.resolve_left calm).1, fun b => Or.inr ⟨b, h⟩⟩

theorem Barred.follows (h : l.Barred n) : l.filters.followLinks = true := by
  obtain ⟨k, -, ⟨p, t, c, moment, follows, -⟩, -⟩ := h
  rw [← (l.own moment).2.1, follows]

end Life

end Walk

/-- Where a run stands whose root is a directory: until the root is opened nothing is open, and
from then on only entries are visited and opened. -/
def Phase.Stands (root : Path) (entered : Bool) : Phase ε → Prop
  | .idle | .examining | .ended _ => entered = false
  | .opening path relative depth =>
      entered = false ∧ path = root ∧ relative = [] ∧ depth = 0 ∨ entered = true ∧ relative ≠ []
  | .visiting _ _ relative _ => entered = true ∧ relative ≠ []
  | .judging => False
  | .turning | .creating _ | .offering .. | .putting .. | .counting .. | .signalling ..
  | .notifying .. => entered = true

namespace Walk

structure Stands (root : Path) (w : Walk ε) : Prop where
  phase : w.phase.Stands root w.entered
  stack : w.entered = false → w.stack = []

section Fields

variable (w : Walk ε) (p : Plan ε) (f : Failure) (o : Outcome)

@[simp] theorem go_entered (phase : Phase ε) : (w.go phase).entered = w.entered := rfl
@[simp] theorem happen_entered (e : Event ε) : (w.happen e).entered = w.entered := rfl
@[simp] theorem say_entered (n : Notice) : (w.say n).entered = w.entered := rfl
@[simp] theorem skip_entered : w.skip.entered = w.entered := rfl

@[simp] theorem sight_entered (directory : Path) (e : Entry) (relative : List String) :
    (w.sight directory e relative).entered = w.entered := rfl

@[simp] theorem complete_entered : (w.complete p).entered = false := rfl

@[simp] theorem complete_ancestors :
    (w.complete p).ancestors = if w.entered then [] else w.ancestors := rfl

@[simp] theorem fail_entered : (w.fail p f).entered = false := by
  cases f <;> rfl

@[simp] theorem fail_ancestors :
    (w.fail p f).ancestors = if w.entered then [] else w.ancestors := by
  cases f <;> rfl

@[simp] theorem notify_entered (path : Path) (entry : ε) :
    (w.notify p path entry).entered = w.entered := by
  simp only [notify]
  split
  · rfl
  · split <;> rfl

end Fields

variable {p : Plan ε} {fs : FileSystem} {t : Token} {w w' : Walk ε} {c : Channel ε} {root : Path}

theorem Trouble.entered {f : Failure} (h : Trouble p t w c w' f) : w'.entered = w.entered := by
  cases h <;> rfl

theorem Dropped.entered {directory : Path} {e : Entry} {relative : List String} {depth : Nat}
    (h : Dropped p w directory e relative depth w') : w'.entered = w.entered := by
  cases h <;> rfl

theorem stands_of_ended {o : Outcome} (phase : w.phase = .ended o) (entered : w.entered = false)
    (stack : w.stack = []) : w.Stands root :=
  ⟨by rw [phase]; exact entered, fun _ => stack⟩

/-- Within the root only the phase of a walk has to be looked at. -/
theorem stands_of_entered (entered : w.entered = true) (phase : w.phase.Stands root true) :
    w.Stands root :=
  ⟨entered ▸ phase, fun outside => absurd (entered.symm.trans outside) nofun⟩

theorem Stands.advance (directory : ∀ s, p.probe.status p.root = .ok s → s.kind = .directory)
    (stands : w.Stands p.root) {r : Walk ε × Channel ε} (a : Advance p t w c r) :
    r.1.Stands p.root := by
  have known := stands.phase
  cases a with
  | fails trouble =>
      obtain ⟨g, ended⟩ := fail_phase _ p _
      exact stands_of_ended ended (fail_entered _ _ _) (fail_stack _ _ _)
  | begins h => exact ⟨by rw [h] at known; exact known, stands.stack⟩
  | rootDirectory h _ _ =>
      rw [h] at known
      exact ⟨Or.inl ⟨known, rfl, rfl, rfl⟩, stands.stack⟩
  | rootFile h known isFile => exact absurd (isFile.symm.trans (directory _ known)) nofun
  | rootOther _ _ _ _ | completes _ _ => exact stands_of_ended rfl rfl rfl
  | loops _ _ _ _ | enters _ _ _ => exact stands_of_entered rfl rfl
  | leaves h _ _ =>
      rw [h] at known
      exact stands_of_entered known (by rw [h]; rfl)
  | takes h _ _ =>
      rw [h] at known
      exact stands_of_entered known ⟨rfl, by simp⟩
  | drops h _ dropped =>
      rw [h] at known
      exact stands_of_entered (dropped.entered.trans known.1) (by rw [dropped.phase]; rfl)
  | descends h _ _ _ _ =>
      rw [h] at known
      exact stands_of_entered known.1 (Or.inr ⟨rfl, known.2⟩)
  | accepts h _ _ _ _ =>
      rw [h] at known
      exact stands_of_entered known.1 rfl
  | dropsRoot h _ _ | acceptsRoot h _ _ _ =>
      rw [h] at known
      exact known.elim
  | unmade h _ | makes h _ | tries h _ | turnedAway h _ _ | puts h _ _ | counts h
  | signals h _ =>
      rw [h] at known
      exact stands_of_entered known rfl
  | notifies h =>
      rw [h] at known
      exact stands_of_entered ((notify_entered _ _ _ _).trans known) (by simp [Phase.Stands])
  | rests _ => exact stands

/-- What a step does to the identities that are kept. -/
inductive Shift (p : Plan ε) (w w' : Walk ε) : Prop where
  | stays (unopened : ¬ w.OpensRoot p) (outside : w.entered = false) (still : w'.entered = false)
      (same : w'.ancestors = w.ancestors)
  | opens (now : p.filters.followLinks = true → w.OpensRoot p ∧ ¬ w.RefusesRoot p)
      (inside : w'.entered = true)
  | refuses {s : Status} (refused : w.RefusesRoot p) (outside : w.entered = false)
      (known : p.probe.status p.root = .ok s) (new : s.identity ∉ w.ancestors)
      (still : w'.entered = false) (kept : w'.ancestors = s.identity :: w.ancestors)
  | within (unopened : ¬ w.OpensRoot p) (inside : w.entered = true) (still : w'.entered = true)
  | forgets (unopened : ¬ w.OpensRoot p) (inside : w.entered = true) (outside : w'.entered = false)
      (empty : w'.ancestors = [])

theorem shift_of_same (unopened : ¬ w.OpensRoot p) (entered : w'.entered = w.entered)
    (ancestors : w'.ancestors = w.ancestors) : Shift p w w' := by
  cases inside : w.entered with
  | false => exact .stays unopened inside (entered.trans inside) ancestors
  | true => exact .within unopened inside (entered.trans inside)

theorem shift_of_end (unopened : ¬ w.OpensRoot p) (outside : w'.entered = false)
    (ancestors : w'.ancestors = if w.entered then [] else w.ancestors) : Shift p w w' := by
  cases inside : w.entered with
  | false => exact .stays unopened inside outside (by simp [ancestors, inside])
  | true => exact .forgets unopened inside outside (by simp [ancestors, inside])

theorem Stands.not_opensRoot (stands : w.Stands p.root) (inside : w.entered = true) :
    ¬ w.OpensRoot p := by
  rintro ⟨-, phase, -⟩
  have known := stands.phase
  rw [phase, inside] at known
  simp [Phase.Stands] at known

/-- Until the root is opened, only the root is. -/
theorem Stands.root_of_opening (stands : w.Stands root) (outside : w.entered = false) {path : Path}
    {relative : List String} {depth : Nat} (h : w.phase = .opening path relative depth) :
    w.phase = .opening root [] 0 ∧ path = root := by
  have known := stands.phase
  rw [h, outside] at known
  simp only [Phase.Stands, true_and, false_and, Bool.false_eq_true, or_false] at known
  obtain ⟨rfl, rfl, rfl⟩ := known
  exact ⟨h, rfl⟩

theorem Trouble.shifts (stands : w.Stands p.root) {f : Failure} (h : Trouble p t w c w' f) :
    Shift p w (w'.fail p f) := by
  -- nothing is kept but where the root itself cannot be listed
  have ending : ¬ w.OpensRoot p → w'.ancestors = w.ancestors → Shift p w (w'.fail p f) := by
    intro unopened same
    exact shift_of_end unopened (fail_entered _ _ _) (by rw [fail_ancestors, h.entered, same])
  cases h with
  | @listing path relative depth key ancestors f phase keyed answer =>
      rcases Bool.eq_false_or_eq_true w.entered with inside | outside
      · have empty := (fail_ancestors { w with ancestors := ancestors } p f).trans (if_pos inside)
        exact .forgets (stands.not_opensRoot inside) inside (fail_entered _ _ _) empty
      · obtain ⟨first, rfl⟩ := stands.root_of_opening outside phase
        cases keyed with
        | unfollowed off => exact ending (fun opens => absurd (opens.1.symm.trans off) nofun) rfl
        | @fresh s follows known new =>
            have refused : w.RefusesRoot p := ⟨follows, first, s, f, known, new, answer⟩
            exact .refuses refused outside known new (fail_entered _ _ _) (by simp [outside])
  | @status path relative depth f phase follows answer =>
      refine ending (fun opens => ?_) rfl
      obtain ⟨-, first, s, known⟩ := opens
      rw [phase, Phase.opening.injEq] at first
      rw [first.1, known] at answer
      cases answer
  | cancelled look _ =>
      refine ending (fun opens => ?_) rfl
      rw [opens.2.1] at look
      cases look
  | rootStatus phase _ | excluding phase _ _ | sorting phase _ _ _ | including phase _ _ _ _
  | excludingRoot phase _ _ | includingRoot phase _ _ _ | refused phase _ | latched phase _ =>
      exact ending (fun opens => by simp [OpensRoot, phase] at opens) rfl

theorem Advance.shifts (stands : w.Stands p.root) {r : Walk ε × Channel ε}
    (a : Advance p t w c r) : Shift p w r.1 := by
  cases a with
  | fails trouble => exact trouble.shifts stands
  | loops h follows known again =>
      cases inside : w.entered with
      | true => exact .within (stands.not_opensRoot inside) inside rfl
      | false =>
          obtain ⟨first, rfl⟩ := stands.root_of_opening inside h
          refine .opens (fun _ => ⟨⟨follows, first, _, known⟩, ?_⟩) rfl
          rintro ⟨-, -, s, f, known', new, -⟩
          cases known.symm.trans known'
          exact new again
  | enters h keyed listed =>
      cases inside : w.entered with
      | true => exact .within (stands.not_opensRoot inside) inside rfl
      | false =>
          obtain ⟨first, rfl⟩ := stands.root_of_opening inside h
          refine .opens (fun follows => ?_) rfl
          cases keyed with
          | unfollowed off => exact absurd (follows.symm.trans off) nofun
          | fresh follows known new =>
              refine ⟨⟨follows, first, _, known⟩, ?_⟩
              rintro ⟨-, -, s, f, -, -, refused⟩
              cases listed.symm.trans refused
  | leaves h _ _ =>
      have inside : w.entered = true := by
        have known := stands.phase
        rwa [h] at known
      exact .within (stands.not_opensRoot inside) inside inside
  | rootOther h _ _ _ | completes h _ =>
      exact shift_of_end (fun opens => by simp [OpensRoot, h] at opens) rfl rfl
  | drops h _ dropped =>
      exact shift_of_same (fun opens => by simp [OpensRoot, h] at opens) dropped.entered
        dropped.ancestors
  | notifies h =>
      exact shift_of_same (fun opens => by simp [OpensRoot, h] at opens) (notify_entered _ _ _ _)
        (notify_ancestors _ _ _ _)
  | begins h | rootDirectory h _ _ | rootFile h _ _ | takes h _ _ | descends h _ _ _ _
  | accepts h _ _ _ _ | dropsRoot h _ _ | acceptsRoot h _ _ _ | unmade h _ | makes h _
  | tries h _ | turnedAway h _ _ | puts h _ _ | counts h | signals h _ | rests h =>
      exact shift_of_same (fun opens => by simp [OpensRoot, h] at opens) rfl rfl

namespace Life

variable {l : Life ε fs} {n : Nat}

/-- What is known of a walker at each moment of its life: outside the root it keeps nothing, but
for the identity of a root whose listing was refused. -/
inductive Keeps (l : Life ε fs) (n : Nat) : Prop where
  | within (inside : (l.walk n).entered = true) (unbarred : ¬ l.Barred n)
  | without (outside : (l.walk n).entered = false)
      (barred : l.Barred n → (l.walk n).ancestors = [l.place])
      (empty : ¬ l.Barred n → (l.walk n).ancestors = [])

theorem Keeps.unbarred (h : l.Keeps n) (inside : (l.walk n).entered = true) : ¬ l.Barred n := by
  cases h with
  | within _ unbarred => exact unbarred
  | without outside _ _ => exact absurd (inside.symm.trans outside) nofun

theorem Keeps.ancestors (h : l.Keeps n) (outside : (l.walk n).entered = false) :
    (l.Barred n → (l.walk n).ancestors = [l.place]) ∧
      (¬ l.Barred n → (l.walk n).ancestors = []) := by
  cases h with
  | within inside _ => exact absurd (inside.symm.trans outside) nofun
  | without _ barred empty => exact ⟨barred, empty⟩

theorem status_root (l : Life ε fs) {p : Plan ε} (root : p.root = l.root)
    (reads : p.probe.Reads fs) {s : Status} (known : p.probe.status p.root = .ok s) :
    s.identity = l.place ∧ s.kind = .directory := by
  obtain ⟨found, m, node, kind⟩ := FileSystem.status_ok (reads.status known)
  rw [root, l.found, Except.ok.injEq] at found
  rw [← found, l.directory, Option.some.injEq] at node
  exact ⟨found.symm, by rw [← kind, ← node]; rfl⟩

theorem opens_iff {p : Plan ε} {t : Token} {c : Channel ε} (moment : l.moment n = .step p t c) :
    l.Opens n ↔ (l.walk n).OpensRoot p := by
  constructor
  · rintro ⟨p', t', c', moment', opens⟩
    cases moment.symm.trans moment'
    exact opens
  · exact fun opens => ⟨p, t, c, moment, opens⟩

theorem refuses_iff {p : Plan ε} {t : Token} {c : Channel ε} (moment : l.moment n = .step p t c) :
    l.Refuses n ↔ (l.walk n).RefusesRoot p := by
  constructor
  · rintro ⟨p', t', c', moment', refused⟩
    cases moment.symm.trans moment'
    exact refused
  · exact fun refused => ⟨p, t, c, moment, refused⟩

theorem walk_step {p : Plan ε} {t : Token} {c : Channel ε} (moment : l.moment n = .step p t c) :
    l.walk (n + 1) = ((l.walk n).step p t c).1 := by
  rw [walk, moment]
  rfl

theorem Keeps.step (h : l.Keeps n) {p : Plan ε} {t : Token} {c : Channel ε}
    (moment : l.moment n = .step p t c) (shift : Shift p (l.walk n) (l.walk (n + 1))) :
    l.Keeps (n + 1) := by
  obtain ⟨root, filters, reads⟩ := l.own moment
  have calm : ¬ (l.walk n).OpensRoot p → (l.Barred (n + 1) ↔ l.Barred n) :=
    fun unopened => barred_succ_of_unopened (mt (opens_iff moment).mp unopened)
  cases shift with
  | stays unopened outside still same =>
      obtain ⟨barred, empty⟩ := h.ancestors outside
      refine .without still (fun bar => ?_) fun unbarred => ?_
      · rw [same, barred ((calm unopened).mp bar)]
      · rw [same, empty (mt (calm unopened).mpr unbarred)]
  | opens now inside =>
      refine .within inside fun bar => ?_
      obtain ⟨opens, unrefused⟩ := now (filters ▸ bar.follows)
      rcases barred_succ.mp bar with refused | ⟨-, unopened⟩
      · exact unrefused ((refuses_iff moment).mp refused)
      · exact unopened ((opens_iff moment).mpr opens)
  | refuses refused outside known new still kept =>
      obtain ⟨barred, empty⟩ := h.ancestors outside
      obtain ⟨place, -⟩ := l.status_root root reads known
      rw [place] at new kept
      have unbarred : ¬ l.Barred n := fun bar => new (by simp [barred bar])
      have bar : l.Barred (n + 1) := barred_succ.mpr (Or.inl ((refuses_iff moment).mpr refused))
      exact .without still (fun _ => by rw [kept, empty unbarred]) fun lifted => absurd bar lifted
  | within unopened inside still =>
      exact .within still (mt (calm unopened).mp (h.unbarred inside))
  | forgets unopened inside outside empty =>
      have lifted := mt (calm unopened).mp (h.unbarred inside)
      exact .without outside (fun bar => absurd bar lifted) fun _ => empty

theorem Keeps.rests (h : l.Keeps n) (calm : l.Barred (n + 1) ↔ l.Barred n)
    (entered : (l.walk (n + 1)).entered = (l.walk n).entered)
    (ancestors : (l.walk (n + 1)).ancestors = (l.walk n).ancestors) : l.Keeps (n + 1) := by
  cases h with
  | within inside unbarred => exact .within (entered.trans inside) (mt calm.mp unbarred)
  | without outside barred empty =>
      exact .without (entered.trans outside) (fun bar => ancestors.trans (barred (calm.mp bar)))
        fun lifted => ancestors.trans (empty (mt calm.mpr lifted))

/-- By induction on the moments: what a walker keeps depends on nothing but the bar. -/
theorem keeps (l : Life ε fs) (n : Nat) : (l.walk n).Stands l.root ∧ l.Keeps n := by
  induction n with
  | zero =>
      exact ⟨⟨rfl, fun _ => rfl⟩, .without rfl (fun bar => absurd bar not_barred_zero) fun _ => rfl⟩
  | succ n ih =>
      obtain ⟨stands, keeps⟩ := ih
      cases moment : l.moment n with
      | step p t c =>
          obtain ⟨root, filters, reads⟩ := l.own moment
          have advance := step_advances p t (l.walk n) c
          rw [← root] at stands
          have shift := advance.shifts stands
          rw [← walk_step moment] at shift
          have next := stands.advance (fun s known => (l.status_root root reads known).2) advance
          rw [← walk_step moment, root] at next
          exact ⟨next, keeps.step moment shift⟩
      | again =>
          have calm : l.Barred (n + 1) ↔ l.Barred n := by
            refine barred_succ_of_unopened ?_
            rintro ⟨p, t, c, other, -⟩
            cases moment.symm.trans other
          have next : l.walk (n + 1) = (l.walk n).meet .again := by rw [walk, moment]
          have known := stands.phase
          simp only [meet] at next
          split at next
          · next o ended =>
            rw [ended] at known
            refine ⟨?_, keeps.rests calm (by rw [next]; rfl) (by rw [next]; rfl)⟩
            rw [next]
            exact ⟨known, stands.stack⟩
          · exact ⟨next ▸ stands, keeps.rests calm (by rw [next]) (by rw [next])⟩

theorem outside_of_ended (l : Life ε fs) {o : Outcome} (ended : (l.walk n).phase = .ended o) :
    (l.walk n).entered = false ∧ (l.walk n).stack = [] := by
  have stands := (l.keeps n).1
  have outside := stands.phase
  rw [ended] at outside
  exact ⟨outside, stands.stack outside⟩

end Life

/-- What the runs of one walker leave behind, and what a run finds that follows them. -/
structure Forgets (l : Life ε fs) : Prop where
  /-- However a run has ended, no identity is kept, unless the listing of the root was refused. -/
  empty : ∀ {n o}, (l.walk n).phase = .ended o → ¬ l.Barred n → (l.walk n).ancestors = []
  barred : ∀ {n o}, (l.walk n).phase = .ended o → l.Barred n → (l.walk n).ancestors = [l.place]
  /-- An undisturbed run that follows puts what a walker puts that never ran before. -/
  renewed : ∀ {n o p r r'}, (l.walk n).phase = .ended o → ¬ l.Barred n → p.root = l.root →
    p.filters = l.filters → p.probe.Reads fs → Undisturbed p r (l.walk n).again →
    Undisturbed p r' (fresh l.root) →
    ∃ es k, ∀ m, k ≤ m → ((l.walk n).again.after p r m).put = (l.walk n).put ++ es ∧
      ((fresh l.root).after p r' m).put = es
  /-- But if the listing of the root was refused, such a run takes the root for its own ancestor. It
  puts nothing, comes to a good end, and only then forgets the root. -/
  lost : ∀ {n o p r}, (l.walk n).phase = .ended o → l.Barred n → p.root = l.root →
    p.filters = l.filters → p.probe.Reads fs → Undisturbed p r (l.walk n).again →
    ∃ k, ∀ m, k ≤ m → ((l.walk n).again.after p r m).phase = .ended (.ok l.root) ∧
      ((l.walk n).again.after p r m).put = (l.walk n).put ∧
      ((l.walk n).again.after p r m).ancestors = []

theorem makes_unique {ss : List (List String)} {es es' : List ε} (h : p.Makes ss es)
    (h' : p.Makes ss es') : es = es' := by
  induction h generalizing es' with
  | nil =>
      cases h'
      rfl
  | cons made _ ih =>
      cases h' with
      | cons made' rest =>
          cases made.symm.trans made'
          rw [ih rest]

/-- A walk that keeps the identity of its root passes the root over, and then keeps nothing. -/
theorem passes_over_root {r : Course ε} (idle : w.phase = .idle) (stack : w.stack = [])
    {q : Place} (kept : w.ancestors = [q]) (follows : p.filters.followLinks = true)
    (root : ∀ s, p.probe.status p.root = .ok s → s.identity = q ∧ s.kind = .directory)
    (calm : Undisturbed p r w) :
    (w.after p r 4).phase = .ended (.ok p.root) ∧ (w.after p r 4).put = w.put ∧
      (w.after p r 4).ancestors = [] := by
  have first : w.after p r 1 = w.begin_ p := by
    simp only [after, step, idle]
  obtain ⟨s, known⟩ := calm.root_known idle
  obtain ⟨identity, kind⟩ := root s known
  have second : w.after p r 2 = (w.begin_ p).go (.opening p.root [] 0) := by
    rw [after, first]
    simp only [step, begin_phase, examine, known, kind]
  have held : s.identity ∈ ((w.begin_ p).go (.opening p.root [] 0)).ancestors := by
    rw [identity]
    exact kept ▸ List.mem_singleton_self q
  have third : w.after p r 3 = (({ (w.begin_ p).go (.opening p.root [] 0) with
      entered := true } : Walk ε).say (.loop p.root)).go .turning := by
    rw [after, second]
    simp only [step, go_phase, open_, follows, known, List.contains_iff_mem.mpr held]
    rfl
  have fourth : w.after p r 4 = (w.after p r 3).complete p := by
    have turning : (w.after p r 3).phase = .turning := by rw [third]; rfl
    have empty : (w.after p r 3).stack = [] := by rw [third]; exact stack
    rw [after]
    simp only [step, turning, turn, empty]
  refine ⟨by rw [fourth]; rfl, ?_, ?_⟩
  · rw [fourth, complete_put, third, go_put, say_put]
    exact begin_put _ _
  · rw [fourth, third]
    rfl

/-- A walker forgets, however its runs end, what it knew of the open directories, except for a root
whose listing was refused; a run that follows goes as the first would have, except for one that
follows such a refusal. -/
theorem forgets_unless_barred (wf : fs.WellFormed) (l : Life ε fs) : Forgets l where
  empty {n o} ended unbarred := by
    obtain ⟨outside, -⟩ := l.outside_of_ended ended
    exact ((l.keeps n).2.ancestors outside).2 unbarred
  barred {n o} ended bar := by
    obtain ⟨outside, -⟩ := l.outside_of_ended ended
    exact ((l.keeps n).2.ancestors outside).1 bar
  renewed {n o p r r'} ended unbarred root filters reads calm calm' := by
    obtain ⟨outside, stack⟩ := l.outside_of_ended ended
    have ready : (l.walk n).again.Ready :=
      ⟨rfl, stack, ((l.keeps n).2.ancestors outside).2 unbarred⟩
    obtain ⟨k, es, makes, ends⟩ := ends_with_accepted wf reads ready calm
    obtain ⟨k', es', makes', ends'⟩ := ends_with_accepted wf reads (ready_fresh l.root) calm'
    cases makes_unique makes makes'
    refine ⟨es, max k k', fun m le => ⟨(ends m (by omega)).2, ?_⟩⟩
    exact (ends' m (by omega)).2
  lost {n o p r} ended bar root filters reads calm := by
    obtain ⟨outside, stack⟩ := l.outside_of_ended ended
    have kept := ((l.keeps n).2.ancestors outside).1 bar
    obtain ⟨done, put, empty⟩ := passes_over_root (w := (l.walk n).again) rfl stack kept
      (filters ▸ bar.follows) (fun s known => l.status_root root reads known) calm
    refine ⟨4, fun m le => ?_⟩
    rw [after_of_ended done le, done, put, empty, root]
    exact ⟨rfl, rfl, rfl⟩

/-- The plan of `loopPlan` at a time when the working directory cannot be listed. -/
def refusedPlan : Plan String :=
    { loopPlan with probe := { loopPlan.probe with
        list := fun path => .error (.system (.coded 13 "Permission denied" (some path.text))) } }

theorem refusedPlan_reads : refusedPlan.probe.Reads loopTree where
  status := loopPlan_reads.status
  list h := nomatch h
  kindOf := loopPlan_reads.kindOf

/-- A walker that is run while its root cannot be listed. -/
def refusedLife : Life String loopTree where
  root := ⟨.here, []⟩
  filters := loopPlan.filters
  place := []
  entries := [("a", .file ⟨0, [], 0⟩), ("loop", .link "." 0)]
  found := by cbv
  directory := rfl
  moment _ := .step refusedPlan .fresh (.fresh none none)
  own moment := by
    cases moment
    exact ⟨rfl, rfl, refusedPlan_reads⟩

theorem refusedLife_ended : ∃ f, (refusedLife.walk 3).phase = .ended (.error f) :=
  ⟨_, rfl⟩

theorem refusedLife_barred : refusedLife.Barred 3 := by
  have status : loopTree.status true ⟨.here, []⟩ = .ok ⟨.directory, 4096, 0, []⟩ := by cbv
  have known : refusedPlan.probe.status ⟨.here, []⟩ = .ok ⟨.directory, 4096, 0, []⟩ := by
    simp [refusedPlan, loopPlan, FileSystem.probe, status, Except.mapError]
  have refused : refusedLife.Refuses 2 :=
    ⟨refusedPlan, _, _, rfl, rfl, rfl, _, _, known, List.not_mem_nil, rfl⟩
  exact Life.barred_succ.mpr (Or.inl refused)

/-- Once the directory can be listed again, the next run is not disturbed, and puts nothing. -/
theorem refusedLife_loses : Undisturbed loopPlan quietCourse (refusedLife.walk 3).again ∧
    ∀ m, 4 ≤ m → ((refusedLife.walk 3).again.after loopPlan quietCourse m).put = [] := by
  let run := (refusedLife.walk 3).again.after { loopPlan with probe := loopProbe } quietCourse 4
  have ends : run.outcome?.any (·.isOk) = true ∧ run.put = [] := by decide +kernel
  simp only [run, loopProbe_eq] at ends
  obtain ⟨calm, still⟩ := settled_of_outcome ends.1
  exact ⟨calm, fun m le => by rw [still m le]; exact ends.2⟩

theorem loop_puts :
    ∀ m, 16 ≤ m → ((fresh loopPlan.root).after loopPlan quietCourse m).put = ["a"] := by
  let run := (fresh loopPlan.root).after { loopPlan with probe := loopProbe } quietCourse 16
  have ends : run.outcome?.any (·.isOk) = true ∧ run.put = ["a"] := by decide +kernel
  simp only [run, loopProbe_eq] at ends
  obtain ⟨-, still⟩ := settled_of_outcome ends.1
  exact fun m le => by rw [still m le]; exact ends.2

theorem refusedLife_forgets :
    loopTree.WellFormed ∧ refusedLife.Barred 3 ∧ (refusedLife.walk 3).ancestors = [[]] ∧
      ∃ k, ∀ m, k ≤ m →
        ((refusedLife.walk 3).again.after loopPlan quietCourse m).put = (refusedLife.walk 3).put ∧
        ((refusedLife.walk 3).again.after loopPlan quietCourse m).ancestors = [] := by
  have forgets := forgets_unless_barred loopTree_wellFormed refusedLife
  obtain ⟨f, ended⟩ := refusedLife_ended
  obtain ⟨k, lost⟩ := forgets.lost ended refusedLife_barred rfl rfl loopPlan_reads
    refusedLife_loses.1
  exact ⟨loopTree_wellFormed, refusedLife_barred, forgets.barred ended refusedLife_barred,
    k, fun m le => (lost m le).2⟩

/-- A root whose listing is refused does stay, and the run that follows puts nothing where a walker
that never ran before puts a file. -/
theorem refused_root_stays :
    ¬ (∀ l : Life String loopTree, l.filters.followLinks = true →
        ∀ n o, (l.walk n).phase = .ended o → (l.walk n).ancestors = []) ∧
      ¬ (∀ l : Life String loopTree, l.filters.followLinks = true →
        ∀ n o p r r', (l.walk n).phase = .ended o → p.root = l.root → p.filters = l.filters →
          p.probe.Reads loopTree → Undisturbed p r (l.walk n).again →
          Undisturbed p r' (fresh l.root) →
          ∃ es k, ∀ m, k ≤ m → ((l.walk n).again.after p r m).put = (l.walk n).put ++ es ∧
            ((fresh l.root).after p r' m).put = es) := by
  obtain ⟨f, ended⟩ := refusedLife_ended
  constructor
  · intro claim
    have empty := claim refusedLife rfl 3 _ ended
    revert empty
    decide +kernel
  · intro claim
    obtain ⟨calm, nothing⟩ := refusedLife_loses
    obtain ⟨es, k, same⟩ := claim refusedLife rfl 3 _ loopPlan quietCourse quietCourse ended rfl rfl
      loopPlan_reads calm loop_undisturbed
    obtain ⟨later, first⟩ := same (max k 16) (Nat.le_max_left k 16)
    have late : 16 ≤ max k 16 := Nat.le_max_right k 16
    have file : es = ["a"] := first.symm.trans (loop_puts _ late)
    rw [nothing _ (by omega), file] at later
    exact List.append_ne_nil_of_right_ne_nil _ (List.cons_ne_nil "a" []) later.symm

end Walk
end FileCensus
