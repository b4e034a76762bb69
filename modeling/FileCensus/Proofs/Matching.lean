import FileCensus.Glob.Regex

/-!
What an expression matches. The matcher fills columns of answers, one for every suffix of the text;
here the answers are held against the meaning of the expression, which speaks of one place in the
text at a time.
-/

namespace FileCensus.Glob.Regex

/-- The expression matches a piece at the head of the first text and leaves the second. -/
def Leaves : Regex → List Char → List Char → Prop
  | .empty, s, t => s = t
  | .one test, s, t => ∃ c, test.holds c = true ∧ s = c :: t
  | .many test, s, t => ∃ run, (∀ c ∈ run, test.holds c = true) ∧ s = run ++ t
  | .edge, s, t => s = t ∧ atEdge s = true
  | .seq a b, s, t => ∃ u, a.Leaves s u ∧ b.Leaves u t
  | .either a b, s, t => a.Leaves s t ∨ b.Leaves s t

/-- The expression matches a piece at the head of the text and leaves something that `P` accepts. -/
def Reaches (P : List Char → Prop) (r : Regex) (s : List Char) : Prop :=
    ∃ t, r.Leaves s t ∧ P t

/-- The column answers for every suffix of the text, itself included, whether `P` accepts it. -/
def Answers (P : List Char → Prop) : List Char → List Bool → Prop
  | [], column => ∃ b, column = [b] ∧ (b = true ↔ P [])
  | c :: s, column => ∃ b below, column = b :: below ∧ (b = true ↔ P (c :: s)) ∧ Answers P s below

section Columns

variable {P Q : List Char → Prop} {s : List Char} {column below : List Bool}

theorem Answers.head (h : Answers P s column) : column.headD false = true ↔ P s := by
  cases s with
  | nil =>
      obtain ⟨b, rfl, here⟩ := h
      exact here
  | cons c s =>
      obtain ⟨b, below, rfl, here, -⟩ := h
      exact here

theorem Answers.any (h : Answers P s column) : column.any id = true ↔ ∃ u, u <:+ s ∧ P u := by
  induction s generalizing column with
  | nil =>
      obtain ⟨b, rfl, here⟩ := h
      simp [here]
  | cons c s ih =>
      obtain ⟨b, below, rfl, here, later⟩ := h
      simp only [List.any_cons, id_eq, Bool.or_eq_true, here, ih later, List.suffix_cons_iff,
        or_and_right, exists_or, exists_eq_left]

theorem Answers.congr (same : ∀ u, P u ↔ Q u) (h : Answers P s column) : Answers Q s column := by
  have : P = Q := funext fun u => propext (same u)
  exact this ▸ h

theorem anything_answers (s : List Char) : Answers (fun _ => True) s (anything s) := by
  induction s with
  | nil => exact ⟨true, rfl, by simp⟩
  | cons c s ih => exact ⟨true, anything s, rfl, by simp, ih⟩

theorem shift_answers (test : CharTest) (h : Answers P s below) :
    Answers (Reaches P (.one test)) s (shift test s below) := by
  induction s generalizing below with
  | nil => exact ⟨false, by cases below <;> rfl, by simp [Reaches, Leaves]⟩
  | cons c s ih =>
      obtain ⟨b, below, rfl, -, later⟩ := h
      refine ⟨_, _, rfl, ?_, ih later⟩
      simp only [Bool.and_eq_true, later.head, Reaches, Leaves, List.cons.injEq]
      constructor
      · rintro ⟨passes, next⟩
        exact ⟨s, ⟨c, passes, rfl, rfl⟩, next⟩
      · rintro ⟨t, ⟨_, passes, rfl, rfl⟩, next⟩
        exact ⟨passes, next⟩

theorem reaches_many_nil (test : CharTest) : Reaches P (.many test) [] ↔ P [] := by
  constructor
  · rintro ⟨t, ⟨run, -, eq⟩, next⟩
    obtain ⟨rfl, rfl⟩ := List.append_eq_nil_iff.mp eq.symm
    exact next
  · exact fun next => ⟨[], ⟨[], by simp, rfl⟩, next⟩

theorem reaches_many_cons (test : CharTest) (c : Char) (s : List Char) :
    Reaches P (.many test) (c :: s) ↔
      P (c :: s) ∨ test.holds c = true ∧ Reaches P (.many test) s := by
  constructor
  · rintro ⟨t, ⟨run, pass, eq⟩, next⟩
    cases run with
    | nil => exact .inl (by rw [eq]; exact next)
    | cons d run =>
        obtain ⟨rfl, rfl⟩ := List.cons.inj eq
        obtain ⟨first, others⟩ := List.forall_mem_cons.mp pass
        exact .inr ⟨first, t, ⟨run, others, rfl⟩, next⟩
  · rintro (next | ⟨first, t, ⟨run, others, rfl⟩, next⟩)
    · exact ⟨c :: s, ⟨[], by simp, rfl⟩, next⟩
    · exact ⟨t, ⟨c :: run, List.forall_mem_cons.mpr ⟨first, others⟩, rfl⟩, next⟩

theorem runs_answers (test : CharTest) (h : Answers P s below) :
    Answers (Reaches P (.many test)) s (runs test s below) := by
  induction s generalizing below with
  | nil =>
      obtain ⟨b, rfl, here⟩ := h
      exact ⟨b, rfl, by rw [reaches_many_nil, here]⟩
  | cons c s ih =>
      obtain ⟨b, below, rfl, here, later⟩ := h
      refine ⟨_, _, rfl, ?_, ih later⟩
      rw [reaches_many_cons, Bool.or_eq_true, Bool.and_eq_true, here, (ih later).head]

theorem reaches_edge (s : List Char) : Reaches P .edge s ↔ P s ∧ atEdge s = true := by
  constructor
  · rintro ⟨t, ⟨rfl, ends⟩, next⟩
    exact ⟨next, ends⟩
  · rintro ⟨next, ends⟩
    exact ⟨s, ⟨rfl, ends⟩, next⟩

theorem edges_answers (h : Answers P s below) : Answers (Reaches P .edge) s (edges s below) := by
  induction s generalizing below with
  | nil =>
      obtain ⟨b, rfl, here⟩ := h
      exact ⟨b, rfl, by rw [reaches_edge, here]; simp [atEdge]⟩
  | cons c s ih =>
      obtain ⟨b, below, rfl, here, later⟩ := h
      exact ⟨_, _, rfl, by rw [reaches_edge, Bool.and_eq_true, here], ih later⟩

theorem zipWith_answers {column' : List Bool} (h : Answers P s column) (h' : Answers Q s column') :
    Answers (fun u => P u ∨ Q u) s (List.zipWith (· || ·) column column') := by
  induction s generalizing column column' with
  | nil =>
      obtain ⟨b, rfl, here⟩ := h
      obtain ⟨b', rfl, here'⟩ := h'
      exact ⟨b || b', rfl, by simp [here, here']⟩
  | cons c s ih =>
      obtain ⟨b, below, rfl, here, later⟩ := h
      obtain ⟨b', below', rfl, here', later'⟩ := h'
      exact ⟨b || b', _, rfl, by simp [here, here'], ih later later'⟩

end Columns

/-- The columns that the matcher fills hold what the expression means. -/
theorem column_answers (r : Regex) {P : List Char → Prop} {s : List Char} {below : List Bool}
    (h : Answers P s below) : Answers (Reaches P r) s (r.column s below) := by
  induction r generalizing P below with
  | empty => exact h.congr fun u => by simp [Reaches, Leaves]
  | one test => exact shift_answers test h
  | many test => exact runs_answers test h
  | edge => exact edges_answers h
  | seq a b iha ihb =>
      refine (iha (ihb h)).congr fun u => ?_
      constructor
      · rintro ⟨v, first, t, second, next⟩
        exact ⟨t, ⟨v, first, second⟩, next⟩
      · rintro ⟨t, ⟨v, first, second⟩, next⟩
        exact ⟨v, first, t, second, next⟩
  | either a b iha ihb =>
      refine (zipWith_answers (iha h) (ihb h)).congr fun u => ?_
      simp only [Reaches, Leaves, or_and_right, exists_or]

theorem matchesHead_iff (r : Regex) (s : List Char) :
    r.matchesHead s = true ↔ ∃ t, r.Leaves s t := by
  rw [matchesHead, (column_answers r (anything_answers s)).head]
  simp [Reaches]

theorem occursIn_iff (r : Regex) (s : List Char) :
    r.occursIn s = true ↔ ∃ u, u <:+ s ∧ ∃ t, r.Leaves u t := by
  rw [occursIn, (column_answers r (anything_answers s)).any]
  simp [Reaches]

end FileCensus.Glob.Regex
