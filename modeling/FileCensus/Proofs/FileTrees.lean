import FileCensus.FileSystem.Access

/-!
What a file tree promises to those who walk it: the entries of a directory have different names, and
none of them is called `.` or `..`. A directory is known by its place, and the listing of a
directory is in the strict order of the names.
-/

namespace FileCensus
namespace Node

mutual

/-- Every directory of the tree has entries with different names, none of which stands for the
directory or its parent. -/
def isWellFormed : Node → Bool
  | .directory entries => decide (entries.map (·.1)).Nodup && areWellFormed entries
  | _ => true

def areWellFormed : List (String × Node) → Bool
  | [] => true
  | (name, n) :: rest => name != "." && name != ".." && n.isWellFormed && areWellFormed rest

end

mutual

/-- The places of all directories of a tree. -/
def directories : Node → List Place
  | .directory entries => [] :: directoriesOf entries
  | _ => []

def directoriesOf : List (String × Node) → List Place
  | [] => []
  | (name, n) :: rest => n.directories.map (name :: ·) ++ directoriesOf rest

end

theorem mem_of_entryOf {entries : List (String × Node)} {name : String} {n : Node}
    (h : entryOf entries name = some n) : (name, n) ∈ entries := by
  obtain ⟨e, found, rfl⟩ := Option.map_eq_some_iff.mp h
  have named : e.1 = name := by simpa using List.find?_some found
  exact named ▸ List.mem_of_find?_eq_some found

theorem entryOf_of_mem {entries : List (String × Node)} {name : String} {n : Node}
    (distinct : (entries.map (·.1)).Nodup) (h : (name, n) ∈ entries) :
    entryOf entries name = some n := by
  induction entries with
  | nil => cases h
  | cons e rest ih =>
      simp only [List.map_cons, List.nodup_cons] at distinct
      rcases List.mem_cons.mp h with rfl | later
      · simp [entryOf]
      · have other : e.1 ≠ name := by
          rintro rfl
          exact distinct.1 (List.mem_map.mpr ⟨_, later, rfl⟩)
        have found := ih distinct.2 later
        simp only [entryOf, List.find?_cons] at found ⊢
        rwa [show (e.1 == name) = false by simpa using other]

theorem areWellFormed_mem {entries : List (String × Node)} (h : areWellFormed entries = true)
    {e : String × Node} (he : e ∈ entries) :
    e.1 ≠ "." ∧ e.1 ≠ ".." ∧ e.2.isWellFormed = true := by
  induction entries with
  | nil => cases he
  | cons d rest ih =>
      obtain ⟨name, n⟩ := d
      simp only [areWellFormed, Bool.and_eq_true, bne_iff_ne] at h
      rcases List.mem_cons.mp he with rfl | later
      · exact ⟨h.1.1.1, h.1.1.2, h.1.2⟩
      · exact ih h.2 later

theorem at?_cons_eq_some {n m : Node} {name : String} {place : Place}
    (h : n.at? (name :: place) = some m) :
    ∃ entries d, n = .directory entries ∧ entryOf entries name = some d ∧ d.at? place = some m := by
  obtain ⟨d, found, below⟩ := Option.bind_eq_some_iff.mp h
  cases n with
  | directory entries => exact ⟨entries, d, rfl, found, below⟩
  | file _ | link _ _ | pipe => cases found

theorem at?_append (n : Node) (here there : Place) :
    n.at? (here ++ there) = (n.at? here).bind (·.at? there) := by
  induction here generalizing n with
  | nil => rfl
  | cons name here ih =>
      simp only [List.cons_append, at?, Option.bind_assoc]
      exact congrArg (n.child? name).bind (funext fun m => ih m)

theorem isWellFormed_at? {n m : Node} {place : Place} (h : n.isWellFormed = true)
    (hm : n.at? place = some m) : m.isWellFormed = true := by
  induction place generalizing n with
  | nil => cases hm; exact h
  | cons name place ih =>
      obtain ⟨entries, d, rfl, found, below⟩ := at?_cons_eq_some hm
      simp only [isWellFormed, Bool.and_eq_true] at h
      exact ih (areWellFormed_mem h.2 (mem_of_entryOf found)).2.2 below

theorem mem_directoriesOf {entries : List (String × Node)} {name : String} {n : Node}
    {place : Place} (he : (name, n) ∈ entries) (h : place ∈ n.directories) :
    name :: place ∈ directoriesOf entries := by
  induction entries with
  | nil => cases he
  | cons e rest ih =>
      obtain ⟨other, d⟩ := e
      simp only [directoriesOf, List.mem_append]
      cases List.mem_cons.mp he with
      | inl same =>
          cases same
          exact Or.inl (List.mem_map_of_mem h)
      | inr later => exact Or.inr (ih later)

theorem mem_directories {n : Node} {place : Place} {entries : List (String × Node)}
    (h : n.at? place = some (.directory entries)) : place ∈ n.directories := by
  induction place generalizing n with
  | nil =>
      cases h
      simp [directories]
  | cons name place ih =>
      obtain ⟨above, d, rfl, found, below⟩ := at?_cons_eq_some h
      simp only [directories, List.mem_cons]
      exact Or.inr (mem_directoriesOf (mem_of_entryOf found) (ih below))

end Node

namespace FileSystem

def WellFormed (fs : FileSystem) : Prop :=
    fs.root.isWellFormed = true

/-- The places of all directories. -/
def directories (fs : FileSystem) : List Place :=
    fs.root.directories

variable {fs : FileSystem}

theorem mem_directories {place : Place} {entries : List (String × Node)}
    (h : fs.at? place = some (.directory entries)) : place ∈ fs.directories :=
  Node.mem_directories h

theorem WellFormed.distinct (wf : fs.WellFormed) {place : Place} {entries : List (String × Node)}
    (h : fs.at? place = some (.directory entries)) : (entries.map (·.1)).Nodup := by
  have here := Node.isWellFormed_at? wf h
  simp only [Node.isWellFormed, Bool.and_eq_true, decide_eq_true_eq] at here
  exact here.1

theorem WellFormed.proper (wf : fs.WellFormed) {place : Place} {entries : List (String × Node)}
    (h : fs.at? place = some (.directory entries)) {e : String × Node} (he : e ∈ entries) :
    e.1 ≠ "." ∧ e.1 ≠ ".." := by
  have here := Node.isWellFormed_at? wf h
  simp only [Node.isWellFormed, Bool.and_eq_true] at here
  exact ⟨(Node.areWellFormed_mem here.2 he).1, (Node.areWellFormed_mem here.2 he).2.1⟩

theorem at?_snoc {place : Place} {entries : List (String × Node)}
    (h : fs.at? place = some (.directory entries)) (name : String) :
    fs.at? (place ++ [name]) = Node.entryOf entries name := by
  have here : fs.root.at? place = some (.directory entries) := h
  simp [at?, Node.at?_append, here, Node.at?, Node.child?]

theorem mem_entriesOf {entries : List (String × Node)} {e : Entry} :
    e ∈ entriesOf entries ↔ ∃ n, (e.name, n) ∈ entries ∧ n.kind = e.kind := by
  simp only [entriesOf, List.mem_mergeSort, List.mem_map]
  constructor
  · rintro ⟨d, hd, rfl⟩
    exact ⟨d.2, hd, rfl⟩
  · rintro ⟨n, hn, hk⟩
    exact ⟨(e.name, n), hn, by rw [hk]⟩

/-- Names that are all different are listed in strict order. -/
theorem entriesOf_sorted {entries : List (String × Node)} (distinct : (entries.map (·.1)).Nodup) :
    (entriesOf entries).Pairwise fun a b => a.name < b.name := by
  have sorted : (entriesOf entries).Pairwise fun a b => (!decide (b.name < a.name)) = true := by
    apply List.pairwise_mergeSort
    · intro a b c hab hbc
      simp only [Bool.not_eq_true', decide_eq_false_iff_not, String.not_lt] at hab hbc ⊢
      exact String.le_trans hab hbc
    · intro a b
      simp only [Bool.or_eq_true, Bool.not_eq_true', decide_eq_false_iff_not, String.not_lt]
      exact String.le_total a.name b.name
  have names : ((entriesOf entries).map (·.name)).Nodup := by
    have perm := (List.mergeSort_perm (entries.map fun e => (⟨e.1, e.2.kind⟩ : Entry))
      fun a b => !decide (b.name < a.name)).map (·.name)
    refine perm.nodup_iff.mpr ?_
    simpa [List.map_map, Function.comp_def] using distinct
  refine (sorted.and (List.pairwise_map.mp names)).imp ?_
  rintro a b ⟨notAfter, different⟩
  simp only [Bool.not_eq_true', decide_eq_false_iff_not] at notAfter
  refine Decidable.byContradiction fun notBefore => different ?_
  exact String.le_antisymm (String.not_lt.mp notAfter) (String.not_lt.mp notBefore)

end FileSystem

/-- A directory that holds a file and a link to itself. -/
def loopTree : FileSystem :=
    ⟨.directory [("a", .file ⟨0, [], 0⟩), ("loop", .link "." 0)], []⟩

theorem loopTree_wellFormed : loopTree.WellFormed := rfl

end FileCensus
