import FileCensus.Proofs.Resolution
import FileCensus.Walk.Step
import Mathlib.Data.String.Basic
import Mathlib.Data.List.Lex
import Mathlib.Data.List.Infix
import Mathlib.Data.Finset.Sort
import Mathlib.Data.Set.Finite.Lattice

/-!
Which files a walk is to accept, said of the tree and the filters alone. A relative path is a chain
of names from the root of the walk; nothing here mentions the order in which a walk goes, nor what
it remembers. The walk itself is held to this in the modules on its agenda.
-/

namespace FileCensus

/-- The path that a chain of names leads to from `p`. -/
def Path.below (p : Path) (s : List String) : Path :=
    { p with names := p.names ++ s }

@[simp] theorem Path.below_nil (p : Path) : p.below [] = p := by
  simp [Path.below]

theorem Path.below_snoc (p : Path) (s : List String) (name : String) :
    p.below (s ++ [name]) = (p.below s).child name := by
  simp [Path.below, Path.child]

/-- Every answer of `probe` is the answer of the tree. It may fail where the tree would answer. -/
structure Probe.Reads (probe : Probe) (fs : FileSystem) : Prop where
  status : ∀ {p s}, probe.status p = .ok s → fs.status true p = .ok s
  list : ∀ {p es}, probe.list p = .ok es → fs.list p = .ok es
  kindOf : ∀ {p e k}, probe.kindOf p e = .ok k → fs.kindOf p e = .ok k

theorem FileSystem.probe_reads (fs : FileSystem) (attributes : AttributeQuery) :
    (fs.probe attributes).Reads fs where
  status h := ok_of_mapError h
  list h := ok_of_mapError h
  kindOf h := h

/-- A walk of `loopTree` that follows links and leaves out hidden files. -/
def loopPlan : Plan String :=
    ⟨⟨.here, []⟩, ⟨[.hidden], [], none, true⟩, loopTree.probe loopTree.noAttributes,
      fun p => .ok p.text, none, none, 0.0⟩

theorem loopPlan_reads : loopPlan.probe.Reads loopTree :=
  loopTree.probe_reads loopTree.noAttributes

namespace Plan

variable {ε : Type} (p : Plan ε) (fs : FileSystem)

/-- The place of a relative path, links followed as the filters say. -/
def placeOf (s : List String) : Option Place :=
    (fs.find true p.root).toOption.bind fun here => fs.trail p.filters.followLinks here s

/-- A relative path names a node of this kind. -/
def Names (s : List String) (k : Kind) : Prop :=
    ∃ q n, p.placeOf fs s = some q ∧ fs.at? q = some n ∧ n.kind = k

/-- What globs are matched with: the names below the root, or the name of a root that is a file. -/
def relativeForm (s : List String) : String :=
    if s = [] then p.root.name else Walk.relativeText s

def excludes (s : List String) : Except Failure Bool :=
    p.filters.isExcluded p.probe.attributes (p.root.below s) (p.relativeForm s)

def includes (s : List String) : Except Failure Bool :=
    p.filters.isIncluded p.probe.attributes (p.root.below s) (p.relativeForm s)

/-- The directories on the way to `s`, the root among them, are all different. -/
def LoopFree (s : List String) : Prop :=
    ∀ t u, t <+: s → t ≠ s → u <+: s → u ≠ s → p.placeOf fs t = p.placeOf fs u → t = u

/-- The files that the filters let through. Entries of the root itself are never too deep. -/
structure Accepts (s : List String) : Prop where
  onWay : ∀ t, t <+: s → t ≠ [] → t ≠ s → p.Names fs t .directory ∧ p.excludes t = .ok false
  file : p.Names fs s .file
  kept : p.excludes s = .ok false
  wanted : p.includes s = .ok true
  shallow : s.length ≤ 1 ∨ p.filters.allowsDepth ((s.length : Int) - 1) = true
  loopFree : p.filters.followLinks = true → p.LoopFree fs s

/-- The directories that a walk has to go into. -/
structure Enters (d : List String) : Prop where
  directory : ∀ t, t <+: d → p.Names fs t .directory
  kept : ∀ t, t <+: d → t ≠ [] → p.excludes t = .ok false
  shallow : d = [] ∨ p.filters.allowsDepth d.length = true
  loopFree : p.filters.followLinks = true → ∀ t u, t <+: d → u <+: d →
    p.placeOf fs t = p.placeOf fs u → t = u

/-- The factory makes the entries `es` of the files `ss`, one of each and in the same order. -/
def Makes (ss : List (List String)) (es : List ε) : Prop :=
    List.Forall₂ (fun s e => p.make (p.root.below s) = .ok e) ss es

variable {p fs} {s t d : List String} {name : String} {q : Place}

theorem Names.unique {j k : Kind} (h : p.Names fs s j) (h' : p.Names fs s k) : j = k := by
  obtain ⟨q, n, place, node, rfl⟩ := h
  obtain ⟨q', n', place', node', rfl⟩ := h'
  cases place.symm.trans place'
  cases node.symm.trans node'
  rfl

theorem placeOf_nil (h : fs.find true p.root = .ok q) : p.placeOf fs [] = some q := by
  simp [placeOf, h, Except.toOption, FileSystem.trail]

theorem placeOf_append (s t : List String) :
    p.placeOf fs (s ++ t) = (p.placeOf fs s).bind fun q => fs.trail p.filters.followLinks q t := by
  simp only [placeOf, Option.bind_assoc, FileSystem.trail_append]

theorem placeOf_snoc (s : List String) (name : String) :
    p.placeOf fs (s ++ [name]) =
      (p.placeOf fs s).bind fun q => fs.next p.filters.followLinks q name := by
  simp [placeOf_append, FileSystem.trail]

theorem placeOf_below {rest : List String} (h : p.placeOf fs (d ++ name :: rest) = some q) :
    ∃ here entries n, p.placeOf fs d = some here ∧ fs.at? here = some (.directory entries) ∧
      Node.entryOf entries name = some n := by
  rw [placeOf_append, Option.bind_eq_some_iff] at h
  obtain ⟨here, place, way⟩ := h
  obtain ⟨r, leads, -⟩ := Option.bind_eq_some_iff.mp way
  obtain ⟨entries, n, directory, found⟩ := FileSystem.next_eq_some leads
  exact ⟨here, entries, n, place, directory, found⟩

theorem names_directory_of_below {k : Kind} (h : p.Names fs s k) (pre : t <+: s) (proper : t ≠ s) :
    p.Names fs t .directory := by
  obtain ⟨q, n, place, -⟩ := h
  obtain ⟨rest, rfl⟩ := pre
  cases rest with
  | nil => simp at proper
  | cons name rest =>
      obtain ⟨here, entries, m, above, directory, -⟩ := placeOf_below place
      exact ⟨here, .directory entries, above, directory, rfl⟩

theorem prefix_of_proper {d t : List String} {name : String} (h : t <+: d ++ [name])
    (proper : t ≠ d ++ [name]) : t <+: d :=
  (List.prefix_concat_iff.mp h).resolve_left proper

theorem prefix_ne_snoc {d t : List String} {name : String} (h : t <+: d) : t ≠ d ++ [name] := by
  rintro rfl
  have := h.length_le
  simp at this

/-- A file is accepted if its directory is entered and the file itself passes the filters. -/
theorem accepts_snoc_iff : p.Accepts fs (d ++ [name]) ↔
    p.Enters fs d ∧ p.Names fs (d ++ [name]) .file ∧ p.excludes (d ++ [name]) = .ok false ∧
      p.includes (d ++ [name]) = .ok true := by
  constructor
  · intro h
    refine ⟨⟨fun t pre => ?_, fun t pre ne => ?_, ?_, fun follows t u ht hu => ?_⟩,
      h.file, h.kept, h.wanted⟩
    · have within := pre.trans (List.prefix_append d [name])
      exact names_directory_of_below h.file within (prefix_ne_snoc pre)
    · exact (h.onWay t (pre.trans (List.prefix_append d [name])) ne (prefix_ne_snoc pre)).2
    · refine h.shallow.imp (fun short => ?_) (fun allowed => ?_)
      · simpa using short
      · simpa using allowed
    · exact h.loopFree follows t u (ht.trans (List.prefix_append d [name])) (prefix_ne_snoc ht)
        (hu.trans (List.prefix_append d [name])) (prefix_ne_snoc hu)
  · rintro ⟨enters, file, kept, wanted⟩
    refine ⟨fun t pre ne proper => ?_, file, kept, wanted, ?_, fun follows t u ht t' hu u' => ?_⟩
    · have within := prefix_of_proper pre proper
      exact ⟨enters.directory t within, enters.kept t within ne⟩
    · refine enters.shallow.imp (fun root => ?_) (fun allowed => ?_)
      · simp [root]
      · simpa using allowed
    · exact enters.loopFree follows t u (prefix_of_proper ht t') (prefix_of_proper hu u')

theorem trail_unfollowed {here : Place} (h : fs.trail false here s = some q) : q = here ++ s := by
  induction s generalizing here with
  | nil =>
      cases h
      simp
  | cons name rest ih =>
      obtain ⟨r, leads, way⟩ := Option.bind_eq_some_iff.mp h
      obtain ⟨entries, n, listed, found⟩ := FileSystem.next_eq_some leads
      rw [FileSystem.next_of_entry _ listed found (Or.inr rfl), Option.some.injEq] at leads
      rw [ih way, ← leads, List.append_assoc, List.singleton_append]

/-- The directories on the way to an entered one are all different, whether links are followed or
not. -/
theorem Enters.placeOf_injective (h : p.Enters fs d) (ht : t <+: d) (hs : s <+: d)
    (same : p.placeOf fs t = p.placeOf fs s) : t = s := by
  cases follows : p.filters.followLinks with
  | true => exact h.loopFree follows t s ht hs same
  | false =>
      obtain ⟨q, -, place, -⟩ := h.directory t ht
      have place' := same ▸ place
      simp only [placeOf, follows] at place place'
      obtain ⟨here, root, way⟩ := Option.bind_eq_some_iff.mp place
      obtain ⟨here', root', way'⟩ := Option.bind_eq_some_iff.mp place'
      cases root.symm.trans root'
      exact List.append_cancel_left ((trail_unfollowed way).symm.trans (trail_unfollowed way'))

/-- A walk is never deeper than there are directories. -/
theorem Enters.length_lt (h : p.Enters fs d) : d.length < fs.directories.length := by
  let places := (List.range (d.length + 1)).map fun i => (p.placeOf fs (d.take i)).getD []
  have known : ∀ i, ∃ q, p.placeOf fs (d.take i) = some q ∧ q ∈ fs.directories := by
    intro i
    obtain ⟨q, n, place, node, directory⟩ := h.directory _ (List.take_prefix i d)
    cases n <;> cases directory
    exact ⟨q, place, FileSystem.mem_directories node⟩
  have distinct : places.Nodup := by
    refine List.Nodup.map_on (fun i hi j hj same => ?_) List.nodup_range
    obtain ⟨q, place, -⟩ := known i
    obtain ⟨q', place', -⟩ := known j
    have eq : d.take i = d.take j := by
      refine h.placeOf_injective (List.take_prefix i d) (List.take_prefix j d) ?_
      simp_all
    have lengths := congrArg List.length eq
    simp only [List.mem_range, List.length_take] at hi hj lengths
    omega
  have inside : places ⊆ fs.directories := by
    intro q hq
    obtain ⟨i, -, rfl⟩ := List.mem_map.mp hq
    obtain ⟨q, place, directory⟩ := known i
    simpa [place] using directory
  have bound := (distinct.subperm inside).length_le
  simp only [places, List.length_map, List.length_range] at bound
  omega

theorem finite_placed (p : Plan ε) (fs : FileSystem) (bound : Nat) :
    {s | s.length ≤ bound ∧ p.placeOf fs s ≠ none}.Finite := by
  induction bound with
  | zero =>
      refine (Set.finite_singleton []).subset fun s hs => ?_
      exact List.length_eq_zero_iff.mp (Nat.le_zero.mp hs.1)
  | succ bound ih =>
      -- a longer path is a shorter one with the name of an entry of the directory there
      have names : ∀ d, {name | p.placeOf fs (d ++ [name]) ≠ none}.Finite := by
        intro d
        cases place : p.placeOf fs d with
        | none => simp [placeOf_snoc, place]
        | some here =>
            by_cases listed : ∃ entries, fs.at? here = some (.directory entries)
            · obtain ⟨entries, listed⟩ := listed
              refine (entries.map (·.1)).toFinset.finite_toSet.subset fun name hn => ?_
              obtain ⟨q, hq⟩ := Option.ne_none_iff_exists'.mp hn
              obtain ⟨here', entries', n, place', listed', found⟩ := placeOf_below hq
              cases place.symm.trans place'
              cases listed.symm.trans listed'
              simpa using ⟨n, Node.mem_of_entryOf found⟩
            · refine Set.finite_empty.subset fun name hn => ?_
              obtain ⟨q, hq⟩ := Option.ne_none_iff_exists'.mp hn
              obtain ⟨here', entries', n, place', listed', found⟩ := placeOf_below hq
              cases place.symm.trans place'
              exact listed ⟨entries', listed'⟩
      have longer := ih.biUnion fun d _ => (names d).image fun name => d ++ [name]
      refine (ih.union longer).subset fun s hs => ?_
      rcases List.eq_nil_or_concat' s with rfl | ⟨d, name, rfl⟩
      · exact Or.inl ⟨Nat.zero_le _, hs.2⟩
      · refine Or.inr (Set.mem_biUnion (x := d) ⟨?_, ?_⟩ ⟨name, hs.2, rfl⟩)
        · simpa using hs.1
        · intro none
          exact hs.2 (by simp [placeOf_snoc, none])

theorem finite_accepts (p : Plan ε) (fs : FileSystem) : {s | p.Accepts fs s}.Finite := by
  refine (p.finite_placed fs fs.directories.length).subset fun s h => ⟨?_, ?_⟩
  · rcases List.eq_nil_or_concat' s with rfl | ⟨d, name, rfl⟩
    · exact Nat.zero_le _
    · simpa using Nat.succ_le_of_lt (accepts_snoc_iff.mp h).1.length_lt
  · obtain ⟨q, -, place, -⟩ := h.file
    simp [place]

theorem finite_accepted (p : Plan ε) (fs : FileSystem) :
    {s | p.Accepts fs s ∧ ∃ e, p.make (p.root.below s) = .ok e}.Finite :=
  (p.finite_accepts fs).subset fun _ h => h.1

/-- The accepted files that the factory makes an entry of, in the order of their names from the
left. -/
noncomputable def accepted (p : Plan ε) (fs : FileSystem) : List (List String) :=
    (p.finite_accepted fs).toFinset.sort (· ≤ ·)

theorem Makes.exists_of_mem {ss : List (List String)} {es : List ε} (h : p.Makes ss es)
    (hs : s ∈ ss) : ∃ e ∈ es, p.make (p.root.below s) = .ok e := by
  induction h with
  | nil => cases hs
  | cons made _ ih =>
      rcases List.mem_cons.mp hs with rfl | later
      · exact ⟨_, List.mem_cons_self .., made⟩
      · obtain ⟨e, he, made'⟩ := ih later
        exact ⟨e, List.mem_cons_of_mem _ he, made'⟩

theorem mem_accepted :
    s ∈ p.accepted fs ↔ p.Accepts fs s ∧ ∃ e, p.make (p.root.below s) = .ok e := by
  simp [accepted]

theorem accepted_sorted (p : Plan ε) (fs : FileSystem) : (p.accepted fs).Pairwise (· < ·) :=
  (Finset.sortedLT_sort _).pairwise

end Plan
end FileCensus
