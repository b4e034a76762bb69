import FileCensus.Proofs.Merging

/-!
How the collections of a document are filled. Whatever is kept by the steps of the construction is
kept by the filling of a collection. One thing that is kept is the backlog: a collection that is put
off is met for the first time, so that there cannot be more of them than nodes, and in the end
all are filled.
-/

namespace FileCensus.Yaml

open Std.Do

set_option mvcgen.warning false

section
variable {I : Construction → Prop} {E : LoadError → Prop}

/-- What the steps of the construction keep, and how they fail. -/
structure Carries (I : Construction → Prop) (E : LoadError → Prop) : Prop where
  malformed : E .malformed
  become (n : Nat) (part : Part) : Keeps I E (become n part)
  meet (n : Nat) : Keeps I E (meet n)
  flatten (steps n : Nat) : Keeps I E (flatten steps n)

theorem Carries.demandKey (h : Carries I E) (n : Nat) : Keeps I E (demandKey n) := by
  have malformed := h.malformed
  mvcgen [Yaml.demandKey, refuse]

theorem Carries.meetFields (h : Carries I E) (n : Nat) : Keeps I E (meetFields n) := by
  have flattened := h.flatten
  have field (f : Nat × Nat) :
      Keeps I E (do Yaml.meet f.1; Yaml.demandKey f.1; Yaml.meet f.2 : Construct Unit) :=
    .bind (h.meet f.1) fun _ => .bind (h.demandKey f.1) fun _ => h.meet f.2
  have fields (fs : List (Nat × Nat)) := Keeps.forM fs field
  mvcgen [Yaml.meetFields, flattened, fields]

theorem Carries.meetPair (h : Carries I E) (n : Nat) : Keeps I E (meetPair n) := by
  have malformed := h.malformed
  have met := h.meet
  mvcgen [Yaml.meetPair, refuse, met]

theorem Carries.fill (h : Carries I E) (n : Nat) : Keeps I E (fill n) := by
  have malformed := h.malformed
  have became := h.become
  have fields := h.meetFields
  have items (ns : List Nat) := Keeps.forM ns h.meet
  have pairs (ns : List Nat) := Keeps.mapM ns h.meetPair
  mvcgen [Yaml.fill, refuse, became, fields, items, pairs]

end

/-! ## The backlog -/

/-- The nodes of which it is not known yet what becomes of them. -/
def Construction.unmet (s : Construction) : Finset Nat :=
    (Finset.range s.nodes.length).filter fun i => (s.parts.lookup i).isNone = true

/-- How many collections may still have to be filled. -/
def Construction.backlog (s : Construction) : Nat :=
    s.pending.length + s.unmet.card

/-- At most so many collections may still have to be filled. -/
def Owes (w : Nat) (s : Construction) : Prop :=
  s.backlog ≤ w

variable {n w : Nat} {s : Construction}

theorem unmet_become (s : Construction) (n : Nat) (part : Part) (pending : List Nat) :
    Construction.unmet ⟨s.nodes, (n, part) :: s.parts, pending⟩ = s.unmet.erase n := by
  ext i
  cases same : i == n with
  | true => simp [Construction.unmet, List.lookup_cons, beq_iff_eq.mp same]
  | false => simp [Construction.unmet, List.lookup_cons, same, beq_eq_false_iff_ne.mp same]

theorem known_of_empty {ns : Nodes} {part : Part}
    (collection : (ns.node n).tag.empty? = some part) : n < ns.length := by
  by_contra beyond
  simp [Nodes.node, Node.absent, Tag.empty?, List.getElem?_eq_none (Nat.le_of_not_lt beyond)]
    at collection

/-- A collection that is put off was not met before. -/
theorem backlog_putOff (unmet : (s.parts.lookup n).isNone = true) (known : n < s.nodes.length)
    (part : Part) :
    Construction.backlog ⟨s.nodes, (n, part) :: s.parts, s.pending ++ [n]⟩ = s.backlog := by
  have among : n ∈ s.unmet := Finset.mem_filter.mpr ⟨Finset.mem_range.mpr known, unmet⟩
  have fewer := Finset.card_erase_add_one among
  rw [Construction.backlog, unmet_become, Construction.backlog, List.length_append,
    List.length_singleton]
  omega

theorem become_owes (n : Nat) (part : Part) : Keeps (Owes w) (fun _ => True) (become n part) :=
  .modify fun s few => by
    refine Nat.le_trans (Nat.add_le_add_left ?_ _) few
    rw [unmet_become]
    exact Finset.card_erase_le

theorem meet_owes (n : Nat) : Keeps (Owes w) (fun _ => True) (meet n) := by
  mvcgen [meet, become]
  case vc1.isTrue.h_1 s few unmet part collection _ _ =>
    exact (backlog_putOff unmet (known_of_empty collection) part).trans_le few
  case vc2.isTrue.h_2 s few _ _ =>
    cases s.nodes.atom n with
    | ok d => exact become_owes n (.atom d) s few
    | error e => trivial

/-- Flattening changes nothing but nodes, and their number stays. -/
theorem flatten_aside (k : Nat) (ps : List (Nat × Part)) (ns : List Nat) (steps n : Nat) :
    Keeps (fun s : Construction => s.nodes.length = k ∧ s.parts = ps ∧ s.pending = ns)
      (fun _ => True) (flatten steps n) := by
  have changes (f : Nodes → Nodes) (same : ∀ nodes, (f nodes).length = nodes.length) :
      Keeps (fun s : Construction => s.nodes.length = k ∧ s.parts = ps ∧ s.pending = ns)
        (fun _ => True) (changeNodes f) :=
    .modify fun s ⟨length, aside⟩ => ⟨(same s.nodes).trans length, aside⟩
  have put (i : Nat) (fields : Nodes → List (Nat × Nat)) := changes
    (fun ns => ns.setContent i (.mapping (fields ns))) fun _ => List.length_modify ..
  have settled (i : Nat) := changes (·.settle i) fun _ => List.length_mapIdx
  induction steps generalizing n with
  | zero => exact .throw trivial
  | succ steps ih =>
      have all (sources : List Nat) := Keeps.forM sources ih
      mvcgen [flatten, takeMerging, refuse, put, settled, ih, all]

theorem flatten_owes (steps n : Nat) : Keeps (Owes w) (fun _ => True) (flatten steps n) :=
  .of_run fun s few => ((flatten_aside _ _ _ steps n).run ⟨rfl, rfl, rfl⟩).imp
    (fun r ⟨length, parts, pending⟩ => by
      simpa only [Owes, Construction.backlog, Construction.unmet, length, parts, pending] using few)
    fun _ => id

theorem owes_carries (w : Nat) : Carries (Owes w) fun _ => True :=
  ⟨trivial, become_owes, meet_owes, flatten_owes⟩

theorem fillAll_empties {collections : Nat} (few : Owes collections s) :
    Yields (fun r => r.2.pending = []) (fun _ => True) ((fillAll collections).run s) := by
  induction collections generalizing s with
  | zero => exact List.length_eq_zero_iff.mp (Nat.eq_zero_of_add_eq_zero (Nat.le_zero.mp few)).1
  | succ collections ih =>
      simp only [fillAll, StateT.run_bind, StateT.run_get, pure_bind]
      cases waiting : s.pending with
      | nil => exact waiting
      | cons n rest =>
          have fewer : Owes collections { s with pending := rest } := by
            have all : s.pending.length + s.unmet.card ≤ collections + 1 := few
            rw [waiting, List.length_cons] at all
            change rest.length + s.unmet.card ≤ collections
            omega
          simp only [StateT.run_bind, StateT.run_modify, pure_bind]
          exact (((owes_carries collections).fill n).run fewer).bind fun r owes => ih owes

/-- In the end every collection of a document is filled. -/
theorem pending_nil (doc : Document) :
    Yields (fun r => r.2.pending = []) (fun _ => True)
      ((do meet doc.root; fillAll doc.nodes.length : Construct Unit).run ⟨doc.nodes, [], []⟩) := by
  have few : Owes doc.nodes.length ⟨doc.nodes, [], []⟩ := by
    simp [Owes, Construction.backlog, Construction.unmet]
  rw [StateT.run_bind]
  exact ((meet_owes doc.root).run few).bind fun r owes => fillAll_empties owes

end FileCensus.Yaml
