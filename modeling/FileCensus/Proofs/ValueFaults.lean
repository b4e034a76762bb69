import FileCensus.Proofs.Filling

/-!
What can go wrong while the value of a document is found. Its nodes are changed on the way, when
mappings are merged, but never so that a text could be met that is not in the document. The errors
that are not of the notation are thus those of the document: a text that is no value of its type,
or a mapping whose default field leads back to it.
-/

namespace FileCensus.Yaml

open Std.Do

set_option mvcgen.warning false

namespace Nodes

variable {ns ns' : Nodes} {n m : Nat}

/-! ## Texts and their faults -/

/-- A node has a default field, with this value. -/
def LeadsTo (ns : Nodes) (n m : Nat) : Prop :=
  ∃ k, (k, m) ∈ (ns.node n).fields ∧ ns.hasKey .value (k, m) = true

/-- A node has this text, itself or through default fields. -/
def StandsFor (ns : Nodes) (n : Nat) (text : ScalarText) : Prop :=
  ∃ m, Relation.ReflTransGen ns.LeadsTo n m ∧ (ns.node m).content = .scalar text

/-- A text that the node stands for is no value of the node's type. -/
def Betrays (ns : Nodes) (n : Nat) (fault : ScalarFault) : Prop :=
  ∃ text, ns.StandsFor n text ∧ (ns.node n).valueOf text = .error (.scalar fault)

/-- The default field of a node leads back to the node. -/
def Circles (ns : Nodes) (n : Nat) : Prop :=
  Relation.TransGen ns.LeadsTo n n

/-- The faults that are those of nodes. -/
def AtFault (ns : Nodes) : LoadError → Prop
  | .malformed => True
  | .scalar fault => (∃ n, ns.Betrays n fault) ∨ fault = .endless ∧ ∃ n, ns.Circles n

/-- A trail along default fields. -/
structure Trail (ns : Nodes) (n : Nat) (path : List Nat) : Prop where
  start : ∀ m ∈ path.head?, m = n
  leads : path.IsChain ns.LeadsTo
  known : ∀ m ∈ path, m < ns.length

theorem lt_of_leadsTo (h : ns.LeadsTo n m) : n < ns.length := by
  obtain ⟨k, field, -⟩ := h
  exact lt_of_mem_fields field

theorem Trail.cons {path : List Nat} (h : ns.Trail m path) (leads : ns.LeadsTo n m) :
    ns.Trail n (n :: path) where
  start := by simp
  leads := List.isChain_cons.mpr ⟨fun k first => h.start k first ▸ leads, h.leads⟩
  known := List.forall_mem_cons.mpr ⟨lt_of_leadsTo leads, h.known⟩

/-- A trail that is longer than there are nodes comes back to one of them. -/
theorem Trail.circles {path : List Nat} (h : ns.Trail n path) (long : ns.length < path.length) :
    ∃ m, ns.Circles m := by
  by_contra none
  have none : ∀ m, ¬ns.Circles m := not_exists.mp none
  have before : path.Pairwise (Relation.TransGen ns.LeadsTo) :=
    List.isChain_iff_pairwise.mp (h.leads.imp fun _ _ => .single)
  have distinct : path.Nodup := before.imp (S := (· ≠ ·)) fun later same => none _ (same ▸ later)
  have few : path.length ≤ (List.range ns.length).length :=
    distinct.length_le_of_subset fun m met => List.mem_range.mpr (h.known m met)
  rw [List.length_range] at few
  omega

/-- How the search for a text ends. -/
theorem textOf_ends (ns : Nodes) (steps n : Nat) :
    Yields (ns.StandsFor n)
      (fun e => e = .malformed ∨ e = .scalar .endless ∧ ∃ path, ns.Trail n path ∧ path.length = steps)
      (ns.textOf steps n) := by
  induction steps generalizing n with
  | zero => exact .inr ⟨rfl, [], ⟨by simp, .nil, by simp⟩, rfl⟩
  | succ steps ih =>
      unfold textOf
      split
      · next text content => exact ⟨n, .refl, content⟩
      · exact .inl rfl
      · next fields content =>
        split
        · next f found =>
          have leads : ns.LeadsTo n f.2 := by
            refine ⟨f.1, ?_, List.find?_some found⟩
            simpa [Node.fields, content] using List.mem_of_find?_eq_some found
          have rest := ih f.2
          cases ended : ns.textOf steps f.2 with
          | ok text =>
              rw [ended] at rest
              obtain ⟨m, way, content⟩ := rest
              exact ⟨m, .head leads way, content⟩
          | error e =>
              rw [ended] at rest
              rcases rest with malformed | ⟨endless, path, trail, length⟩
              · exact .inl malformed
              · exact .inr ⟨endless, n :: path, trail.cons leads, congrArg Nat.succ length⟩
        · exact .inl rfl

/-- A node whose value cannot be found is at fault itself. -/
theorem atom_ends (ns : Nodes) (n : Nat) : Yields (fun _ => True) ns.AtFault (ns.atom n) := by
  unfold atom
  split
  · trivial
  · refine Yields.bind ((ns.textOf_ends _ n).imp (fun _ => id) fun e ended => ?_) fun text stands => ?_
    · rcases ended with rfl | ⟨rfl, path, trail, length⟩
      · trivial
      · exact .inr ⟨rfl, trail.circles (by omega)⟩
    · cases value : (ns.node n).valueOf text with
      | ok => trivial
      | error e =>
          cases e with
          | malformed => trivial
          | scalar fault => exact .inl ⟨n, text, stands, value⟩

/-! ## Changes -/

theorem Changes.leadsTo (h : ns.Changes ns') (leads : ns'.LeadsTo n m) : ns.LeadsTo n m := by
  obtain ⟨k, field, default⟩ := leads
  exact ⟨k, h.field field default, h.hasKey (by decide) default⟩

theorem Changes.standsFor (h : ns.Changes ns') {text : ScalarText}
    (stands : ns'.StandsFor n text) : ns.StandsFor n text := by
  obtain ⟨m, way, content⟩ := stands
  exact ⟨m, Relation.ReflTransGen.mono (fun _ _ => h.leadsTo) _ _ way, h.text content⟩

theorem Changes.betrays (h : ns.Changes ns') {fault : ScalarFault}
    (betrays : ns'.Betrays n fault) : ns.Betrays n fault := by
  obtain ⟨text, stands, failed⟩ := betrays
  refine ⟨text, h.standsFor stands, ?_⟩
  rcases h.tag n with same | ofText
  · rwa [Node.valueOf, ← same, ← h.isMapping]
  · simp [Node.valueOf, ofText, Reading.datum] at failed

theorem Changes.atFault (h : ns.Changes ns') {e : LoadError} (fault : ns'.AtFault e) :
    ns.AtFault e := by
  cases e with
  | malformed => trivial
  | scalar f =>
      rcases fault with ⟨n, betrays⟩ | ⟨endless, n, circles⟩
      · exact .inl ⟨n, h.betrays betrays⟩
      · exact .inr ⟨endless, n, Relation.TransGen.mono (fun _ _ => h.leadsTo) _ _ circles⟩

end Nodes

/-! ## Values -/

variable {ns : Nodes}

/-- What has become of these nodes. -/
def Follows (ns : Nodes) (s : Construction) : Prop :=
  ns.Changes s.nodes

theorem become_follows (n : Nat) (part : Part) : Keeps (Follows ns) ns.AtFault (become n part) :=
  .modify fun _ h => h

theorem meet_follows (n : Nat) : Keeps (Follows ns) ns.AtFault (meet n) := by
  have became (part : Part) : Keeps (Follows ns) ns.AtFault (become n part) :=
    become_follows n part
  mvcgen [meet, became]
  case vc2.isTrue.h_2 s follows _ _ =>
    have ends := s.nodes.atom_ends n
    cases found : s.nodes.atom n with
    | ok d => exact become_follows n (.atom d) s follows
    | error e =>
        rw [found] at ends
        exact follows.atFault ends

theorem flatten_follows (steps n : Nat) : Keeps (Follows ns) ns.AtFault (flatten steps n) :=
  .of_run fun s h => (flattens steps n s).imp (fun _ ends => h.trans ends.1) (by rintro _ rfl; trivial)

/-- Nodes are changed only as they may, and it is at the fault of one of them that a step fails. -/
theorem follows_carries (ns : Nodes) : Carries (Follows ns) ns.AtFault :=
  ⟨trivial, become_follows, meet_follows, flatten_follows⟩

theorem fillAll_follows (collections : Nat) :
    Keeps (Follows ns) ns.AtFault (fillAll collections) := by
  have filled := (follows_carries ns).fill
  induction collections with
  | zero => exact .pure
  | succ collections ih => mvcgen [fillAll, filled, ih]

/-- The value of a document cannot be found only at the fault of a node. -/
theorem atFault_of_datum {doc : Document} {e : LoadError} (h : doc.datum = .error e) :
    doc.nodes.AtFault e := by
  have built : Keeps (Follows doc.nodes) doc.nodes.AtFault
      (do meet doc.root; fillAll doc.nodes.length : Construct Unit) :=
    .bind (meet_follows doc.root) fun _ => fillAll_follows _
  have ends := built.run (s := ⟨doc.nodes, [], []⟩) (Nodes.Changes.refl doc.nodes)
  simp only [Document.datum] at h
  cases ran : (do meet doc.root; fillAll doc.nodes.length : Construct Unit).run
      ⟨doc.nodes, [], []⟩ with
  | ok r =>
      rw [ran] at h
      cases h
  | error e' =>
      rw [ran] at h ends
      cases h
      exact ends

end FileCensus.Yaml
