import FileCensus.Proofs.ScanFaults
import FileCensus.Yaml.Load

/-!
What merging does to the nodes of a document. A field is special if its key is that of a default or
of a merge. Nodes may get ordinary fields, but special fields only get fewer, so that merging comes
to an end by itself; a mapping that has been flattened has none.
-/

namespace FileCensus.Yaml

namespace Nodes

variable {ns ns' : Nodes} {n i : Nat} {f : Nat × Nat} {fields : List (Nat × Nat)}

/-! ## Nodes after a change -/

theorem node_settle (ns : Nodes) (n i : Nat) : (ns.settle n).node i =
    if ((ns.node n).fields.map (·.1)).contains i && (ns.node i).tag = .value then
      { ns.node i with tag := .str }
    else ns.node i := by
  rw [settle, node, List.getElem?_mapIdx]
  cases found : ns[i]? with
  | none =>
      have absent : ns.node i = .absent := by rw [node, found, Option.getD_none]
      simp [absent, Node.absent]
  | some node =>
      obtain rfl : ns.node i = node := by rw [Nodes.node, found, Option.getD_some]
      rfl

theorem tag_settle (ns : Nodes) (n i : Nat) :
    ((ns.settle n).node i).tag = (ns.node i).tag ∨ ((ns.settle n).node i).tag = .str := by
  rw [node_settle]
  split
  · exact .inr rfl
  · exact .inl rfl

@[simp] theorem content_settle (ns : Nodes) (n i : Nat) :
    ((ns.settle n).node i).content = (ns.node i).content := by
  rw [node_settle]
  split <;> rfl

theorem node_setContent (ns : Nodes) (n : Nat) (c : Content) (i : Nat) :
    (ns.setContent n c).node i =
      if n = i ∧ i < ns.length then { ns.node i with content := c } else ns.node i := by
  rw [setContent, node, List.getElem?_modify]
  by_cases known : i < ns.length
  · by_cases same : n = i <;> simp [node, same, known]
  · simp [node, known]

@[simp] theorem tag_setContent (ns : Nodes) (n : Nat) (c : Content) (i : Nat) :
    ((ns.setContent n c).node i).tag = (ns.node i).tag := by
  rw [node_setContent]
  split <;> rfl

theorem lt_of_mem_fields (among : f ∈ (ns.node n).fields) : n < ns.length := by
  by_contra beyond
  simp [node, Node.absent, Node.fields, List.getElem?_eq_none (Nat.le_of_not_lt beyond)] at among

theorem fields_setContent (known : n < ns.length) (fields : List (Nat × Nat)) (i : Nat) :
    ((ns.setContent n (.mapping fields)).node i).fields =
      if n = i then fields else (ns.node i).fields := by
  rw [node_setContent]
  by_cases same : n = i
  · subst same
    rw [if_pos ⟨rfl, known⟩, if_pos rfl]
    rfl
  · rw [if_neg fun h => same h.1, if_neg same]

theorem isMapping_of_mem_fields (among : f ∈ (ns.node n).fields) :
    (ns.node n).isMapping = true := by
  rw [Node.fields] at among
  rw [Node.isMapping]
  split at among
  · rfl
  · cases among

/-! ## Special fields -/

/-- A field with the key of a default or of a merge. -/
def isSpecial (ns : Nodes) (f : Nat × Nat) : Bool :=
    ns.hasKey .value f || ns.hasKey .merge f

def specials (ns : Nodes) (n : Nat) : List (Nat × Nat) :=
    (ns.node n).fields.filter ns.isSpecial

/-- Every type is kept or becomes that of a text. -/
def Retags (ns ns' : Nodes) : Prop :=
  ∀ n, (ns'.node n).tag = (ns.node n).tag ∨ (ns'.node n).tag = .str

theorem hasKey_of_retags (retags : ns.Retags ns') {t : Tag} (other : t ≠ .str)
    (key : ns'.hasKey t f = true) : ns.hasKey t f = true := by
  rw [hasKey, decide_eq_true_eq] at key ⊢
  rcases retags f.1 with same | text
  · exact same.symm.trans key
  · exact absurd (key.symm.trans text) other

theorem isSpecial_of_retags (retags : ns.Retags ns') (special : ns'.isSpecial f = true) :
    ns.isSpecial f = true := by
  rcases Bool.or_eq_true_iff.mp special with default | merging
  · exact Bool.or_eq_true_iff.mpr (.inl (hasKey_of_retags retags (by decide) default))
  · exact Bool.or_eq_true_iff.mpr (.inr (hasKey_of_retags retags (by decide) merging))

/-- How nodes are changed: one may get the type of a text, and a mapping may get other fields, but no
special ones. -/
structure Changes (ns ns' : Nodes) : Prop where
  length : ns'.length = ns.length
  tag : ns.Retags ns'
  isMapping (n : Nat) : (ns'.node n).isMapping = (ns.node n).isMapping
  text {n : Nat} {text : ScalarText} (content : (ns'.node n).content = .scalar text) :
    (ns.node n).content = .scalar text
  special (n : Nat) : (ns'.specials n).Sublist (ns.specials n)

theorem Changes.refl (ns : Nodes) : ns.Changes ns :=
  ⟨rfl, fun _ => .inl rfl, fun _ => rfl, id, fun _ => .refl _⟩

theorem Changes.trans {ns'' : Nodes} (h : ns.Changes ns') (h' : ns'.Changes ns'') :
    ns.Changes ns'' where
  length := h'.length.trans h.length
  tag n := by
    rcases h'.tag n with same | text
    · exact same ▸ h.tag n
    · exact .inr text
  isMapping n := (h'.isMapping n).trans (h.isMapping n)
  text content := h.text (h'.text content)
  special n := (h'.special n).trans (h.special n)

theorem Changes.hasKey (h : ns.Changes ns') {t : Tag} (other : t ≠ .str)
    (key : ns'.hasKey t f = true) : ns.hasKey t f = true :=
  hasKey_of_retags h.tag other key

theorem Changes.isSpecial (h : ns.Changes ns') (special : ns'.isSpecial f = true) :
    ns.isSpecial f = true :=
  isSpecial_of_retags h.tag special

/-- A field with the key of a default had it before. -/
theorem Changes.field (h : ns.Changes ns') (among : f ∈ (ns'.node n).fields)
    (default : ns'.hasKey .value f = true) : f ∈ (ns.node n).fields := by
  have special : f ∈ ns'.specials n :=
    List.mem_filter.mpr ⟨among, Bool.or_eq_true_iff.mpr (.inl default)⟩
  exact (List.mem_filter.mp ((h.special n).subset special)).1

theorem Changes.specials_nil (h : ns.Changes ns') (bare : ns.specials n = []) :
    ns'.specials n = [] :=
  List.sublist_nil.mp (bare ▸ h.special n)

theorem changes_settle (ns : Nodes) (n : Nat) : ns.Changes (ns.settle n) where
  length := List.length_mapIdx
  tag := ns.tag_settle n
  isMapping i := by rw [Node.isMapping, content_settle, Node.isMapping]
  text {i} text content := (content_settle ns n i).symm.trans content
  special i := by
    have same : ((ns.settle n).node i).fields = (ns.node i).fields := by
      rw [Node.fields, content_settle, Node.fields]
    rw [specials, same]
    exact List.monotone_filter_right _ fun f => isSpecial_of_retags (ns.tag_settle n)

/-- Settled, a mapping without merging fields has ordinary fields only. -/
theorem specials_settle (none : (ns.node n).fields.find? (ns.hasKey .merge) = none) :
    (ns.settle n).specials n = [] := by
  refine List.filter_eq_nil_iff.mpr fun f among special => ?_
  have before : f ∈ (ns.node n).fields := by
    rwa [Node.fields, content_settle] at among
  have key : ((ns.node n).fields.map (·.1)).contains f.1 = true := by
    simpa using ⟨f.2, before⟩
  rcases Bool.or_eq_true_iff.mp special with default | merging
  · have old : ns.hasKey .value f = true := hasKey_of_retags (ns.tag_settle n) (by decide) default
    have text : ((ns.settle n).node f.1).tag = .str := by
      rw [node_settle]
      exact congrArg Node.tag (if_pos (Bool.and_eq_true_iff.mpr ⟨key, old⟩))
    simp [hasKey, text] at default
  · exact List.find?_eq_none.mp none f before (hasKey_of_retags (ns.tag_settle n) (by decide) merging)

theorem isSpecial_setContent (ns : Nodes) (n : Nat) (c : Content) :
    (ns.setContent n c).isSpecial = ns.isSpecial := by
  funext f
  simp [isSpecial, hasKey]

theorem specials_setContent (known : n < ns.length) (fields : List (Nat × Nat)) (i : Nat) :
    (ns.setContent n (.mapping fields)).specials i =
      if n = i then fields.filter ns.isSpecial else ns.specials i := by
  rw [specials, isSpecial_setContent, fields_setContent known]
  split <;> rfl

/-- A mapping may get other fields, as long as no special field is new. -/
theorem changes_setContent (mapping : (ns.node n).isMapping = true) (known : n < ns.length)
    (old : (fields.filter ns.isSpecial).Sublist (ns.specials n)) :
    ns.Changes (ns.setContent n (.mapping fields)) where
  length := List.length_modify ..
  tag i := .inl (tag_setContent ns n _ i)
  isMapping i := by
    rw [node_setContent]
    split
    · next here => rw [← here.1, mapping]; rfl
    · rfl
  text {i} text content := by
    rw [node_setContent] at content
    split at content
    · cases content
    · exact content
  special i := by
    rw [specials_setContent known]
    split
    · next same => exact same ▸ old
    · exact .refl _

/-- How many special fields there are. -/
def weight (ns : Nodes) : Nat :=
    ((List.range ns.length).map fun i => (ns.specials i).length).sum

theorem Changes.weight_le (h : ns.Changes ns') : ns'.weight ≤ ns.weight := by
  rw [weight, weight, h.length]
  exact List.sum_le_sum fun i _ => (h.special i).length_le

theorem Changes.weight_lt (h : ns.Changes ns') (known : n < ns.length)
    (fewer : (ns'.specials n).length < (ns.specials n).length) : ns'.weight < ns.weight := by
  rw [weight, weight, h.length]
  exact List.sum_lt_sum _ _ (fun i _ => (h.special i).length_le)
    ⟨n, List.mem_range.mpr known, fewer⟩

theorem weight_le (ns : Nodes) : ns.weight ≤ (ns.flatMap Node.fields).length := by
  have numbered : ns = (List.range ns.length).map ns.node := by
    refine List.ext_getElem (by simp) fun i known _ => ?_
    simp [node, List.getElem?_eq_getElem known]
  calc ns.weight ≤ ((List.range ns.length).map fun i => (ns.node i).fields.length).sum :=
        List.sum_le_sum fun i _ => List.length_filter_le _ _
    _ = (((List.range ns.length).map ns.node).map fun node => node.fields.length).sum := by
        rw [List.map_map]
        rfl
    _ = (ns.flatMap Node.fields).length := by rw [← numbered, List.length_flatMap]

end Nodes

/-! ## Flattening -/

variable {n : Nat} {s s' : Construction}

/-- A merging field is taken out of a mapping. -/
structure Takes (n : Nat) (s s' : Construction) : Prop where
  changes : s.nodes.Changes s'.nodes
  known : n < s'.nodes.length
  mapping : (s'.nodes.node n).isMapping = true
  fewer : s'.nodes.weight < s.nodes.weight

theorem takeMerging_cases (n : Nat) (s : Construction) :
    ((s.nodes.node n).fields.find? (s.nodes.hasKey .merge) = none ∧
        (takeMerging n).run s = pure (none, s)) ∨
      ∃ v s', (takeMerging n).run s = pure (some v, s') ∧ Takes n s s' := by
  simp only [takeMerging, StateT.run_bind, StateT.run_get, pure_bind]
  split
  · next f found =>
    have among := List.mem_of_find?_eq_some found
    have known := Nodes.lt_of_mem_fields among
    have mapping := Nodes.isMapping_of_mem_fields among
    have changes : s.nodes.Changes (s.nodes.setContent n
        (.mapping ((s.nodes.node n).fields.eraseP (s.nodes.hasKey .merge)))) :=
      Nodes.changes_setContent mapping known (List.eraseP_sublist.filter _)
    refine .inr ⟨f.2, _, rfl, changes, changes.length.symm ▸ known, (changes.isMapping n).trans mapping,
      changes.weight_lt known ?_⟩
    obtain ⟨g, before, after, -, merging, fields, left⟩ :=
      List.exists_of_eraseP among (List.find?_some found)
    have special : s.nodes.isSpecial g = true := Bool.or_eq_true_iff.mpr (.inr merging)
    rw [Nodes.specials_setContent known, if_pos rfl, Nodes.specials, left, fields]
    simp [special]
  · next none => exact .inl ⟨none, rfl⟩

/-- Flattening a mapping with so many steps leaves it with ordinary fields only. -/
def Flattens (steps : Nat) : Prop :=
  ∀ (n : Nat) (s : Construction),
    Yields (fun r => s.nodes.Changes r.2.nodes ∧ r.2.nodes.specials n = [])
      (· = LoadError.malformed) ((flatten steps n).run s)

theorem Flattens.all {steps : Nat} (h : Flattens steps) (sources : List Nat) (s : Construction) :
    Yields (fun r => s.nodes.Changes r.2.nodes ∧ ∀ i ∈ sources, r.2.nodes.specials i = [])
      (· = LoadError.malformed) ((sources.forM (flatten steps)).run s) := by
  induction sources generalizing s with
  | nil => exact ⟨.refl _, by simp⟩
  | cons i sources ih =>
      rw [List.forM, StateT.run_bind]
      refine (h i s).bind fun r ⟨first, bare⟩ => ?_
      refine (ih r.2).imp (fun r' ⟨rest, others⟩ => ?_) fun _ => id
      exact ⟨first.trans rest, List.forall_mem_cons.mpr ⟨rest.specials_nil bare, others⟩⟩

theorem flattens (steps : Nat) : Flattens steps := by
  induction steps with
  | zero => exact fun _ _ => rfl
  | succ steps ih =>
      intro n s
      unfold flatten
      rw [StateT.run_bind]
      rcases takeMerging_cases n s with ⟨none, stays⟩ | ⟨v, s₁, takes, taken⟩
      · rw [stays]
        exact ⟨Nodes.changes_settle s.nodes n, Nodes.specials_settle none⟩
      · simp only [takes, pure_bind, StateT.run_bind, StateT.run_get]
        split
        · rfl
        · next sources _ =>
          rw [StateT.run_bind]
          refine (ih.all sources s₁).bind fun r ⟨merged, bare⟩ => ?_
          simp only [StateT.run_bind, StateT.run_get, pure_bind]
          refine (ih n r.2).bind fun r' ⟨again, own⟩ => ?_
          have changes := merged.trans again
          have known := changes.length.symm ▸ taken.known
          have mapping := (changes.isMapping n).trans taken.mapping
          -- What is merged comes from mappings without special fields, and the mapping has none itself.
          have ordinary : ((sources.map fun i => (r.2.nodes.node i).fields).reverse.flatten ++
              (r'.2.nodes.node n).fields).filter r'.2.nodes.isSpecial = [] := by
            refine (List.filter_append ..).trans (List.append_eq_nil_iff.mpr ⟨?_, own⟩)
            refine List.filter_eq_nil_iff.mpr fun f among special => ?_
            obtain ⟨fields, of, among⟩ := List.mem_flatten.mp among
            obtain ⟨i, source, rfl⟩ := List.mem_map.mp (List.mem_reverse.mp of)
            exact List.filter_eq_nil_iff.mp (bare i source) f among (again.isSpecial special)
          have put := Nodes.changes_setContent mapping known (ordinary ▸ List.nil_sublist _)
          refine ⟨taken.changes.trans (changes.trans put), ?_⟩
          exact (Nodes.specials_setContent known _ n).trans ((if_pos rfl).trans ordinary)

/-- With more steps than there are special fields, one step more makes no difference. -/
def IsEnough (steps : Nat) : Prop :=
  ∀ (n : Nat) (s : Construction), s.nodes.weight < steps →
    (flatten steps n).run s = (flatten (steps + 1) n).run s

theorem IsEnough.all {steps : Nat} (h : IsEnough steps) (sources : List Nat) (s : Construction)
    (few : s.nodes.weight < steps) :
    (sources.forM (flatten steps)).run s = (sources.forM (flatten (steps + 1))).run s := by
  induction sources generalizing s with
  | nil => rfl
  | cons i sources ih =>
      have ends := flattens steps i s
      rw [List.forM, List.forM, StateT.run_bind, StateT.run_bind, ← h i s few]
      cases ran : (flatten steps i).run s with
      | error e => rfl
      | ok r =>
          rw [ran] at ends
          exact ih r.2 (Nat.lt_of_le_of_lt ends.1.weight_le few)

theorem isEnough (steps : Nat) : IsEnough steps := by
  induction steps with
  | zero => exact fun _ _ few => absurd few (Nat.not_lt_zero _)
  | succ steps ih =>
      intro n s few
      rw [flatten, flatten, StateT.run_bind, StateT.run_bind]
      rcases takeMerging_cases n s with ⟨-, stays⟩ | ⟨v, s₁, takes, taken⟩
      · simp only [stays, pure_bind]
      · have few := Nat.lt_of_lt_of_le taken.fewer (Nat.le_of_lt_succ few)
        simp only [takes, pure_bind, StateT.run_bind, StateT.run_get]
        split
        · rfl
        · next sources _ =>
          have ends := (flattens steps).all sources s₁
          rw [StateT.run_bind, StateT.run_bind, ← ih.all sources s₁ few]
          cases ran : (sources.forM (flatten steps)).run s₁ with
          | error e => rfl
          | ok r =>
              rw [ran] at ends
              have same := ih n r.2 (Nat.lt_of_le_of_lt ends.1.weight_le few)
              rw [show Except.ok r = pure r from rfl]
              simp only [pure_bind, StateT.run_bind, StateT.run_get, same]

/-- The steps that a mapping is given are enough. -/
theorem flatten_enough {steps : Nat} (more : (s.nodes.flatMap Node.fields).length < steps) :
    (flatten steps n).run s =
      (flatten ((s.nodes.flatMap Node.fields).length + 1) n).run s := by
  induction steps, more using Nat.le_induction with
  | base => rfl
  | succ steps more ih =>
      exact (isEnough steps n s (Nat.lt_of_le_of_lt s.nodes.weight_le more)).symm.trans ih

end FileCensus.Yaml
