import FileCensus.Proofs.Coverage
import FileCensus.Proofs.Postings

/-!
A walk over a single file beside a walk over the directory that the file lies in. What is posted of
the file from the moment at which it is judged is the same in both, for the filters are asked the
same questions and the factory is given the same path; the tests of the kind and of the depth that
come between in a directory always let a file of the root directory pass.
-/

namespace FileCensus

variable {ε : Type}

theorem Path.name_child (path : Path) (name : String) : (path.child name).name = name := by
  simp [child, Path.name]

theorem Path.below_injective {path : Path} {s t : List String} (h : path.below s = path.below t) :
    s = t :=
  List.append_cancel_left (congrArg Path.names h)

namespace Plan

variable (p : Plan ε)

/-- Whether the filters let a file through. -/
def wants (s : List String) : Bool :=
    p.keeps s && (p.includes s matches .ok true)

/-- What is posted of a file from the moment at which the factory is asked for its entry. -/
def filed (path : Path) : Sheet ε :=
    match p.make path with
    | .error f => { asked := [path], failed := 1, errors := [⟨path.text, f.record⟩] }
    | .ok e =>
        { asked := [path], put := [e], counted := 1, signalled := 1, notified := p.tells [e]
          queued := 1 }

/-- What is posted of a file from the moment at which it is judged. -/
def books (s : List String) : Sheet ε :=
    { judged := [s], visited := 1 } ++
      if p.wants s then p.filed (p.root.below s) else { skipped := 1 }

/-- The same plan for an entry of the root alone. -/
def alone (name : String) : Plan ε :=
    { p with root := p.root.child name }

variable {p} {name : String}

theorem wants_alone : (p.alone name).wants [] = p.wants [name] := by
  have form : (p.alone name).relativeForm [] = p.relativeForm [name] := by
    simp [relativeForm, alone, Path.name_child, Walk.relativeText]
  have path : (p.alone name).root.below [] = p.root.below [name] := Path.below_nil _
  rw [wants, wants, keeps, keeps, excludes, excludes, includes, includes, form, path]
  rfl

end Plan

namespace Walk

/-- From one moment to another a walk posts `g`, keeps its open directories as they are, and does
not come back to them before the second moment. -/
structure Stretch (p : Plan ε) (r : Course ε) (w : Walk ε) (i j : Nat) (g : Sheet ε) : Prop where
  later : i ≤ j
  busy : ∀ k, i ≤ k → k < j → (w.after p r k).phase ≠ .turning
  stack : (w.after p r j).stack = (w.after p r i).stack
  sheet : (w.after p r j).sheet = (w.after p r i).sheet ++ g

variable {p : Plan ε} {fs : FileSystem} {r : Course ε} {w : Walk ε} {i j k : Nat} {g g' : Sheet ε}
  {path : Path} {e : ε} {name : String}

theorem Stretch.trans (h : Stretch p r w i j g) (h' : Stretch p r w j k g') :
    Stretch p r w i k (g ++ g') where
  later := h.later.trans h'.later
  busy n ge lt := by
    by_cases before : n < j
    · exact h.busy n ge before
    · exact h'.busy n (Nat.le_of_not_lt before) lt
  stack := h'.stack.trans h.stack
  sheet := by rw [h'.sheet, h.sheet, Sheet.append_assoc]

theorem Stretch.step {x : Walk ε} (next : w.after p r (i + 1) = x)
    (busy : (w.after p r i).phase ≠ .turning) (stack : x.stack = (w.after p r i).stack)
    (sheet : x.sheet = (w.after p r i).sheet ++ g) : Stretch p r w i (i + 1) g where
  later := Nat.le_succ i
  busy k ge lt := by
    obtain rfl : k = i := by omega
    exact busy
  stack := by rw [next, stack]
  sheet := by rw [next, sheet]

/-! ## From the factory to the next turn -/

theorem stretch_unmade {f : Failure} (h : (w.after p r i).phase = .creating path)
    (answer : p.make path = .error f) : (w.after p r (i + 1)).phase = .turning ∧
      Stretch p r w i (i + 1)
        { asked := [path], failed := 1, errors := [⟨path.text, f.record⟩] } := by
  let x := (w.after p r i).happen (.asked path)
  have next : w.after p r (i + 1) =
      ({ x with progress := x.progress.record path.text f }.say
        (.uncreated path f)).go .turning := by
    simp only [after, step, h, create, answer, x]
  refine ⟨by rw [next]; rfl, .step next (by simp [h]) rfl ?_⟩
  rw [sheet_go, sheet_say]
  exact sheet_recorded ..

theorem stretch_made (h : (w.after p r i).phase = .creating path) (made : p.make path = .ok e) :
    (w.after p r (i + 1)).phase = .offering path e ∧
      Stretch p r w i (i + 1) { asked := [path] } := by
  have next : w.after p r (i + 1) =
      ((w.after p r i).happen (.asked path)).go (.offering path e) := by
    simp only [after, step, h, create, made]
  exact ⟨by rw [next]; rfl, .step next (by simp [h]) rfl (sheet_happen _ _)⟩

/-- At some moment the entry that was made of a path goes onto the queue. -/
def Puts (p : Plan ε) (r : Course ε) (w : Walk ε) (path : Path) (e : ε) : Prop :=
    ∃ n, (w.after p r n).phase = .putting path e ∧
      (w.after p r (n + 1)).put = (w.after p r n).put ++ [e]

/-- An entry that is offered goes onto the queue, however often the queue is full before. -/
theorem stretch_put (calm : Undisturbed p r w) {m : Nat} (le : i ≤ m)
    (free : puts (w.after p r m).phase = false)
    (h : (w.after p r i).phase = .offering path e ∨ (w.after p r i).phase = .putting path e) :
    ∃ j, (w.after p r j).phase = .counting path e ∧ Puts p r w path e ∧
      Stretch p r w i j { put := [e], queued := 1 } := by
  obtain ⟨d, rfl⟩ := Nat.exists_eq_add_of_le le
  clear le
  -- on the number of steps that are left until the walk is known to be past the queue
  induction d generalizing i with
  | zero => rcases h with h | h <;> simp [h, Walk.puts] at free
  | succ d ih =>
      have free' : Walk.puts (w.after p r (i + 1 + d)).phase = false := by
        rwa [Nat.add_right_comm]
      have again : ∀ x : Walk ε, w.after p r (i + 1) = x → x.stack = (w.after p r i).stack →
          x.sheet = (w.after p r i).sheet →
          x.phase = .offering path e ∨ x.phase = .putting path e →
          ∃ j, (w.after p r j).phase = .counting path e ∧ Puts p r w path e ∧
            Stretch p r w i j { put := [e], queued := 1 } := by
        intro x next stack sheet phase
        obtain ⟨j, counting, put, rest⟩ := ih (i := i + 1) (by rwa [next]) free'
        have one : Stretch p r w i (i + 1) {} :=
          .step next (by rcases h with h | h <;> simp [h]) stack
            (sheet.trans (Sheet.append_empty _).symm)
        have whole := one.trans rest
        rw [Sheet.empty_append] at whole
        exact ⟨j, counting, put, whole⟩
      rcases h with h | h
      · have look : looks (w.after p r i).phase = true := by rw [h]; rfl
        obtain ⟨⟨⟩, check⟩ := answered fun f answer => calm.calm i _ f (.cancelled look answer)
        refine again ((w.after p r i).go (.putting path e)) ?_ rfl rfl (.inr rfl)
        simp only [after, step, h, unlessCancelled, check]
      · have willing : p.refusal = none := by
          cases refusal : p.refusal with
          | none => rfl
          | some f => exact absurd (.refused h refusal) (calm.calm i _ f)
        cases full : (r.channel i).isFull with
        | true =>
            refine again (((w.after p r i).happen .turnedAway).go (.offering path e)) ?_ rfl ?_
              (.inl rfl)
            · simp only [after, step, h, offer, willing, full, if_true]
            · exact (sheet_happen _ .turnedAway).trans (Sheet.append_empty _)
        | false =>
            let x := { w.after p r i with progress := (w.after p r i).progress.enqueue }
            have next : w.after p r (i + 1) = (x.happen (.put e)).go (.counting path e) := by
              simp [after, step, h, offer, willing, full, x]
            have one : Stretch p r w i (i + 1) { put := [e], queued := 1 } := by
              refine .step next (by simp [h]) rfl ?_
              rw [sheet_go]
              exact sheet_enqueued ..
            exact ⟨i + 1, by rw [next]; rfl, ⟨i, h, congrArg Sheet.put one.sheet⟩, one⟩

theorem stretch_told (calm : Undisturbed p r w) (h : (w.after p r i).phase = .counting path e) :
    (w.after p r (i + 3)).phase = .turning ∧
      Stretch p r w i (i + 3) { counted := 1, signalled := 1, notified := p.tells [e] } := by
  have counts : w.after p r (i + 1) =
      ((w.after p r i).happen .counted).go (.signalling path e) := by
    simp only [after, step, h]
  have signalling : (w.after p r (i + 1)).phase = .signalling path e := by rw [counts]; rfl
  obtain ⟨c, signalled⟩ := answered fun f answer =>
    calm.calm (i + 1) _ f (.latched signalling answer)
  have signals : w.after p r (i + 2) =
      ((w.after p r (i + 1)).happen .signalled).go (.notifying path e) := by
    rw [after, step, signalling]
    simp only [signal, signalled]
  have notifying : (w.after p r (i + 2)).phase = .notifying path e := by rw [signals]; rfl
  have notifies : w.after p r (i + 3) = (w.after p r (i + 2)).notify p path e := by
    rw [after, step, notifying]
  have one : Stretch p r w i (i + 1) { counted := 1 } :=
    .step counts (by simp [h]) rfl (sheet_happen _ _)
  have two : Stretch p r w (i + 1) (i + 2) { signalled := 1 } :=
    .step signals (by simp [signalling]) rfl (sheet_happen _ _)
  have three : Stretch p r w (i + 2) (i + 3) { notified := p.tells [e] } :=
    .step notifies (by simp [notifying]) (notify_stack ..) (sheet_notify ..)
  have whole := (one.trans two).trans three
  exact ⟨by rw [notifies, notify_phase], by simpa [Sheet.append_eq] using whole⟩

/-- From the factory a walk comes to its next turn, with or without an entry. -/
theorem stretch_filed (calm : Undisturbed p r w) (h : (w.after p r i).phase = .creating path) :
    ∃ j, i < j ∧ (w.after p r j).phase = .turning ∧ Stretch p r w i j (p.filed path) ∧
      ∀ e, p.make path = .ok e → Puts p r w path e := by
  cases made : p.make path with
  | error f =>
      obtain ⟨turning, stretch⟩ := stretch_unmade h made
      refine ⟨i + 1, Nat.lt_succ_self i, turning, ?_, nofun⟩
      rwa [Plan.filed, made]
  | ok e =>
      obtain ⟨offering, making⟩ := stretch_made h made
      obtain ⟨m, le, free⟩ := calm.putsEnd (i + 1)
      obtain ⟨j, counting, put, putting⟩ := stretch_put calm le free (.inl offering)
      obtain ⟨turning, telling⟩ := stretch_told calm counting
      have whole := (making.trans putting).trans telling
      refine ⟨j + 3, ?_, turning, ?_, fun e' same => ?_⟩
      · have first := putting.later
        omega
      · rw [Plan.filed, made]
        simpa [Sheet.append_eq] using whole
      · cases same
        exact put

/-! ## Judging a file -/

/-- A file that has been judged is handed to the factory or left out. -/
theorem stretch_judged (calm : Undisturbed p r w) {s : List String} {wanted : Bool}
    (judged : (wanted = false ∧ (w.after p r (i + 1)).phase = .turning ∧
        Stretch p r w i (i + 1) ({ judged := [s], visited := 1 } ++ { skipped := 1 })) ∨
      (wanted = true ∧ (w.after p r (i + 1)).phase = .creating path ∧
        Stretch p r w i (i + 1) { judged := [s], visited := 1 })) :
    ∃ j, i < j ∧ (w.after p r j).phase = .turning ∧
      Stretch p r w i j ({ judged := [s], visited := 1 } ++
        if wanted then p.filed path else { skipped := 1 }) ∧
      ∀ e, wanted = true → p.make path = .ok e → Puts p r w path e := by
  rcases judged with ⟨rfl, turning, stretch⟩ | ⟨rfl, creating, judging⟩
  · exact ⟨i + 1, Nat.lt_succ_self i, turning, stretch, nofun⟩
  · obtain ⟨j, later, turning, filing, put⟩ := stretch_filed calm creating
    exact ⟨j, Nat.lt_of_succ_lt later, turning, judging.trans filing, fun e _ => put e⟩

theorem kindOf_file (reads : p.probe.Reads fs) {directory : Path} {kind : Option Kind}
    (h : kindOf p directory ⟨name, .file⟩ = .ok kind) : kind = some .file := by
  simp only [kindOf] at h
  split at h
  · have known := reads.kindOf h
    simp only [FileSystem.kindOf] at known
    cases known
    rfl
  · cases h
    rfl

theorem excludesEntry_root (e : Entry) :
    p.excludesEntry p.root e [e.name] = p.excludes [e.name] := by
  have same := Plan.excludes_snoc (p := p) [] e.name
  rw [Path.below_nil] at same
  exact same.symm

theorem includesEntry_root (e : Entry) :
    p.includesEntry p.root e [e.name] = p.includes [e.name] := by
  have same := Plan.includes_snoc (p := p) [] e.name
  rw [Path.below_nil] at same
  exact same.symm

/-- What becomes of a file of the root directory that is visited. -/
theorem Advance.judges_child {t : Token} {c : Channel ε} {x : Walk ε} {s : Walk ε × Channel ε}
    (reads : p.probe.Reads fs) (calm : ∀ y f, ¬ Trouble p t x c y f) (a : Advance p t x c s)
    (h : x.phase = .visiting p.root ⟨name, .file⟩ [name] 0) : s.1.stack = x.stack ∧
      ((p.wants [name] = false ∧ s.1.phase = .turning ∧
          s.1.sheet = x.sheet ++ ({ judged := [[name]], visited := 1 } ++ { skipped := 1 })) ∨
        (p.wants [name] = true ∧ s.1.phase = .creating (p.root.child name) ∧
          s.1.sheet = x.sheet ++ { judged := [[name]], visited := 1 })) := by
  have excludes := excludesEntry_root (p := p) ⟨name, .file⟩
  have includes := includesEntry_root (p := p) ⟨name, .file⟩
  cases a with
  | fails trouble => exact absurd trouble (calm _ _)
  | drops h' free dropped =>
      cases h.symm.trans h'
      cases dropped with
      | excluded out =>
          refine ⟨rfl, .inl ⟨?_, rfl, ?_⟩⟩
          · rw [excludes] at out
            simp [Plan.wants, Plan.keeps, out]
          · rw [sheet_skip, sheet_say, sheet_sight, Sheet.append_assoc]
      | unwanted kept isFile out =>
          refine ⟨rfl, .inl ⟨?_, rfl, ?_⟩⟩
          · rw [includes] at out
            simp [Plan.wants, out]
          · rw [sheet_skip, sheet_sight, Sheet.append_assoc]
      | tooDeep _ isDirectory _ => cases kindOf_file reads isDirectory
      | neither _ known _ notFile => exact absurd (kindOf_file reads known) notFile
  | accepts h' free kept isFile wanted =>
      cases h.symm.trans h'
      refine ⟨rfl, .inr ⟨?_, rfl, sheet_sight ..⟩⟩
      rw [excludes] at kept
      rw [includes] at wanted
      simp [Plan.wants, Plan.keeps, kept, wanted]
  | descends h' _ _ isDirectory _ =>
      cases h.symm.trans h'
      cases kindOf_file reads isDirectory
  | begins h' | rootDirectory h' _ _ | rootFile h' _ _ | rootOther h' _ _ _ | loops h' _ _ _
  | enters h' _ _ | completes h' _ | leaves h' _ _ | takes h' _ _ | dropsRoot h' _ _
  | acceptsRoot h' _ _ _ | unmade h' _ | makes h' _ | tries h' _ | turnedAway h' _ _ | puts h' _ _
  | counts h' | signals h' _ | notifies h' | rests h' => cases h.symm.trans h'

/-- What becomes of a root that is a file. -/
theorem Advance.judges_root {t : Token} {c : Channel ε} {x : Walk ε} {s : Walk ε × Channel ε}
    (calm : ∀ y f, ¬ Trouble p t x c y f) (a : Advance p t x c s) (h : x.phase = .judging) :
    s.1.stack = x.stack ∧
      ((p.wants [] = false ∧ s.1.phase = .turning ∧
          s.1.sheet = x.sheet ++
            ({ judged := [[p.root.name]], visited := 1 } ++ { skipped := 1 })) ∨
        (p.wants [] = true ∧ s.1.phase = .creating p.root ∧
          s.1.sheet = x.sheet ++ { judged := [[p.root.name]], visited := 1 })) := by
  have excludes : p.excludes [] = p.filters.isExcluded p.probe.attributes p.root p.root.name := by
    simp [Plan.excludes, Plan.relativeForm]
  have includes : p.includes [] = p.filters.isIncluded p.probe.attributes p.root p.root.name := by
    simp [Plan.includes, Plan.relativeForm]
  cases a with
  | fails trouble => exact absurd trouble (calm _ _)
  | dropsRoot _ free out =>
      refine ⟨rfl, .inl ⟨?_, rfl, ?_⟩⟩
      · rcases out with out | ⟨kept, out⟩
        · simp [Plan.wants, Plan.keeps, excludes, out]
        · simp [Plan.wants, includes, out]
      · rw [sheet_skip, sheet_sightRoot, Sheet.append_assoc]
  | acceptsRoot _ free kept wanted =>
      refine ⟨rfl, .inr ⟨?_, rfl, sheet_sightRoot ..⟩⟩
      simp [Plan.wants, Plan.keeps, excludes, includes, kept, wanted]
  | begins h' | rootDirectory h' _ _ | rootFile h' _ _ | rootOther h' _ _ _ | loops h' _ _ _
  | enters h' _ _ | completes h' _ | leaves h' _ _ | takes h' _ _ | drops h' _ _
  | descends h' _ _ _ _ | accepts h' _ _ _ _ | unmade h' _ | makes h' _ | tries h' _
  | turnedAway h' _ _ | puts h' _ _ | counts h' | signals h' _ | notifies h' | rests h' =>
      cases h.symm.trans h'

/-- A visit of a file of the root directory posts the books of the file. -/
theorem stretch_visit (reads : p.probe.Reads fs) (calm : Undisturbed p r w)
    (h : (w.after p r i).phase = .visiting p.root ⟨name, .file⟩ [name] 0) :
    ∃ j, i < j ∧ (w.after p r j).phase = .turning ∧ Stretch p r w i j (p.books [name]) ∧
      ∀ e, p.wants [name] = true → p.make (p.root.child name) = .ok e →
        Puts p r w (p.root.child name) e := by
  obtain ⟨stack, judged⟩ :=
    (step_advances p (r.token i) (w.after p r i) (r.channel i)).judges_child reads (calm.calm i) h
  have busy : (w.after p r i).phase ≠ .turning := by simp [h]
  refine stretch_judged calm (judged.imp ?_ ?_) <;>
    exact fun ⟨answer, phase, sheet⟩ => ⟨answer, phase, .step rfl busy stack sheet⟩

theorem stretch_root (calm : Undisturbed p r w) (h : (w.after p r i).phase = .judging) :
    ∃ j, i < j ∧ (w.after p r j).phase = .turning ∧
      Stretch p r w i j ({ judged := [[p.root.name]], visited := 1 } ++
        if p.wants [] then p.filed p.root else { skipped := 1 }) ∧
      ∀ e, p.wants [] = true → p.make p.root = .ok e → Puts p r w p.root e := by
  obtain ⟨stack, judged⟩ :=
    (step_advances p (r.token i) (w.after p r i) (r.channel i)).judges_root (calm.calm i) h
  have busy : (w.after p r i).phase ≠ .turning := by simp [h]
  refine stretch_judged calm (judged.imp ?_ ?_) <;>
    exact fun ⟨answer, phase, sheet⟩ => ⟨answer, phase, .step rfl busy stack sheet⟩

/-! ## The visit in the directory -/

/-- An entry of the root directory that a walk has still to come to. -/
def Awaits (p : Plan ε) (e : Entry) (w : Walk ε) : Prop :=
    (w.stack = [] ∧
        (w.phase = .idle ∨ w.phase = .examining ∨ w.phase = .opening p.root [] 0)) ∨
      ∃ f ∈ w.stack, f.relative = [] ∧ e ∈ f.left

theorem Awaits.of_phase {x : Walk ε} {e : Entry} (h : Awaits p e x) (phase : x.phase ≠ .idle)
    (phase' : x.phase ≠ .examining)
    (phase'' : ∀ path relative depth, x.phase ≠ .opening path relative depth) :
    ∃ f ∈ x.stack, f.relative = [] ∧ e ∈ f.left := by
  rcases h with ⟨-, idle | examining | opening⟩ | held
  · exact absurd idle phase
  · exact absurd examining phase'
  · exact absurd opening (phase'' _ _ _)
  · exact held

/-- No step passes over an entry of the root directory. -/
theorem Awaits.advance {t : Token} {c : Channel ε} {x : Walk ε} {s : Walk ε × Channel ε} {e : Entry}
    {here : Place} {entries : List (String × Node)} (reads : p.probe.Reads fs)
    (fits : x.Fits p fs) (directory : fs.find true p.root = .ok here)
    (listed : fs.at? here = some (.directory entries)) (inside : e ∈ FileSystem.entriesOf entries)
    (calm : ∀ y f, ¬ Trouble p t x c y f) (h : Awaits p e x) (a : Advance p t x c s) :
    Awaits p e s.1 ∨ s.1.phase = .visiting p.root e [e.name] 0 := by
  have root : p.Names fs [] .directory := ⟨here, _, Plan.placeOf_nil directory, listed, rfl⟩
  cases a with
  | fails trouble => exact absurd trouble (calm _ _)
  | begins phase =>
      have empty := fits.phase
      rw [phase] at empty
      exact .inl (.inl ⟨empty, .inr (.inl rfl)⟩)
  | rootDirectory phase _ _ =>
      have empty := fits.phase
      rw [phase] at empty
      exact .inl (.inl ⟨empty, .inr (.inr rfl)⟩)
  | rootFile phase known isFile => cases (isFile ▸ names_root reads known).unique root
  | rootOther phase known notDirectory _ =>
      exact absurd ((names_root reads known).unique root) notDirectory
  | loops phase _ known again =>
      rcases h with ⟨empty, -⟩ | held
      · have none := fits.ancestors (by rw [phase]; nofun)
        rw [none, empty] at again
        cases again
      · exact .inl (.inr held)
  | enters phase keyed answer =>
      rcases h with ⟨empty, idle | examining | opening⟩ | ⟨f, mem, relative, left⟩
      · cases phase.symm.trans idle
      · cases phase.symm.trans examining
      · cases phase.symm.trans opening
        obtain ⟨place, others, found, at_, rfl⟩ := FileSystem.list_ok (reads.list answer)
        cases directory.symm.trans found
        cases listed.symm.trans at_
        exact .inl (.inr ⟨_, List.mem_cons_self, rfl, inside⟩)
      · exact .inl (.inr ⟨f, List.mem_cons_of_mem _ mem, relative, left⟩)
  | completes phase empty =>
      obtain ⟨f, mem, -⟩ := h.of_phase (by simp [phase]) (by simp [phase]) (by simp [phase])
      simp [empty] at mem
  | leaves phase top used =>
      obtain ⟨f, mem, relative, left⟩ :=
        h.of_phase (by simp [phase]) (by simp [phase]) (by simp [phase])
      rw [top] at mem
      rcases List.mem_cons.mp mem with rfl | mem
      · rw [used] at left
        cases left
      · exact .inl (.inr ⟨f, mem, relative, left⟩)
  | @takes f rest d others phase top some =>
      obtain ⟨g, mem, relative, left⟩ :=
        h.of_phase (by simp [phase]) (by simp [phase]) (by simp [phase])
      rw [top] at mem
      rcases List.mem_cons.mp mem with rfl | mem
      · rw [some] at left
        rcases List.mem_cons.mp left with rfl | left
        · have frame := fits.frames g (by simp [top])
          have path := frame.path
          have depth := frame.depth
          rw [relative, Path.below_nil] at path
          rw [relative] at depth
          exact .inr (by rw [go_phase, path, relative, depth]; rfl)
        · exact .inl (.inr ⟨_, List.mem_cons_self, relative, left⟩)
      · exact .inl (.inr ⟨g, List.mem_cons_of_mem _ mem, relative, left⟩)
  | drops phase _ dropped =>
      have held := h.of_phase (by simp [phase]) (by simp [phase]) (by simp [phase])
      rw [← dropped.stack] at held
      exact .inl (.inr held)
  | notifies phase =>
      have held := h.of_phase (by simp [phase]) (by simp [phase]) (by simp [phase])
      rw [← notify_stack] at held
      exact .inl (.inr held)
  | dropsRoot phase _ _ | acceptsRoot phase _ _ _ | descends phase _ _ _ _ | accepts phase _ _ _ _
  | unmade phase _ | makes phase _ | tries phase _ | turnedAway phase _ _ | puts phase _ _
  | counts phase | signals phase _ | rests phase =>
      exact .inl (.inr (h.of_phase (by simp [phase]) (by simp [phase]) (by simp [phase])))

/-- An undisturbed walk comes to every entry of its root directory. -/
theorem exists_visit {e : Entry} {here : Place} {entries : List (String × Node)}
    (wf : fs.WellFormed) (reads : p.probe.Reads fs) (ready : w.Ready) (calm : Undisturbed p r w)
    (directory : fs.find true p.root = .ok here)
    (listed : fs.at? here = some (.directory entries))
    (inside : e ∈ FileSystem.entriesOf entries) :
    ∃ i, (w.after p r i).phase = .visiting p.root e [e.name] 0 := by
  by_contra never
  rw [not_exists] at never
  have awaits : ∀ n, Awaits p e (w.after p r n) := by
    intro n
    induction n with
    | zero => exact .inl ⟨ready.stack, .inl ready.idle⟩
    | succ n ih =>
        have fits := fits_after wf reads ready.fits r n
        exact (ih.advance reads fits directory listed inside (calm.calm n)
          (step_advances p _ _ _)).resolve_right (never (n + 1))
  obtain ⟨n, o, ended⟩ := ends wf reads ready.fits r calm.putsEnd
  have empty := (fits_after wf reads ready.fits r n).phase
  rw [ended] at empty
  obtain ⟨f, mem, -⟩ :=
    (awaits n).of_phase (by simp [ended]) (by simp [ended]) (by simp [ended])
  rw [show (w.after p r n).stack = [] from empty] at mem
  cases mem

/-! ## The file alone -/

theorem status_child {path : Path} {here : Place} {entries : List (String × Node)} {n : Node}
    {s : Status} (wf : fs.WellFormed) (directory : fs.find true path = .ok here)
    (listed : fs.at? here = some (.directory entries)) (found : Node.entryOf entries name = some n)
    (real : n.kind ≠ .link) (h : fs.status true (path.child name) = .ok s) : s.kind = n.kind := by
  obtain ⟨place, m, node, kind⟩ := FileSystem.status_ok h
  have leads := FileSystem.followLinks_of_find_child directory place
  rw [FileSystem.followLinks_of_entry wf listed found real leads, FileSystem.at?_snoc listed,
    found] at node
  cases node
  exact kind.symm

/-- An undisturbed walk over a file judges it and comes to a good end. -/
theorem ends_with_root (ready : w.Ready) (calm : Undisturbed p r w)
    (file : ∀ s, p.probe.status p.root = .ok s → s.kind = .file) :
    (∃ n, ∀ m, n ≤ m → (w.after p r m).phase = .ended (.ok p.root) ∧
        (w.after p r m).sheet = w.sheet ++ ({ judged := [[p.root.name]], visited := 1 } ++
          if p.wants [] then p.filed p.root else { skipped := 1 })) ∧
      ∀ e, p.wants [] = true → p.make p.root = .ok e → Puts p r w p.root e := by
  obtain ⟨s, known⟩ := calm.root_known ready.idle
  have begins : w.after p r 1 = w.begin_ p := by
    simp only [after, step, ready.idle]
  have judges : w.after p r 2 = (w.begin_ p).go .judging := by
    rw [after, begins, step]
    simp only [begin_phase, examine, known, file s known]
  have judging : (w.after p r 2).phase = .judging := by rw [judges]; rfl
  obtain ⟨j, -, turning, stretch, put⟩ := stretch_root calm judging
  have empty : (w.after p r j).stack = [] := by
    rw [stretch.stack, judges, go_stack, begin_stack, ready.stack]
  have completes : w.after p r (j + 1) = (w.after p r j).complete p := by
    simp only [after, step, turning, turn, empty]
  have ended : (w.after p r (j + 1)).phase = .ended (.ok p.root) := by
    rw [completes, complete_phase]
  refine ⟨⟨j + 1, fun m le => ?_⟩, put⟩
  rw [after_of_ended ended le]
  refine ⟨ended, ?_⟩
  rw [completes, sheet_complete, stretch.sheet, judges, sheet_go, sheet_begin]

theorem Puts.accepts {path : Path} (wf : fs.WellFormed) (reads : p.probe.Reads fs) (ready : w.Ready)
    (h : Puts p r w path e) :
    ∃ s, path = p.root.below s ∧ p.Accepts fs s ∧ p.make path = .ok e := by
  obtain ⟨n, putting, -⟩ := h
  have known := (fits_after wf reads ready.fits r n).phase
  rwa [putting] at known

end Walk

theorem Plan.Accepts.wants {p : Plan ε} {fs : FileSystem} {s : List String}
    (h : p.Accepts fs s) : p.wants s = true := by
  simp [Plan.wants, Plan.keeps, h.kept, h.wanted]

/-- The three ways in which a file can be counted. -/
theorem Plan.books_cases (p : Plan ε) (s : List String) :
    (p.wants s = false ∧ p.books s = { judged := [s], visited := 1, skipped := 1 }) ∨
      (p.wants s = true ∧ ∃ f, p.make (p.root.below s) = .error f ∧ p.books s =
        { judged := [s], asked := [p.root.below s], visited := 1, failed := 1
          errors := [⟨(p.root.below s).text, f.record⟩] }) ∨
      (p.wants s = true ∧ ∃ e, p.make (p.root.below s) = .ok e ∧ p.books s =
        { judged := [s], asked := [p.root.below s], put := [e], counted := 1, signalled := 1
          notified := p.tells [e], visited := 1, queued := 1 }) := by
  cases wanted : p.wants s with
  | false => exact .inl ⟨rfl, by simp [books, wanted, Sheet.append_eq]⟩
  | true =>
      cases made : p.make (p.root.below s) with
      | error f =>
          refine .inr (.inl ⟨rfl, f, rfl, ?_⟩)
          simp [books, wanted, filed, made, Sheet.append_eq]
      | ok e =>
          refine .inr (.inr ⟨rfl, e, rfl, ?_⟩)
          simp [books, wanted, filed, made, Sheet.append_eq]

namespace Walk

/-- Of a file of the root directory an entry is put if the filters let it through and the factory
makes one. -/
theorem puts_child_iff {p : Plan ε} {fs : FileSystem} {r : Course ε} {w : Walk ε} {name : String}
    {here : Place} {entries : List (String × Node)} (wf : fs.WellFormed)
    (reads : p.probe.Reads fs) (ready : w.Ready) (calm : Undisturbed p r w)
    (directory : fs.find true p.root = .ok here)
    (listed : fs.at? here = some (.directory entries))
    (inside : (⟨name, .file⟩ : Entry) ∈ FileSystem.entriesOf entries) (e : ε) :
    Puts p r w (p.root.child name) e ↔
      p.wants [name] = true ∧ p.make (p.root.child name) = .ok e := by
  constructor
  · intro put
    obtain ⟨s, path, accepts, made⟩ := put.accepts wf reads ready
    obtain rfl : [name] = s := Path.below_injective path
    exact ⟨accepts.wants, made⟩
  · rintro ⟨wanted, made⟩
    obtain ⟨i, visiting⟩ := exists_visit wf reads ready calm directory listed inside
    obtain ⟨-, -, -, -, put⟩ := stretch_visit reads calm visiting
    exact put e wanted made

theorem puts_root_iff {p : Plan ε} {fs : FileSystem} {r : Course ε} {w : Walk ε}
    (wf : fs.WellFormed) (reads : p.probe.Reads fs) (ready : w.Ready) (calm : Undisturbed p r w)
    (file : ∀ s, p.probe.status p.root = .ok s → s.kind = .file) (e : ε) :
    Puts p r w p.root e ↔ p.wants [] = true ∧ p.make p.root = .ok e := by
  constructor
  · intro put
    obtain ⟨s, path, accepts, made⟩ := put.accepts wf reads ready
    obtain rfl : [] = s := Path.below_injective ((Path.below_nil p.root).trans path)
    exact ⟨accepts.wants, made⟩
  · rintro ⟨wanted, made⟩
    exact (ends_with_root ready calm file).2 e wanted made

/-- A walk over the root of a plan and a walk over one of its files judge the file alike. -/
structure JudgedAlike (p : Plan ε) (r r' : Course ε) (name : String) : Prop where
  /-- The walk over the file comes to a good end with nothing but the books of the file. -/
  alone : ∃ n, ∀ m, n ≤ m →
    ((fresh (p.root.child name)).after (p.alone name) r' m).phase =
        .ended (.ok (p.root.child name)) ∧
      ((fresh (p.root.child name)).after (p.alone name) r' m).sheet = p.books [name]
  visited : ∃ i, ((fresh p.root).after p r i).phase = .visiting p.root ⟨name, .file⟩ [name] 0
  /-- The walk over the root posts the same books from the visit of the file to its next turn. -/
  within : ∀ i, ((fresh p.root).after p r i).phase = .visiting p.root ⟨name, .file⟩ [name] 0 →
    ∃ j, i < j ∧ ((fresh p.root).after p r j).phase = .turning ∧
      Stretch p r (fresh p.root) i j (p.books [name])
  once : (p.books [name]).visited = 1 ∧
    (p.books [name]).queued + (p.books [name]).skipped + (p.books [name]).failed = 1
  puts_iff : ∀ e, Puts (p.alone name) r' (fresh (p.root.child name)) (p.root.child name) e ↔
    Puts p r (fresh p.root) (p.root.child name) e
  made : ∀ e, Puts p r (fresh p.root) (p.root.child name) e → p.make (p.root.child name) = .ok e

theorem judged_alike {p : Plan ε} {fs : FileSystem} {r r' : Course ε} {name : String} {here : Place}
    {entries : List (String × Node)} {n : Node} (wf : fs.WellFormed) (reads : p.probe.Reads fs)
    (directory : fs.find true p.root = .ok here) (listed : fs.at? here = some (.directory entries))
    (found : Node.entryOf entries name = some n) (regular : n.kind = .file)
    (calm : Undisturbed p r (fresh p.root))
    (calm' : Undisturbed (p.alone name) r' (fresh (p.root.child name))) :
    JudgedAlike p r r' name := by
  have ready : (fresh p.root : Walk ε).Ready := ready_fresh p.root
  have ready' : (fresh (p.root.child name) : Walk ε).Ready := ready_fresh _
  have inside : (⟨name, .file⟩ : Entry) ∈ FileSystem.entriesOf entries :=
    FileSystem.mem_entriesOf.mpr ⟨n, Node.mem_of_entryOf found, regular⟩
  have file : ∀ s, (p.alone name).probe.status (p.alone name).root = .ok s → s.kind = .file := by
    intro s known
    rw [← regular]
    exact status_child wf directory listed found (by simp [regular]) (reads.status known)
  have within_iff := puts_child_iff wf reads ready calm directory listed inside
  have alone_iff := puts_root_iff (p := p.alone name) wf reads ready' calm' file
  rw [Plan.wants_alone] at alone_iff
  constructor
  · obtain ⟨m, settled⟩ := (ends_with_root ready' calm' file).1
    refine ⟨m, fun k le => ⟨(settled k le).1, ?_⟩⟩
    have empty : (fresh (p.root.child name) : Walk ε).sheet = {} := rfl
    have named : (p.alone name).root.name = name := Path.name_child _ _
    rw [(settled k le).2, empty, Sheet.empty_append, Plan.wants_alone, named]
    rfl
  · exact exists_visit wf reads ready calm directory listed inside
  · intro i visiting
    obtain ⟨j, later, turning, stretch, -⟩ := stretch_visit reads calm visiting
    exact ⟨j, later, turning, stretch⟩
  · rcases p.books_cases [name] with ⟨-, books⟩ | ⟨-, f, -, books⟩ | ⟨-, e, -, books⟩ <;>
      rw [books] <;> exact ⟨rfl, rfl⟩
  · intro e
    rw [within_iff]
    exact alone_iff e
  · intro e put
    exact ((within_iff e).mp put).2

/-- The walk over the file of `loopTree`; the one answer of the system that it asks for is written
out. -/
theorem loop_alone_undisturbed :
    Undisturbed (loopPlan.alone "a") quietCourse (fresh (loopPlan.root.child "a")) := by
  let path : Path := ⟨.here, ["a"]⟩
  have status : loopPlan.probe.status path = .ok ⟨.file, 0, 0, ["a"]⟩ := by
    have answer : loopTree.status true path = .ok ⟨.file, 0, 0, ["a"]⟩ := by cbv
    simp [loopPlan, FileSystem.probe, answer, Except.mapError]
  have ends : ((fresh path).after { loopPlan.alone "a" with probe := { loopPlan.probe with
      status := Function.update loopPlan.probe.status path (.ok ⟨.file, 0, 0, ["a"]⟩) } }
      quietCourse 12).outcome?.any (·.isOk) = true := by
    decide +kernel
  rw [← status, Function.update_eq_self] at ends
  exact (settled_of_outcome ends).1

theorem loop_judged_alike : loopTree.WellFormed ∧ loopPlan.probe.Reads loopTree ∧
    ∃ here entries n, loopTree.find true loopPlan.root = .ok here ∧
      loopTree.at? here = some (.directory entries) ∧ Node.entryOf entries "a" = some n ∧
      n.kind = .file ∧ Undisturbed loopPlan quietCourse (fresh loopPlan.root) ∧
      Undisturbed (loopPlan.alone "a") quietCourse (fresh (loopPlan.root.child "a")) ∧
      JudgedAlike loopPlan quietCourse quietCourse "a" := by
  have directory : loopTree.find true ⟨.here, []⟩ = .ok [] := by cbv
  exact ⟨loopTree_wellFormed, loopPlan_reads, [], _, _, directory, rfl, rfl, rfl, loop_undisturbed,
    loop_alone_undisturbed, judged_alike loopTree_wellFormed loopPlan_reads directory rfl rfl rfl
      loop_undisturbed loop_alone_undisturbed⟩

end Walk

end FileCensus
