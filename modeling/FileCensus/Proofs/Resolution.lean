import FileCensus.Proofs.FileTrees
import FileCensus.Walk.Probe

/-!
Resolution one name at a time. A path is resolved by the system as a whole, with one allowance of
links for all its names; a walk goes from a directory to an entry of it. Whatever the system answers
for the longer path is what the single step gives: a larger allowance changes no answer but "too
many links".
-/

namespace FileCensus

theorem ok_of_mapError {α β γ : Type} {x : Except α γ} {f : α → β} {a : γ}
    (h : x.mapError f = .ok a) : x = .ok a := by
  cases x with
  | error e => cases h
  | ok b =>
      cases h
      rfl

namespace FileSystem

variable {fs : FileSystem} {last : Bool} {here q : Place} {entries : List (String × Node)}
  {name : String}

theorem follow_extends {chase chase' : Place → List String → Except PathFault Spot}
    (chases : ∀ place names, chase place names ≠ .error .tooManyLinks →
      chase' place names = chase place names)
    (here : Place) (names : List String)
    (h : fs.follow chase last here names ≠ .error .tooManyLinks) :
    fs.follow chase' last here names = fs.follow chase last here names := by
  induction names generalizing here with
  | nil => rfl
  | cons name rest ih =>
      simp only [follow] at h ⊢
      split
      · split
        · exact ih here (by simp_all)
        · split
          · exact ih here.dropLast (by simp_all)
          · split
            · rfl
            · split
              · rfl
              · split
                · rfl
                · exact chases _ _ (by simp_all)
              · exact ih (here ++ [name]) (by simp_all)
      · rfl
      · rfl

theorem followLinks_succ (budget : Nat) (here : Place) (names : List String)
    (h : fs.followLinks last budget here names ≠ .error .tooManyLinks) :
    fs.followLinks last (budget + 1) here names = fs.followLinks last budget here names := by
  induction budget generalizing here names with
  | zero => exact follow_extends (fun _ _ wrong => absurd rfl wrong) here names h
  | succ budget ih => exact follow_extends ih here names h

theorem followLinks_mono {few many : Nat} (le : few ≤ many) {names : List String}
    (h : fs.followLinks last few here names ≠ .error .tooManyLinks) :
    fs.followLinks last many here names = fs.followLinks last few here names := by
  induction le with
  | refl => rfl
  | step _ ih => rw [followLinks_succ _ _ _ (ih ▸ h), ih]

/-- A name either leads on to a place, or stands for the names of a link's target, or ends the
search. -/
theorem follow_cons_cases (chase : Place → List String → Except PathFault Spot) (here : Place)
    (name : String) :
    (∃ next, ∀ rest, fs.follow chase true here (name :: rest) = fs.follow chase true next rest) ∨
      (∃ start target, ∀ rest,
        fs.follow chase true here (name :: rest) = chase start (target ++ rest)) ∨
      (∀ rest q, fs.follow chase true here (name :: rest) ≠ .ok (.node q)) := by
  simp only [follow]
  split
  · split
    · exact Or.inl ⟨here, fun _ => rfl⟩
    · split
      · exact Or.inl ⟨here.dropLast, fun _ => rfl⟩
      · split
        · exact Or.inr (Or.inr fun _ _ => nofun)
        · split
          · refine Or.inr (Or.inr fun rest q => ?_)
            split <;> nofun
          · next target _ _ =>
            refine Or.inr (Or.inl ⟨if isAbsolute target then [] else here, targetNames target, ?_⟩)
            intro rest
            simp only [Bool.not_true, Bool.and_false, Bool.false_eq_true, if_false]
          · exact Or.inl ⟨here ++ [name], fun _ => rfl⟩
  · exact Or.inr (Or.inr fun _ _ => nofun)
  · exact Or.inr (Or.inr fun _ _ => nofun)

/-- A resolution that leads to a node goes on from there, with a part of its allowance. -/
def Continues (fs : FileSystem) (budget : Nat)
    (resolve : Place → List String → Except PathFault Spot) : Prop :=
    ∀ here names q, resolve here names = .ok (.node q) →
      ∃ left ≤ budget, ∀ more, resolve here (names ++ more) = fs.followLinks true left q more

theorem follow_continues {chase : Place → List String → Except PathFault Spot} {budget : Nat}
    (chases : Continues fs budget chase)
    (whole : fs.followLinks true budget = fs.follow chase true) :
    Continues fs budget (fs.follow chase true) := by
  intro here names q h
  induction names generalizing here with
  | nil =>
      cases h
      exact ⟨budget, Nat.le_refl _, fun more => by rw [whole, List.nil_append]⟩
  | cons name rest ih =>
      rcases follow_cons_cases chase here name with ⟨next, on⟩ | ⟨start, target, link⟩ | stop
      · obtain ⟨left, le, same⟩ := ih next (on rest ▸ h)
        exact ⟨left, le, fun more => by rw [List.cons_append, on, same]⟩
      · obtain ⟨left, le, same⟩ := chases start (target ++ rest) q (link rest ▸ h)
        exact ⟨left, le, fun more => by rw [List.cons_append, link, ← List.append_assoc, same]⟩
      · exact absurd h (stop rest q)

theorem followLinks_continues (budget : Nat) :
    Continues fs budget (fs.followLinks true budget) := by
  induction budget with
  | zero => exact follow_continues (fun _ _ _ h => nomatch h) rfl
  | succ budget ih =>
      refine follow_continues (fun here names q h => ?_) rfl
      obtain ⟨left, le, same⟩ := ih here names q h
      exact ⟨left, Nat.le_succ_of_le le, same⟩

/-- Where the resolution of a path begins. -/
def start (fs : FileSystem) (p : Path) : Place :=
    if p.anchor = .here then fs.workingDirectory else []

/-- What is refused for the text of the path is refused before anything is resolved. -/
theorem locate_cases (fs : FileSystem) (last : Bool) (p : Path) :
    fs.locate last p = .error .embeddedNul ∨ fs.locate last p = .error (.fault .nameTooLong) ∨
      fs.locate last p = (fs.followLinks last linkLimit (fs.start p) p.names).mapError .fault := by
  simp only [locate]
  split
  · exact Or.inl rfl
  · split
    · exact Or.inr (Or.inl rfl)
    · refine Or.inr (Or.inr ?_)
      simp only [start]
      split
      · next spot found =>
        rw [found]
        rfl
      · next cause failed =>
        rw [failed]
        rfl

theorem locate_of_find {p : Path} (h : fs.find last p = .ok q) :
    fs.locate last p = .ok (.node q) := by
  simp only [find] at h
  split at h <;> simp_all

theorem followLinks_of_locate {p : Path} {spot : Spot} (h : fs.locate last p = .ok spot) :
    fs.followLinks last linkLimit (fs.start p) p.names = .ok spot := by
  rcases locate_cases fs last p with nul | long | same
  · simp [nul] at h
  · simp [long] at h
  · exact ok_of_mapError (same ▸ h)

theorem followLinks_of_missing {p : Path} (h : fs.locate last p = .error (.fault .missing)) :
    fs.followLinks last linkLimit (fs.start p) p.names = .error .missing := by
  rcases locate_cases fs last p with nul | long | same
  · simp [nul] at h
  · simp [long] at h
  · rw [same] at h
    cases answer : fs.followLinks last linkLimit (fs.start p) p.names with
    | ok spot =>
        rw [answer] at h
        cases h
    | error cause =>
        rw [answer] at h
        cases h
        rfl

/-- The answer for an entry of a directory is the answer for its name, asked for from the
directory. -/
theorem followLinks_child {p : Path} {answer : Except PathFault Spot}
    (directory : fs.find true p = .ok here)
    (h : fs.followLinks true linkLimit (fs.start p) (p.names ++ [name]) = answer)
    (real : answer ≠ .error .tooManyLinks) :
    fs.followLinks true linkLimit here [name] = answer := by
  have whole := followLinks_of_locate (locate_of_find directory)
  obtain ⟨left, le, same⟩ := followLinks_continues linkLimit (fs.start p) p.names here whole
  have short : fs.followLinks true left here [name] = answer := by rw [← same, h]
  rw [followLinks_mono le (by rw [short]; exact real), short]

theorem followLinks_of_find_child {p : Path} (directory : fs.find true p = .ok here)
    (h : fs.find true (p.child name) = .ok q) :
    fs.followLinks true linkLimit here [name] = .ok (.node q) :=
  followLinks_child directory (followLinks_of_locate (locate_of_find h)) nofun

/-- The place that an entry of a directory leads to: a link leads to its target if `follows` holds,
and else stands for itself. -/
def next (fs : FileSystem) (follows : Bool) (here : Place) (name : String) : Option Place :=
    match fs.at? here with
    | some (.directory entries) =>
        match Node.entryOf entries name with
        | none => none
        | some n =>
            if n.kind = .link ∧ follows then
              match fs.followLinks true linkLimit here [name] with
              | .ok (.node q) => some q
              | _ => none
            else some (here ++ [name])
    | _ => none

/-- Where a chain of names leads to, one directory after the other. -/
def trail (fs : FileSystem) (follows : Bool) : Place → List String → Option Place
  | here, [] => some here
  | here, name :: rest => (fs.next follows here name).bind fun q => trail fs follows q rest

theorem trail_append (follows : Bool) (here : Place) (s t : List String) :
    fs.trail follows here (s ++ t) =
      (fs.trail follows here s).bind fun q => fs.trail follows q t := by
  induction s generalizing here with
  | nil => rfl
  | cons name s ih => simp only [List.cons_append, trail, Option.bind_assoc, ih]

variable {follows : Bool} {n : Node}

theorem next_eq_some (h : fs.next follows here name = some q) :
    ∃ entries n, fs.at? here = some (.directory entries) ∧ Node.entryOf entries name = some n := by
  simp only [next] at h
  split at h
  · next entries directory =>
    cases found : Node.entryOf entries name with
    | none => simp [found] at h
    | some n => exact ⟨entries, n, directory, found⟩
  · cases h

theorem next_of_entry (follows : Bool) (listed : fs.at? here = some (.directory entries))
    (found : Node.entryOf entries name = some n) (real : n.kind ≠ .link ∨ follows = false) :
    fs.next follows here name = some (here ++ [name]) := by
  have stays : ¬(n.kind = .link ∧ follows = true) := by
    rintro ⟨link, on⟩
    simp_all
  simp only [next, listed, found, if_neg stays]

theorem next_of_link (listed : fs.at? here = some (.directory entries))
    (found : Node.entryOf entries name = some n) (link : n.kind = .link) :
    fs.next true here name = some q ↔
      fs.followLinks true linkLimit here [name] = .ok (.node q) := by
  simp only [next, listed, found, link, and_self, if_true]
  split <;> simp_all

theorem followLinks_of_entry (wf : fs.WellFormed) (listed : fs.at? here = some (.directory entries))
    (found : Node.entryOf entries name = some n) (real : n.kind ≠ .link) {budget : Nat}
    (h : fs.followLinks true budget here [name] = .ok (.node q)) : q = here ++ [name] := by
  have proper := wf.proper listed (Node.mem_of_entryOf found)
  have step : ∀ chase, fs.follow chase true here [name] = .ok (.node q) → q = here ++ [name] := by
    intro chase h
    simp only [follow, listed, found, beq_iff_eq, if_neg proper.1, if_neg proper.2] at h
    split at h
    · cases h
    · cases n <;> simp_all [Node.kind]
  cases budget <;> exact step _ h

/-- A directory or file that an entry leads to is where the system finds the entry. -/
theorem next_eq_of_find (wf : fs.WellFormed) {p : Path} (directory : fs.find true p = .ok here)
    (h : fs.find true (p.child name) = .ok q) {r : Place}
    (leads : fs.next follows here name = some r) (node : fs.at? r = some n)
    (real : n.kind ≠ .link) : r = q := by
  obtain ⟨entries, m, listed, found⟩ := next_eq_some leads
  have answer := followLinks_of_find_child directory h
  by_cases link : m.kind = .link
  · cases follows with
    | true =>
        have same := (next_of_link listed found link).mpr answer
        exact Option.some.inj (leads.symm.trans same)
    | false =>
        have stays := next_of_entry false listed found (Or.inr rfl)
        rw [leads, Option.some.injEq] at stays
        rw [stays, at?_snoc listed, found, Option.some.injEq] at node
        exact absurd (node ▸ link) real
  · have stays := next_of_entry follows listed found (Or.inl link)
    rw [leads, Option.some.injEq] at stays
    rw [stays, followLinks_of_entry wf listed found link answer]

theorem status_ok {p : Path} {s : Status} (h : fs.status last p = .ok s) :
    fs.find last p = .ok s.identity ∧ ∃ n, fs.at? s.identity = some n ∧ n.kind = s.kind := by
  simp only [status] at h
  cases found : fs.find last p with
  | error r => simp [found, bind, Except.bind] at h
  | ok place =>
      simp only [found, bind, Except.bind] at h
      cases node : fs.at? place with
      | none => simp [node] at h
      | some n =>
          simp only [node, Except.ok.injEq] at h
          subst h
          cases n <;> exact ⟨rfl, _, node, rfl⟩

theorem list_ok {p : Path} {es : List Entry} (h : fs.list p = .ok es) :
    ∃ here entries, fs.find true p = .ok here ∧ fs.at? here = some (.directory entries) ∧
      es = entriesOf entries := by
  simp only [list] at h
  cases found : fs.find true p with
  | error r => simp [found, bind, Except.bind] at h
  | ok place =>
      simp only [found, bind, Except.bind] at h
      split at h
      · next entries directory => exact ⟨place, entries, rfl, directory, by simpa using h.symm⟩
      · cases h
      · cases h

theorem next_of_missing {p : Path} (directory : fs.find true p = .ok here)
    (listed : fs.at? here = some (.directory entries)) (found : Node.entryOf entries name = some n)
    (link : n.kind = .link) (h : fs.status true (p.child name) = .error (.fault .missing))
    (leads : fs.next true here name = some q) : fs.at? q = none := by
  have answer := (next_of_link listed found link).mp leads
  simp only [status] at h
  cases target : fs.find true (p.child name) with
  | ok place =>
      have same := followLinks_of_find_child directory target
      rw [answer] at same
      cases same
      simp only [target, bind, Except.bind] at h
      cases node : fs.at? q with
      | none => rfl
      | some m => simp [node] at h
  | error r =>
      have missing : r = .fault .missing := by simpa [target, bind, Except.bind] using h
      simp only [find, missing] at target
      split at target
      · cases target
      · next spot vacant =>
        rw [followLinks_child directory (followLinks_of_locate vacant) nofun] at answer
        cases answer
      · next r refused =>
        cases target
        rw [followLinks_child directory (followLinks_of_missing refused) nofun] at answer
        cases answer

/-- The kind that the system gives for an entry is the kind of the node that the entry leads to. -/
theorem kindOf_ok (wf : fs.WellFormed) {p : Path} (directory : fs.find true p = .ok here)
    (listed : fs.at? here = some (.directory entries)) {e : Entry} (he : e ∈ entriesOf entries)
    {kind : Option Kind} (h : fs.kindOf p e = .ok kind) {k : Kind} :
    kind = some k ↔ ∃ q n, fs.next true here e.name = some q ∧ fs.at? q = some n ∧ n.kind = k := by
  obtain ⟨n, member, same⟩ := mem_entriesOf.mp he
  have found := Node.entryOf_of_mem (wf.distinct listed) member
  -- only for a link is the system asked again, by the path of the entry
  simp only [kindOf] at h
  by_cases link : e.kind = .link
  · rw [if_pos link] at h
    rw [← same] at link
    split at h
    · next s known =>
      cases h
      obtain ⟨target, m, node, sort⟩ := status_ok known
      have answer := followLinks_of_find_child directory target
      have leads := (next_of_link listed found link).mpr answer
      constructor
      · rintro ⟨⟩
        exact ⟨s.identity, m, leads, node, sort⟩
      · rintro ⟨q, m', leads', node', rfl⟩
        cases leads.symm.trans leads'
        cases node.symm.trans node'
        rw [sort]
    · next missing =>
      cases h
      constructor
      · nofun
      · rintro ⟨q, m, leads, node, -⟩
        rw [next_of_missing directory listed found link missing leads] at node
        cases node
    · cases h
  · rw [if_neg link] at h
    cases h
    have leads := next_of_entry true listed found (Or.inl (same ▸ link))
    have node := (at?_snoc listed e.name).trans found
    constructor
    · rintro ⟨⟩
      exact ⟨_, n, leads, node, same⟩
    · rintro ⟨q, m, leads', node', rfl⟩
      cases leads.symm.trans leads'
      cases node.symm.trans node'
      rw [same]

end FileSystem
end FileCensus
