import FileCensus.Proofs.Resolution
import Mathlib.Data.String.Basic

/-!
The spellings of a path. The system reads a text as it stands: a piece `.` stays where it is and a
final slash asks for a directory. A path keeps neither, and a text that leads to a node still leads
to it by the path that was made of the text. The text that a listing gives an entry is read back as
the path of the entry.
-/

namespace FileCensus
namespace FileSystem

/-- Where the pieces of a text are followed from. -/
def startOf (fs : FileSystem) (text : String) : Place :=
    if isAbsolute text then [] else fs.workingDirectory

/-- The node that the system finds by a text, links followed. The empty text leads nowhere. -/
def Leads (fs : FileSystem) (text : String) (here : Place) : Prop :=
    text ≠ "" ∧
      fs.followLinks true linkLimit (fs.startOf text) (targetNames text) = .ok (.node here)

/-- A resolution that leads on with some names leads to the same node without the dots among
them. -/
def IgnoresDots (resolve : Place → List String → Except PathFault Spot) : Prop :=
    ∀ here names rest q, resolve here (names ++ rest) = .ok (.node q) →
      resolve here (names ++ rest.filter (· != ".")) = .ok (.node q)

section Dots

variable {fs : FileSystem} {chase : Place → List String → Except PathFault Spot} {here q : Place}
  {name : String} {names names' rest : List String}

theorem follow_dot (h : fs.follow chase true here ("." :: rest) = .ok (.node q)) :
    fs.follow chase true here rest = .ok (.node q) := by
  simp only [follow] at h
  split at h
  · exact h
  · cases h
  · cases h

/-- What is changed behind a name is changed behind whatever the name stands for. -/
theorem follow_behind
    (on : ∀ here, fs.follow chase true here names = .ok (.node q) →
      fs.follow chase true here names' = .ok (.node q))
    (link : ∀ start target, chase start (target ++ names) = .ok (.node q) →
      chase start (target ++ names') = .ok (.node q))
    (h : fs.follow chase true here (name :: names) = .ok (.node q)) :
    fs.follow chase true here (name :: names') = .ok (.node q) := by
  rcases follow_cons_cases chase here name with ⟨next, leads⟩ | ⟨start, target, leads⟩ | stop
  · rw [leads] at h ⊢
    exact on next h
  · rw [leads] at h ⊢
    exact link start target h
  · exact absurd h (stop names q)

theorem follow_ignoresDots (chases : IgnoresDots chase) : IgnoresDots (fs.follow chase true) := by
  intro here names rest q h
  induction names generalizing here with
  | cons name names ih =>
      rw [List.cons_append] at h ⊢
      refine follow_behind ih (fun start target h => ?_) h
      rw [← List.append_assoc] at h ⊢
      exact chases start (target ++ names) rest q h
  | nil =>
      induction rest generalizing here with
      | nil => exact h
      | cons name rest ih =>
          by_cases dot : name = "."
          · subst dot
            exact ih here (follow_dot h)
          · have kept : (name :: rest).filter (· != ".") = name :: rest.filter (· != ".") :=
              List.filter_cons_of_pos (by simpa using dot)
            rw [kept]
            exact follow_behind ih (fun start target => chases start target rest q) h

theorem followLinks_ignoresDots (fs : FileSystem) (budget : Nat) :
    IgnoresDots (fs.followLinks true budget) := by
  induction budget with
  | zero => exact follow_ignoresDots fun _ _ _ _ h => nomatch h
  | succ budget ih => exact follow_ignoresDots ih

end Dots

theorem anchorOf_eq_here_iff (text : String) :
    Path.anchorOf text.toList = .here ↔ isAbsolute text = false := by
  simp only [isAbsolute, Path.anchorOf, ← Bool.not_eq_true, String.startsWith_string_iff]
  cases text.toList with
  | nil => simp
  | cons c rest =>
      by_cases slash : c = '/'
      · simp [slash]
        split <;> simp_all
      · simp [slash, Ne.symm slash]

theorem start_parse (fs : FileSystem) (text : String) :
    fs.start (Path.parse text) = fs.startOf text := by
  cases absolute : isAbsolute text with
  | false => simp [start, startOf, Path.parse, absolute, (anchorOf_eq_here_iff text).mpr absolute]
  | true =>
      have rooted : Path.anchorOf text.toList ≠ .here := by
        intro relative
        rw [anchorOf_eq_here_iff, absolute] at relative
        cases relative
      simp [start, startOf, Path.parse, absolute, rooted]

theorem filter_targetNames (text : String) :
    (targetNames text).filter (· != ".") = (Path.parse text).names := by
  have last : (if text.endsWith "/" then ["."] else []).filter (· != ".") = [] := by
    split <;> rfl
  simp only [targetNames, List.filter_append, last, List.append_nil, Path.parse, List.filter_map,
    List.filter_filter]
  congr 1
  apply List.filter_congr
  intro piece _
  have dot : (String.ofList piece != ".") = (piece != ['.']) := by
    rw [Bool.eq_iff_iff, bne_iff_ne, bne_iff_ne, ne_eq, ← String.toList_inj]
    simp
  simp only [Function.comp, dot, Path.isName, Bool.and_comm]

variable {fs : FileSystem} {text : String} {here q : Place}

/-- A text leads nowhere else once it has become a path. -/
theorem Leads.parse (h : fs.Leads text here) :
    fs.followLinks true linkLimit (fs.start (Path.parse text)) (Path.parse text).names =
      .ok (.node here) := by
  rw [start_parse, ← filter_targetNames]
  exact fs.followLinks_ignoresDots linkLimit (fs.startOf text) [] (targetNames text) here h.2

theorem Leads.find_eq (h : fs.Leads text here) (found : fs.find true (Path.parse text) = .ok q) :
    q = here := by
  have same := followLinks_of_locate (locate_of_find found)
  rw [h.parse] at same
  cases same
  rfl

end FileSystem

namespace Path

theorem cut_ne_nil (cs : List Char) : cut cs ≠ [] := by
  cases cs with
  | nil => simp [cut]
  | cons c rest =>
      simp only [cut]
      split
      · simp
      · split <;> simp

theorem cut_slash (xs ys : List Char) : cut (xs ++ '/' :: ys) = cut xs ++ cut ys := by
  induction xs with
  | nil => rfl
  | cons c xs ih =>
      by_cases slash : c = '/'
      · simp [cut, slash, ih]
      · cases pieces : cut xs with
        | nil => exact absurd pieces (cut_ne_nil xs)
        | cons piece rest => simp [cut, slash, ih, pieces]

theorem cut_of_free {cs : List Char} (free : '/' ∉ cs) : cut cs = [cs] := by
  induction cs with
  | nil => rfl
  | cons c cs ih =>
      simp only [List.mem_cons, not_or] at free
      simp [cut, Ne.symm free.1, ih free.2]

/-- A name that an entry of a directory can have and that a path keeps. -/
def IsProper (name : String) : Prop :=
    isName name.toList = true ∧ '/' ∉ name.toList

instance (name : String) : Decidable (IsProper name) :=
    inferInstanceAs (Decidable (_ ∧ _))

theorem parse_names_of_proper {name : String} (h : IsProper name) :
    (parse name).names = [name] := by
  simp [parse, cut_of_free h.2, h.1]

theorem parse_names_join (text text' : String) :
    (parse (text ++ "/" ++ text')).names = (parse text).names ++ (parse text').names := by
  simp [parse, cut_slash]

theorem parse_names_intercalate {names : List String} (h : ∀ n ∈ names, IsProper n) :
    (parse ("/".intercalate names)).names = names := by
  induction names with
  | nil => rfl
  | cons name rest ih =>
      have first := parse_names_of_proper (h name (List.mem_cons_self ..))
      cases rest with
      | nil => simpa using first
      | cons name' rest =>
          have others := ih fun n hn => h n (List.mem_cons_of_mem name hn)
          rw [String.intercalate_cons_cons, parse_names_join, first, others, List.singleton_append]

theorem parse_names_anchor (a : Anchor) (text : String) :
    (parse (Anchor.text a ++ text)).names = (parse text).names := by
  have slash : isName [] = false := rfl
  cases a <;> simp [Anchor.text, parse, cut, slash]

theorem anchorOf_append {a : Anchor} {c : Char} (h : c ≠ '/') (rest : List Char) :
    anchorOf ((Anchor.text a).toList ++ c :: rest) = a := by
  cases a <;> simp [Anchor.text, anchorOf, h]

theorem IsProper.leading {name : String} (h : IsProper name) :
    ∃ c cs, name.toList = c :: cs ∧ c ≠ '/' := by
  cases chars : name.toList with
  | nil => simp [IsProper, isName, chars] at h
  | cons c cs =>
      refine ⟨c, cs, rfl, ?_⟩
      rintro rfl
      exact h.2 (by simp [chars])

theorem text_of_names {p : Path} (named : p.names ≠ []) :
    p.text = Anchor.text p.anchor ++ "/".intercalate p.names := by
  simp [text, named]

/-- Behind the slashes of its anchor a text goes on with something else. -/
theorem text_leading {p : Path} (proper : ∀ n ∈ p.names, IsProper n)
    (h : p.anchor = .here ∨ p.names ≠ []) :
    ∃ c cs, p.text.toList = (Anchor.text p.anchor).toList ++ c :: cs ∧ c ≠ '/' := by
  obtain ⟨anchor, names⟩ := p
  cases names with
  | nil =>
      obtain rfl : anchor = .here := by simpa using h
      exact ⟨'.', [], rfl, by decide⟩
  | cons name rest =>
      obtain ⟨c, cs, eq, free⟩ := (proper name (List.mem_cons_self ..)).leading
      rw [text_of_names (List.cons_ne_nil name rest), String.toList_append]
      cases rest with
      | nil => exact ⟨c, cs, by simp [eq], free⟩
      | cons name' rest =>
          rw [String.intercalate_cons_cons, String.append_assoc, String.toList_append, eq]
          exact ⟨c, _, rfl, free⟩

theorem parse_eq {p : Path} {text : String} {c : Char} {cs : List Char}
    (chars : text.toList = (Anchor.text p.anchor).toList ++ c :: cs) (free : c ≠ '/')
    (names : (parse text).names = p.names) : parse text = p := by
  have anchor : (parse text).anchor = p.anchor := by
    simp only [parse, chars, anchorOf_append free]
  exact congr (congrArg Path.mk anchor) names

/-- The text of a path is read back as the path. -/
theorem parse_text {p : Path} (proper : ∀ n ∈ p.names, IsProper n) : parse p.text = p := by
  by_cases named : p.names = []
  · obtain ⟨anchor, names⟩ := p
    obtain rfl : names = [] := named
    cases anchor <;> rfl
  · obtain ⟨c, cs, chars, free⟩ := text_leading proper (Or.inr named)
    apply parse_eq chars free
    rw [text_of_names named, parse_names_anchor, parse_names_intercalate proper]

/-- The text that a listing gives an entry is read back as the path of the entry. -/
theorem parse_entryText {p : Path} {name : String} (proper : ∀ n ∈ p.names, IsProper n)
    (h : IsProper name) : parse (p.entryText name) = p.child name := by
  have joined (inside : p.anchor = .here ∨ p.names ≠ []) :
      parse (p.text ++ "/" ++ name) = p.child name := by
    obtain ⟨c, cs, chars, free⟩ := text_leading proper inside
    have leading : (p.text ++ "/" ++ name).toList =
        (Anchor.text (p.child name).anchor).toList ++ c :: (cs ++ '/' :: name.toList) := by
      simp [chars, child]
    apply parse_eq leading free
    rw [parse_names_join, parse_text proper, parse_names_of_proper h, child]
  have rooted (bare : p.names = []) : parse (Anchor.text p.anchor ++ name) = p.child name := by
    obtain ⟨c, cs, chars, free⟩ := h.leading
    have leading : (Anchor.text p.anchor ++ name).toList =
        (Anchor.text (p.child name).anchor).toList ++ c :: cs := by
      simp [chars, child]
    apply parse_eq leading free
    rw [parse_names_anchor, parse_names_of_proper h, child, bare, List.nil_append]
  -- only for a root that is nothing but slashes none is added
  obtain ⟨anchor, names⟩ := p
  cases names with
  | nil =>
      cases anchor with
      | here => exact joined (Or.inl rfl)
      | root | doubleRoot => exact rooted rfl
  | cons first rest =>
      have inside := joined (Or.inr (List.cons_ne_nil first rest))
      cases anchor <;> exact inside

end Path
end FileCensus
