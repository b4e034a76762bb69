import FileCensus.Proofs.ScanFaults
import FileCensus.Yaml.Token

/-!
What can go wrong while a document is cut into tokens. The tokens found so far are proper ones;
only the last token of all can be a broken one, and its error has its reason in the text. That
indentation, key places and flow collections change the order of the tokens plays no part.
-/

namespace FileCensus.Yaml

open Std.Do

set_option mvcgen.warning false

variable {cs : List Char} {α : Type}

def Token.isBroken : Token → Bool
  | .broken _ => true
  | _ => false

/-- The text has been read up to here, and only proper tokens have been found. -/
def Cut (cs : List Char) (s : Lexing) : Prop :=
  At cs s.cursor ∧ ∀ t ∈ s.found, t.isBroken = false

abbrev Cuts (cs : List Char) (lex : Lex α) : Prop :=
  Keeps (Cut cs) (FaultIn cs) lex

/-- As `Cuts`, if the token that is handed over is a proper one. -/
abbrev Adds (cs : List Char) (t : Token) (lex : Lex α) : Prop :=
  Triple lex (fun s => ⌜Cut cs s ∧ t.isBroken = false⌝)
    (post⟨fun _ s => ⌜Cut cs s⌝, fun e => ⌜FaultIn cs e⌝⟩)

theorem Adds.of {t : Token} {lex : Lex α} (h : t.isBroken = false → Cuts cs lex) : Adds cs t lex :=
  fun s hs => h hs.2 s hs.1

theorem Adds.cuts {t : Token} {lex : Lex α} (h : Adds cs t lex) (proper : t.isBroken = false) :
    Cuts cs lex :=
  fun s hs => h s ⟨hs, proper⟩

namespace Cut

variable {s : Lexing} {t : Token}

theorem push (h : Cut cs s) (proper : t.isBroken = false) : Cut cs (s.push t) :=
  ⟨h.1, List.forall_mem_cons.2 ⟨proper, h.2⟩⟩

theorem insert (h : Cut cs s) (place : Nat) (proper : t.isBroken = false) :
    Cut cs (s.insert place t) := by
  refine ⟨h.1, fun u hu => ?_⟩
  rcases List.mem_append.1 hu with after | hu
  · exact h.2 u (List.mem_of_mem_take after)
  · rcases List.mem_cons.1 hu with rfl | before
    · exact proper
    · exact h.2 u (List.mem_of_mem_drop before)

theorem unwind (h : Cut cs s) (column : Option Nat) : Cut cs (s.unwind column) := by
  unfold Lexing.unwind
  split
  · exact h
  · refine ⟨h.1, fun t ht => ?_⟩
    rcases List.mem_append.1 ht with ended | before
    · rw [List.eq_of_mem_replicate ended]
      rfl
    · exact h.2 t before

theorem indent (h : Cut cs s) {column : Nat} {s' : Lexing} (hs : s.indent? column = some s') :
    Cut cs s' := by
  unfold Lexing.indent? at hs
  split at hs
  · split_ifs at hs
    cases hs
    exact h
  · cases hs
    exact h

end Cut

theorem scanning_cuts {scan : Scan α} (h : Within cs scan) : Cuts cs (scanning scan) := by
  mvcgen [scanning]
  case vc1 s cut =>
    have ends : Yields (fun r => At cs r.2) (FaultIn cs) (scan s.cursor) := h.run cut.1
    generalize scan s.cursor = r at ends ⊢
    cases r with
    | ok r => exact ⟨ends, cut.2⟩
    | error e => exact ends

theorem scanning_map {β : Type} (f : α → β) (scan : Scan α) :
    scanning (f <$> scan) = f <$> scanning scan := by
  funext s
  simp only [scanning, StateT.run_map, map_bind]
  show Except.bind (StateT.lift ((fun r => (f r.1, r.2)) <$> scan.run s.cursor) s) _ =
    Except.bind (StateT.lift (scan.run s.cursor) s) _
  cases scan.run s.cursor <;> rfl

@[spec] theorem dropPlaces_cuts (p : KeyPlace → Bool) : Cuts cs (dropPlaces p) := by
  mvcgen [dropPlaces]

@[spec] theorem dropPlace_cuts : Cuts cs dropPlace := by
  mvcgen [dropPlace]

@[spec] theorem savePlace_cuts : Cuts cs savePlace := by
  mvcgen [savePlace]

@[spec] theorem allowKey_cuts (b : Bool) : Cuts cs (allowKey b) := by
  mvcgen [allowKey]

@[spec] theorem requireKeyAllowed_cuts : Cuts cs requireKeyAllowed := by
  mvcgen [requireKeyAllowed]

@[spec] theorem closeBlocks_cuts : Cuts cs closeBlocks := by
  mvcgen [closeBlocks]
  exact Cut.unwind ‹_› none

@[spec] theorem push_adds (t : Token) : Adds cs t (push t) :=
  .of fun proper => by
    mvcgen [push]
    exact Cut.push ‹_› proper

@[spec] theorem mark_adds (n : Nat) (t : Token) : Adds cs t (mark n t) :=
  .of fun proper => by
    have skipped : Cuts cs (scanning (skip n)) := scanning_cuts (skip_within n)
    mvcgen [mark, skipped]

@[spec] theorem openBlock_adds (t : Token) : Adds cs t (openBlock t) :=
  .of fun proper => by
    mvcgen [openBlock]
    exact Cut.push (Cut.indent ‹Cut cs _› ‹_›) proper

@[spec] theorem openFlow_adds (t : Token) : Adds cs t (openFlow t) :=
  .of fun proper => by mvcgen [openFlow]

@[spec] theorem closeFlow_adds (t : Token) : Adds cs t (closeFlow t) :=
  .of fun proper => by mvcgen [closeFlow]

theorem word_cuts {scan : Scan α} {f : α → Token} (h : Within cs scan)
    (proper : ∀ a, (f a).isBroken = false) : Cuts cs (word (f <$> scan)) := by
  have scanned : Cuts cs (scanning scan) := scanning_cuts h
  rw [word, scanning_map]
  mvcgen [scanned]
  exact ⟨‹_›, proper _⟩

theorem separator_cuts : Cuts cs separator := by
  mvcgen [separator]

theorem sequenceItem_cuts : Cuts cs sequenceItem := by
  mvcgen [sequenceItem]

theorem statedKey_cuts : Cuts cs statedKey := by
  mvcgen [statedKey]

theorem mappingValue_cuts : Cuts cs mappingValue := by
  mvcgen [mappingValue]
  case vc1.h_1 p _ _ keyed placed =>
    -- The key's mark goes in first, and the mark of its mapping before it.
    have key : Cut cs keyed := Cut.insert ‹Cut cs _› p.token rfl
    have both : Cut cs placed := by
      dsimp only [placed]
      split_ifs
      · exact key
      · split
        · exact (key.indent ‹_›).insert p.token rfl
        · exact key
    exact ⟨both, rfl⟩

theorem plainScalar_cuts : Cuts cs plainScalar := by
  have scanned (flow : Bool) (least : Nat) : Cuts cs (scanning (plainText flow least)) :=
    scanning_cuts (plainText_within flow least)
  mvcgen [plainScalar, scanned]

theorem blockScalar_cuts (folded : Bool) : Cuts cs (blockScalar folded) := by
  have scanned (least : Nat) : Cuts cs (scanning (blockText folded least)) :=
    scanning_cuts (blockText_within folded least)
  mvcgen [blockScalar, scanned]

theorem skipToToken_cuts (fuel : Nat) : Cuts cs (skipToToken fuel) := by
  have spaces : Cuts cs (scanning skipSpaces) := scanning_cuts skipSpaces_within
  have comment : Cuts cs (scanning skipComment) := scanning_cuts skipComment_within
  have ended : Cuts cs (scanning takeBreak) := scanning_cuts takeBreak_within
  induction fuel with
  | zero => mvcgen [skipToToken]
  | succ fuel ih => mvcgen [skipToToken, spaces, comment, ended, ih]

theorem nextTokens_cuts : Cuts cs nextTokens := by
  have mark : Cuts cs (scanning (skip 1)) := scanning_cuts (skip_within 1)
  have directed : Cuts cs (scanning directive) := scanning_cuts directive_within
  have named : Cuts cs (word (.alias <$> anchorName)) := word_cuts anchorName_within fun _ => rfl
  have anchor : Cuts cs (word (.anchor <$> anchorName)) := word_cuts anchorName_within fun _ => rfl
  have tag : Cuts cs (word (.tag <$> writtenTag)) := word_cuts writtenTag_within fun _ => rfl
  have quoted (double : Bool) : Cuts cs (word (.scalar false <$> quotedText double)) :=
    word_cuts (quotedText_within double) fun _ => rfl
  unfold nextTokens
  extract_lets more
  have found (u : Unit) : Cuts cs (more u) := .pure
  refine .bind .get fun s => ?_
  extract_lets _ rest
  have looked (u : Unit) : Cuts cs (rest u) := by
    refine .bind (skipToToken_cuts _) fun _ => .bind .get fun _ => ?_
    refine .bind (dropPlaces_cuts _) fun _ => .bind (.modify fun _ h => h.unwind _) fun _ => ?_
    -- One branch for each way in which a token can begin, in the order in which they are tried.
    exact .bind .get fun _ =>
      .ite (closeBlocks_cuts.bind fun _ => .pure) <|
      .ite (closeBlocks_cuts.bind fun _ => directed.bind fun _ =>
        ((push_adds _).cuts rfl).bind found) <|
      .ite (closeBlocks_cuts.bind fun _ => ((mark_adds 3 _).cuts rfl).bind found) <|
      .ite (closeBlocks_cuts.bind fun _ => ((mark_adds 3 _).cuts rfl).bind found) <|
      .ite (((openFlow_adds _).cuts rfl).bind found) <|
      .ite (((openFlow_adds _).cuts rfl).bind found) <|
      .ite (((closeFlow_adds _).cuts rfl).bind found) <|
      .ite (((closeFlow_adds _).cuts rfl).bind found) <|
      .ite (separator_cuts.bind found) <|
      .ite (sequenceItem_cuts.bind found) <|
      .ite (statedKey_cuts.bind found) <|
      .ite (mappingValue_cuts.bind found) <|
      .ite (named.bind found) <|
      .ite (anchor.bind found) <|
      .ite (tag.bind found) <|
      .ite ((blockScalar_cuts false).bind found) <|
      .ite ((blockScalar_cuts true).bind found) <|
      .ite ((quoted false).bind found) <|
      .ite ((quoted true).bind found) <|
      .ite (plainScalar_cuts.bind found) (.bind (.throw trivial) found)
  exact .ite (mark.bind looked) (looked ())

theorem settled_subset (s : Lexing) : s.settled ⊆ s.found := by
  rw [Lexing.settled]
  split
  · exact List.drop_subset _ _
  · exact List.Subset.refl _

theorem tokensFrom_faultIn {fuel : Nat} {s : Lexing} (h : Cut cs s) {e : LoadError}
    (he : .broken e ∈ tokensFrom fuel s) : FaultIn cs e := by
  have never {s' : Lexing} (cut : Cut cs s') : .broken e ∉ s'.found :=
    fun member => Bool.false_ne_true (cut.2 _ member).symm
  induction fuel generalizing s with
  | zero => exact absurd (List.mem_reverse.1 he) (never h)
  | succ fuel ih =>
      have ends := nextTokens_cuts.run h
      unfold tokensFrom at he
      split at he
      · next s' hr =>
        rw [hr] at ends
        exact ih ends he
      · next s' hr =>
        rw [hr] at ends
        exact absurd (List.mem_reverse.1 he) (never ends)
      · next e' hr =>
        rw [hr] at ends
        rcases List.mem_cons.1 (List.mem_reverse.1 he) with same | before
        · cases same
          exact ends
        · exact absurd (settled_subset s before) (never h)

/-- The error of a document that cannot be cut into tokens has its reason in the text. -/
theorem tokens_faultIn {e : LoadError} (h : .broken e ∈ tokens cs) : FaultIn cs e := by
  have start : Cut cs (.start cs) := ⟨List.suffix_refl cs, by simp [Lexing.start]⟩
  exact tokensFrom_faultIn start h

end FileCensus.Yaml
