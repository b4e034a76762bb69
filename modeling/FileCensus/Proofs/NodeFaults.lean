import FileCensus.Proofs.ScanFaults
import FileCensus.Yaml.Node

/-!
What can go wrong while the node of a document is built from its tokens. The tokens that are left
are always the last ones of the document, and the only error that is not one of the notation is
that of a broken token.
-/

namespace FileCensus.Yaml

open Std.Do

set_option mvcgen.warning false

variable {ts : List Token} {α : Type}

/-- A fault that is reported of the tokens is that of a broken one among them. -/
def ToldIn (ts : List Token) : LoadError → Prop
  | .malformed => True
  | .scalar fault => .broken (.scalar fault) ∈ ts

def Left (ts : List Token) (s : Parsing) : Prop :=
  s.tokens <:+ ts

abbrev Reads (ts : List Token) (parse : Parse α) : Prop :=
  Keeps (Left ts) (ToldIn ts) parse

@[spec] theorem malformed_spec {Q : PostCond α (.arg Parsing (.except LoadError .pure))} :
    Triple (malformed : Parse α) (fun _ => Q.2.1 .malformed) Q :=
  throw_spec

@[spec] theorem nextToken_reads : Reads ts nextToken := by
  mvcgen [nextToken]
  case vc1.h_1 s left e rest here =>
    have among : .broken e ∈ ts := left.subset (by simp [here])
    cases e with
    | malformed => trivial
    | scalar fault => exact among

@[spec] theorem dropToken_reads : Reads ts dropToken := by
  mvcgen [dropToken]
  exact (List.drop_suffix 1 _).trans ‹_›

@[spec] theorem accept_reads (t : Token) : Reads ts (accept t) := by
  mvcgen [accept]

@[spec] theorem demand_reads (t : Token) : Reads ts (demand t) := by
  mvcgen [demand]

@[spec] theorem isNext_reads (those : List Token) : Reads ts (isNext those) := by
  mvcgen [isNext]

@[spec] theorem addNode_reads (n : Node) : Reads ts (addNode n) := by
  mvcgen [addNode]

@[spec] theorem absentNode_reads : Reads ts absentNode :=
  addNode_reads .absent

@[spec] theorem setAnchor_reads (name : Option String) (n : Nat) :
    Reads ts (setAnchor name n) := by
  mvcgen [setAnchor]

@[spec] theorem demandFresh_reads (anchor : Option String) : Reads ts (demandFresh anchor) := by
  mvcgen [demandFresh]

@[spec] theorem takeAnchor_reads : Reads ts takeAnchor := by
  mvcgen [takeAnchor]

@[spec] theorem takeTag_reads : Reads ts takeTag := by
  mvcgen [takeTag]

@[spec] theorem properties_reads : Reads ts properties := by
  mvcgen [properties]

theorem tagText_reads (t : WrittenTag) : Reads ts (tagText t) := by
  mvcgen [tagText]

@[spec] theorem tagTexts_reads (written : Option WrittenTag) :
    Reads ts (written.mapM tagText) := by
  cases written with
  | none => exact .pure
  | some t => exact .bind (tagText_reads t) fun _ => .pure

@[spec] theorem aliased_reads (name : String) : Reads ts (aliased name) := by
  mvcgen [aliased]

@[spec] theorem scalarNode_reads (anchor tag : Option String) (plain : Bool) (text : ScalarText) :
    Reads ts (scalarNode anchor tag plain text) := by
  mvcgen [scalarNode]

@[spec] theorem emptyNode_reads (anchor tag : Option String) :
    Reads ts (emptyNode anchor tag) := by
  mvcgen [emptyNode]

theorem collectionNode_reads {make : List α → Content} {contents : Parse (List α)}
    (h : Reads ts contents) (anchor : Option String) (tag : Tag) :
    Reads ts (collectionNode anchor tag make contents) := by
  mvcgen [collectionNode, h]

/-- The readers that call one another, each with the same fuel. -/
structure Descends (ts : List Token) (fuel : Nat) : Prop where
  node (shape : Shape) : Reads ts (node shape fuel)
  blockItems : Reads ts (blockItems fuel)
  bareItems : Reads ts (bareItems fuel)
  blockFields : Reads ts (blockFields fuel)
  blockPart : Reads ts (blockPart fuel)
  flowItems (first : Bool) : Reads ts (flowItems fuel first)
  flowField (close : Token) : Reads ts (flowField fuel close)
  flowFields (first : Bool) : Reads ts (flowFields fuel first)

theorem descends_zero : Descends ts 0 where
  node _ := .throw trivial
  blockItems := .throw trivial
  bareItems := .throw trivial
  blockFields := .throw trivial
  blockPart := .throw trivial
  flowItems _ := .throw trivial
  flowField _ := .throw trivial
  flowFields _ := .throw trivial

theorem node_reads {fuel : Nat} (h : Descends ts fuel) (shape : Shape) :
    Reads ts (node shape (fuel + 1)) := by
  have items {make} (anchor : Option String) (tag : Tag) :
      Reads ts (collectionNode anchor tag make (blockItems fuel)) :=
    collectionNode_reads h.blockItems anchor tag
  have bare {make} (anchor : Option String) (tag : Tag) :
      Reads ts (collectionNode anchor tag make (bareItems fuel)) :=
    collectionNode_reads h.bareItems anchor tag
  have fields {make} (anchor : Option String) (tag : Tag) :
      Reads ts (collectionNode anchor tag make (blockFields fuel)) :=
    collectionNode_reads h.blockFields anchor tag
  have inBrackets {make} (anchor : Option String) (tag : Tag) :
      Reads ts (collectionNode anchor tag make (flowItems fuel true)) :=
    collectionNode_reads (h.flowItems true) anchor tag
  have inBraces {make} (anchor : Option String) (tag : Tag) :
      Reads ts (collectionNode anchor tag make (flowFields fuel true)) :=
    collectionNode_reads (h.flowFields true) anchor tag
  mvcgen [node, items, bare, fields, inBrackets, inBraces]

theorem descends_succ {fuel : Nat} (h : Descends ts fuel) : Descends ts (fuel + 1) := by
  have ⟨toNode, toItems, toBareItems, toFields, toPart, toFlowItems, toField, toFlowFields⟩ := h
  constructor
  case node => exact node_reads h
  case blockItems => mvcgen [blockItems, toNode, toItems]
  case bareItems => mvcgen [bareItems, toNode, toBareItems]
  case blockFields => mvcgen [blockFields, toPart, toFields]
  case blockPart => mvcgen [blockPart, toNode]
  case flowItems =>
    intro first
    mvcgen [flowItems, toNode, toField, toFlowItems]
  case flowField =>
    intro close
    mvcgen [flowField, toNode]
  case flowFields =>
    intro first
    mvcgen [flowFields, toNode, toField, toFlowFields]

theorem descends (ts : List Token) (fuel : Nat) : Descends ts fuel := by
  induction fuel with
  | zero => exact descends_zero
  | succ fuel ih => exact descends_succ ih

@[spec] theorem preamble_reads (fuel : Nat) (p : Preamble) : Reads ts (preamble fuel p) := by
  induction fuel generalizing p with
  | zero => exact .throw trivial
  | succ fuel ih => mvcgen [preamble, ih]

@[spec] theorem skipEnds_reads (fuel : Nat) : Reads ts (skipEnds fuel) := by
  induction fuel with
  | zero => exact .throw trivial
  | succ fuel ih => mvcgen [skipEnds, ih]

@[spec] theorem demandEnd_reads (fuel : Nat) : Reads ts (demandEnd fuel) := by
  mvcgen [demandEnd]

theorem stream_reads (fuel : Nat) : Reads ts (stream fuel) := by
  have node : Reads ts (Yaml.node .block fuel) := (descends ts fuel).node .block
  mvcgen [stream, node]

/-- What is reported of a document that has no node is an error of the notation or that of a token
that is broken. -/
theorem ofTokens?_toldIn {e : LoadError} (h : Document.ofTokens? ts = .error e) :
    ToldIn ts e := by
  have ends := (stream_reads (4 * ts.length + 4)).run (s := ⟨ts, [], [], []⟩) (List.suffix_refl ts)
  unfold Document.ofTokens? at h
  cases hr : (stream (4 * ts.length + 4)).run ⟨ts, [], [], []⟩ with
  | ok r =>
      rw [hr] at h
      cases h
  | error e' =>
      rw [hr] at h ends
      cases h
      exact ends

end FileCensus.Yaml
