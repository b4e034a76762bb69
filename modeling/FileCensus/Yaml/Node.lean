import FileCensus.Yaml.Schema
import FileCensus.Yaml.Token

/-!
The nodes of a document, built from its tokens by descent. Every node has a number, and an alias has the number of the node
whose anchor it names; inside that very node it leads back to it. A document may set tag handles and is the only one of its
stream.
-/

namespace FileCensus.Yaml

/-- What a node holds; the nodes inside it are given by their numbers. -/
inductive Content where
  | scalar (text : ScalarText)
  | sequence (items : List Nat)
  | mapping (fields : List (Nat × Nat))
  deriving DecidableEq, Repr

structure Node where
  tag : Tag
  content : Content
  deriving DecidableEq, Repr

namespace Node

/-- A text that is not there. -/
def absent : Node :=
    ⟨.null, .scalar (.ofChars [])⟩

def isMapping (n : Node) : Bool :=
    match n.content with
    | .mapping _ => true
    | _ => false

def fields (n : Node) : List (Nat × Nat) :=
    match n.content with
    | .mapping fields => fields
    | _ => []

end Node

/-- Nodes in the order of their numbers. -/
abbrev Nodes := List Node

namespace Nodes

def node (ns : Nodes) (n : Nat) : Node :=
    ns[n]?.getD .absent

def setContent (ns : Nodes) (n : Nat) (c : Content) : Nodes :=
    ns.modify n fun node => { node with content := c }

end Nodes

structure Document where
  nodes : Nodes
  root : Nat
  deriving DecidableEq, Repr

structure Parsing where
  tokens : List Token
  anchors : List (String × Nat)
  handles : List (String × String)
  nodes : Nodes

/-- A computation on the tokens that are left. -/
abbrev Parse := StateT Parsing (Except LoadError)

def malformed {α : Type} : Parse α :=
    throw .malformed

/-- The next token, `none` at the end. -/
def nextToken : Parse (Option Token) := do
    match (← get).tokens with
    | .broken e :: _ => throw e
    | t :: _ => return some t
    | [] => return none

def dropToken : Parse Unit :=
    modify fun s => { s with tokens := s.tokens.drop 1 }

/-- Takes the next token if it is `t`. -/
def accept (t : Token) : Parse Bool := do
    if (← nextToken) == some t then
      dropToken
      return true
    return false

def demand (t : Token) : Parse Unit := do
    if !(← accept t) then malformed

def isNext (ts : List Token) : Parse Bool := do
    match ← nextToken with
    | some t => return ts.contains t
    | none => return false

/-- Adds a node and gives its number. -/
def addNode (n : Node) : Parse Nat := do
    let s ← get
    set { s with nodes := s.nodes ++ [n] }
    return s.nodes.length

def absentNode : Parse Nat :=
    addNode .absent

def setAnchor (name : Option String) (n : Nat) : Parse Unit :=
    match name with
    | some name => modify fun s => { s with anchors := (name, n) :: s.anchors }
    | none => pure ()

/-- An anchor can be set only once. -/
def demandFresh (anchor : Option String) : Parse Unit := do
    if let some name := anchor then
      if ((← get).anchors.lookup name).isSome then malformed

/-- Which collections may begin at a place: those in brackets only, those by indentation too, or also a sequence whose
items are not indented below its key. -/
inductive Shape where
  | flow
  | block
  | blockOrItems
  deriving DecidableEq, Repr

structure Properties where
  anchor : Option String
  tag : Option WrittenTag

def takeAnchor : Parse (Option String) := do
    match ← nextToken with
    | some (.anchor name) =>
        dropToken
        return some name
    | _ => return none

def takeTag : Parse (Option WrittenTag) := do
    match ← nextToken with
    | some (.tag t) =>
        dropToken
        return some t
    | _ => return none

/-- An anchor and a tag, in either order. -/
def properties : Parse Properties := do
    let anchor ← takeAnchor
    let tag ← takeTag
    if anchor.isNone && tag.isSome then return ⟨← takeAnchor, tag⟩
    return ⟨anchor, tag⟩

/-- The full text of a tag. -/
def tagText (t : WrittenTag) : Parse String := do
    match t.handle with
    | none => return t.suffix
    | some handle =>
        match (← get).handles.lookup handle with
        | some head => return head ++ t.suffix
        | none => malformed

/-- The type of a text, by its tag or else by its form if it is plain. -/
def scalarTag (tag : Option String) (plain : Bool) (text : ScalarText) : Tag :=
    match tag with
    | none => if plain then Schema.typeOf text.chars else .str
    | some t => if t = openTag then Schema.typeOf text.chars else .ofText t

def collectionTag (tag : Option String) (usual : Tag) : Tag :=
    match tag with
    | none => usual
    | some t => if t = openTag then usual else .ofText t

def aliased (name : String) : Parse Nat := do
    match (← get).anchors.lookup name with
    | some n => return n
    | none => malformed

def scalarNode (anchor tag : Option String) (plain : Bool) (text : ScalarText) : Parse Nat := do
    let n ← addNode ⟨scalarTag tag plain text, .scalar text⟩
    setAnchor anchor n
    return n

/-- Builds a collection, whose anchor can be named in its own contents already. -/
def collectionNode {α : Type} (anchor : Option String) (tag : Tag) (make : List α → Content) (contents : Parse (List α)) :
    Parse Nat := do
    let n ← addNode ⟨tag, make []⟩
    setAnchor anchor n
    let all ← contents
    modify fun s => { s with nodes := s.nodes.setContent n (make all) }
    return n

/-- A node without content, which must have an anchor or a tag at least. -/
def emptyNode (anchor tag : Option String) : Parse Nat := do
    if anchor.isNone && tag.isNone then malformed
    scalarNode anchor tag true (.ofChars [])

mutual

def node (shape : Shape) : (fuel : Nat) → Parse Nat
  | 0 => malformed
  | fuel + 1 => do
      if let some (.alias name) ← nextToken then
        dropToken
        return ← aliased name
      let ⟨anchor, written⟩ ← properties
      let tag ← written.mapM tagText
      let next ← nextToken
      demandFresh anchor
      let sequence := collectionNode anchor (collectionTag tag .seq) .sequence
      let mapping := collectionNode anchor (collectionTag tag .map) .mapping
      match next with
      | some (.scalar plain text) =>
          dropToken
          scalarNode anchor tag plain text
      | some .flowSequence =>
          dropToken
          sequence (flowItems fuel true)
      | some .flowMapping =>
          dropToken
          mapping (flowFields fuel true)
      | some t =>
          if t == .item && shape = .blockOrItems then sequence (bareItems fuel)
          else if t == .blockSequence && shape ≠ .flow then
            dropToken
            sequence (blockItems fuel)
          else if t == .blockMapping && shape ≠ .flow then
            dropToken
            mapping (blockFields fuel)
          else emptyNode anchor tag
      | none => emptyNode anchor tag

/-- The items of a block sequence up to its end. -/
def blockItems : (fuel : Nat) → Parse (List Nat)
  | 0 => malformed
  | fuel + 1 => do
      if ← accept .item then
        let n ← if ← isNext [.item, .blockEnd] then absentNode else node .block fuel
        return n :: (← blockItems fuel)
      demand .blockEnd
      return []

def bareItems : (fuel : Nat) → Parse (List Nat)
  | 0 => malformed
  | fuel + 1 => do
      if ← accept .item then
        let n ← if ← isNext [.item, .key, .value, .blockEnd] then absentNode else node .block fuel
        return n :: (← bareItems fuel)
      return []

def blockFields : (fuel : Nat) → Parse (List (Nat × Nat))
  | 0 => malformed
  | fuel + 1 => do
      if ← accept .key then
        let k ← blockPart fuel
        let v ← if ← accept .value then blockPart fuel else absentNode
        return (k, v) :: (← blockFields fuel)
      demand .blockEnd
      return []

/-- A key or a value of a block mapping. -/
def blockPart : (fuel : Nat) → Parse Nat
  | 0 => malformed
  | fuel + 1 => do
      if ← isNext [.key, .value, .blockEnd] then absentNode else node .blockOrItems fuel

/-- The items of a sequence in brackets, of which a pair is a mapping of its own. -/
def flowItems : (fuel : Nat) → (first : Bool) → Parse (List Nat)
  | 0, _ => malformed
  | fuel + 1, first => do
      if ← accept .flowSequenceEnd then return []
      if !first then demand .separator
      if ← accept .key then
        let field ← flowField fuel .flowSequenceEnd
        let n ← addNode ⟨.map, .mapping [field]⟩
        return n :: (← flowItems fuel false)
      if ← accept .flowSequenceEnd then return []
      let n ← node .flow fuel
      return n :: (← flowItems fuel false)

/-- A key in brackets, after its mark, and its value. -/
def flowField : (fuel : Nat) → (close : Token) → Parse (Nat × Nat)
  | 0, _ => malformed
  | fuel + 1, close => do
      let k ← if ← isNext [.value, .separator, close] then absentNode else node .flow fuel
      if ← accept .value then
        let v ← if ← isNext [.separator, close] then absentNode else node .flow fuel
        return (k, v)
      return (k, ← absentNode)

def flowFields : (fuel : Nat) → (first : Bool) → Parse (List (Nat × Nat))
  | 0, _ => malformed
  | fuel + 1, first => do
      if ← accept .flowMappingEnd then return []
      if !first then demand .separator
      if ← accept .key then
        let field ← flowField fuel .flowMappingEnd
        return field :: (← flowFields fuel false)
      if ← accept .flowMappingEnd then return []
      let k ← node .flow fuel
      let v ← absentNode
      return (k, v) :: (← flowFields fuel false)

end

def usualHandles : List (String × String) :=
    [("!", "!"), ("!!", Tag.standardHead)]

structure Preamble where
  versioned : Bool
  handles : List (String × String)

/-- The directives before a document: at most one version, which must be 1, and one meaning for each handle. -/
def preamble : (fuel : Nat) → Preamble → Parse Preamble
  | 0, _ => malformed
  | fuel + 1, p => do
      match ← nextToken with
      | some (.directive d) =>
          dropToken
          match d with
          | .version major =>
              if p.versioned || major != 1 then malformed
              preamble fuel { p with versioned := true }
          | .handle name value =>
              if (p.handles.lookup name).isSome then malformed
              preamble fuel { p with handles := p.handles ++ [(name, value)] }
          | .other => preamble fuel p
      | _ => return p

def skipEnds : (fuel : Nat) → Parse Unit
  | 0 => malformed
  | fuel + 1 => do
      if ← accept .documentEnd then skipEnds fuel

def isDirective : Option Token → Bool
  | some (.directive _) => true
  | _ => false

/-- Nothing may follow; the directives of a further document are looked at before it is refused. -/
def demandEnd (fuel : Nat) : Parse Unit := do
    if (← nextToken).isSome then
      let _ ← preamble fuel ⟨false, []⟩
      demand .documentStart
      malformed

/-- The number of the root of the only document; `none` where there is no document at all. -/
def stream (fuel : Nat) : Parse (Option Nat) := do
    let first ← nextToken
    if first.isNone then return none
    if isDirective first || first == some .documentStart then
      let p ← preamble fuel ⟨false, []⟩
      demand .documentStart
      modify fun s => { s with handles := p.handles ++ usualHandles }
      let next ← nextToken
      let empty := next.isNone || isDirective next || next == some .documentStart || next == some .documentEnd
      let n ← if empty then absentNode else node .block fuel
      skipEnds fuel
      demandEnd fuel
      return some n
    modify fun s => { s with handles := usualHandles }
    let n ← node .block fuel
    skipEnds fuel
    demandEnd fuel
    return some n

def Document.ofTokens? (ts : List Token) : Except LoadError (Option Document) :=
    (fun (root, s) => root.map (⟨s.nodes, ·⟩)) <$> (stream (4 * ts.length + 4)).run ⟨ts, [], [], []⟩

end FileCensus.Yaml
