import FileCensus.Yaml.Node
import FileCensus.Yaml.Reading

/-!
From the nodes of a document to its value. A collection is made empty and filled later, in the order in which the collections
were met, so that it can hold itself. What is merged into a mapping is put before its own fields, which therefore win, and its
default field becomes an ordinary one; both change the nodes themselves, for everybody who comes to them later.
-/

namespace FileCensus.Yaml

/-- What has become of a node. -/
inductive Part where
  | atom (d : Datum)
  | list (items : List Nat)
  /-- A list of pairs. -/
  | pairs (fields : List (Nat × Nat))
  | set (items : List Nat)
  | mapping (fields : List (Nat × Nat))

/-- What a node of a type is until it is filled; `none` for types that are not those of collections. -/
def Tag.empty? : Tag → Option Part
  | .seq | .omap | .pairs => some (.list [])
  | .set => some (.set [])
  | .map => some (.mapping [])
  | _ => none

/-- Whether a type is that of a text. -/
def Tag.isText : Tag → Bool
  | .null | .bool | .int | .float | .str | .binary | .timestamp => true
  | _ => false

/-- The value of a node that has this text. A moment is looked for in the contents of the node itself, which are no text in a
mapping. -/
def Node.valueOf (n : Node) (text : ScalarText) : Except LoadError Datum :=
    if n.isMapping && n.tag = .timestamp then .error (.scalar .notText) else Reading.datum n.tag text

namespace Nodes

/-- Whether a field has a key of a type. -/
def hasKey (ns : Nodes) (t : Tag) (f : Nat × Nat) : Bool :=
    (ns.node f.1).tag = t

/-- The text of a node that has to be a scalar; a mapping has that of its default field. A walk of more steps than there are
nodes has no end. -/
def textOf (ns : Nodes) : (steps : Nat) → Nat → Except LoadError ScalarText
  | 0, _ => .error (.scalar .endless)
  | steps + 1, n =>
      match (ns.node n).content with
      | .scalar text => .ok text
      | .sequence _ => .error .malformed
      | .mapping fields =>
          match fields.find? (ns.hasKey .value) with
          | some f => ns.textOf steps f.2
          | none => .error .malformed

/-- The value of a node that is no collection. -/
def atom (ns : Nodes) (n : Nat) : Except LoadError Datum := do
    if !(ns.node n).tag.isText then .error .malformed
    (ns.node n).valueOf (← ns.textOf (ns.length + 1) n)

/-- Turns the default fields of a mapping into ordinary ones. -/
def settle (ns : Nodes) (n : Nat) : Nodes :=
    let keys := (ns.node n).fields.map (·.1)
    ns.mapIdx fun i node => if keys.contains i && node.tag = .value then { node with tag := .str } else node

/-- The mappings that a field with this value merges, `none` if the value does not name mappings. -/
def sources? (ns : Nodes) (n : Nat) : Option (List Nat) :=
    match (ns.node n).content with
    | .mapping _ => some [n]
    | .sequence items => if items.all fun i => (ns.node i).isMapping then some items else none
    | .scalar _ => none

end Nodes

structure Construction where
  nodes : Nodes
  /-- What has become of the nodes that were met, by their numbers. -/
  parts : List (Nat × Part)
  /-- The collections that are still to be filled, the first one first. -/
  pending : List Nat

/-- A computation on what has become of the nodes of a document. -/
abbrev Construct := StateT Construction (Except LoadError)

def refuse {α : Type} : Construct α :=
    throw .malformed

def changeNodes (f : Nodes → Nodes) : Construct Unit :=
    modify fun s => { s with nodes := f s.nodes }

def become (n : Nat) (part : Part) : Construct Unit :=
    modify fun s => { s with parts := (n, part) :: s.parts }

/-- Finds out what becomes of a node, unless that is known. -/
def meet (n : Nat) : Construct Unit := do
    let s ← get
    if (s.parts.lookup n).isNone then
      match (s.nodes.node n).tag.empty? with
      | some part =>
          become n part
          modify fun s => { s with pending := s.pending ++ [n] }
      | none => become n (.atom (← StateT.lift (s.nodes.atom n)))

/-- Lists, sets and mappings can change, so they cannot be keys. -/
def demandKey (n : Nat) : Construct Unit := do
    match (← get).parts.lookup n with
    | some (.atom _) => pure ()
    | _ => refuse

/-- Takes the first merging field out of a mapping, and gives its value. -/
def takeMerging (n : Nat) : Construct (Option Nat) := do
    let ns := (← get).nodes
    let fields := (ns.node n).fields
    match fields.find? (ns.hasKey .merge) with
    | some f =>
        changeNodes (·.setContent n (.mapping (fields.eraseP (ns.hasKey .merge))))
        return some f.2
    | none => return none

/-- Merges into a mapping what its merging fields name; each step takes one of these fields away. -/
def flatten : (steps : Nat) → Nat → Construct Unit
  | 0, _ => refuse
  | steps + 1, n => do
      match ← takeMerging n with
      | none => changeNodes (·.settle n)
      | some v =>
          match (← get).nodes.sources? v with
          | none => refuse
          | some sources =>
              sources.forM (flatten steps)
              let ns := (← get).nodes
              let merged := (sources.map fun i => (ns.node i).fields).reverse.flatten
              flatten steps n
              changeNodes fun ns => ns.setContent n (.mapping (merged ++ (ns.node n).fields))

/-- Meets the keys and values of a mapping, merged ones included. -/
def meetFields (n : Nat) : Construct (List (Nat × Nat)) := do
    flatten (((← get).nodes.flatMap Node.fields).length + 1) n
    let fields := ((← get).nodes.node n).fields
    fields.forM fun f => do
      meet f.1
      demandKey f.1
      meet f.2
    return fields

/-- Meets the key and the value of a mapping that has one field. -/
def meetPair (n : Nat) : Construct (Nat × Nat) := do
    match ((← get).nodes.node n).fields with
    | [f] =>
        meet f.1
        meet f.2
        return f
    | _ => refuse

/-- Finds out what a collection holds. -/
def fill (n : Nat) : Construct Unit := do
    let node := (← get).nodes.node n
    match node.tag, node.content with
    | .seq, .sequence items =>
        items.forM meet
        become n (.list items)
    | .map, .mapping _ => become n (.mapping (← meetFields n))
    | .set, .mapping _ => become n (.set ((← meetFields n).map (·.1)))
    | .omap, .sequence items | .pairs, .sequence items => become n (.pairs (← items.mapM meetPair))
    | _, _ => refuse

/-- Fills the collections as they come, each of which is put off once. -/
def fillAll : (collections : Nat) → Construct Unit
  | 0 => pure ()
  | collections + 1 => do
      match (← get).pending with
      | [] => pure ()
      | n :: rest =>
          modify fun s => { s with pending := rest }
          fill n
          fillAll collections

/-- The value of a node, as far down as `depth`. -/
def datumOf (parts : List (Nat × Part)) : (depth : Nat) → Nat → Datum
  | 0, n =>
      match parts.lookup n with
      | some (.atom d) => d
      | some (.list _) | some (.pairs _) => .list []
      | some (.set _) => .set []
      | some (.mapping _) => .mapping []
      | none => .null
  | depth + 1, n =>
      let inner := datumOf parts depth
      match parts.lookup n with
      | some (.atom d) => d
      | some (.list items) => .list (items.map inner)
      | some (.pairs fields) => .list (fields.map fun f => .list [inner f.1, inner f.2])
      | some (.set items) => .set (items.map inner)
      | some (.mapping fields) => .mapping (fields.map fun f => (inner f.1, inner f.2))
      | none => .null

/-- How far down options look into the value of a document: at its fields, and at the items of their lists. -/
def optionDepth : Nat := 2

def Document.datum (doc : Document) : Except LoadError Datum := do
    let built : Construct Unit := do
      meet doc.root
      fillAll doc.nodes.length
    let (_, s) ← built.run ⟨doc.nodes, [], []⟩
    .ok (datumOf s.parts optionDepth doc.root)

/-- The characters that a document may hold. -/
def isAllowed (c : Char) : Bool :=
    let n := c.toNat
    n == 0x09 || n == 0x0A || n == 0x0D || (0x20 ≤ n && n ≤ 0x7E) || n == 0x85 || (0xA0 ≤ n && n ≤ 0xD7FF) ||
      (0xE000 ≤ n && n ≤ 0xFFFD) || 0x10000 ≤ n

/-- Writes every line break of a text file as a line feed. -/
def unifyBreaks : List Char → List Char
  | '\r' :: '\n' :: rest => '\n' :: unifyBreaks rest
  | '\r' :: rest => '\n' :: unifyBreaks rest
  | c :: rest => c :: unifyBreaks rest
  | [] => []

/-- The value of a document, null if the text holds none. -/
def load (cs : List Char) : Except LoadError Datum := do
    let cs := unifyBreaks cs
    if !cs.all isAllowed then .error .malformed
    match ← Document.ofTokens? (tokens cs) with
    | none => .ok .null
    | some doc => doc.datum

end FileCensus.Yaml
