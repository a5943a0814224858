import LayerLoops.Options.Yaml.Tag
import LayerLoops.Options.Yaml.Token

/-! # The nodes of a YAML document

A document is a graph of nodes, which are numbered in the order in which they start: scalars, sequences and
mappings, each with a kind. An alias is the node that its anchor names, so that a node may be part of several
others, and even of itself. A node that is left out is an empty plain scalar. -/

namespace LayerLoops.Options.Yaml

inductive Shape
  | scalar (s : String)
  | sequence (items : List Nat)
  | mapping (entries : List (Nat × Nat))
  deriving DecidableEq, Repr

structure Node where
  tag : Tag
  shape : Shape
  deriving DecidableEq, Repr

/-- A document that is being read. -/
structure Draft where
  nodes : Array Node := #[]
  anchors : List (String × Nat) := []
  /-- What the handles of tags stand for. -/
  handles : List (String × String) := []
  /-- The tokens that are left. -/
  tokens : List Token
  /-- Why there are no further tokens. -/
  refusal : Option Refusal := none

abbrev Compose := StateT Draft (Except Refusal)

namespace Compose

def illFormed {α : Type} : Compose α := throw .illFormed

def peek : Compose (Option Token) := do
  let d ← get
  match d.tokens, d.refusal with
  | t :: _, _ => pure (some t)
  | [], some r => throw r
  | [], none => pure none

def skip : Compose Unit := modify fun d => { d with tokens := d.tokens.tail }

def add (n : Node) : Compose Nat := do
  let number := (← get).nodes.size
  modify fun d => { d with nodes := d.nodes.push n }
  pure number

def addEmpty : Compose Nat := add ⟨.ofSpelling "", .scalar ""⟩

def finish (number : Nat) (shape : Shape) : Compose Unit :=
  modify fun d => { d with nodes := d.nodes.modify number ({ · with shape }) }

/-- What stands before a node: its anchor and its tag. -/
structure Properties where
  anchor : Option String := none
  tag : Option RawTag := none

def anchor? : Compose (Option String) := do
  match ← peek with
  | some (.anchor name) => skip; pure (some name)
  | _ => pure none

def tag? : Compose (Option RawTag) := do
  match ← peek with
  | some (.tag t) => skip; pure (some t)
  | _ => pure none

def properties : Compose Properties := do
  match ← anchor? with
  | some name => pure ⟨some name, ← tag?⟩
  | none => match ← tag? with
    | some t => pure ⟨← anchor?, some t⟩
    | none => pure {}

def fullTag (t : RawTag) : Compose String := do
  match t.handle with
  | none => pure t.suffix
  | some h => match (← get).handles.lookup h with
    | some meaning => pure (meaning ++ t.suffix)
    | none => illFormed

/-- Names a node; no two nodes have the same name. -/
def register (name : Option String) (number : Nat) : Compose Unit := do
  match name with
  | none => pure ()
  | some name =>
    if ((← get).anchors.lookup name).isSome then illFormed
    else modify fun d => { d with anchors := (name, number) :: d.anchors }

end Compose

open Compose

def endsEntry : Option Token → Bool
  | some .value | some .key | some .blockEnd => true
  | _ => false

def endsFlowEntry (close : Token) (t : Option Token) : Bool := t = some .comma || t = some close

def bareTag : String := "!"

mutual

/-- Reads a node, and gives its number. An indentless sequence may stand only where one is a value of a block
mapping. -/
def node (fuel : Nat) (block indentless : Bool) : Compose Nat :=
  match fuel with
  | 0 => illFormed
  | fuel + 1 => do
    match ← peek with
    | some (.alias name) =>
      skip
      match (← get).anchors.lookup name with
      | some number => pure number
      | none => illFormed
    | _ =>
      let p ← properties
      let tag ← p.tag.mapM fullTag
      let plainly := tag = none || tag = some bareTag
      let kind (usual : Tag) : Tag := if plainly then usual else Tag.ofName (tag.getD "")
      let collection (usual : Tag) (empty : Shape) (read : Compose Shape) : Compose Nat := do
        let number ← add ⟨kind usual, empty⟩
        register p.anchor number
        finish number (← read)
        pure number
      let sequence := collection .sequence (.sequence [])
      let mapping := collection .mapping (.mapping [])
      match ← peek with
      | some (.scalar s isPlain) =>
        skip
        let spelled := tag = some bareTag || (tag = none && isPlain)
        let number ← add ⟨kind (if spelled then .ofSpelling s else .text), .scalar s⟩
        register p.anchor number
        pure number
      | some .flowSequence => skip; sequence (do pure (.sequence (← flowItems fuel true)))
      | some .flowMapping => skip; mapping (do pure (.mapping (← flowEntries fuel true)))
      | some .blockSequence =>
        if block then do skip; sequence (do pure (.sequence (← blockItems fuel))) else empty p kind
      | some .blockMapping =>
        if block then do skip; mapping (do pure (.mapping (← blockEntries fuel))) else empty p kind
      | some .entry =>
        if indentless then sequence (do pure (.sequence (← looseItems fuel))) else empty p kind
      | _ => empty p kind
where
  /-- A node that is left out after its properties. -/
  empty (p : Properties) (kind : Tag → Tag) : Compose Nat := do
    if p.anchor.isNone && p.tag.isNone then illFormed
    else
      let number ← add ⟨kind (.ofSpelling ""), .scalar ""⟩
      register p.anchor number
      pure number

def blockItems (fuel : Nat) : Compose (List Nat) :=
  match fuel with
  | 0 => illFormed
  | fuel + 1 => do
    match ← peek with
    | some .blockEnd => skip; pure []
    | some .entry =>
      skip
      let next ← peek
      let item ← if next = some .entry || next = some .blockEnd then addEmpty else node fuel true false
      pure (item :: (← blockItems fuel))
    | _ => illFormed

/-- Reads the entries of a sequence that stands at the indentation of its key. -/
def looseItems (fuel : Nat) : Compose (List Nat) :=
  match fuel with
  | 0 => illFormed
  | fuel + 1 => do
    match ← peek with
    | some .entry =>
      skip
      let next ← peek
      let item ← if next = some .entry || endsEntry next then addEmpty else node fuel true false
      pure (item :: (← looseItems fuel))
    | _ => pure []

def blockEntries (fuel : Nat) : Compose (List (Nat × Nat)) :=
  match fuel with
  | 0 => illFormed
  | fuel + 1 => do
    match ← peek with
    | some .blockEnd => skip; pure []
    | some .key =>
      skip
      let key ← if endsEntry (← peek) then addEmpty else node fuel true true
      let value ← match ← peek with
        | some .value => do
          skip
          if endsEntry (← peek) then addEmpty else node fuel true true
        | _ => addEmpty
      pure ((key, value) :: (← blockEntries fuel))
    | _ => illFormed

def flowEntry (fuel : Nat) (close : Token) : Compose (Nat × Nat) :=
  match fuel with
  | 0 => illFormed
  | fuel + 1 => do
    let next ← peek
    let key ← if next = some .value || endsFlowEntry close next then addEmpty else node fuel false false
    let value ← match ← peek with
      | some .value => do
        skip
        if endsFlowEntry close (← peek) then addEmpty else node fuel false false
      | _ => addEmpty
    pure (key, value)

/-- Reads the entries of a sequence in brackets. An entry with a colon is a mapping of its own. -/
def flowItems (fuel : Nat) (first : Bool) : Compose (List Nat) :=
  match fuel with
  | 0 => illFormed
  | fuel + 1 => do
    if (← peek) = some .flowSequenceEnd then do skip; pure []
    else
      separator first
      match ← peek with
      | some .flowSequenceEnd => skip; pure []
      | some .key =>
        skip
        let number ← add ⟨.mapping, .mapping []⟩
        let entry ← flowEntry fuel .flowSequenceEnd
        finish number (.mapping [entry])
        pure (number :: (← flowItems fuel false))
      | _ =>
        let item ← node fuel false false
        pure (item :: (← flowItems fuel false))

/-- Reads the entries of a mapping in braces. An entry without a colon is a key. -/
def flowEntries (fuel : Nat) (first : Bool) : Compose (List (Nat × Nat)) :=
  match fuel with
  | 0 => illFormed
  | fuel + 1 => do
    if (← peek) = some .flowMappingEnd then do skip; pure []
    else
      separator first
      match ← peek with
      | some .flowMappingEnd => skip; pure []
      | some .key =>
        skip
        let entry ← flowEntry fuel .flowMappingEnd
        pure (entry :: (← flowEntries fuel false))
      | _ =>
        let key ← node fuel false false
        let value ← addEmpty
        pure ((key, value) :: (← flowEntries fuel false))

def separator (first : Bool) : Compose Unit := do
  if first then pure ()
  else match ← peek with
    | some .comma => skip
    | _ => illFormed

end

/-- Every step of a reader takes a token or goes one collection deeper. -/
def nodeFuel (ts : List Token) : Nat := 3 * ts.length + 3

def usualHandles : List (String × String) := [("!", "!"), ("!!", Tag.family)]

def directives (versioned : Bool) : List Token → Compose Unit
  | .directive d :: rest => do
    skip
    match d with
    | .version major => if versioned || major ≠ 1 then illFormed else directives true rest
    | .handle name meaning =>
      if ((← get).handles.lookup name).isSome then illFormed
      else
        modify fun d => { d with handles := d.handles ++ [(name, meaning)] }
        directives versioned rest
    | .other => directives versioned rest
  | _ => pure ()

def isBoundary : Option Token → Bool
  | none | some .documentStart | some .documentEnd | some (.directive _) => true
  | _ => false

/-- Reads the only document of a text, and gives the number of its first node; none if there is no document. -/
def document : Compose (Option Nat) := do
  let fuel := nodeFuel (← get).tokens
  let start ← peek
  let useHandles : Compose Unit := modify fun d => { d with handles := d.handles ++ usualHandles }
  let root ← match start with
    | none => return none
    | some .documentStart | some (.directive _) => do
      directives false (← get).tokens
      useHandles
      if (← peek) ≠ some .documentStart then illFormed
      else
        skip
        if isBoundary (← peek) then addEmpty else node fuel true false
    | _ => do
      useHandles
      node fuel true false
  modify fun d => { d with tokens := d.tokens.dropWhile (· == .documentEnd) }
  if (← peek).isSome then illFormed else pure (some root)

end LayerLoops.Options.Yaml
