import Montage.Markup.Cursor
import Montage.Markup.Resolve
import Montage.Markup.Token

/-!
The nodes of a marked-up document. Nodes are numbered, and a collection holds the numbers of what is in
it: an alias is the number of the node with its anchor, which may be a collection around the alias.
-/

namespace Montage.Markup

inductive Node where
  | scalar (tag : Tag) (text : String)
  | sequence (tag : Tag) (items : List Nat)
  | mapping (tag : Tag) (entries : List (Nat × Nat))

namespace Node

/-- The node that stands where nothing is written. -/
def empty : Node := .scalar .null ""

def tag : Node → Tag
  | scalar t _ => t
  | sequence t _ => t
  | mapping t _ => t

def withTag (t : Tag) : Node → Node
  | scalar _ text => scalar t text
  | sequence _ items => sequence t items
  | mapping _ entries => mapping t entries

end Node

/-- Nodes by number. -/
abbrev Nodes := Array Node

namespace Nodes

def nodeAt (nodes : Nodes) (n : Nat) : Node := nodes.getD n .empty

/-- The entries of a mapping; other nodes have none. -/
def entriesAt (nodes : Nodes) (n : Nat) : List (Nat × Nat) :=
  match nodes.nodeAt n with
  | .mapping _ entries => entries
  | _ => []

end Nodes

/-- A document: its nodes, and the number of the one that holds all others. -/
structure Document where
  nodes : Nodes
  root : Nat

/-- What the reader of a document keeps: the tokens left with what is at fault behind them, the handles
of tags, the nodes so far, and the anchors with the numbers of their nodes. -/
structure TreeState where
  tokens : List Token
  fault : Option Fault
  handles : List (String × String)
  nodes : Nodes := #[]
  anchors : List (String × Nat) := []

abbrev TreeReader := StateT TreeState (Except Fault)

namespace TreeReader

def refuse {α : Type} : TreeReader α := throw .markup

def peek : TreeReader Token := do
  match (← get).tokens, (← get).fault with
  | t :: _, _ => return t
  | [], some e => throw e
  | [], none => return .streamEnd

def advance : TreeReader Unit :=
  modify fun s => { s with tokens := s.tokens.tail }

/-- Takes the next token when it is the given one. -/
def take? (t : Token) : TreeReader Bool := do
  if (← peek) = t then
    advance
    return true
  else return false

def expect (t : Token) : TreeReader Unit := do
  if !(← take? t) then refuse

def nextIs (ts : List Token) : TreeReader Bool := do
  return ts.contains (← peek)

/-- The full name of a tag. -/
def tagName (handle : Option String) (suffix : String) : TreeReader String := do
  match handle with
  | none => return suffix
  | some handle =>
    match (← get).handles.lookup handle with
    | some tagStart => return tagStart ++ suffix
    | none => refuse

/-- Anchor and tag in front of a node. -/
structure Properties where
  anchor : Option String := none
  tag : Option String := none

def takeAnchor : TreeReader (Option String) := do
  match ← peek with
  | .anchor name =>
    advance
    return some name
  | _ => return none

/-- At most one anchor and one tag, in either order. -/
def properties : TreeReader Properties := do
  let anchor ← takeAnchor
  match ← peek with
  | .tag handle suffix =>
    advance
    let anchor ← if anchor.isSome then pure anchor else takeAnchor
    return { anchor, tag := some (← tagName handle suffix) }
  | _ => return { anchor }

/-- Gives the next number to a node. -/
def add (n : Node) : TreeReader Nat :=
  modifyGet fun s => (s.nodes.size, { s with nodes := s.nodes.push n })

def addEmpty : TreeReader Nat := add .empty

/-- Notes the node that an anchor stands for, unless the name is taken. -/
def declare (anchor : Option String) (n : Nat) : TreeReader Unit := do
  match anchor with
  | none => return
  | some name =>
    if ((← get).anchors.lookup name).isSome then refuse
    modify fun s => { s with anchors := (name, n) :: s.anchors }

/-- A collection, whose anchor is declared before its content is read. -/
def collection (p : Properties) (read : TreeReader Node) : TreeReader Nat := do
  let n ← addEmpty
  declare p.anchor n
  let content ← read
  modify fun s => { s with nodes := s.nodes.setIfInBounds n content }
  return n

/-- A scalar whose tag follows from its text when it is plain. -/
def scalar (p : Properties) (text : String) (plain : Bool) : TreeReader Nat := do
  let tag := match p.tag with
    | none => if plain then Tag.ofPlain text else .str
    | some "!" => Tag.ofPlain text
    | some name => Tag.ofName name
  let n ← add (.scalar tag text)
  declare p.anchor n
  return n

def collectionTag (p : Properties) (usual : Tag) : Tag :=
  match p.tag with
  | none | some "!" => usual
  | some name => Tag.ofName name

/-- How a node may be written where it stands. -/
inductive Style where
  | flow
  | block
  /-- as a block, and as a sequence without indentation of its own -/
  | entry
  deriving DecidableEq

/-- How deep collections may lie inside one another. -/
def maxDepth : Nat := 489

/-! The first number bounds the length of what is read, and the second one its depth. -/

mutual

def node : Nat → Nat → Style → TreeReader Nat
  | 0, _, _ => refuse
  | _, 0, _ => throw (.misuse .depth)
  | fuel + 1, depth + 1, style => do
    if let .alias name ← peek then
      advance
      match (← get).anchors.lookup name with
      | some n => return n
      | none => refuse
    let p ← properties
    let sequenceTag := collectionTag p .seq
    let mappingTag := collectionTag p .map
    match ← peek with
    | .scalar text plain =>
      advance
      scalar p text plain
    | .flowSequenceStart =>
      advance
      collection p do
        return .sequence sequenceTag (← flowItems fuel depth true)
    | .flowMappingStart =>
      advance
      collection p do
        return .mapping mappingTag (← flowEntries fuel depth true)
    | .blockEntry =>
      if style ≠ .entry then empty p
      else collection p do
        return .sequence sequenceTag (← plainItems fuel depth)
    | .blockSequenceStart =>
      if style = .flow then empty p
      else
        advance
        collection p do
          return .sequence sequenceTag (← blockItems fuel depth)
    | .blockMappingStart =>
      if style = .flow then empty p
      else
        advance
        collection p do
          return .mapping mappingTag (← blockEntries fuel depth)
    | _ => empty p

/-- A node without content, which needs an anchor or a tag. -/
def empty (p : Properties) : TreeReader Nat := do
  if p.anchor.isNone && p.tag.isNone then refuse
  scalar p "" (p.tag.isNone)

/-- A node, or nothing before one of the given tokens. -/
def nodeBefore : Nat → Nat → Style → List Token → TreeReader Nat
  | 0, _, _, _ => refuse
  | fuel + 1, depth, style, stops => do
    if ← nextIs stops then addEmpty else node fuel depth style

/-- The items of a block sequence up to its end. -/
def blockItems : Nat → Nat → TreeReader (List Nat)
  | 0, _ => refuse
  | fuel + 1, depth => do
    if ← take? .blockEntry then
      let item ← nodeBefore fuel depth .block [.blockEntry, .blockEnd]
      return item :: (← blockItems fuel depth)
    else
      expect .blockEnd
      return []

/-- The items of a sequence without indentation of its own. -/
def plainItems : Nat → Nat → TreeReader (List Nat)
  | 0, _ => refuse
  | fuel + 1, depth => do
    if ← take? .blockEntry then
      let item ← nodeBefore fuel depth .block [.blockEntry, .key, .value, .blockEnd]
      return item :: (← plainItems fuel depth)
    else return []

/-- The entries of a block mapping up to its end. -/
def blockEntries : Nat → Nat → TreeReader (List (Nat × Nat))
  | 0, _ => refuse
  | fuel + 1, depth => do
    if ← take? .key then
      let stops := [Token.key, .value, .blockEnd]
      let key ← nodeBefore fuel depth .entry stops
      let value ← if ← take? .value then nodeBefore fuel depth .entry stops else addEmpty
      return (key, value) :: (← blockEntries fuel depth)
    else
      expect .blockEnd
      return []

/-- The items of a flow sequence up to its end; a key begins an item that is one entry. -/
def flowItems : Nat → Nat → Bool → TreeReader (List Nat)
  | 0, _, _ => refuse
  | fuel + 1, depth, first => do
    if ← take? .flowSequenceEnd then return []
    if !first then expect .flowEntry
    if ← take? .key then
      let key ← nodeBefore fuel depth .flow [.value, .flowEntry, .flowSequenceEnd]
      let value ← if ← take? .value then nodeBefore fuel depth .flow [.flowEntry, .flowSequenceEnd]
        else addEmpty
      let item ← add (.mapping .map [(key, value)])
      return item :: (← flowItems fuel depth false)
    else if ← take? .flowSequenceEnd then return []
    else
      let item ← node fuel depth .flow
      return item :: (← flowItems fuel depth false)

/-- The entries of a flow mapping up to its end; a key may stand alone. -/
def flowEntries : Nat → Nat → Bool → TreeReader (List (Nat × Nat))
  | 0, _, _ => refuse
  | fuel + 1, depth, first => do
    if ← take? .flowMappingEnd then return []
    if !first then expect .flowEntry
    if ← take? .key then
      let key ← nodeBefore fuel depth .flow [.value, .flowEntry, .flowMappingEnd]
      let value ← if ← take? .value then nodeBefore fuel depth .flow [.flowEntry, .flowMappingEnd]
        else addEmpty
      return (key, value) :: (← flowEntries fuel depth false)
    else if ← take? .flowMappingEnd then return []
    else
      let key ← node fuel depth .flow
      return (key, ← addEmpty) :: (← flowEntries fuel depth false)

end

/-! Documents -/

/-- The handles of tags that every document has. -/
def standardHandles : List (String × String) := [("!", "!"), ("!!", "tag:yaml.org,2002:")]

/-- The directives of a document: at most one version, of the first family, and each handle once. -/
def directives : Nat → Bool → List (String × String) → TreeReader (List (String × String))
  | 0, _, handles => return handles
  | fuel + 1, versioned, handles => do
    match ← peek with
    | .directive d =>
      advance
      match d with
      | .version major _ =>
        if versioned || major ≠ 1 then refuse
        directives fuel true handles
      | .tagHandle handle tagStart =>
        if (handles.lookup handle).isSome then refuse
        directives fuel versioned ((handle, tagStart) :: handles)
      | .unknown => directives fuel versioned handles
    | _ => return handles

def skipDocumentEnds : Nat → TreeReader Unit
  | 0 => return
  | fuel + 1 => do
    if ← take? .documentEnd then skipDocumentEnds fuel

/-- The only document of the stream; `none` when there is none. -/
def document (fuel : Nat) : TreeReader (Option Nat) := do
  let content ← match ← peek with
    | .streamEnd => return none
    | .directive _ | .documentStart => do
      let handles ← directives fuel false []
      expect .documentStart
      modify ({ · with handles := handles ++ standardHandles })
      match ← peek with
      | .directive _ | .documentStart | .documentEnd | .streamEnd => addEmpty
      | _ => node fuel maxDepth .block
    | _ => node fuel maxDepth .block
  skipDocumentEnds fuel
  expect .streamEnd
  return some content

end TreeReader

/-- The only document in a stream of tokens. -/
def Document.ofTokens? (tokens : Tokens) : Except Fault (Option Document) := do
  let fuel := 4 * tokens.list.length + 8
  let (root, s) ← (TreeReader.document fuel).run
    { tokens := tokens.list, fault := tokens.fault, handles := TreeReader.standardHandles }
  return root.map fun root => ⟨s.nodes, root⟩

end Montage.Markup
