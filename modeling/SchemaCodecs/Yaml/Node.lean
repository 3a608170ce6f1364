/-
# Nodes of a YAML text

The nodes of a YAML text: scalars, sequences and mappings with the tags that decide how they are
read.  Nodes are kept in a table and refer to each other by number.  An alias is the number of the
node it repeats, so that the places where one node stands can be told from places where equal ones
stand.
-/
import SchemaCodecs.Yaml.Tag
import SchemaCodecs.Yaml.Token

namespace SchemaCodecs.Yaml

/-! ## Nodes -/

/-- A node of a YAML text. -/
inductive Node where
  /-- A text to be read as its tag says. -/
  | scalar (tag : Tag) (text : Text)
  /-- Nodes in order. -/
  | sequence (tag : Tag) (items : List Nat)
  /-- Pairs of nodes in order. -/
  | mapping (tag : Tag) (entries : List (Nat × Nat))
  deriving DecidableEq, Inhabited

namespace Node

/-- A scalar without any text. -/
def empty : Node :=
  .scalar .null ""

/-- The tag of a node. -/
def tag : Node → Tag
  | scalar tag _ => tag
  | sequence tag _ => tag
  | mapping tag _ => tag

/-- The entries of a node; only a mapping has some. -/
def entries : Node → List (Nat × Nat)
  | mapping _ entries => entries
  | _ => []

/-- A node with another tag. -/
def withTag (tag : Tag) : Node → Node
  | scalar _ text => scalar tag text
  | sequence _ items => sequence tag items
  | mapping _ entries => mapping tag entries

end Node

/-- Nodes by number. -/
abbrev NodeTable := Array Node

/-- The nodes of a document, with the number of the one that all others belong to. -/
structure NodeTree where
  /-- The nodes. -/
  nodes : NodeTable
  /-- The number of the outermost node. -/
  root : Nat
  deriving Inhabited

/-! ## Reading tokens -/

/-- What the reading of tokens depends on and keeps track of. -/
structure ParseState where
  /-- The tokens that are left. -/
  tokens : List Token
  /-- What is found behind them. -/
  ending : ReadFault
  /-- The handles of tags and what they stand for. -/
  handles : List (Text × Text)
  /-- The anchors so far with the numbers of their nodes. -/
  anchors : List (Text × Nat) := []
  /-- The nodes so far; a collection that is not complete has a place in the table. -/
  nodes : NodeTable := #[]

/-- A step of reading. -/
abbrev Parse (α : Type) := StateT ParseState Reading α

namespace Parse

/-- The text is not well formed. -/
def refuse {α : Type} : Parse α :=
  throw .malformed

/-- The next token. -/
def peek : Parse Token := do
  let state ← get
  match state.tokens with
  | token :: _ => return token
  | [] => throw state.ending

/-- The next token, taken. -/
def take : Parse Token := do
  let token ← peek
  modify fun state => { state with tokens := state.tokens.tail }
  return token

/-- Whether the next token is the given one; it is taken then. -/
def takeIf (token : Token) : Parse Bool := do
  if (← peek) == token then
    discard take
    return true
  else return false

/-- The text must go on with the given token. -/
def expect (token : Token) : Parse Unit := do
  unless ← takeIf token do refuse

/-! ## The table -/

/-- The number of a new node. -/
def add (node : Node) : Parse Nat := do
  let state ← get
  set { state with nodes := state.nodes.push node }
  return state.nodes.size

/-- Puts a node in the place of a number. -/
def complete (number : Nat) (node : Node) : Parse Unit :=
  modify fun state => { state with nodes := state.nodes.setIfInBounds number node }

/-- The number of a node that begins, under a name if it has one; a name must not be used twice. -/
def begin (anchor : Option Text) : Parse Nat := do
  let number ← add .empty
  match anchor with
  | none => pure ()
  | some name =>
    let state ← get
    if (state.anchors.lookup name).isSome then refuse
    set { state with anchors := (name, number) :: state.anchors }
  return number

/-- The number of the node that an alias repeats. -/
def repeated (name : Text) : Parse Nat := do
  match (← get).anchors.lookup name with
  | some number => return number
  | none => refuse

/-! ## Properties -/

/-- A tag with its handle replaced by what it stands for. -/
def fullTag (name : TagName) : Parse Text := do
  match name.handle with
  | none => return name.suffix
  | some handle =>
    match (← get).handles.lookup handle with
    | some meaning => return meaning ++ name.suffix
    | none => refuse

/-- The anchor and the tag before a node, in either order. -/
def properties : Parse (Option Text × Option Text) := do
  match ← peek with
  | .anchor anchor =>
    discard take
    match ← peek with
    | .tag name =>
      discard take
      return (some anchor, some (← fullTag name))
    | _ => return (some anchor, none)
  | .tag name =>
    discard take
    let anchor ← match ← peek with
      | .anchor anchor =>
        discard take
        pure (some anchor)
      | _ => pure none
    return (anchor, some (← fullTag name))
  | _ => return (none, none)

/-- The tag of a collection: the stated one, else the usual one. -/
def collectionTag (stated : Option Text) (usual : Tag) : Tag :=
  match stated with
  | none => usual
  | some name => if name = "!" then usual else Tag.ofName name

/-- The tag of a scalar: the stated one, else the one its text suggests if it is plain. -/
def scalarTag (stated : Option Text) (text : Text) (plain : Bool) : Tag :=
  match stated with
  | none => if plain then Tag.ofText text else .text
  | some name => if name = "!" then Tag.ofText text else Tag.ofName name

/-! ## Nodes -/

/-- Whether a token ends an entry of a block mapping. -/
def endsEntry (token : Token) : Bool :=
  token == .key || token == .value || token == .blockEnd

/-- What a node may begin with besides the tokens that begin any node. -/
structure NodeContext where
  /-- Whether block collections may begin. -/
  block : Bool
  /-- Whether entries of a sequence may begin without further indentation. -/
  entries : Bool

mutual

/-- The number of the node that comes next. -/
def node (context : NodeContext) : Nat → Parse Nat
  | 0 => refuse
  | fuel + 1 => do
    if let .alias name ← peek then
      discard take
      return ← repeated name
    let (anchor, tag) ← properties
    discard peek
    let number ← begin anchor
    complete number (← content context anchor.isSome tag fuel)
    return number

/-- The node after its anchor and tag. -/
def content (context : NodeContext) (anchored : Bool) (tag : Option Text) : Nat → Parse Node
  | 0 => refuse
  | fuel + 1 => do
    let token ← peek
    if context.entries && token == .blockEntry then
      return .sequence (collectionTag tag .sequence) (← looseEntries fuel)
    match token with
    | .scalar text plain =>
      discard take
      return .scalar (scalarTag tag text plain) text
    | .flowSequenceStart =>
      discard take
      return .sequence (collectionTag tag .sequence) (← flowItems true fuel)
    | .flowMappingStart =>
      discard take
      return .mapping (collectionTag tag .mapping) (← flowPairs true fuel)
    | _ =>
      if context.block && token == .blockSequenceStart then
        discard take
        return .sequence (collectionTag tag .sequence) (← blockItems fuel)
      else if context.block && token == .blockMappingStart then
        discard take
        return .mapping (collectionTag tag .mapping) (← blockPairs fuel)
      else if anchored || tag.isSome then return .scalar (scalarTag tag "" true) ""
      else refuse

/-- The items of a block sequence up to its end. -/
def blockItems : Nat → Parse (List Nat)
  | 0 => refuse
  | fuel + 1 => do
    if ← takeIf .blockEntry then
      let next ← peek
      let item ←
        if next == .blockEntry || next == .blockEnd then add .empty
        else node ⟨true, false⟩ fuel
      return item :: (← blockItems fuel)
    else
      expect .blockEnd
      return []

/-- The items of a sequence inside a mapping without further indentation. -/
def looseEntries : Nat → Parse (List Nat)
  | 0 => refuse
  | fuel + 1 => do
    if ← takeIf .blockEntry then
      let next ← peek
      let item ←
        if next == .blockEntry || endsEntry next then add .empty
        else node ⟨true, false⟩ fuel
      return item :: (← looseEntries fuel)
    else return []

/-- The key or value of an entry of a block mapping; it may be empty. -/
def blockPart : Nat → Parse Nat
  | 0 => refuse
  | fuel + 1 => do
    if endsEntry (← peek) then add .empty else node ⟨true, true⟩ fuel

/-- The entries of a block mapping up to its end. -/
def blockPairs : Nat → Parse (List (Nat × Nat))
  | 0 => refuse
  | fuel + 1 => do
    if ← takeIf .key then
      let key ← blockPart fuel
      let value ← if ← takeIf .value then blockPart fuel else add .empty
      return (key, value) :: (← blockPairs fuel)
    else
      expect .blockEnd
      return []

/-- The key or value of an entry in brackets or braces that the given token ends; it may be
empty. -/
def flowPart (closing : Token) (isKey : Bool) : Nat → Parse Nat
  | 0 => refuse
  | fuel + 1 => do
    let next ← peek
    if next == .flowEntry || next == closing || (isKey && next == .value) then add .empty
    else node ⟨false, false⟩ fuel

/-- The value of an entry in brackets or braces, if there is a colon. -/
def flowValue (closing : Token) : Nat → Parse Nat
  | 0 => refuse
  | fuel + 1 => do
    if ← takeIf .value then flowPart closing false fuel else add .empty

/-- The items of a sequence in brackets; a key makes an item a mapping with one entry. -/
def flowItems (first : Bool) : Nat → Parse (List Nat)
  | 0 => refuse
  | fuel + 1 => do
    if ← takeIf .flowSequenceEnd then return []
    unless first do expect .flowEntry
    if ← takeIf .key then
      let item ← begin none
      let key ← flowPart .flowSequenceEnd true fuel
      let value ← flowValue .flowSequenceEnd fuel
      complete item (.mapping .mapping [(key, value)])
      return item :: (← flowItems false fuel)
    else if ← takeIf .flowSequenceEnd then return []
    else
      let item ← node ⟨false, false⟩ fuel
      return item :: (← flowItems false fuel)

/-- The entries of a mapping in braces; a node without a key indicator is a key without value. -/
def flowPairs (first : Bool) : Nat → Parse (List (Nat × Nat))
  | 0 => refuse
  | fuel + 1 => do
    if ← takeIf .flowMappingEnd then return []
    unless first do expect .flowEntry
    if ← takeIf .key then
      let key ← flowPart .flowMappingEnd true fuel
      let value ← flowValue .flowMappingEnd fuel
      return (key, value) :: (← flowPairs false fuel)
    else if ← takeIf .flowMappingEnd then return []
    else
      let key ← node ⟨false, false⟩ fuel
      let value ← add .empty
      return (key, value) :: (← flowPairs false fuel)

end

/-! ## Documents -/

/-- The handles of tags that need no declaration. -/
def usualHandles : List (Text × Text) :=
  [("!", "!"), ("!!", "tag:yaml.org,2002:")]

/-- The handles declared by the directives that come next; the version is stated at most once, and
no handle is declared twice. -/
def directives : Nat → Bool → List (Text × Text) → Parse (List (Text × Text))
  | 0, _, _ => refuse
  | fuel + 1, versioned, handles => do
    match ← peek with
    | .directive directive =>
      discard take
      match directive with
      | .version major => if versioned || major != 1 then refuse else directives fuel true handles
      | .handle name meaning =>
        if (handles.lookup name).isSome then refuse
        else directives fuel versioned ((name, meaning) :: handles)
      | .other => directives fuel versioned handles
    | _ => return handles

/-- The tokens that can follow the start of a document without content. -/
def endsDocument : Token → Bool
  | .directive _ | .documentStart | .documentEnd | .streamEnd => true
  | _ => false

/-- Skips the markers of the end of a document. -/
def skipEnds : Nat → Parse Unit
  | 0 => refuse
  | fuel + 1 => do if ← takeIf .documentEnd then skipEnds fuel

/-- Nothing must follow the document; directives are read before another document is refused. -/
def finish (fuel : Nat) : Parse Unit := do
  skipEnds fuel
  unless (← peek) == .streamEnd do
    discard <| directives fuel false []
    refuse

/-- The number of the outermost node of the single document of a text; nothing if there is none. -/
def document (fuel : Nat) : Parse (Option Nat) := do
  match ← peek with
  | .streamEnd => return none
  | .directive _ | .documentStart =>
    let handles ← directives fuel false []
    modify fun state => { state with handles := handles ++ usualHandles }
    expect .documentStart
    let root ← if endsDocument (← peek) then add .empty else node ⟨true, false⟩ fuel
    finish fuel
    return some root
  | _ =>
    let root ← node ⟨true, false⟩ fuel
    finish fuel
    return some root

end Parse

/-- The nodes of the single document that tokens describe; nothing for an empty text. -/
def NodeTree.ofTokens (stream : TokenStream) : Reading (Option NodeTree) := do
  let fuel := 4 * stream.tokens.length + 8
  let start : ParseState :=
    { tokens := stream.tokens, ending := stream.ending, handles := Parse.usualHandles }
  let (root, state) ← (Parse.document fuel).run start
  return root.map fun root => { nodes := state.nodes, root }

end SchemaCodecs.Yaml
