import WaterNetwork.Yaml.Scalar

/-!
# YAML nodes

The tree of a document. An alias stands for a node that is anchored elsewhere in the document; it is
kept as such, because following it is limited.

The tree is read from the tokens of the document. Where a node may be left out, an absent scalar
stands in its place. Targets of aliases are numbered by how many names had been anchored before;
of several nodes with one number the one that starts last is the target.
-/

namespace WaterNetwork.Yaml

/-- A node of a document. -/
inductive Node where
  | scalar (s : Scalar)
  /-- Items in order; `localTag` tells of a tag that names a kind of value of its own. -/
  | sequence (localTag : Bool) (items : List Node)
  /-- Entries in order. -/
  | mapping (localTag : Bool) (entries : List (Node × Node))
  | alias (target : Nat)

/-- A document with the nodes that are anchored in it. -/
structure Tree where
  root : Node
  /-- The node of each target of aliases. -/
  anchored : List (Nat × Node) := []
  /-- How many aliases may be followed in all. -/
  aliasLimit : Nat := 0

/-! ### Readers -/

/-- How far the tokens of a document have been read. -/
structure NodeReading where
  tokens : List Token
  /-- What the handles of tags stand for. -/
  handles : List (String × Tag)
  /-- The anchored names and their targets. -/
  names : List (String × Nat) := []
  /-- How many anchored nodes have started. -/
  started : Nat := 0
  /-- Targets, each with the position of its start and its node. -/
  anchored : List (Nat × Nat × Node) := []
  /-- How many scalars, aliases, and beginnings and ends of collections there are. -/
  events : Nat := 0

/-- A step of reading. -/
abbrev Reader := StateT NodeReading Option

namespace Reader

/-! ### Tokens -/

/-- The next token, if there is one. -/
def peek : Reader (Option Token) := do return (← get).tokens.head?

/-- Pass over the next token. -/
def skip : Reader Unit := modify fun r => { r with tokens := r.tokens.drop 1 }

/-- Whether the next token is one of these, or there is none. -/
def nextIsAmong (tokens : List Token) : Reader Bool := do
  return (← peek).all tokens.contains

/-- Pass over the next token if it is this one. -/
def accept (token : Token) : Reader Bool := do
  if (← peek) = some token then
    skip
    return true
  else return false

/-- Count scalars, aliases, and beginnings or ends of collections. -/
def count (n : Nat) : Reader Unit := modify fun r => { r with events := r.events + n }

/-- The scalar in the place of a node that is left out. -/
def absent : Reader Node := do
  count 1
  return .scalar (.ofText none .plain "")

/-! ### Anchors and tags -/

/-- The full tag that a handle and a suffix make up. -/
def fullTag (handle : String) (suffix : Tag) : Reader Tag := do
  if handle = "" then return suffix
  else
    match (← get).handles.lookup handle with
    | some expansion => return expansion ++ suffix
    | none => failure

/-- Read an anchor, if there is one. -/
def readAnchor : Reader (Option String) := do
  match ← peek with
  | some (.anchor name) =>
    skip
    return some name
  | _ => return none

/-- Read a tag, if there is one. -/
def readTag : Reader (Option Tag) := do
  match ← peek with
  | some (.tag handle suffix) =>
    skip
    return some (← fullTag handle suffix)
  | _ => return none

/-- Read an anchor and a tag, in either order. -/
def readProperties : Reader (Option String × Option Tag) := do
  match ← readAnchor with
  | some name => return (some name, ← readTag)
  | none =>
    let tag? ← readTag
    if tag?.isSome then return (← readAnchor, tag?) else return (none, none)

/-- Anchor a name at the node that starts here. Yields its target and the position of its
start. -/
def startAnchored (name : String) : Reader (Nat × Nat) := do
  let r ← get
  let target := r.names.length
  set { r with
    names := (name, target) :: r.names.filter (·.1 != name)
    started := r.started + 1 }
  return (target, r.started)

/-- Read the node that has been anchored. -/
def anchoring (name? : Option String) (read : Reader Node) : Reader Node := do
  match name? with
  | none => read
  | some name =>
    let (target, start) ← startAnchored name
    let node ← read
    modify fun r => { r with anchored := (target, start, node) :: r.anchored }
    return node

/-! ### Nodes -/

mutual

/-- Read a node. Blocks may begin only where `block` is set, and a sequence without indentation of
its own only where `indentless` is set. -/
def node : Nat → Bool → Bool → Reader Node
  | 0, _, _ => failure
  | fuel + 1, block, indentless => do
    match ← peek with
    | some (.alias name) =>
      skip
      count 1
      match (← get).names.lookup name with
      | some target => return .alias target
      | none => failure
    | _ =>
      let (name?, tag?) ← readProperties
      let tagged := tag?.any Tag.isLocalName
      anchoring name? do
        match ← peek with
        | some (.scalar style text) =>
          skip
          count 1
          return .scalar (.ofText tag? style text)
        | some .flowSequenceStart =>
          skip
          count 2
          return .sequence tagged (← flowItems fuel true)
        | some .flowMappingStart =>
          skip
          count 2
          return .mapping tagged (← flowEntries fuel true)
        | next =>
          if indentless ∧ next = some .blockEntry then
            count 2
            return .sequence tagged (← indentlessItems fuel)
          else if block ∧ next = some .blockSequenceStart then
            skip
            count 2
            return .sequence tagged (← blockItems fuel)
          else if block ∧ next = some .blockMappingStart then
            skip
            count 2
            return .mapping tagged (← blockEntries fuel)
          else if name?.isSome ∨ tag?.isSome then
            count 1
            return .scalar (.ofText tag? .plain "")
          else failure

/-- Read a node, or an absent one if one of these tokens comes next. -/
def nodeUnless : Nat → Bool → Bool → List Token → Reader Node
  | 0, _, _, _ => failure
  | fuel + 1, block, indentless, ends => do
    if ← nextIsAmong ends then absent else node fuel block indentless

/-- Read the items of a block sequence. -/
def blockItems : Nat → Reader (List Node)
  | 0 => failure
  | fuel + 1 => do
    if ← accept .blockEntry then
      let item ← nodeUnless fuel true false [.blockEntry, .blockEnd]
      return item :: (← blockItems fuel)
    else if ← accept .blockEnd then return []
    else failure

/-- Read the items of a sequence without indentation of its own; no token ends it. -/
def indentlessItems : Nat → Reader (List Node)
  | 0 => failure
  | fuel + 1 => do
    if ← accept .blockEntry then
      let item ← nodeUnless fuel true false [.blockEntry, .key, .value, .blockEnd]
      return item :: (← indentlessItems fuel)
    else return []

/-- Read the entries of a block mapping. -/
def blockEntries : Nat → Reader (List (Node × Node))
  | 0 => failure
  | fuel + 1 => do
    if ← accept .key then
      let key ← nodeUnless fuel true true [.key, .value, .blockEnd]
      let value ←
        if ← accept .value then nodeUnless fuel true true [.key, .value, .blockEnd] else absent
      return (key, value) :: (← blockEntries fuel)
    else if ← accept .blockEnd then return []
    else failure

/-- Read the items of a sequence between brackets; before all but the first one stands a comma,
and one may stand at the end. -/
def flowItems : Nat → Bool → Reader (List Node)
  | 0, _ => failure
  | fuel + 1, first => do
    if ← accept .flowSequenceEnd then return []
    else
      if !first then guard (← accept .flowEntry)
      if ← accept .key then
        count 2
        let entry ← flowPair fuel
        return .mapping false [entry] :: (← flowItems fuel false)
      else if ← accept .flowSequenceEnd then return []
      else
        let item ← node fuel false false
        return item :: (← flowItems fuel false)

/-- Read an entry that is an item of a sequence between brackets, after the mark of its key. A token
that cannot begin the key is passed over. -/
def flowPair : Nat → Reader (Node × Node)
  | 0 => failure
  | fuel + 1 => do
    let key ←
      if ← nextIsAmong [.value, .flowEntry, .flowSequenceEnd] then do
        skip
        absent
      else node fuel false false
    let value ←
      if ← accept .value then nodeUnless fuel false false [.flowEntry, .flowSequenceEnd]
      else absent
    return (key, value)

/-- Read the entries of a mapping between braces; before all but the first one stands a comma, and
one may stand at the end. -/
def flowEntries : Nat → Bool → Reader (List (Node × Node))
  | 0, _ => failure
  | fuel + 1, first => do
    if ← accept .flowMappingEnd then return []
    else
      if !first then guard (← accept .flowEntry)
      if ← accept .key then
        let key ← nodeUnless fuel false false [.value, .flowEntry, .flowMappingEnd]
        let value ←
          if ← accept .value then nodeUnless fuel false false [.flowEntry, .flowMappingEnd]
          else absent
        return (key, value) :: (← flowEntries fuel false)
      else if ← accept .flowMappingEnd then return []
      else
        let key ← node fuel false false
        let value ← absent
        return (key, value) :: (← flowEntries fuel false)

end

/-! ### Documents -/

/-- What handles stand for unless a document decides otherwise. -/
def defaultHandles : List (String × Tag) := [("!", .localMark), ("!!", .core "")]

/-- Read the directives of a document: one version at most, which has to be known, and each
handle once. -/
def readDirectives : Nat → Bool → List (String × Tag) → Reader (List (String × Tag))
  | 0, _, _ => failure
  | fuel + 1, versioned, handles => do
    match ← peek with
    | some (.version major minor) =>
      skip
      guard (!versioned ∧ major = 1 ∧ (minor = 1 ∨ minor = 2))
      readDirectives fuel true handles
    | some (.tagHandle handle expansion) =>
      skip
      guard (handles.lookup handle).isNone
      readDirectives fuel versioned (handles ++ [(handle, expansion)])
    | _ => return handles

/-- Pass over the marks at the end of a document. -/
def skipEnds : Nat → Reader Unit
  | 0 => failure
  | fuel + 1 => do if ← accept .documentEnd then skipEnds fuel

/-- Whether a document starts with directives or a mark here. -/
def startsExplicitly : Option Token → Bool
  | some (.version _ _) | some (.tagHandle _ _) | some .documentStart => true
  | _ => false

/-- Whether a document that has been started explicitly has no node. -/
def endsAtOnce : Option Token → Bool
  | none | some .documentEnd => true
  | next => startsExplicitly next

/-- Read the only document of a text. -/
def document (fuel : Nat) : Reader Node := do
  let root ←
    if startsExplicitly (← peek) then do
      let handles ← readDirectives fuel false []
      modify fun r => { r with handles := handles ++ r.handles }
      guard (← accept .documentStart)
      if endsAtOnce (← peek) then absent else node fuel true false
    else node fuel true false
  skipEnds fuel
  guard (← peek).isNone
  return root

end Reader

/-- Keep of several nodes with one target the one that starts last. -/
def latestAnchored (anchored : List (Nat × Nat × Node)) : List (Nat × Node) :=
  anchored.filterMap fun (target, start, node) =>
    if anchored.any fun (target', start', _) => target' == target && start < start' then none
    else some (target, node)

/-- The tree of a text's only document; a text without tokens has an absent one. Every function of
the reader takes a token or is one of at most three at a place, so three times the count of tokens
is fuel enough. -/
def Tree.ofTokens? : List Token → Option Tree
  | [] => some { root := .scalar (.ofText none .plain "") }
  | tokens => do
    let fuel := 3 * tokens.length + 3
    let (root, r) ← (Reader.document fuel).run { tokens, handles := Reader.defaultHandles }
    return { root, anchored := latestAnchored r.anchored, aliasLimit := 100 * r.events }

end WaterNetwork.Yaml
