import WaterNetwork.Yaml.Token.Directive
import WaterNetwork.Yaml.Token.Scalar

/-!
# Reading YAML tokens

The tokens of a text are read one after the other. What makes this more than a division of the
text is that a key of a mapping need not be marked: a scalar, an alias or a collection turns out
to be a key only when a colon follows on the same line. Such a token is therefore remembered as a
possible key, one for each level of brackets, and the tokens that mark it are put in front of it
when the colon comes. Indentation is kept as a stack of columns.
-/

namespace WaterNetwork.Yaml

/-- A place where a key may turn out to have started. -/
structure PossibleKey where
  /-- How many tokens stand before it. -/
  position : Nat
  offset : Nat
  line : Nat
  column : Nat
  /-- Nothing but a key can stand at the indentation of a block. -/
  required : Bool

/-- How far a text has been divided into tokens. -/
structure Reading where
  cursor : Cursor
  tokens : Array Token := #[]
  /-- The indentation of the innermost block; `-1` outside of blocks. -/
  indent : Int := -1
  /-- The indentations of the blocks around it. -/
  outer : List Int := []
  /-- How many brackets are open. -/
  flow : Nat := 0
  /-- Whether a key may start here without a mark. -/
  keyAllowed : Bool := true
  /-- The possible key of each level of brackets, the innermost first. -/
  keys : List (Option PossibleKey) := [none]

namespace Reading

/-- Whether a bracket is open. -/
def inFlow (r : Reading) : Bool := r.flow != 0

/-- Add a token and go on behind it. -/
def emit (r : Reading) (token : Token) (c : Cursor) : Reading :=
  { r with tokens := r.tokens.push token, cursor := c }

/-- Add a token that a number of characters make up. -/
def emitMark (r : Reading) (token : Token) (length : Nat) : Reading :=
  r.emit token (r.cursor.advance length)

/-! ### Possible keys -/

/-- Whether a possible key is too far away: a key stays on one line and within
1024 bytes. -/
def isStale (r : Reading) (k : PossibleKey) : Bool :=
  k.line < r.cursor.line || k.offset + 1024 < r.cursor.offset

/-- Give up possible keys that are too far away, unless one of them was required. -/
def dropStale? (r : Reading) : Option Reading := do
  let keys ← r.keys.mapM fun key? =>
    match key? with
    | some k => if r.isStale k then (if k.required then none else some none) else some (some k)
    | none => some none
  return { r with keys }

/-- Give up the possible key of this level, unless it was required. -/
def dropKey? (r : Reading) : Option Reading :=
  match r.keys with
  | some k :: rest => if k.required then none else some { r with keys := none :: rest }
  | _ => some r

/-- Remember that a key may start here. -/
def rememberKey? (r : Reading) : Option Reading :=
  if r.keyAllowed then do
    let r ← r.dropKey?
    let c := r.cursor
    let key : PossibleKey := {
      position := r.tokens.size
      offset := c.offset
      line := c.line
      column := c.column
      required := !r.inFlow && r.indent == c.column }
    return { r with keys := some key :: r.keys.drop 1 }
  else some r

/-! ### Indentation -/

/-- Begin a block at a column, unless one has begun there; its token is put at a position. -/
def openBlock (r : Reading) (column : Nat) (position : Nat) (token : Token) : Reading :=
  if !r.inFlow && r.indent < column then
    { r with
      indent := column
      outer := r.indent :: r.outer
      tokens := r.tokens.insertIdxIfInBounds position token }
  else r

/-- End the blocks that are indented by more than a column. -/
def closeBlocks (r : Reading) (column : Int) : Reading :=
  if r.inFlow then r
  else
    let rec close (indent : Int) (tokens : Array Token) : List Int → Int × List Int × Array Token
      | [] => (indent, [], tokens)
      | next :: outer =>
        if indent > column then close next (tokens.push .blockEnd) outer
        else (indent, next :: outer, tokens)
    let (indent, outer, tokens) := close r.indent r.tokens r.outer
    { r with indent, outer, tokens }

/-! ### Tokens -/

/-- Pass over blanks, comments and line breaks. Where a key may start, a tab is no blank. -/
def skipToToken (r : Reading) : Nat → Reading
  | 0 => r
  | fuel + 1 =>
    let c := r.cursor
    let c := if c.column == 0 && c.isAt 0 byteOrderMark then c.advance 1 else c
    let c := c.skipWhile fun x => x == ' ' || ((r.inFlow || !r.keyAllowed) && x == '\t')
    let c := if c.isAt 0 '#' then c.skipWhile fun _ => true else c
    match c.readBreak? with
    | some (_, c) =>
      { r with cursor := c, keyAllowed := r.keyAllowed || !r.inFlow }.skipToToken fuel
    | none => { r with cursor := c }

/-- End all blocks before a mark that concerns whole documents. -/
def leaveBlocks? (r : Reading) : Option Reading := do
  let r ← (r.closeBlocks (-1)).dropKey?
  return { r with keyAllowed := false }

/-- Read an opening bracket. -/
def openFlow? (r : Reading) (token : Token) : Option Reading := do
  let r ← r.rememberKey?
  return { r.emitMark token 1 with keys := none :: r.keys, flow := r.flow + 1, keyAllowed := true }

/-- Read a closing bracket. -/
def closeFlow? (r : Reading) (token : Token) : Option Reading := do
  let r ← r.dropKey?
  let r := if r.inFlow then { r with flow := r.flow - 1, keys := r.keys.drop 1 } else r
  return { r.emitMark token 1 with keyAllowed := false }

/-- Read the mark of an item or of a key, which begins a block of its own outside of brackets. -/
def readBlockMark? (r : Reading) (start token : Token) (keyAllowed : Bool) : Option Reading := do
  if !r.inFlow && !r.keyAllowed then none
  let r ← (r.openBlock r.cursor.column r.tokens.size start).dropKey?
  return { r.emitMark token 1 with keyAllowed }

/-- Read a colon. If a key may have started on this level, it has: the tokens that mark it are put
in front of it. -/
def readColon? (r : Reading) : Option Reading :=
  match r.keys with
  | some k :: rest =>
    let r := { r with keys := none :: rest, tokens := r.tokens.insertIdxIfInBounds k.position .key }
    let r := r.openBlock k.column k.position .blockMappingStart
    some { r.emitMark .value 1 with keyAllowed := false }
  | _ =>
    if r.inFlow then some { r.emitMark .value 1 with keyAllowed := false }
    else if r.keyAllowed then
      let r := r.openBlock r.cursor.column r.tokens.size .blockMappingStart
      some { r.emitMark .value 1 with keyAllowed := true }
    else none

/-- Read a token that may be a key, and has a reader of its own. -/
def readKeyLike? (r : Reading) (read? : Cursor → Option (Token × Cursor)) : Option Reading := do
  let r ← r.rememberKey?
  let (token, c) ← read? r.cursor
  return { r.emit token c with keyAllowed := false }

/-- Read a block scalar. -/
def readBlockScalar? (r : Reading) (style : ScalarStyle) : Option Reading := do
  let r ← r.dropKey?
  let (text, c) ← readBlock? (style == .literal) r.indent r.cursor
  return { r.emit (.scalar style text) c with keyAllowed := true }

/-- Read a plain scalar. If it was left on a new line, a key may start there. -/
def readPlainScalar? (r : Reading) : Option Reading := do
  let r ← r.rememberKey?
  let (text, broken, c) ← readPlain? r.inFlow (r.indent + 1).toNat r.cursor
  return { r.emit (.scalar .plain text) c with keyAllowed := broken }

/-- Whether a plain scalar can start here. -/
def startsPlain (r : Reading) (x : Char) : Bool :=
  let c := r.cursor
  !(isBlank x || isBreak x || isIndicator x) ||
    (x == '-' && !(c.at? 1).any isBlank) ||
    (!r.inFlow && (x == '?' || x == ':') && !c.endsWord 1)

/-- Read the token that starts with a character. -/
def readToken? (r : Reading) (x : Char) : Option Reading :=
  let c := r.cursor
  if c.column == 0 && x == '%' then do
    let r ← r.leaveBlocks?
    let (token, c) ← readDirective? r.cursor
    return r.emit token c
  else if c.atDocumentMark '-' then do return (← r.leaveBlocks?).emitMark .documentStart 3
  else if c.atDocumentMark '.' then do return (← r.leaveBlocks?).emitMark .documentEnd 3
  else
    match x with
    | '[' => r.openFlow? .flowSequenceStart
    | '\x7b' => r.openFlow? .flowMappingStart
    | ']' => r.closeFlow? .flowSequenceEnd
    | '\x7d' => r.closeFlow? .flowMappingEnd
    | ',' => do return { (← r.dropKey?).emitMark .flowEntry 1 with keyAllowed := true }
    | '*' => r.readKeyLike? fun c => do
      let (name, c) ← readAnchorName? (c.advance 1)
      return (.alias name, c)
    | '&' => r.readKeyLike? fun c => do
      let (name, c) ← readAnchorName? (c.advance 1)
      return (.anchor name, c)
    | '!' => r.readKeyLike? (readTag? r.inFlow)
    | '\'' | '"' => r.readKeyLike? fun c => do
      let (text, c) ← readQuoted? x c
      return (.scalar .quoted text, c)
    | _ =>
      if x == '-' && c.endsWord 1 then r.readBlockMark? .blockSequenceStart .blockEntry true
      else if x == '?' && (r.inFlow || c.endsWord 1) then
        r.readBlockMark? .blockMappingStart .key !r.inFlow
      else if x == ':' && (r.inFlow || c.endsWord 1) then r.readColon?
      else if x == '|' && !r.inFlow then r.readBlockScalar? .literal
      else if x == '>' && !r.inFlow then r.readBlockScalar? .folded
      else if r.startsPlain x then r.readPlainScalar?
      else none

/-- End all blocks at the end of the text. -/
def finish? (r : Reading) : Option (Array Token) := do
  let r ← (r.closeBlocks (-1)).dropKey?
  return r.tokens

/-- Read token after token to the end of the text. -/
def run? : Nat → Reading → Option (Array Token)
  | 0, _ => none
  | fuel + 1, r => do
    let r ← (r.skipToToken (r.cursor.rest.length + 1)).dropStale?
    let r := r.closeBlocks r.cursor.column
    match r.cursor.at? 0 with
    | none => r.finish?
    | some x => run? fuel (← r.readToken? x)

end Reading

/-- The tokens of a text, unless it is not well formed or holds a character that must not stand in
it. Every token but the last takes a character, so the length of the text is fuel enough. -/
def Token.ofText? (text : String) : Option (List Token) :=
  let cs := text.toList
  if cs.all isAllowed then
    (Reading.run? (cs.length + 1) { cursor := { rest := cs } }).map Array.toList
  else none

end WaterNetwork.Yaml
