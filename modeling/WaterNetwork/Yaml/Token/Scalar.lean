import WaterNetwork.Number.Decimal
import WaterNetwork.Yaml.Cursor

/-!
# Scalars in YAML texts

How plain, quoted and block scalars are read. Line breaks inside plain and quoted scalars are
folded: a single one becomes a space, and of several the first one is dropped.
-/

namespace WaterNetwork.Yaml

/-! ### Gaps between words -/

/-- The blanks and breaks between two words of a scalar. -/
structure Gap where
  /-- The blanks, as long as no line has been broken. -/
  blanks : List Char := []
  broken : Bool := false
  /-- The first break, unless it was escaped. -/
  first : List Char := []
  /-- The breaks after the first one. -/
  more : List Char := []

namespace Gap

/-- What a gap becomes in the value of a scalar. -/
def folded (g : Gap) : List Char :=
  if g.broken then
    if g.first = ['\n'] then
      if g.more.isEmpty then [' '] else g.more
    else g.first ++ g.more
  else g.blanks

/-- Read on in a gap. A tab that stands in the indentation of a new line, before the column
`margin`, is refused. -/
def read? (margin : Nat) : Nat → Gap → Cursor → Option (Gap × Cursor)
  | 0, _, _ => none
  | fuel + 1, g, c =>
    match c.readBreak? with
    | some (b, c) =>
      if g.broken then read? margin fuel { g with more := g.more ++ [b] } c
      else read? margin fuel { broken := true, first := [b] } c
    | none =>
      match c.at? 0 with
      | some x =>
        if isBlank x then
          if g.broken then
            if x = '\t' ∧ c.column < margin then none
            else read? margin fuel g (c.advance 1)
          else read? margin fuel { g with blanks := g.blanks ++ [x] } (c.advance 1)
        else some (g, c)
      | none => some (g, c)

end Gap

/-! ### Plain scalars -/

/-- Characters that end a plain scalar inside brackets. -/
def isFlowMark (x : Char) : Bool :=
  x == ',' || x == '[' || x == ']' || x == '\x7b' || x == '\x7d'

/-- Read a word of a plain scalar. Inside brackets a colon must not stand right before another
mark. -/
def readWord? (inFlow : Bool) : Nat → Cursor → Option (List Char × Cursor)
  | 0, _ => none
  | fuel + 1, c =>
    match c.at? 0 with
    | none => some ([], c)
    | some x =>
      if isBlank x || isBreak x then some ([], c)
      else if inFlow ∧ x = ':' ∧ (c.at? 1).any (fun y => isFlowMark y || y == '?') then none
      else if (x = ':' ∧ c.endsWord 1) ∨ (inFlow ∧ isFlowMark x) then some ([], c)
      else (readWord? inFlow fuel (c.advance 1)).map fun (word, c) => (x :: word, c)

/-- Read the words of a plain scalar, after a gap. Outside of brackets a line that is not
indented to `margin` ends the scalar. Also tells whether the scalar was left on a new line. -/
def readWords? (inFlow : Bool) (margin : Nat) :
    Nat → Gap → Cursor → Option (List Char × Bool × Cursor)
  | 0, _, _ => none
  | fuel + 1, gap, c =>
    if c.atDocumentBoundary || c.isAt 0 '#' then some ([], gap.broken, c)
    else do
      let (word, c) ← readWord? inFlow (c.rest.length + 1) c
      let ended := word.isEmpty
      let chars := if ended then [] else gap.folded ++ word
      let broken := ended && gap.broken
      if c.atEnd || !c.endsWord 0 then
        return (chars, broken, c)
      let (gap, c) ← Gap.read? margin (c.rest.length + 1) {} c
      if !inFlow && c.column < margin then
        return (chars, gap.broken, c)
      let (more, broken, c) ← readWords? inFlow margin fuel gap c
      return (chars ++ more, broken, c)

/-- Read a plain scalar. -/
def readPlain? (inFlow : Bool) (margin : Nat) (c : Cursor) :
    Option (String × Bool × Cursor) :=
  (readWords? inFlow margin (c.rest.length + 1) {} c).map fun (chars, broken, c) =>
    (String.ofList chars, broken, c)

/-! ### Quoted scalars -/

/-- Read an escaped character after its backslash. -/
def readEscape? (c : Cursor) : Option (Char × Cursor) := do
  let x ← c.at? 0
  match escapes.lookup x, escapeLengths.lookup x with
  | some y, _ => return (y, c.advance 1)
  | none, some length =>
    let digits := (c.rest.drop 1).take length
    if digits.length < length then none
    let n ← Number.digitsIn? 16 digits
    if h : n.isValidChar then return (Char.ofNatAux n h, c.advance (1 + length)) else none
  | none, none => none

/-- Read the characters of a quoted scalar up to a blank, a break or the closing quote. Between
double quotes a backslash at the end of a line drops its break, and the reading stops there
too. -/
def readQuotedRun? (quote : Char) : Nat → Cursor → Option (List Char × Bool × Cursor)
  | 0, _ => none
  | fuel + 1, c =>
    match c.at? 0 with
    | none => some ([], false, c)
    | some x =>
      if isBlank x || isBreak x then some ([], false, c)
      else if x = '\'' ∧ quote = '\'' ∧ c.isAt 1 '\'' then
        (readQuotedRun? quote fuel (c.advance 2)).map fun (run, b, c) => ('\'' :: run, b, c)
      else if x = quote then some ([], false, c)
      else if x = '\\' ∧ quote = '"' then
        match (c.advance 1).readBreak? with
        | some (_, c) => some ([], true, c)
        | none => do
          let (y, c) ← readEscape? (c.advance 1)
          let (run, b, c) ← readQuotedRun? quote fuel c
          return (y :: run, b, c)
      else (readQuotedRun? quote fuel (c.advance 1)).map fun (run, b, c) => (x :: run, b, c)

/-- Read a quoted scalar after its opening quote. No document may start or end in it. -/
def readQuotedBody? (quote : Char) : Nat → Cursor → Option (List Char × Cursor)
  | 0, _ => none
  | fuel + 1, c =>
    if c.atDocumentBoundary || c.atEnd then none
    else do
      let (run, broken, c) ← readQuotedRun? quote (c.rest.length + 1) c
      if c.isAt 0 quote then
        return (run, c.advance 1)
      let (gap, c) ← Gap.read? 0 (c.rest.length + 1) { broken } c
      let (more, c) ← readQuotedBody? quote fuel c
      return (run ++ gap.folded ++ more, c)

/-- Read a quoted scalar. -/
def readQuoted? (quote : Char) (c : Cursor) : Option (String × Cursor) :=
  (readQuotedBody? quote (c.rest.length + 1) (c.advance 1)).map fun (chars, c) =>
    (String.ofList chars, c)

/-! ### Block scalars -/

/-- What is kept of the line breaks at the end of a block. -/
inductive Chomping where
  | strip
  | clip
  | keep

/-- Read the marks after the sign of a block scalar: chomping and indentation, in either order. -/
def readBlockMarks? (c : Cursor) : Option (Chomping × Option Nat × Cursor) :=
  let chomping? (c : Cursor) : Option Chomping :=
    if c.isAt 0 '+' then some .keep else if c.isAt 0 '-' then some .strip else none
  let digit? (c : Cursor) : Option Nat :=
    (c.at? 0).bind fun x => if x.isDigit then some (x.toNat - '0'.toNat) else none
  match chomping? c, digit? c with
  | some chomping, _ =>
    match digit? (c.advance 1) with
    | some 0 => none
    | some n => some (chomping, some n, c.advance 2)
    | none => some (chomping, none, c.advance 1)
  | none, some 0 => none
  | none, some n =>
    match chomping? (c.advance 1) with
    | some chomping => some (chomping, some n, c.advance 2)
    | none => some (.clip, some n, c.advance 1)
  | none, none => some (.clip, none, c)

/-- Read the empty lines in front of a line of a block, and the indentation of that line as far as
it goes. Yields the breaks and the greatest column met. -/
def readBlockBreaks? (indent? : Option Nat) :
    Nat → Nat → Cursor → Option (List Char × Nat × Cursor)
  | 0, _, _ => none
  | fuel + 1, deepest, c =>
    let spaces := (c.rest.takeWhile (· == ' ')).length
    let c := c.advance (indent?.elim spaces fun indent => min spaces (indent - c.column))
    let deepest := max deepest c.column
    if c.isAt 0 '\t' ∧ indent?.all (c.column < ·) then none
    else
      match c.readBreak? with
      | some (b, c) =>
        (readBlockBreaks? indent? fuel deepest c).map fun (breaks, deepest, c) =>
          (b :: breaks, deepest, c)
      | none => some ([], deepest, c)

/-- Read the lines of a block: `leading` is the break before the line, `breaks` the empty lines
after that break, and `afterBlank` tells whether the line before started with a blank. Yields
the text and the breaks at its end. -/
def readBlockLines? (literal : Bool) (indent : Nat) :
    Nat → List Char → List Char → Bool → Cursor →
      Option (List Char × List Char × List Char × Cursor)
  | 0, _, _, _, _ => none
  | fuel + 1, leading, breaks, afterBlank, c =>
    if c.column = indent ∧ ¬ c.atEnd then do
      let onBlank := (c.at? 0).any isBlank
      let joint :=
        if !literal && leading == ['\n'] && !afterBlank && !onBlank then
          if breaks.isEmpty then [' '] else breaks
        else leading ++ breaks
      let (line, c) := c.span fun _ => true
      let (leading, c) := match c.readBreak? with
        | some (b, c) => ([b], c)
        | none => ([], c)
      let (breaks, _, c) ← readBlockBreaks? (some indent) (c.rest.length + 1) 0 c
      let (text, leading, breaks, c) ← readBlockLines? literal indent fuel leading breaks onBlank c
      return (joint ++ line ++ text, leading, breaks, c)
    else some ([], leading, breaks, c)

/-- Read a block scalar; `parent` is the indentation around it. -/
def readBlock? (literal : Bool) (parent : Int) (c : Cursor) : Option (String × Cursor) := do
  let (chomping, increment?, c) ← readBlockMarks? (c.advance 1)
  let c ← c.finishLine?
  let given? := increment?.map fun n => parent.toNat + n
  let (breaks, deepest, c) ← readBlockBreaks? given? (c.rest.length + 1) 0 c
  let indent := given?.getD (max deepest (max (parent + 1).toNat 1))
  let (text, leading, breaks, c) ←
    readBlockLines? literal indent (c.rest.length + 1) [] breaks false c
  let tail := match chomping with
    | .strip => []
    | .clip => leading
    | .keep => leading ++ breaks
  return (String.ofList (text ++ tail), c)

end WaterNetwork.Yaml
