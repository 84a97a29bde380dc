import WaterNetwork.Yaml.Cursor
import WaterNetwork.Yaml.Scalar

/-!
# How texts are written

A text is written as plainly as it can be and still be read as that text: without quotes, between
single quotes, or between double quotes with escapes. A text of several lines becomes a block that
keeps its line breaks, unless spaces or special characters in it forbid that.
-/

namespace WaterNetwork.Yaml

/-! ### What a text allows -/

/-- Characters that need no escape. -/
def isPrintable (c : Char) : Bool :=
  isAllowed c && c != '\t' && c != '\r' && c != '\x85' && c != byteOrderMark

/-- Whether a test accepts some two neighbours in a text. -/
def anyNeighbours (p : Char → Char → Bool) (cs : List Char) : Bool :=
  (cs.zip cs.tail).any fun (a, b) => p a b

/-- Whether a line of a text ends in a space, the last one aside. -/
def hasSpaceBreak : List Char → Bool := anyNeighbours fun a b => a == ' ' && isBreak b

/-- Whether a line of a text starts with a space, the first one aside. -/
def hasBreakSpace : List Char → Bool := anyNeighbours fun a b => isBreak a && b == ' '

/-- Whether a text starts with a mark that separates documents. -/
def startsWithMark (cs : List Char) : Bool :=
  cs.take 3 == "---".toList || cs.take 3 == "...".toList

/-- Whether a text can start without quotes. -/
def canStartPlain : List Char → Bool
  | [] => false
  | c :: rest =>
    c != ' ' && !startsWithMark (c :: rest) &&
      (!isIndicator c || ((c == '-' || c == '?' || c == ':') && rest.head?.any (· != ' ')))

/-- Whether a text can stand without quotes. A colon at the end of a word would make it a key, and
a number sign at the beginning of one would start a comment. -/
def allowsPlain (cs : List Char) : Bool :=
  canStartPlain cs && cs.all (fun c => isPrintable c && !isBreak c) &&
    cs.getLast?.all (fun c => c != ' ' && c != ':') &&
    !anyNeighbours (fun a b => (a == ':' && b == ' ') || (a == ' ' && b == '#')) cs

/-- Whether a text can stand between single quotes. -/
def allowsSingleQuotes (cs : List Char) : Bool :=
  cs.all isPrintable && !hasSpaceBreak cs && !hasBreakSpace cs

/-- Whether a text can stand in a block. -/
def allowsBlock (cs : List Char) : Bool :=
  cs.all isPrintable && !hasSpaceBreak cs && cs.getLast? != some ' '

/-- Whether a text is read as itself when it stands without quotes and any value might stand in
its place. Digits after a superfluous zero are, but other readers take them for a number. -/
def readsAsText (text : String) : Bool :=
  match readPlainContent? text with
  | some (.string _) => !hasLeadingZero text.toList
  | _ => false

/-! ### Forms -/

/-- The forms of a text. -/
inductive Form where
  | plain
  | singleQuoted
  | doubleQuoted
  | block
  deriving DecidableEq

/-- The form in which a text is written. -/
def Form.ofText (text : String) : Form :=
  let cs := text.toList
  if cs.contains '\n' then
    if allowsBlock cs then .block else .doubleQuoted
  else if readsAsText text && allowsPlain cs then .plain
  else if allowsSingleQuotes cs then .singleQuoted
  else .doubleQuoted

/-- The form in which a key is written: it has to stay on one line. -/
def Form.ofKey (text : String) : Form :=
  if text.toList.any isBreak then .doubleQuoted else .ofText text

/-- A character between double quotes. -/
def escape (c : Char) : List Char :=
  if isPrintable c && !isBreak c && c != '"' && c != '\\' then [c]
  else
    match escapes.find? (·.2 == c) with
    | some (letter, _) => ['\\', letter]
    | none =>
      let n := c.toNat
      if n < 0x100 then '\\' :: 'x' :: Number.hexDigits 2 n
      else if n < 0x10000 then '\\' :: 'u' :: Number.hexDigits 4 n
      else '\\' :: 'U' :: Number.hexDigits 8 n

/-- A quote between single quotes is written twice. -/
def doubledQuote (c : Char) : List Char := if c = '\'' then ['\'', '\''] else [c]

/-- A text with an indentation in front of every line that is not empty; the first line is given
one only if the text stands at the beginning of a line. -/
def indentLines (indent : Nat) : Bool → List Char → List Char
  | _, [] => []
  | atStart, c :: rest =>
    if isBreak c then c :: indentLines indent true rest
    else
      let line := c :: indentLines indent false rest
      if atStart then List.replicate indent ' ' ++ line else line

/-- What stands after the sign of a block: the indentation, if it cannot be seen from the first
line, and a mark for what the breaks at the end are. -/
def blockMarks (cs : List Char) : List Char :=
  let indentation := if cs.head?.any (fun c => c == ' ' || isBreak c) then ['2'] else []
  let chomping := match cs.reverse with
    | [] => ['-']
    | [last] => if isBreak last then ['+'] else ['-']
    | last :: previous :: _ =>
      if !isBreak last then ['-'] else if isBreak previous then ['+'] else []
  indentation ++ chomping

/-- A text in a form. The lines after the first one are indented. -/
def Form.write (indent : Nat) (cs : List Char) : Form → List Char
  | plain => cs
  | singleQuoted => '\'' :: indentLines indent false (cs.flatMap doubledQuote ++ ['\''])
  | doubleQuoted => '"' :: cs.flatMap escape ++ ['"']
  | block => '|' :: blockMarks cs ++ '\n' :: indentLines indent true cs

end WaterNetwork.Yaml
