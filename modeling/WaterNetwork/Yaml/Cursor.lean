/-!
# Places in YAML texts

A cursor is a place in a text together with what indentation and the length of keys are measured
by: its line, its column, which counts characters, and its offset, which counts bytes. What
characters are for in a text is said first.
-/

namespace WaterNetwork.Yaml

/-! ### Characters -/

/-- Characters that end a line. -/
def isBreak (c : Char) : Bool :=
  c == '\n' || c == '\r' || c == '\x85' || c == '\u2028' || c == '\u2029'

/-- Characters that separate words on a line. -/
def isBlank (c : Char) : Bool := c == ' ' || c == '\t'

/-- Characters of names: ASCII letters and digits, the hyphen and the underscore. -/
def isNameChar (c : Char) : Bool := c.isAlphanum || c == '-' || c == '_'

/-- Characters that may stand in a text at all. -/
def isAllowed (c : Char) : Bool :=
  let n := c.toNat
  n == 0x09 || n == 0x0a || n == 0x0d || (0x20 ≤ n && n ≤ 0x7e) || n == 0x85 ||
    (0xa0 ≤ n && n ≤ 0xd7ff) || (0xe000 ≤ n && n ≤ 0xfffd) || 0x10000 ≤ n

/-- Characters that begin no plain scalar, or only in front of some others. -/
def isIndicator (x : Char) : Bool :=
  "-?:,[]\x7b\x7d#&*!|>'\"%@\x60".toList.contains x

/-- The mark that may stand in front of a line. -/
def byteOrderMark : Char := '\ufeff'

/-! ### Escapes

Between double quotes a backslash and what follows it stand for one character.
-/

/-- The characters that a single one after a backslash stands for. -/
def escapes : List (Char × Char) :=
  [('0', '\x00'), ('a', '\x07'), ('b', '\x08'), ('t', '\t'), ('\t', '\t'), ('n', '\n'),
    ('v', '\x0b'), ('f', '\x0c'), ('r', '\r'), ('e', '\x1b'), (' ', ' '), ('"', '"'), ('/', '/'),
    ('\\', '\\'), ('N', '\x85'), ('_', '\xa0'), ('L', '\u2028'), ('P', '\u2029')]

/-- The letters after which a character is written by its number, and how many hexadecimal digits
the number has then. -/
def escapeLengths : List (Char × Nat) := [('x', 2), ('u', 4), ('U', 8)]

/-! ### Cursors -/

/-- A place in a text. -/
structure Cursor where
  /-- The text from here on. -/
  rest : List Char
  /-- How many bytes stand before. -/
  offset : Nat := 0
  line : Nat := 0
  column : Nat := 0

namespace Cursor

/-- The character some places further on. -/
def at? (c : Cursor) (n : Nat) : Option Char := c.rest[n]?

/-- Whether a given character stands some places further on. -/
def isAt (c : Cursor) (n : Nat) (x : Char) : Bool := c.at? n == some x

/-- Whether a word ends some places further on: at a blank, a break or the end of the text. -/
def endsWord (c : Cursor) (n : Nat) : Bool := (c.at? n).all fun x => isBlank x || isBreak x

/-- Whether the text ends here. -/
def atEnd (c : Cursor) : Bool := c.rest.isEmpty

/-- How many bytes characters take. -/
def byteLength (xs : List Char) : Nat := (String.ofList xs).utf8ByteSize

/-- Go on along a line by some characters. -/
def advance (c : Cursor) (n : Nat) : Cursor :=
  { c with
    rest := c.rest.drop n
    offset := c.offset + byteLength (c.rest.take n)
    column := c.column + n }

/-- Take the characters of a line that a test accepts. -/
def span (c : Cursor) (p : Char → Bool) : List Char × Cursor :=
  let taken := c.rest.takeWhile fun x => p x && !isBreak x
  (taken, c.advance taken.length)

/-- Pass over the characters of a line that a test accepts. -/
def skipWhile (c : Cursor) (p : Char → Bool) : Cursor := (c.span p).2

/-- Go to the beginning of the next line, if a line ends here. The two characters of one break
count as one; most breaks are read as a line feed. -/
def readBreak? (c : Cursor) : Option (Char × Cursor) :=
  match c.rest with
  | '\r' :: '\n' :: rest => some ('\n', { rest, offset := c.offset + 2, line := c.line + 1 })
  | x :: rest =>
    if isBreak x then
      let read := if x = '\u2028' ∨ x = '\u2029' then x else '\n'
      some (read, { rest, offset := c.offset + x.utf8Size, line := c.line + 1 })
    else none
  | [] => none

/-- Pass over blanks and a comment to the end of the line, which has to come then. -/
def finishLine? (c : Cursor) : Option Cursor :=
  let c := c.skipWhile isBlank
  let c := if c.isAt 0 '#' then c.skipWhile fun _ => true else c
  match c.readBreak? with
  | some (_, c) => some c
  | none => if c.atEnd then some c else none

/-- Whether a line starts here with a mark of three characters that separates documents. -/
def atDocumentMark (c : Cursor) (x : Char) : Bool :=
  c.column == 0 && c.isAt 0 x && c.isAt 1 x && c.isAt 2 x && c.endsWord 3

/-- Whether a document starts or ends here. -/
def atDocumentBoundary (c : Cursor) : Bool := c.atDocumentMark '-' || c.atDocumentMark '.'

end Cursor

end WaterNetwork.Yaml
