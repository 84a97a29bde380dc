/-!
# Paths

A path is kept as it was written; nothing is normalised. Its meaning is the list of its
components: a leading slash is the root, a leading dot the place where one stands, and other
dots and repeated slashes count for nothing. Joining, and taking the directory that holds a
file, work on the text and leave the rest of it alone.
-/

namespace WaterNetwork

/-- A path as it was written. -/
abbrev Path := String

namespace Path

/-- A step of a path. -/
inductive Component where
  | root
  | here
  | above
  | name (text : String)
  deriving DecidableEq

/-! ### Segments -/

/-- Cut a text at every slash. -/
def segments : List Char → List (List Char)
  | [] => [[]]
  | c :: cs =>
    if c = '/' then [] :: segments cs
    else match segments cs with
      | [] => [[c]]
      | s :: rest => (c :: s) :: rest

/-- Put a slash between the segments of a text. -/
def joinSegments : List (List Char) → List Char
  | [] => []
  | [s] => s
  | s :: rest => s ++ '/' :: joinSegments rest

theorem segments_ne_nil (cs : List Char) : segments cs ≠ [] := by
  cases cs with
  | nil => simp [segments]
  | cons c cs =>
    simp only [segments]
    split
    · simp
    · split <;> simp

theorem joinSegments_segments (cs : List Char) : joinSegments (segments cs) = cs := by
  induction cs with
  | nil => rfl
  | cons c cs ih =>
    simp only [segments]
    split
    · rename_i h
      cases hs : segments cs with
      | nil => exact absurd hs (segments_ne_nil cs)
      | cons s rest => rw [hs] at ih; simp [joinSegments, ih, h]
    · cases hs : segments cs with
      | nil => exact absurd hs (segments_ne_nil cs)
      | cons s rest =>
        rw [hs] at ih
        cases rest <;> simp_all [joinSegments]

/-- Segments that stand for no step: the empty one and the dot. -/
def isBlank (segment : List Char) : Bool := segment == [] || segment == ['.']

/-- The step that a segment stands for. -/
def Component.ofSegment? (segment : List Char) : Option Component :=
  if isBlank segment then none
  else if segment = ['.', '.'] then some .above
  else some (.name (String.ofList segment))

/-! ### Head and body -/

/-- A path starts at the root, at the dot that names the current place, or at a name. -/
inductive Head where
  | root
  | here
  | nothing

/-- The text of a head. -/
def Head.chars : Head → List Char
  | .root => ['/']
  | .here => ['.']
  | .nothing => []

/-- The step that a head stands for. -/
def Head.components : Head → List Component
  | .root => [.root]
  | .here => [.here]
  | .nothing => []

/-- Split a path into its head and the segments after it. -/
def split (path : Path) : Head × List (List Char) :=
  match path.toList with
  | '/' :: rest => (.root, segments rest)
  | ['.'] => (.here, [[]])
  | '.' :: '/' :: rest => (.here, segments ('/' :: rest))
  | cs => (.nothing, segments cs)

/-- Whether a path starts at the root. -/
def isAbsolute (path : Path) : Bool := path.toList.head? == some '/'

/-- The steps of a path. -/
def components (path : Path) : List Component :=
  let (head, body) := split path
  head.components ++ body.filterMap Component.ofSegment?

/-! ### Joining and directories -/

/-- Follow `path` from `base`. A rooted path stands for itself. -/
def join (base path : Path) : Path :=
  if isAbsolute path ∨ base = "" then path
  else if base.toList.getLast? = some '/' then base ++ path
  else base ++ "/" ++ path

/-- Leave off the segments at the end that stand for no step. -/
def trimBlank (body : List (List Char)) : List (List Char) :=
  (body.reverse.dropWhile isBlank).reverse

/-- The path without its last step and the slashes and dots around it. The root and the empty
path have no parent, and the parent of the single dot is the empty path. -/
def parent? (path : Path) : Option Path :=
  let (head, body) := split path
  match trimBlank body, head with
  | [], .here => some ""
  | [], _ => none
  | body, head => some (String.ofList (head.chars ++ joinSegments (trimBlank body.dropLast)))

/-- The directory that holds the file at a path. -/
def directory (path : Path) : Path :=
  match parent? path with
  | some "" | none => "."
  | some dir => dir

end Path

end WaterNetwork
