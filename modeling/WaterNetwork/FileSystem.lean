import WaterNetwork.Path

/-!
# File systems

A file system is a value: the entries it holds, each under the names that lead to it from the
root, and the directory in which relative paths start. Paths are followed step by step as they
are written, so a slash or a dot after the name of a plain file is a fault and not ignored.
Changes return a new file system.
-/

namespace WaterNetwork

/-- What stands at a place of a file system. -/
inductive FileEntry where
  | directory
  /-- A directory that may not be entered. -/
  | closed
  | file (bytes : ByteArray)
  /-- A link that leads back to itself. -/
  | loop
  /-- Something that can be opened and written but is neither: it reads as empty and swallows
  what is written to it. -/
  | device

/-- A file system. -/
structure FileSystem where
  /-- The entries with the names that lead to them; a directory is listed before its contents. -/
  entries : List (List String × FileEntry)
  /-- Where relative paths start. -/
  current : List String

/-- Why a file operation fails. -/
inductive FileFault where
  | notFound
  | noPermission
  | notADirectory
  | isADirectory
  | directoryNotEmpty
  /-- A name of more than 255 bytes or a path of more than 4095. -/
  | nameTooLong
  | linkLoop
  | nulInPath
  | notUnicode
  deriving DecidableEq

namespace FileFault

/-- The wording of a fault. -/
def message : FileFault → String
  | notFound => "No such file or directory (os error 2)"
  | noPermission => "Permission denied (os error 13)"
  | notADirectory => "Not a directory (os error 20)"
  | isADirectory => "Is a directory (os error 21)"
  | directoryNotEmpty => "Directory not empty (os error 39)"
  | nameTooLong => "File name too long (os error 36)"
  | linkLoop => "Too many levels of symbolic links (os error 40)"
  | nulInPath => "file name contained an unexpected NUL byte"
  | notUnicode => "stream did not contain valid UTF-8"

/-- The class of a fault, in words. -/
def kindText : FileFault → String
  | notFound => "entity not found"
  | noPermission => "permission denied"
  | notADirectory => "not a directory"
  | isADirectory => "is a directory"
  | directoryNotEmpty => "directory not empty"
  | nameTooLong => "invalid filename"
  | linkLoop => "filesystem loop or indirection limit (e.g. symlink loop)"
  | nulInPath => "invalid input parameter"
  | notUnicode => "invalid data"

end FileFault

namespace FileSystem

/-! ### Looking up -/

/-- The entry at the end of a list of names. -/
def entry? (fs : FileSystem) (place : List String) : Option FileEntry := fs.entries.lookup place

/-- A path is refused before it is followed if it is empty, too long or holds a NUL. -/
def checkPath (path : Path) : Except FileFault Unit :=
  if path.toList.contains '\x00' then .error .nulInPath
  else if path.utf8ByteSize > 4095 then .error .nameTooLong
  else if path = "" then .error .notFound
  else .ok ()

/-- Take one step from a place. Only a directory that may be entered can be left, and the root has
itself above. -/
def step (fs : FileSystem) (place : List String) (segment : List Char) :
    Except FileFault (List String) :=
  match fs.entry? place with
  | none => .error .notFound
  | some (.file _) | some .device => .error .notADirectory
  | some .loop => .error .linkLoop
  | some .closed => if segment = [] then .ok place else .error .noPermission
  | some .directory =>
    match Path.Component.ofSegment? segment with
    | some .above => .ok place.dropLast
    | some (.name name) =>
      if name.utf8ByteSize > 255 then .error .nameTooLong
      else if (fs.entry? (place ++ [name])).isSome then .ok (place ++ [name])
      else .error .notFound
    | _ => .ok place

/-- Where a path starts, and its segments. -/
def start (fs : FileSystem) (path : Path) : List String × List (List Char) :=
  match path.toList with
  | '/' :: rest => ([], Path.segments rest)
  | cs => (fs.current, Path.segments cs)

/-- Follow a path to a place. -/
def locate (fs : FileSystem) (path : Path) : Except FileFault (List String) := do
  checkPath path
  let (place, segments) := fs.start path
  segments.foldlM fs.step place

/-- The entry that a path leads to; a link that leads back to itself leads nowhere. -/
def inspect (fs : FileSystem) (path : Path) : Except FileFault FileEntry := do
  let place ← fs.locate path
  match fs.entry? place with
  | some .loop => .error .linkLoop
  | some e => .ok e
  | none => .error .notFound

/-- The bytes that a path leads to. -/
def readBytes (fs : FileSystem) (path : Path) : Except FileFault ByteArray := do
  match ← fs.inspect path with
  | .directory => .error .isADirectory
  | .closed => .error .noPermission
  | .file bytes => .ok bytes
  | .loop => .error .linkLoop
  | .device => .ok ByteArray.empty

/-- The text that a path leads to. -/
def readText (fs : FileSystem) (path : Path) : Except FileFault String := do
  match String.fromUTF8? (← fs.readBytes path) with
  | some text => .ok text
  | none => .error .notUnicode

/-! ### Changing -/

/-- Put an entry at a place, in the stead of one that is there. -/
def put (fs : FileSystem) (place : List String) (e : FileEntry) : FileSystem :=
  { fs with entries := fs.entries.filter (·.1 != place) ++ [(place, e)] }

/-- Where a path would write: the place it leads to, or a new name in an existing directory. A
new file cannot be named with a slash at the end. -/
def locateForWriting (fs : FileSystem) (path : Path) : Except FileFault (List String) := do
  checkPath path
  let (place, segments) := fs.start path
  let ended := segments.reverse.dropWhile (· = [])
  let slashed := segments.getLast? = some []
  match ended with
  | [] => return place
  | last :: before =>
    let holder ← before.reverse.foldlM fs.step place
    match Path.Component.ofSegment? last with
    | some (.name name) =>
      match fs.entry? holder with
      | some .directory =>
        if slashed then .error .isADirectory
        else if name.utf8ByteSize > 255 then .error .nameTooLong
        else return holder ++ [name]
      | some .closed => .error .noPermission
      | some .loop => .error .linkLoop
      | some (.file _) | some .device => .error .notADirectory
      | none => .error .notFound
    | _ => fs.step holder last

/-- Write bytes where a path leads, in the stead of what was there. -/
def writeBytes (fs : FileSystem) (path : Path) (bytes : ByteArray) :
    Except FileFault FileSystem := do
  let place ← fs.locateForWriting path
  match fs.entry? place with
  | some .directory | some .closed => .error .isADirectory
  | some .loop => .error .linkLoop
  | some .device => return fs
  | _ => return fs.put place (.file bytes)

/-- Write a text where a path leads, in the stead of what was there. -/
def writeText (fs : FileSystem) (path : Path) (text : String) : Except FileFault FileSystem :=
  fs.writeBytes path text.toUTF8

/-- Remove the file or the link that a path leads to. -/
def remove (fs : FileSystem) (path : Path) : Except FileFault FileSystem := do
  let place ← fs.locate path
  match fs.entry? place with
  | some .directory | some .closed => .error .isADirectory
  | _ => return { fs with entries := fs.entries.filter (·.1 != place) }

/-- Make the directory at a path and those that lead to it, where they are missing. -/
def makeDirectories (fs : FileSystem) (path : Path) : FileSystem :=
  let (place, segments) := fs.start path
  (segments.foldl
    (fun (fs, place) segment =>
      match Path.Component.ofSegment? segment with
      | some .above => (fs, place.dropLast)
      | some (.name name) =>
        let inner := place ++ [name]
        (if (fs.entry? inner).isSome then fs else fs.put inner .directory, inner)
      | _ => (fs, place))
    (fs, place)).1

/-- A fresh scratch directory, three levels below the root, beside the null device. -/
def scratch : FileSystem where
  entries :=
    [([], .directory), (["dev"], .directory), (["dev", "null"], .device),
     (["work"], .directory), (["work", "run"], .directory),
     (["work", "run", "model"], .directory)]
  current := ["work", "run", "model"]

end FileSystem

end WaterNetwork
