/-!
# Files

What is found at a path: the bytes of a file, a directory, or nothing that can be opened.  A
`Folder` is a directory with files and empty directories in it, and looks up paths from there.
-/

namespace FrameCode.CommandLine

/-- What is found at a path. -/
inductive Entry where
  | file (bytes : List UInt8)
  | directory
  | unavailable (reason : String)
  deriving DecidableEq, Repr

namespace Entry

/-- Nothing is there. -/
def missing : Entry := unavailable "No such file or directory (os error 2)"

/-- A file stands where a directory would have to be. -/
def notDirectory : Entry := unavailable "Not a directory (os error 20)"

/-- The name is too long to be there. -/
def tooLong : Entry := unavailable "File name too long (os error 36)"

/-- The text of a file, or why there is none. -/
def text : Entry → Except String String
  | file bytes =>
    match String.fromUTF8? bytes.toByteArray with
    | some s => .ok s
    | none => .error "stream did not contain valid UTF-8"
  | directory => .error "Is a directory (os error 21)"
  | unavailable reason => .error reason

/-- The bytes that can be read once an entry is opened, or why it cannot be.  A directory can be
opened and yields nothing. -/
def opened : Entry → Except String (List UInt8)
  | file bytes => .ok bytes
  | directory => .ok []
  | unavailable reason => .error reason

end Entry

/-- The entries of a directory by name. -/
abbrev Folder := List (String × Entry)

namespace Folder

/-- The number of bytes a name can have. -/
def nameLimit : Nat := 255

/-- The number of bytes a path can have. -/
def pathLimit : Nat := 4095

/-- What is found in a directory under a name that none of its entries has. -/
def absent (name : String) : Entry :=
  if name.utf8ByteSize > nameLimit then .tooLong else .missing

/-- The entry, if it is a directory or does not have to be one. -/
def expect (mustBeDirectory : Bool) : Entry → Entry
  | .file bytes => if mustBeDirectory then .notDirectory else .file bytes
  | entry => entry

/-- The entries that are found outside the folder, by their paths of names from the root. -/
def surroundings : List (List String × Entry) :=
  [([], .directory), (["dev"], .directory), (["dev", "null"], .file []), (["etc"], .directory),
   (["tmp"], .directory), (["usr"], .directory), (["var"], .directory)]

/-- What is found at the end of a path of names from the root. -/
def followOutside (mustBeDirectory : Bool) (names : List String) : Entry :=
  match surroundings.lookup names with
  | some entry => expect mustBeDirectory entry
  | none => names.head?.elim .missing absent

/-- What is found at the end of a path of names.  Directories in the folder are empty, and `..`
leads out of them and out of the folder. -/
def follow (folder : Folder) (mustBeDirectory : Bool) : List String → Entry
  | [] => .directory
  | ".." :: names => if names.all (· == "..") then .directory else .missing
  | name :: names =>
    match folder.lookup name, names with
    | none, _ => absent name
    | some .directory, [] => .directory
    | some .directory, ".." :: names => follow folder mustBeDirectory names
    | some .directory, inner :: _ => absent inner
    | some (.file bytes), [] => expect mustBeDirectory (.file bytes)
    | some (.file _), _ => .notDirectory
    | some (.unavailable reason), _ => .unavailable reason

/-- What is found at a path.  Empty names and `.` stay in place, and at the end of a path they ask
for a directory. -/
def find (folder : Folder) (path : String) : Entry :=
  let names := path.toList.splitOnP (· == '/')
  let stays := fun (name : List Char) => name.isEmpty || name == ['.']
  let mustBeDirectory := names.getLast?.any stays
  let names := (names.filter fun name => !stays name).map String.ofList
  if path.utf8ByteSize > pathLimit then .tooLong
  else if path.toList.head? = some '/' then followOutside mustBeDirectory names
  else follow folder mustBeDirectory names

end Folder

end FrameCode.CommandLine
