import StackAsm.Host.SystemError

/-!
File trees: files and directories under absolute paths, and what the operating system does to
them.

An absolute path is the list of the names on the way from the root, so `[]` is the root itself.
Paths that programs use are texts; they are located in the tree first, relative to a working
directory. There are no links, and no permissions but the one to execute a file.
-/

namespace StackAsm

/-- What there is at a path. -/
inductive Node where
  | file (content : List UInt8) (executable : Bool)
  | directory
  deriving DecidableEq, Repr

/-- The entries of a tree by their absolute paths. The root is always a directory. -/
structure FileTree where
  entries : List (List String × Node)
  deriving DecidableEq, Repr

namespace FileTree

/-- A tree with nothing but its root. -/
def empty : FileTree :=
  { entries := [] }

/-- What there is at an absolute path. -/
def get? (tree : FileTree) (path : List String) : Option Node :=
  if path = [] then some .directory
  else (tree.entries.find? (·.1 = path)).map Prod.snd

/-- The tree without the entry at a path. -/
def erase (tree : FileTree) (path : List String) : FileTree :=
  { entries := tree.entries.filter (·.1 ≠ path) }

/-- The tree with another entry at a path. -/
def put (tree : FileTree) (path : List String) (node : Node) : FileTree :=
  { entries := (path, node) :: (tree.erase path).entries }

@[simp]
theorem get?_root (tree : FileTree) : tree.get? [] = some .directory := by
  simp [get?]

/-- Looking in the list of entries after one path has been struck off it. -/
theorem find?_erase (tree : FileTree) (path other : List String) :
    (tree.erase path).entries.find? (·.1 = other) =
      if other = path then none else tree.entries.find? (·.1 = other) := by
  rw [erase, List.find?_filter]
  split
  case isTrue same =>
    subst same
    apply List.find?_eq_none.mpr
    simp
  case isFalse different =>
    congr
    funext entry
    by_cases found : entry.1 = other
    · simp [found, different]
    · simp [found]

theorem get?_erase (tree : FileTree) {path : List String} (other : List String) (h : path ≠ []) :
    (tree.erase path).get? other = if other = path then none else tree.get? other := by
  by_cases root : other = []
  · subst root
    simp [h.symm]
  · simp only [get?, root, if_false, find?_erase]
    split <;> rfl

theorem get?_put (tree : FileTree) {path : List String} (node : Node) (other : List String)
    (h : path ≠ []) :
    (tree.put path node).get? other = if other = path then some node else tree.get? other := by
  by_cases root : other = []
  · subst root
    simp [h.symm]
  · by_cases same : path = other
    · subst same
      simp [get?, put, h]
    · have erased := tree.get?_erase other h
      simp only [get?, root, if_false] at erased
      simp [get?, put, root, same, Ne.symm same, erased]

/-- Makes the directories on a way down from a given one, as far as nothing is there yet. -/
def makeDirectories (tree : FileTree) (above : List String) : List String → FileTree
  | [] => tree
  | name :: names =>
      let directory := above ++ [name]
      let made :=
        match tree.get? directory with
        | some _ => tree
        | none => tree.put directory .directory
      made.makeDirectories directory names

/-- Puts an entry at a path, below directories that are made as needed. -/
def install (tree : FileTree) (path : List String) (node : Node) : FileTree :=
  (tree.makeDirectories [] path.dropLast).put path node

/-- The longest name that an entry can have, in bytes. -/
def longestName : Nat := 255

/-- The length in bytes from which on a path is refused. -/
def pathLimit : Nat := 4096

/-- The place that a path leads to. Its directory exists; an entry of the name need not. -/
structure Place where
  directory : List String
  /-- The last name, unless the path ends at a directory in another way. -/
  name? : Option String
  /-- Whether the path ends in a slash, as only those of directories may. -/
  slash : Bool
  deriving DecidableEq, Repr

/-- The absolute path of a place. -/
def Place.path (place : Place) : List String :=
  place.directory ++ place.name?.toList

/-- The names between the slashes of a path. -/
def components (path : String) : List String :=
  ((path.toList.splitOn '/').filter (!·.isEmpty)).map String.ofList

/-- What there is under a name in a directory. -/
def entry (tree : FileTree) (directory : List String) (name : String) : Except SystemError Node :=
  if longestName < name.utf8ByteSize then .error .nameTooLong
  else
    match tree.get? (directory ++ [name]) with
    | none => .error .noEntry
    | some node => .ok node

/-- Goes from a directory to the one that a component names. -/
def enter (tree : FileTree) (directory : List String) (component : String) :
    Except SystemError (List String) :=
  if component = "." then .ok directory
  else if component = ".." then .ok directory.dropLast
  else
    match tree.entry directory component with
    | .error error => .error error
    | .ok (.file _ _) => .error .notDirectory
    | .ok .directory => .ok (directory ++ [component])

/-- Finds the place that a path leads to from a working directory. All directories on the way must
exist. -/
def locate (tree : FileTree) (working : List String) (path : String) : Except SystemError Place :=
  if path.isEmpty then .error .noEntry
  else if pathLimit ≤ path.utf8ByteSize then .error .nameTooLong
  else
    let start := if path.toList.head? = some '/' then [] else working
    let names := components path
    match names.dropLast.foldlM tree.enter start with
    | .error error => .error error
    | .ok directory =>
        let slash := path.toList.getLast? = some '/'
        match names.getLast? with
        | none => .ok { directory, name? := none, slash }
        | some last =>
            if last = "." then .ok { directory, name? := none, slash }
            else if last = ".." then .ok { directory := directory.dropLast, name? := none, slash }
            else .ok { directory, name? := some last, slash }

def at? (tree : FileTree) (place : Place) : Except SystemError Node :=
  match place.name? with
  | none => .ok .directory
  | some name =>
      match tree.entry place.directory name with
      | .error error => .error error
      | .ok .directory => .ok .directory
      | .ok (.file content executable) =>
          if place.slash then .error .notDirectory else .ok (.file content executable)

/-- What a path leads to, and where that is. -/
def find (tree : FileTree) (working : List String) (path : String) :
    Except SystemError (List String × Node) := do
  let place ← tree.locate working path
  let node ← tree.at? place
  return (place.path, node)

/-- The content of a file. A directory can be found but not read. -/
def read (tree : FileTree) (working : List String) (path : String) :
    Except SystemError (List UInt8) := do
  match ← tree.find working path with
  | (_, .file content _) => return content
  | (_, .directory) => .error .isDirectory

/-- Opens a file for writing, where there is none makes an empty one, and otherwise changes the
content in the given way. -/
def openForWriting (tree : FileTree) (working : List String) (path : String)
    (change : List UInt8 → List UInt8) : Except SystemError FileTree := do
  let place ← tree.locate working path
  match place.name? with
  | none => .error .isDirectory
  | some name =>
      if place.slash then .error .isDirectory
      else
        match tree.entry place.directory name with
        | .error .noEntry => return tree.put place.path (.file [] false)
        | .error error => .error error
        | .ok .directory => .error .isDirectory
        | .ok (.file content executable) =>
            return tree.put place.path (.file (change content) executable)

/-- Adds bytes to a file that is open. If it has been removed meanwhile they are lost. -/
def append (tree : FileTree) (working : List String) (path : String) (bytes : List UInt8) :
    FileTree :=
  match tree.find working path with
  | .ok (location, .file content executable) =>
      tree.put location (.file (content ++ bytes) executable)
  | _ => tree

/-- Gives a file another path. A file that is there is replaced, a directory is not. -/
def rename (tree : FileTree) (working : List String) (path newPath : String) :
    Except SystemError FileTree := do
  let source ← tree.locate working path
  let target ← tree.locate working newPath
  match source.name?, target.name? with
  | some sourceName, some targetName =>
      match ← tree.entry source.directory sourceName with
      | .directory => .error .isDirectory
      | .file content executable =>
          if source.slash || target.slash then .error .notDirectory
          else
            let moved := (tree.erase source.path).put target.path (.file content executable)
            match tree.entry target.directory targetName with
            | .ok .directory => .error .isDirectory
            | .ok (.file _ _) | .error .noEntry => return moved
            | .error error => .error error
  | _, _ => .error .busy

def remove (tree : FileTree) (working : List String) (path : String) :
    Except SystemError FileTree := do
  match ← tree.find working path with
  | (location, .file _ _) => return tree.erase location
  | (_, .directory) => .error .isDirectory

def pathText (path : List String) : String :=
  if path = [] then "/" else String.join (path.map ("/" ++ ·))

end FileTree

end StackAsm
