/-!
File paths as text: components between slashes, the name of a file and its extension.

A slash at the end and a final component `.` do not count, so `a/b/` and `a/b/.` name the same
entry as `a/b`. A path that is empty, or ends in a root, a leading `.` or a `..`, has no file
name.
-/

namespace StackAsm.Path

/-- Drops the slashes and the single dots after them at the end of a path, which is given with its
last character first. A single dot that begins the path stays. -/
def dropTrailing : List Char → List Char
  | '/' :: cs => dropTrailing cs
  | '.' :: '/' :: cs => dropTrailing ('/' :: cs)
  | cs => cs

/-- A path around its file name: the text is `before ++ name`, and then possibly an end without
effect. -/
structure Parts where
  before : List Char
  name : List Char
  /-- Whether the name is the very end of the text. -/
  ends : Bool
  deriving DecidableEq, Repr

/-- Finds the file name, unless the path has none. -/
def parts? (path : String) : Option Parts :=
  let backwards := path.toList.reverse
  let kept := dropTrailing backwards
  let name := (kept.takeWhile (· != '/')).reverse
  if name = [] ∨ name = ['.'] ∨ name = ['.', '.'] then none
  else
    some
      { before := (kept.dropWhile (· != '/')).reverse
        name
        ends := kept.length = backwards.length }

/-- Splits a file name at its last dot into the stem and the extension. A name whose only dot
comes first has no extension. -/
def splitExtension (name : List Char) : List Char × Option (List Char) :=
  let backwards := name.reverse
  match backwards.dropWhile (· != '.') with
  | '.' :: c :: stem => ((c :: stem).reverse, some (backwards.takeWhile (· != '.')).reverse)
  | _ => (name, none)

/-- The extension of the file name, without its dot. -/
def extension? (path : String) : Option String :=
  (parts? path).bind fun parts => (splitExtension parts.name).2.map String.ofList

/-- The path with another extension, which is added when there was none. A path without a file
name stays as it is. The extension that was there is taken off first; where this leaves the two
dots of a parent directory nothing is put in its place. -/
def withExtension (path extension : String) : String :=
  match parts? path with
  | none => path
  | some { before, name, ends } =>
      match splitExtension name with
      | (_, none) => String.ofList (before ++ name) ++ "." ++ extension
      | (stem, some _) =>
          if stem = ['.'] ∧ ends then String.ofList (before ++ ['.', '.'])
          else String.ofList (before ++ stem) ++ "." ++ extension

end StackAsm.Path
