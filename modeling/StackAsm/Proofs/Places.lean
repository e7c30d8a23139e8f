import Mathlib
import StackAsm.Host.FileTree
import StackAsm.Proofs.Outcome

namespace StackAsm.FileTree

theorem entry_eq_ok_iff {tree : FileTree} {directory : List String} {name : String} {node : Node} :
    tree.entry directory name = .ok node ↔
      name.utf8ByteSize ≤ longestName ∧ tree.get? (directory ++ [name]) = some node := by
  rw [entry]
  split
  · simp
    omega
  · cases tree.get? (directory ++ [name]) with
    | none => simp
    | some found =>
        simp
        omega

theorem entry_eq_noEntry_iff {tree : FileTree} {directory : List String} {name : String} :
    tree.entry directory name = .error .noEntry ↔
      name.utf8ByteSize ≤ longestName ∧ tree.get? (directory ++ [name]) = none := by
  rw [entry]
  split
  · simp
    omega
  · cases tree.get? (directory ++ [name]) with
    | none =>
        simp
        omega
    | some found => simp

/-- The place of the file that a path is for, whether or not there is one. A path that ends in a
slash is for no file, nor is one that leads to a directory in another way or ends in a name that is
too long. -/
def fileAt? (tree : FileTree) (working : List String) (path : String) : Option (List String) :=
  match tree.locate working path with
  | .error _ => none
  | .ok place =>
      match place.name? with
      | none => none
      | some name =>
          if place.slash || longestName < name.utf8ByteSize then none else some place.path

theorem fileAt?_eq_some_iff {tree : FileTree} {working location : List String} {path : String} :
    tree.fileAt? working path = some location ↔
      ∃ directory name,
        tree.locate working path = .ok { directory, name? := some name, slash := false } ∧
          name.utf8ByteSize ≤ longestName ∧ location = directory ++ [name] := by
  rw [fileAt?]
  cases tree.locate working path with
  | error error => simp
  | ok place =>
      rcases place with ⟨directory, _ | name, slash⟩
      · simp
      · cases slash <;> simp [Place.path, eq_comm]

theorem ne_nil_of_fileAt? {tree : FileTree} {working location : List String} {path : String}
    (h : tree.fileAt? working path = some location) : location ≠ [] := by
  obtain ⟨directory, name, -, -, rfl⟩ := fileAt?_eq_some_iff.mp h
  exact List.concat_ne_nil _ _

/-- A path is not for any of the files at the places. -/
def Avoids (tree : FileTree) (working : List String) (path : String) (places : Set (List String)) :
    Prop :=
  ∀ location, tree.fileAt? working path = some location → location ∉ places

theorem avoids_singleton_iff {tree : FileTree} {working location : List String} {path : String} :
    tree.Avoids working path {location} ↔ tree.fileAt? working path ≠ some location := by
  constructor
  · intro h hlocation
    exact h location hlocation rfl
  · rintro h _ hlocation rfl
    exact h hlocation

section Operations

variable {tree after : FileTree} {working : List String} {path : String}

theorem at?_eq_file_iff {place : Place} {content : List UInt8} {executable : Bool} :
    tree.at? place = .ok (.file content executable) ↔
      ∃ name, place.name? = some name ∧ place.slash = false ∧
        tree.entry place.directory name = .ok (.file content executable) := by
  rcases place with ⟨directory, _ | name, slash⟩
  · simp [at?]
  · rw [at?]
    cases hentry : tree.entry directory name with
    | error error => simp [hentry]
    | ok node =>
        cases node with
        | directory => simp [hentry]
        | file => cases slash <;> simp [hentry]

theorem at?_eq_directory_iff {place : Place} :
    tree.at? place = .ok .directory ↔
      ∀ name, place.name? = some name → tree.entry place.directory name = .ok .directory := by
  rcases place with ⟨directory, _ | name, slash⟩
  · simp [at?]
  · rw [at?]
    cases hentry : tree.entry directory name with
    | error error => simp [hentry]
    | ok node =>
        cases node with
        | directory => simp [hentry]
        | file => cases slash <;> simp [hentry]

theorem find_eq_file_iff {location : List String} {content : List UInt8} {executable : Bool} :
    tree.find working path = .ok (location, .file content executable) ↔
      tree.fileAt? working path = some location ∧
        tree.get? location = some (.file content executable) := by
  rw [find, fileAt?_eq_some_iff, Outcome.bind_eq_ok_iff]
  constructor
  · rintro ⟨place, hplace, hnode⟩
    obtain ⟨node, hat, hpure⟩ := Outcome.bind_eq_ok_iff.mp hnode
    cases hpure
    obtain ⟨name, hname, hslash, hentry⟩ := at?_eq_file_iff.mp hat
    rcases place with ⟨directory, _, slash⟩
    cases hname
    cases hslash
    obtain ⟨hlength, hget⟩ := entry_eq_ok_iff.mp hentry
    exact ⟨⟨directory, name, hplace, hlength, rfl⟩, hget⟩
  · rintro ⟨⟨directory, name, hplace, hlength, rfl⟩, hget⟩
    refine ⟨_, hplace, Outcome.bind_eq_ok_iff.mpr ⟨_, ?_, rfl⟩⟩
    exact at?_eq_file_iff.mpr ⟨name, rfl, rfl, entry_eq_ok_iff.mpr ⟨hlength, hget⟩⟩

theorem read_eq_ok_iff {content : List UInt8} :
    tree.read working path = .ok content ↔
      ∃ location executable, tree.find working path = .ok (location, .file content executable) := by
  rw [read, Outcome.bind_eq_ok_iff]
  constructor
  · rintro ⟨⟨location, node⟩, hfind, hcontent⟩
    cases node with
    | directory => cases hcontent
    | file found executable =>
        cases hcontent
        exact ⟨location, executable, hfind⟩
  · rintro ⟨location, executable, hfind⟩
    exact ⟨_, hfind, rfl⟩

/-- What a file that is opened for writing holds, if there was the given entry. -/
def opened (change : List UInt8 → List UInt8) : Option Node → Node
  | some (.file content executable) => .file (change content) executable
  | _ => .file [] false

theorem openForWriting_eq_ok_iff {change : List UInt8 → List UInt8} :
    tree.openForWriting working path change = .ok after ↔
      ∃ location, tree.fileAt? working path = some location ∧
        tree.get? location ≠ some .directory ∧
          after = tree.put location (opened change (tree.get? location)) := by
  rw [openForWriting, fileAt?]
  cases tree.locate working path with
  | error error => simp [bind, Except.bind]
  | ok place =>
      rcases place with ⟨directory, _ | name, slash⟩
      · simp [bind, Except.bind]
      · cases slash with
        | true => simp [bind, Except.bind]
        | false =>
            by_cases hlong : longestName < name.utf8ByteSize
            · simp [bind, Except.bind, entry, hlong]
            · cases hget : tree.get? (directory ++ [name]) with
              | none =>
                  simp [bind, Except.bind, pure, Except.pure, entry, hlong, hget, Place.path,
                    opened, eq_comm]
              | some node =>
                  cases node <;>
                    simp [bind, Except.bind, pure, Except.pure, entry, hlong, hget, Place.path,
                      opened, eq_comm]

theorem exists_opened_eq (change : List UInt8 → List UInt8) (node : Option Node) :
    ∃ content executable, opened change node = .file content executable := by
  cases node with
  | none => exact ⟨_, _, rfl⟩
  | some node => cases node <;> exact ⟨_, _, rfl⟩

theorem exists_opened_empty (node : Option Node) :
    ∃ executable, opened (fun _ => []) node = .file [] executable := by
  cases node with
  | none => exact ⟨_, rfl⟩
  | some node => cases node <;> exact ⟨_, rfl⟩

theorem append_eq_of_find {location : List String} {content bytes : List UInt8} {executable : Bool}
    (h : tree.find working path = .ok (location, .file content executable)) :
    tree.append working path bytes = tree.put location (.file (content ++ bytes) executable) := by
  rw [append, h]

theorem append_eq_self
    (h : ∀ location content executable,
      tree.find working path ≠ .ok (location, .file content executable))
    (bytes : List UInt8) : tree.append working path bytes = tree := by
  rw [append]
  split
  case h_1 location content executable hfind => exact absurd hfind (h location content executable)
  case h_2 => rfl

theorem append_cases (tree : FileTree) (working : List String) (path : String)
    (bytes : List UInt8) :
    (∃ location content executable,
      tree.find working path = .ok (location, .file content executable) ∧
        tree.append working path bytes =
          tree.put location (.file (content ++ bytes) executable)) ∨
      tree.append working path bytes = tree := by
  by_cases hfile : ∃ location content executable,
      tree.find working path = .ok (location, .file content executable)
  · obtain ⟨location, content, executable, hfind⟩ := hfile
    exact .inl ⟨location, content, executable, hfind, append_eq_of_find hfind⟩
  · simp only [not_exists] at hfile
    exact .inr (append_eq_self hfile bytes)

theorem rename_eq_ok_iff {newPath : String} :
    tree.rename working path newPath = .ok after ↔
      ∃ source content executable target,
        tree.find working path = .ok (source, .file content executable) ∧
          tree.fileAt? working newPath = some target ∧ tree.get? target ≠ some .directory ∧
            after = (tree.erase source).put target (.file content executable) := by
  simp only [find_eq_file_iff, fileAt?_eq_some_iff, rename, Outcome.bind_eq_ok_iff]
  constructor
  · rintro ⟨⟨directory, name?, slash⟩, hsource, ⟨newDirectory, newName?, newSlash⟩, htarget, h⟩
    cases name? with
    | none => cases h
    | some name =>
        cases newName? with
        | none => cases h
        | some newName =>
            obtain ⟨node, hentry, h⟩ := Outcome.bind_eq_ok_iff.mp h
            cases node with
            | directory => cases h
            | file content executable =>
                obtain ⟨hlength, hget⟩ := entry_eq_ok_iff.mp hentry
                simp only [Bool.or_eq_true] at h
                split at h
                case isTrue => cases h
                case isFalse hslashes =>
                  obtain ⟨rfl, rfl⟩ : slash = false ∧ newSlash = false := by simpa using hslashes
                  refine ⟨directory ++ [name], content, executable, newDirectory ++ [newName],
                    ⟨⟨directory, name, hsource, hlength, rfl⟩, hget⟩, ?_⟩
                  split at h
                  case h_1 => cases h
                  case h_2 hnew =>
                    cases h
                    obtain ⟨hnewLength, hnewGet⟩ := entry_eq_ok_iff.mp hnew
                    exact ⟨⟨_, _, htarget, hnewLength, rfl⟩, by simp [hnewGet], rfl⟩
                  case h_3 hnew =>
                    cases h
                    obtain ⟨hnewLength, hnewGet⟩ := entry_eq_noEntry_iff.mp hnew
                    exact ⟨⟨_, _, htarget, hnewLength, rfl⟩, by simp [hnewGet], rfl⟩
                  case h_4 => cases h
  · rintro ⟨_, content, executable, _, ⟨⟨directory, name, hsource, hlength, rfl⟩, hget⟩,
      ⟨newDirectory, newName, htarget, hnewLength, rfl⟩, hnew, rfl⟩
    refine ⟨_, hsource, _, htarget, ?_⟩
    refine Outcome.bind_eq_ok_iff.mpr ⟨_, entry_eq_ok_iff.mpr ⟨hlength, hget⟩, ?_⟩
    cases hnewGet : tree.get? (newDirectory ++ [newName]) with
    | none => simp [entry_eq_noEntry_iff.mpr ⟨hnewLength, hnewGet⟩, Place.path, pure, Except.pure]
    | some node =>
        cases node with
        | directory => exact absurd hnewGet hnew
        | file => simp [entry_eq_ok_iff.mpr ⟨hnewLength, hnewGet⟩, Place.path, pure, Except.pure]

theorem remove_eq_ok_iff :
    tree.remove working path = .ok after ↔
      ∃ location content executable,
        tree.find working path = .ok (location, .file content executable) ∧
          after = tree.erase location := by
  rw [remove, Outcome.bind_eq_ok_iff]
  constructor
  · rintro ⟨⟨location, node⟩, hfind, hafter⟩
    cases node with
    | directory => cases hafter
    | file content executable =>
        cases hafter
        exact ⟨location, content, executable, hfind, rfl⟩
  · rintro ⟨location, content, executable, hfind, rfl⟩
    exact ⟨_, hfind, rfl⟩

end Operations

theorem enter_eq_ok_iff {tree : FileTree} {directory later : List String} {component : String} :
    tree.enter directory component = .ok later ↔
      (component = "." ∧ later = directory) ∨
        (component = ".." ∧ later = directory.dropLast) ∨
          component ≠ "." ∧ component ≠ ".." ∧
            tree.entry directory component = .ok .directory ∧
              later = directory ++ [component] := by
  rw [enter]
  split
  case isTrue hdot => simp [hdot, eq_comm]
  case isFalse hdot =>
    split
    case isTrue hdots => simp [hdots, eq_comm]
    case isFalse hdots =>
      cases hentry : tree.entry directory component with
      | error error => simp [hdot, hdots]
      | ok node => cases node <;> simp [hdot, hdots, eq_comm]

/-- Where a path begins. -/
def start (working : List String) (path : String) : List String :=
  if path.toList.head? = some '/' then [] else working

/-- The place that a path leads to from the directory which its last name is looked up in. -/
def arrival (path : String) (directory : List String) : Place :=
  let slash := path.toList.getLast? = some '/'
  match (components path).getLast? with
  | none => { directory, name? := none, slash }
  | some last =>
      if last = "." then { directory, name? := none, slash }
      else if last = ".." then { directory := directory.dropLast, name? := none, slash }
      else { directory, name? := some last, slash }

theorem locate_eq_ok_iff {tree : FileTree} {working : List String} {path : String} {place : Place} :
    tree.locate working path = .ok place ↔
      path.isEmpty = false ∧ path.utf8ByteSize < pathLimit ∧
        ∃ directory,
          (components path).dropLast.foldlM tree.enter (start working path) = .ok directory ∧
            place = arrival path directory := by
  rw [locate]
  split
  case isTrue hempty => simp [hempty]
  case isFalse hempty =>
    split
    case isTrue hlong => simp [Nat.not_lt.mpr hlong]
    case isFalse hlong =>
      simp only [hempty, Nat.lt_of_not_le hlong, true_and, start]
      cases (components path).dropLast.foldlM tree.enter _ with
      | error error => simp
      | ok directory =>
          simp only [arrival]
          cases (components path).getLast? with
          | none => simp [eq_comm]
          | some last =>
              by_cases hdot : last = "."
              · simp [hdot, eq_comm]
              · by_cases hdots : last = ".." <;> simp [hdot, hdots, eq_comm]

end StackAsm.FileTree
