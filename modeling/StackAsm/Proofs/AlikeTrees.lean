import Mathlib
import StackAsm.Proofs.Places

namespace StackAsm.FileTree

/-- Trees that differ at most in their files, and in these only at certain places. -/
structure AlikeOutside (places : Set (List String)) (tree other : FileTree) : Prop where
  directories : ∀ path, other.get? path = some .directory ↔ tree.get? path = some .directory
  elsewhere : ∀ path, path ∉ places → other.get? path = tree.get? path

namespace AlikeOutside

variable {places : Set (List String)} {tree other third : FileTree}

@[refl]
theorem refl (places : Set (List String)) (tree : FileTree) : AlikeOutside places tree tree :=
  ⟨fun _ => Iff.rfl, fun _ _ => rfl⟩

theorem symm (h : AlikeOutside places tree other) : AlikeOutside places other tree :=
  ⟨fun path => (h.directories path).symm, fun path hpath => (h.elsewhere path hpath).symm⟩

theorem trans (h : AlikeOutside places tree other) (hnext : AlikeOutside places other third) :
    AlikeOutside places tree third :=
  ⟨fun path => (hnext.directories path).trans (h.directories path),
    fun path hpath => (hnext.elsewhere path hpath).trans (h.elsewhere path hpath)⟩

theorem mono {more : Set (List String)} (h : AlikeOutside places tree other)
    (hmore : places ⊆ more) : AlikeOutside more tree other :=
  ⟨h.directories, fun path hpath => h.elsewhere path fun hmem => hpath (hmore hmem)⟩

section Changes

variable {location : List String} (hroot : location ≠ [])
  (hfile : tree.get? location ≠ some .directory)
include hroot hfile

theorem put (content : List UInt8) (executable : Bool) :
    AlikeOutside {location} tree (tree.put location (.file content executable)) := by
  constructor
  · intro path
    rw [get?_put _ _ _ hroot]
    split
    case isTrue hpath => simp [hpath, hfile]
    case isFalse => rfl
  · intro path hpath
    rw [get?_put _ _ _ hroot, if_neg (Set.mem_singleton_iff.not.mp hpath)]

theorem erase : AlikeOutside {location} tree (tree.erase location) := by
  constructor
  · intro path
    rw [get?_erase _ _ hroot]
    split
    case isTrue hpath => simp [hpath, hfile]
    case isFalse => rfl
  · intro path hpath
    rw [get?_erase _ _ hroot, if_neg (Set.mem_singleton_iff.not.mp hpath)]

end Changes

section Paths

variable (h : AlikeOutside places tree other)
include h

theorem enter_eq_ok_iff {directory later : List String} {component : String} :
    other.enter directory component = .ok later ↔ tree.enter directory component = .ok later := by
  simp only [FileTree.enter_eq_ok_iff, entry_eq_ok_iff, h.directories]

theorem walk_eq_ok_iff {names directory later : List String} :
    names.foldlM other.enter directory = .ok later ↔
      names.foldlM tree.enter directory = .ok later := by
  induction names generalizing directory with
  | nil => rfl
  | cons name names ih =>
      simp only [List.foldlM_cons, Outcome.bind_eq_ok_iff, h.enter_eq_ok_iff, ih]

theorem locate_eq_ok_iff {working : List String} {path : String} {place : Place} :
    other.locate working path = .ok place ↔ tree.locate working path = .ok place := by
  simp only [FileTree.locate_eq_ok_iff, h.walk_eq_ok_iff]

theorem fileAt?_eq (working : List String) (path : String) :
    other.fileAt? working path = tree.fileAt? working path := by
  ext location
  simp only [fileAt?_eq_some_iff, h.locate_eq_ok_iff]

theorem find_eq_file_iff {working location : List String} {path : String}
    (hlocation : location ∉ places) {content : List UInt8} {executable : Bool} :
    other.find working path = .ok (location, .file content executable) ↔
      tree.find working path = .ok (location, .file content executable) := by
  rw [FileTree.find_eq_file_iff, FileTree.find_eq_file_iff, h.fileAt?_eq,
    h.elsewhere location hlocation]

theorem find_eq_directory_iff {working location : List String} {path : String} :
    other.find working path = .ok (location, .directory) ↔
      tree.find working path = .ok (location, .directory) := by
  have hat (place : Place) :
      other.at? place = .ok .directory ↔ tree.at? place = .ok .directory := by
    simp only [at?_eq_directory_iff, entry_eq_ok_iff, h.directories]
  simp only [find, Outcome.bind_eq_ok_iff, h.locate_eq_ok_iff]
  constructor
  · rintro ⟨place, hplace, node, hnode, hend⟩
    cases hend
    exact ⟨place, hplace, _, (hat place).mp hnode, rfl⟩
  · rintro ⟨place, hplace, node, hnode, hend⟩
    cases hend
    exact ⟨place, hplace, _, (hat place).mpr hnode, rfl⟩

theorem at?_eq {place : Place} (hplace : place.path ∉ places) :
    other.at? place = tree.at? place := by
  rcases place with ⟨directory, _ | name, slash⟩
  · rfl
  · have hget := h.elsewhere _ hplace
    simp only [Place.path, Option.toList_some] at hget
    simp only [at?, entry, hget]

end Paths

end AlikeOutside

section Results

variable {tree after : FileTree} {working location : List String} {path : String}

theorem find_put (h : tree.fileAt? working path = some location)
    (hnode : tree.get? location ≠ some .directory) (content : List UInt8) (executable : Bool) :
    (tree.put location (.file content executable)).find working path =
      .ok (location, .file content executable) := by
  have hroot := ne_nil_of_fileAt? h
  rw [find_eq_file_iff, (AlikeOutside.put hroot hnode content executable).fileAt?_eq, h,
    get?_put _ _ _ hroot, if_pos rfl]
  exact ⟨rfl, rfl⟩

theorem find_of_openForWriting {change : List UInt8 → List UInt8}
    (h : tree.openForWriting working path change = .ok after) :
    ∃ location, after.find working path = .ok (location, opened change (tree.get? location)) := by
  obtain ⟨location, hlocation, hnode, rfl⟩ := openForWriting_eq_ok_iff.mp h
  obtain ⟨content, executable, hopened⟩ := exists_opened_eq change (tree.get? location)
  refine ⟨location, ?_⟩
  rw [hopened]
  exact find_put hlocation hnode content executable

theorem find_append {content : List UInt8} {executable : Bool}
    (h : tree.find working path = .ok (location, .file content executable)) (bytes : List UInt8) :
    (tree.append working path bytes).find working path =
      .ok (location, .file (content ++ bytes) executable) := by
  obtain ⟨hlocation, hget⟩ := find_eq_file_iff.mp h
  rw [append_eq_of_find h]
  exact find_put hlocation (by simp [hget]) _ _

theorem find_eq_noEntry_iff_of_fileAt? (h : tree.fileAt? working path = some location) :
    tree.find working path = .error .noEntry ↔ tree.get? location = none := by
  obtain ⟨directory, name, hlocate, hlength, rfl⟩ := fileAt?_eq_some_iff.mp h
  rw [find, hlocate]
  cases hget : tree.get? (directory ++ [name]) with
  | none => simp [at?, entry_eq_noEntry_iff.mpr ⟨hlength, hget⟩, bind, Except.bind]
  | some node =>
      cases node <;>
        simp [at?, entry_eq_ok_iff.mpr ⟨hlength, hget⟩, bind, Except.bind, pure, Except.pure]

theorem find_eq_noEntry_of_remove (h : tree.remove working path = .ok after) :
    after.find working path = .error .noEntry := by
  obtain ⟨location, content, executable, hfind, rfl⟩ := remove_eq_ok_iff.mp h
  obtain ⟨hlocation, hget⟩ := find_eq_file_iff.mp hfind
  have hroot := ne_nil_of_fileAt? hlocation
  have hfile : tree.get? location ≠ some .directory := by simp [hget]
  have herased := AlikeOutside.erase hroot hfile
  rw [find_eq_noEntry_iff_of_fileAt? ((herased.fileAt?_eq working path).trans hlocation),
    get?_erase _ _ hroot, if_pos rfl]

end Results

namespace AlikeOutside

variable {places : Set (List String)} {tree other after : FileTree} {working : List String}
  {path : String} (h : AlikeOutside places tree other)
include h

theorem put_both {location : List String} (hroot : location ≠ []) (node : Node) :
    AlikeOutside places (tree.put location node) (other.put location node) := by
  constructor
  · intro place
    rw [get?_put _ _ _ hroot, get?_put _ _ _ hroot]
    split
    case isTrue => rfl
    case isFalse => exact h.directories place
  · intro place hplace
    rw [get?_put _ _ _ hroot, get?_put _ _ _ hroot, h.elsewhere place hplace]

theorem erase_both {location : List String} (hroot : location ≠ []) :
    AlikeOutside places (tree.erase location) (other.erase location) := by
  constructor
  · intro place
    rw [get?_erase _ _ hroot, get?_erase _ _ hroot]
    split
    case isTrue => rfl
    case isFalse => exact h.directories place
  · intro place hplace
    rw [get?_erase _ _ hroot, get?_erase _ _ hroot, h.elsewhere place hplace]

theorem avoids_iff {more : Set (List String)} :
    other.Avoids working path more ↔ tree.Avoids working path more := by
  rw [Avoids, Avoids, h.fileAt?_eq]

section Visible

variable (hpath : tree.Avoids working path places)
include hpath

theorem find_of_find {found : List String × Node} (hfind : tree.find working path = .ok found) :
    other.find working path = .ok found := by
  rcases found with ⟨location, node⟩
  cases node with
  | file content executable =>
      have hlocation := hpath location (FileTree.find_eq_file_iff.mp hfind).1
      exact (h.find_eq_file_iff hlocation).mpr hfind
  | directory => exact h.find_eq_directory_iff.mpr hfind

theorem find_eq_ok_iff {found : List String × Node} :
    other.find working path = .ok found ↔ tree.find working path = .ok found :=
  ⟨h.symm.find_of_find (h.avoids_iff.mpr hpath), h.find_of_find hpath⟩

theorem append_both (bytes : List UInt8) :
    AlikeOutside places (tree.append working path bytes) (other.append working path bytes) := by
  by_cases hfile : ∃ location content executable,
      tree.find working path = .ok (location, .file content executable)
  · obtain ⟨location, content, executable, hfind⟩ := hfile
    rw [append_eq_of_find hfind, append_eq_of_find (h.find_of_find hpath hfind)]
    exact h.put_both (ne_nil_of_fileAt? (FileTree.find_eq_file_iff.mp hfind).1) _
  · simp only [not_exists] at hfile
    rw [append_eq_self hfile, append_eq_self]
    · exact h
    · intro location content executable hfind
      exact hfile _ _ _ (h.symm.find_of_find (h.avoids_iff.mpr hpath) hfind)

theorem openForWriting_of_openForWriting {change : List UInt8 → List UInt8}
    (hopen : tree.openForWriting working path change = .ok after) :
    ∃ changed, other.openForWriting working path change = .ok changed ∧
      AlikeOutside places after changed := by
  obtain ⟨location, hlocation, hnode, rfl⟩ := openForWriting_eq_ok_iff.mp hopen
  refine ⟨_, openForWriting_eq_ok_iff.mpr ⟨location, ?_, ?_, rfl⟩, ?_⟩
  · rw [h.fileAt?_eq, hlocation]
  · exact mt (h.directories location).mp hnode
  · rw [h.elsewhere location (hpath location hlocation)]
    exact h.put_both (ne_nil_of_fileAt? hlocation) _

theorem remove_of_remove (hremove : tree.remove working path = .ok after) :
    ∃ changed, other.remove working path = .ok changed ∧ AlikeOutside places after changed := by
  obtain ⟨location, content, executable, hfind, rfl⟩ := remove_eq_ok_iff.mp hremove
  have hotherFind := h.find_of_find hpath hfind
  refine ⟨_, remove_eq_ok_iff.mpr ⟨location, content, executable, hotherFind, rfl⟩, ?_⟩
  exact h.erase_both (ne_nil_of_fileAt? (FileTree.find_eq_file_iff.mp hfind).1)

theorem rename_of_rename {newPath : String}
    (hrename : tree.rename working path newPath = .ok after) :
    ∃ changed, other.rename working path newPath = .ok changed ∧
      AlikeOutside places after changed := by
  obtain ⟨source, content, executable, target, hfind, htarget, hnode, rfl⟩ :=
    rename_eq_ok_iff.mp hrename
  refine ⟨_, rename_eq_ok_iff.mpr ⟨source, content, executable, target, h.find_of_find hpath hfind,
    ?_, mt (h.directories target).mp hnode, rfl⟩, ?_⟩
  · rw [h.fileAt?_eq, htarget]
  · exact (h.erase_both (ne_nil_of_fileAt? (FileTree.find_eq_file_iff.mp hfind).1)).put_both
      (ne_nil_of_fileAt? htarget) _

end Visible

end AlikeOutside

end StackAsm.FileTree
