import Mathlib
import StackAsm.Command.ImageFile
import StackAsm.Proofs.AlikeTrees

/-!
The temporary file of a path beside the path itself. The last name of the path goes on in the name
of its temporary file, so the two are never the same, and one can be made, changed and removed
without a difference to what the other leads to.
-/

namespace StackAsm

namespace FileTree

theorem exists_splitOn_append (text : List Char) :
    ∃ pieces tail, ∀ further, '/' ∉ further →
      (text ++ further).splitOn '/' = pieces ++ [tail ++ further] := by
  induction text with
  | nil =>
      refine ⟨[], [], fun further hfurther => ?_⟩
      exact List.splitOn_eq_singleton hfurther
  | cons c text ih =>
      obtain ⟨pieces, tail, hsplit⟩ := ih
      by_cases hc : c = '/'
      · refine ⟨[] :: pieces, tail, fun further hfurther => ?_⟩
        simp [List.splitOn_cons_eq_if_modifyHead, hc, hsplit further hfurther]
      · cases pieces with
        | nil =>
            refine ⟨[], c :: tail, fun further hfurther => ?_⟩
            simp [List.splitOn_cons_eq_if_modifyHead, hc, hsplit further hfurther]
        | cons piece pieces =>
            refine ⟨(c :: piece) :: pieces, tail, fun further hfurther => ?_⟩
            simp [List.splitOn_cons_eq_if_modifyHead, hc, hsplit further hfurther]

theorem exists_components_temporary (path : String) :
    ∃ folders tail,
      components (ImageFile.temporary path) = folders ++ [tail ++ ".tmp"] ∧
        components path = folders ++ if tail = "" then [] else [tail] := by
  obtain ⟨pieces, tail, hsplit⟩ := exists_splitOn_append path.toList
  refine ⟨(pieces.filter (!·.isEmpty)).map String.ofList, String.ofList tail, ?_, ?_⟩
  · have htemporary := hsplit ".tmp".toList (by decide)
    rw [components, ImageFile.temporary, String.toList_append, htemporary, List.filter_append,
      List.map_append]
    simp
  · have hpath := hsplit [] (by simp)
    rw [components, ← List.append_nil path.toList, hpath, List.filter_append, List.map_append,
      List.append_nil]
    by_cases htail : tail = []
    · simp [htail]
    · simp [htail]

theorem arrival_temporary {path : String} {folders : List String} {tail : String}
    (h : components (ImageFile.temporary path) = folders ++ [tail ++ ".tmp"])
    (directory : List String) :
    arrival (ImageFile.temporary path) directory =
      { directory, name? := some (tail ++ ".tmp"), slash := false } := by
  have hlength : 4 ≤ (tail ++ ".tmp").length := by
    rw [String.length_append]
    exact Nat.le_add_left _ _
  have hdot : tail ++ ".tmp" ≠ "." := by
    intro hdot
    rw [hdot] at hlength
    exact absurd hlength (by decide)
  have hdots : tail ++ ".tmp" ≠ ".." := by
    intro hdots
    rw [hdots] at hlength
    exact absurd hlength (by decide)
  have hslash : (ImageFile.temporary path).toList.getLast? ≠ some '/' := by
    rw [ImageFile.temporary, String.toList_append, List.getLast?_append_of_ne_nil _ (by decide)]
    decide
  simp [arrival, h, hdot, hdots, hslash]

theorem path_arrival_of_enter {tree : FileTree} {path last : String}
    {directory later : List String} (hlast : (components path).getLast? = some last)
    (henter : tree.enter directory last = .ok later) : (arrival path directory).path = later := by
  rw [arrival, hlast]
  rcases enter_eq_ok_iff.mp henter with ⟨rfl, rfl⟩ | ⟨rfl, rfl⟩ | ⟨hdot, hdots, -, rfl⟩
  · simp [Place.path]
  · simp [Place.path]
  · simp [Place.path, hdot, hdots]

theorem start_temporary {path : String} (h : path.isEmpty = false) (working : List String) :
    start working (ImageFile.temporary path) = start working path := by
  have hne : path.toList ≠ [] := by
    intro hnil
    simp_all
  rw [start, start, ImageFile.temporary, String.toList_append, List.head?_append_of_ne_nil _ hne]

/-- The last name of a path to a file goes on in the name of its temporary file, so the two are
never the same. -/
theorem path_arrival_ne {path : String} {folders : List String} {tail : String}
    (h : components path = folders ++ [tail]) (directory : List String) :
    (arrival path directory).path ≠ directory ++ [tail ++ ".tmp"] := by
  have hlonger : tail.length < (tail ++ ".tmp").length := by
    rw [String.length_append]
    exact Nat.lt_add_of_pos_right (by decide)
  have hname : tail ≠ tail ++ ".tmp" :=
    fun hsame => absurd (congrArg String.length hsame) hlonger.ne
  rw [arrival, h, List.getLast?_concat]
  intro hsame
  dsimp only at hsame
  split at hsame
  case isTrue => simp [Place.path] at hsame
  case isFalse =>
    split at hsame
    case isTrue =>
      have hlength := congrArg List.length hsame
      simp [Place.path] at hlength
    case isFalse => simp [Place.path, hname] at hsame

theorem locate_of_temporary {tree : FileTree} {working location : List String} {path : String}
    (h : tree.fileAt? working (ImageFile.temporary path) = some location) :
    path.isEmpty = true ∨
      ∃ place, tree.locate working path = .ok place ∧ place.path ≠ location := by
  obtain ⟨directory, name, hlocate, -, rfl⟩ := fileAt?_eq_some_iff.mp h
  obtain ⟨-, hlength, walked, hwalk, hplace⟩ := locate_eq_ok_iff.mp hlocate
  obtain ⟨folders, tail, htemporary, hpath⟩ := exists_components_temporary path
  rw [arrival_temporary htemporary] at hplace
  obtain ⟨rfl, rfl⟩ : directory = walked ∧ name = tail ++ ".tmp" := by simpa using hplace
  rw [htemporary, List.dropLast_concat] at hwalk
  refine or_iff_not_imp_left.mpr fun hempty => ?_
  have hgiven : path.isEmpty = false := Bool.eq_false_of_not_eq_true hempty
  have hshorter : path.utf8ByteSize < pathLimit := by
    rw [ImageFile.temporary, String.utf8ByteSize_append] at hlength
    omega
  rw [start_temporary hgiven] at hwalk
  obtain ⟨parent, hparent, hne⟩ : ∃ parent,
      (components path).dropLast.foldlM tree.enter (start working path) = .ok parent ∧
        (arrival path parent).path ≠ directory ++ [tail ++ ".tmp"] := by
    -- A path that ends in a slash leads to the very directory that the temporary file is in.
    by_cases htail : tail = ""
    · rw [hpath, if_pos htail, List.append_nil]
      rw [if_pos htail, List.append_nil] at hpath
      rcases List.eq_nil_or_concat folders with rfl | ⟨front, last, rfl⟩
      · exact ⟨directory, hwalk, by simp [arrival, hpath, Place.path]⟩
      · rw [List.concat_eq_append] at hpath hwalk ⊢
        rw [List.foldlM_append, Outcome.bind_eq_ok_iff] at hwalk
        obtain ⟨parent, hparent, hlast⟩ := hwalk
        have henter : tree.enter parent last = .ok directory := by simpa using hlast
        refine ⟨parent, by rwa [List.dropLast_concat], ?_⟩
        rw [path_arrival_of_enter (by rw [hpath, List.getLast?_concat]) henter]
        simp
    · rw [if_neg htail] at hpath
      exact ⟨directory, by rwa [hpath, List.dropLast_concat], path_arrival_ne hpath directory⟩
  exact ⟨_, locate_eq_ok_iff.mpr ⟨hgiven, hshorter, parent, hparent, rfl⟩, hne⟩

theorem fileAt?_ne_of_temporary {tree : FileTree} {working location target : List String}
    {path : String} (h : tree.fileAt? working (ImageFile.temporary path) = some location)
    (hpath : tree.fileAt? working path = some target) : target ≠ location := by
  obtain ⟨directory, name, hlocate, -, rfl⟩ := fileAt?_eq_some_iff.mp hpath
  rcases locate_of_temporary h with hempty | ⟨place, hplace, hne⟩
  · obtain ⟨hgiven, -⟩ := locate_eq_ok_iff.mp hlocate
    simp [hempty] at hgiven
  · rw [hlocate] at hplace
    cases hplace
    exact hne

/-- The trees that a tree can become while at most the temporary file of a path changes. -/
def SetAside (working : List String) (path : String) (tree later : FileTree) : Prop :=
  AlikeOutside {location | tree.fileAt? working (ImageFile.temporary path) = some location}
    tree later

theorem SetAside.find_eq {working : List String} {path : String} {tree later : FileTree}
    (h : SetAside working path tree later) :
    later.find working path = tree.find working path := by
  cases htemporary : tree.fileAt? working (ImageFile.temporary path) with
  | none =>
      have hget : later.get? = tree.get? :=
        funext fun place => h.elsewhere place (by simp [htemporary])
      have henter : later.enter = tree.enter := by
        funext directory component
        rw [enter, enter, entry, entry, hget]
      simp only [find, locate, henter, at?, entry, hget]
  | some location =>
      rcases locate_of_temporary htemporary with hempty | ⟨place, hplace, hne⟩
      · simp [find, locate, hempty, bind, Except.bind]
      · have hat : later.at? place = tree.at? place :=
          h.at?_eq (by simpa [htemporary, eq_comm] using hne)
        simp only [find, h.locate_eq_ok_iff.mpr hplace, hplace, hat, bind, Except.bind]

end FileTree

end StackAsm
