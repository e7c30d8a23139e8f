import Mathlib
import StackAsm.Proofs.FileNames
import StackAsm.Proofs.Places

namespace StackAsm

namespace FileTree

variable {tree : FileTree} {working directory later location : List String} {path : String}
  {node : Node}

theorem exists_components_of_parts? {parts : Path.Parts} (h : Path.parts? path = some parts) :
    ∃ folders dots, components path = folders ++ String.ofList parts.name :: dots ∧
      ∀ dot ∈ dots, dot = "." := by
  obtain ⟨hbefore, hname, tail, htext, hdots, hbegin⟩ := Path.exists_of_parts? h
  have hnamed : Path.pieces parts.name = [parts.name] :=
    Path.pieces_of_notMem (by simpa using hname.nonempty) (by simpa using hname.no_slash)
  have htail : Path.pieces (parts.name ++ tail) = parts.name :: Path.pieces tail := by
    rcases hbegin with rfl | ⟨rest, rfl⟩
    · simp [hnamed]
    · rw [Path.pieces_append_slash, hnamed, ← List.nil_append ('/' :: rest),
        Path.pieces_append_slash]
      simp
  refine ⟨(Path.pieces parts.before).map String.ofList, (Path.pieces tail).map String.ofList,
    ?_, ?_⟩
  · change (Path.pieces path.toList).map String.ofList = _
    rw [htext, List.append_assoc, Path.pieces_endsFolder_append hbefore, htail, List.map_append]
    rfl
  · intro dot hdot
    obtain ⟨piece, hpiece, rfl⟩ := List.mem_map.mp hdot
    rw [hdots piece hpiece]

theorem foldlM_enter_dots {dots : List String} (h : ∀ dot ∈ dots, dot = ".") :
    dots.foldlM tree.enter directory = .ok directory := by
  induction dots with
  | nil => rfl
  | cons dot dots ih =>
      obtain ⟨rfl, hdots⟩ := List.forall_mem_cons.mp h
      rw [List.foldlM_cons, enter_eq_ok_iff.mpr (.inl ⟨rfl, rfl⟩)]
      exact ih hdots

theorem enter_name {name : String} (hname : Path.IsName name)
    (h : tree.enter directory name = .ok later) :
    tree.entry directory name = .ok .directory ∧ later = directory ++ [name] := by
  rcases enter_eq_ok_iff.mp h with ⟨hdot, -⟩ | ⟨hdots, -⟩ | ⟨-, -, hentry, hlater⟩
  · exact absurd hdot hname.not_dot
  · exact absurd hdots hname.not_dots
  · exact ⟨hentry, hlater⟩

theorem foldlM_enter_names {names : List String} (hnames : ∀ name ∈ names, Path.IsName name)
    (h : names.foldlM tree.enter directory = .ok later) : later = directory ++ names := by
  induction names generalizing directory with
  | nil =>
      cases h
      simp
  | cons name names ih =>
      obtain ⟨hname, hnames⟩ := List.forall_mem_cons.mp hnames
      rw [List.foldlM_cons, Outcome.bind_eq_ok_iff] at h
      obtain ⟨between, henter, hrest⟩ := h
      obtain ⟨-, rfl⟩ := enter_name hname henter
      rw [ih hnames hrest, List.append_assoc]
      rfl

theorem find_eq_ok_iff :
    tree.find working path = .ok (location, node) ↔
      ∃ place, tree.locate working path = .ok place ∧ tree.at? place = .ok node ∧
        location = place.path := by
  rw [find, Outcome.bind_eq_ok_iff]
  constructor
  · rintro ⟨place, hplace, hrest⟩
    obtain ⟨found, hat, hpure⟩ := Outcome.bind_eq_ok_iff.mp hrest
    cases hpure
    exact ⟨place, hplace, hat, rfl⟩
  · rintro ⟨place, hplace, hat, rfl⟩
    exact ⟨place, hplace, Outcome.bind_eq_ok_iff.mpr ⟨node, hat, rfl⟩⟩

theorem entry_of_at? {place : Place} {name : String} (hname : place.name? = some name)
    (h : tree.at? place = .ok node) : tree.entry place.directory name = .ok node := by
  cases node with
  | directory => exact at?_eq_directory_iff.mp h name hname
  | file content executable =>
      obtain ⟨found, hfound, -, hentry⟩ := at?_eq_file_iff.mp h
      rw [hname] at hfound
      cases hfound
      exact hentry

theorem eq_directory_of_at? {place : Place} (hname : place.name? = none)
    (h : tree.at? place = .ok node) : node = .directory := by
  rw [at?, hname] at h
  cases h
  rfl

theorem arrival_name {folders : List String} {name : String} (hname : Path.IsName name)
    (h : components path = folders ++ [name]) (directory : List String) :
    arrival path directory =
      { directory, name? := some name, slash := path.toList.getLast? = some '/' } := by
  rw [arrival, h, List.getLast?_concat]
  simp [hname.not_dot, hname.not_dots]

theorem exists_of_find {parts : Path.Parts} (hparts : Path.parts? path = some parts)
    (h : tree.find working path = .ok (location, node)) :
    ∃ folder, location = folder ++ [String.ofList parts.name] ∧
      tree.get? location = some node := by
  obtain ⟨-, hname, -⟩ := Path.exists_of_parts? hparts
  obtain ⟨folders, dots, hcomponents, hdots⟩ := exists_components_of_parts? hparts
  obtain ⟨place, hlocate, hat, rfl⟩ := find_eq_ok_iff.mp h
  obtain ⟨-, -, directory, hwalk, rfl⟩ := locate_eq_ok_iff.mp hlocate
  rcases List.eq_nil_or_concat dots with rfl | ⟨front, last, rfl⟩
  · rw [arrival_name hname hcomponents] at hat ⊢
    have hentry := entry_of_at? rfl hat
    exact ⟨directory, rfl, (entry_eq_ok_iff.mp hentry).2⟩
  · -- The dots behind the name need a directory of this name, which is entered on the way.
    obtain ⟨hfront, hlast⟩ := List.forall_mem_append.mp (List.concat_eq_append ▸ hdots)
    obtain rfl := hlast last (List.mem_singleton_self last)
    have hlast : components path = (folders ++ String.ofList parts.name :: front) ++ ["."] := by
      simpa using hcomponents
    have harrival : arrival path directory =
        { directory, name? := none, slash := path.toList.getLast? = some '/' } := by
      rw [arrival, hlast, List.getLast?_concat]
      simp
    rw [harrival] at hat ⊢
    obtain rfl := eq_directory_of_at? rfl hat
    rw [hlast, List.dropLast_concat, List.foldlM_append, Outcome.bind_eq_ok_iff] at hwalk
    obtain ⟨folder, -, hwalk⟩ := hwalk
    rw [List.foldlM_cons, Outcome.bind_eq_ok_iff] at hwalk
    obtain ⟨named, henter, hwalk⟩ := hwalk
    rw [foldlM_enter_dots hfront] at hwalk
    cases hwalk
    obtain ⟨hentry, rfl⟩ := enter_name hname henter
    refine ⟨folder, by simp [Place.path], ?_⟩
    simpa [Place.path] using (entry_eq_ok_iff.mp hentry).2

theorem isName_of_enter {component : String} (hne : component ≠ "")
    (hslash : '/' ∉ component.toList) (hdirectory : ∀ name ∈ directory, Path.IsName name)
    (h : tree.enter directory component = .ok later) : ∀ name ∈ later, Path.IsName name := by
  rcases enter_eq_ok_iff.mp h with ⟨-, rfl⟩ | ⟨-, rfl⟩ | ⟨hdot, hdots, -, rfl⟩
  · exact hdirectory
  · exact fun name hname => hdirectory name (List.mem_of_mem_dropLast hname)
  · exact List.forall_mem_append.mpr
      ⟨hdirectory, List.forall_mem_singleton.mpr ⟨hne, hslash, hdot, hdots⟩⟩

theorem isName_of_foldlM_enter {names : List String}
    (hnames : ∀ name ∈ names, name ≠ "" ∧ '/' ∉ name.toList)
    (hdirectory : ∀ name ∈ directory, Path.IsName name)
    (h : names.foldlM tree.enter directory = .ok later) : ∀ name ∈ later, Path.IsName name := by
  induction names generalizing directory with
  | nil =>
      cases h
      exact hdirectory
  | cons component names ih =>
      obtain ⟨⟨hne, hslash⟩, hnames⟩ := List.forall_mem_cons.mp hnames
      rw [List.foldlM_cons, Outcome.bind_eq_ok_iff] at h
      obtain ⟨between, henter, hrest⟩ := h
      exact ih hnames (isName_of_enter hne hslash hdirectory henter) hrest

theorem of_mem_components {component : String} (h : component ∈ components path) :
    component ≠ "" ∧ '/' ∉ component.toList := by
  obtain ⟨piece, hpiece, rfl⟩ := List.mem_map.mp h
  simpa using Path.notMem_of_mem_pieces hpiece

/-- A text is the absolute path of an entry whose name has an extension. -/
def NamesEntry (tree : FileTree) (extension text : String) : Prop :=
  ∃ directory name node,
    text = pathText (directory ++ [name]) ∧
      (∀ part ∈ directory ++ [name], Path.IsName part) ∧
        tree.get? (directory ++ [name]) = some node ∧ Path.extension? name = some extension

theorem isName_of_find (hworking : ∀ name ∈ working, Path.IsName name)
    (h : tree.find working path = .ok (location, node)) : ∀ name ∈ location, Path.IsName name := by
  obtain ⟨place, hlocate, -, rfl⟩ := find_eq_ok_iff.mp h
  obtain ⟨-, -, directory, hwalk, rfl⟩ := locate_eq_ok_iff.mp hlocate
  have hstart : ∀ name ∈ start working path, Path.IsName name := by
    rw [start]
    split
    · exact fun _ hname => absurd hname List.not_mem_nil
    · exact hworking
  have hdirectory : ∀ name ∈ directory, Path.IsName name := by
    refine isName_of_foldlM_enter (fun name hname => ?_) hstart hwalk
    exact of_mem_components (List.mem_of_mem_dropLast hname)
  rcases List.eq_nil_or_concat (components path) with hnil | ⟨folders, last, hlast⟩
  · simpa [arrival, hnil, Place.path] using hdirectory
  · rw [List.concat_eq_append] at hlast
    have hmem : last ∈ components path := by simp [hlast]
    obtain ⟨hne, hslash⟩ := of_mem_components hmem
    rw [arrival, hlast, List.getLast?_concat]
    dsimp only
    split
    case isTrue => simpa [Place.path] using hdirectory
    case isFalse hdot =>
      split
      case isTrue =>
        simp only [Place.path, Option.toList_none, List.append_nil]
        exact fun name hname => hdirectory name (List.mem_of_mem_dropLast hname)
      case isFalse hdots =>
        exact List.forall_mem_append.mpr
          ⟨hdirectory, List.forall_mem_singleton.mpr ⟨hne, hslash, hdot, hdots⟩⟩

theorem namesEntry_of_find {extension : String}
    (hworking : ∀ name ∈ working, Path.IsName name)
    (hextension : Path.extension? path = some extension)
    (h : tree.find working path = .ok (location, node)) :
    tree.NamesEntry extension (pathText location) := by
  obtain ⟨parts, hparts, -⟩ := Option.bind_eq_some_iff.mp hextension
  have hnames := isName_of_find hworking h
  obtain ⟨directory, rfl, hget⟩ := exists_of_find hparts h
  refine ⟨directory, String.ofList parts.name, node, rfl, hnames, hget, ?_⟩
  rw [Path.extension?_parts hparts, hextension]

theorem head?_pathText (location : List String) :
    (pathText location).toList.head? = some '/' := by
  cases location with
  | nil => rfl
  | cons name names => simp [pathText, String.toList_join, String.toList_append]

theorem pathText_concat (directory : List String) (name : String) :
    pathText (directory ++ [name]) =
      String.ofList (directory.flatMap ('/' :: ·.toList) ++ ['/'] ++ name.toList) := by
  apply String.toList_inj.mp
  rw [pathText, if_neg (List.concat_ne_nil _ _), String.toList_join, List.flatMap_map]
  simp [String.toList_append]

theorem components_pathText (hlocation : ∀ name ∈ location, Path.IsName name) :
    components (pathText location) = location := by
  have htext : Path.pieces (pathText location).toList = location.map String.toList := by
    rcases List.eq_nil_or_concat location with rfl | ⟨directory, name, rfl⟩
    · decide +kernel
    · rw [List.concat_eq_append] at hlocation ⊢
      rw [pathText_concat, ← Path.pieces_map_toList hlocation]
      simp
  change (Path.pieces (pathText location).toList).map String.ofList = location
  rw [htext, List.map_map]
  simp

theorem eq_of_find_pathText {found : List String}
    (hlocation : ∀ name ∈ location, Path.IsName name)
    (h : tree.find working (pathText location) = .ok (found, node)) : found = location := by
  obtain ⟨place, hlocate, -, rfl⟩ := find_eq_ok_iff.mp h
  obtain ⟨-, -, directory, hwalk, rfl⟩ := locate_eq_ok_iff.mp hlocate
  have hcomponents := components_pathText hlocation
  rw [hcomponents, start, if_pos (head?_pathText location)] at hwalk
  rcases List.eq_nil_or_concat location with rfl | ⟨front, name, rfl⟩
  · cases hwalk
    simp [arrival, hcomponents, Place.path]
  · rw [List.concat_eq_append] at hlocation hcomponents hwalk ⊢
    obtain ⟨hfront, hname⟩ := List.forall_mem_append.mp hlocation
    rw [List.dropLast_concat] at hwalk
    rw [arrival_name (hname name (List.mem_singleton_self name)) hcomponents,
      foldlM_enter_names hfront hwalk]
    rfl

theorem NamesEntry.head?_eq {extension text : String} (h : tree.NamesEntry extension text) :
    text.toList.head? = some '/' := by
  obtain ⟨directory, name, node, rfl, -⟩ := h
  exact head?_pathText _

/-- The absolute path of an entry with another extension leads to the entry that it is the absolute
path of, unless it has no file name any more. -/
theorem NamesEntry.pathText_eq {after : FileTree} {found : List String}
    {old new extension text : String} (h : tree.NamesEntry old text)
    (hextension : '/' ∉ extension.toList)
    (hnew : Path.extension? (Path.withExtension text extension) = some new)
    (hfind : after.find working (Path.withExtension text extension) = .ok (found, node)) :
    pathText found = Path.withExtension text extension := by
  obtain ⟨directory, name, -, rfl, hnames, -, hold⟩ := h
  obtain ⟨hdirectory, hname⟩ := List.forall_mem_append.mp hnames
  have hbefore : Path.EndsFolder (directory.flatMap ('/' :: ·.toList) ++ ['/']) := .inr ⟨_, rfl⟩
  have hproper := hname name (List.mem_singleton_self name)
  rw [pathText_concat] at hnew hfind ⊢
  rcases Path.withExtension_append hbefore hproper hold hextension with
    ⟨changed, hchanged, htext⟩ | htext
  · rw [htext, ← pathText_concat] at hfind ⊢
    rw [eq_of_find_pathText ?_ hfind]
    exact List.forall_mem_append.mpr ⟨hdirectory, List.forall_mem_singleton.mpr hchanged⟩
  · rw [htext, Path.extension?, Path.parts?_parent hbefore] at hnew
    cases hnew

end FileTree

end StackAsm
