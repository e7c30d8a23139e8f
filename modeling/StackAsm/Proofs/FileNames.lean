import Mathlib
import StackAsm.Host.Path

namespace StackAsm

namespace Path

/-- A text that can be the name of an entry. -/
structure IsName (name : String) : Prop where
  nonempty : name ≠ ""
  no_slash : '/' ∉ name.toList
  not_dot : name ≠ "."
  not_dots : name ≠ ".."

/-- What stands between the slashes of a text. -/
def pieces (text : List Char) : List (List Char) :=
  (text.splitOn '/').filter (!·.isEmpty)

@[simp]
theorem pieces_nil : pieces [] = [] := by
  simp [pieces]

theorem pieces_append_slash (text further : List Char) :
    pieces (text ++ '/' :: further) = pieces text ++ pieces further := by
  rw [pieces, List.splitOn_append_cons_self, List.filter_append]
  rfl

theorem pieces_of_notMem {text : List Char} (hne : text ≠ []) (hslash : '/' ∉ text) :
    pieces text = [text] := by
  simp [pieces, List.splitOn_eq_singleton hslash, hne]

theorem notMem_of_mem_pieces {text piece : List Char} (h : piece ∈ pieces text) :
    piece ≠ [] ∧ '/' ∉ piece := by
  obtain ⟨hpiece, hne⟩ := List.mem_filter.mp h
  refine ⟨by simpa using hne, ?_⟩
  clear h hne
  induction text generalizing piece with
  | nil => simp_all
  | cons c text ih =>
      rw [List.splitOn_cons_eq_if_modifyHead] at hpiece
      by_cases hc : c = '/'
      · rw [if_pos (by simpa using hc)] at hpiece
        rcases List.mem_cons.mp hpiece with rfl | hpiece
        · exact List.not_mem_nil
        · exact ih hpiece
      · rw [if_neg (by simpa using hc)] at hpiece
        cases hsplit : text.splitOn '/' with
        | nil => exact absurd hsplit (List.splitOn_ne_nil _ _)
        | cons first others =>
            rw [hsplit] at hpiece ih
            rcases List.mem_cons.mp hpiece with rfl | hpiece
            · simp [Ne.symm hc, ih List.mem_cons_self]
            · exact ih (List.mem_cons_of_mem _ hpiece)

theorem pieces_map_toList {names : List String} (h : ∀ name ∈ names, IsName name) :
    pieces (names.flatMap ('/' :: ·.toList)) = names.map String.toList := by
  induction names using List.reverseRecOn with
  | nil => simp
  | append_singleton names name ih =>
      obtain ⟨hnames, hname⟩ := List.forall_mem_append.mp h
      have hproper := hname name (List.mem_singleton_self name)
      rw [List.flatMap_append, List.flatMap_singleton, pieces_append_slash, ih hnames,
        pieces_of_notMem (by simpa using hproper.nonempty) hproper.no_slash]
      simp

theorem exists_dropTrailing (backwards : List Char) :
    ∃ tail, backwards.reverse = (dropTrailing backwards).reverse ++ tail ∧
      (∀ piece ∈ pieces tail, piece = ['.']) ∧ (tail = [] ∨ ∃ rest, tail = '/' :: rest) ∧
        (backwards.head? = some '/' → ∃ front, tail = front ++ ['/']) := by
  fun_induction dropTrailing backwards with
  | case1 cs ih =>
      obtain ⟨tail, hcs, hdots, hbegin, -⟩ := ih
      refine ⟨tail ++ ['/'], by simp [hcs], ?_, ?_, fun _ => ⟨tail, rfl⟩⟩
      · simpa [pieces_append_slash] using hdots
      · rcases hbegin with rfl | ⟨rest, rfl⟩
        · exact .inr ⟨[], rfl⟩
        · exact .inr ⟨rest ++ ['/'], rfl⟩
  | case2 cs ih =>
      obtain ⟨tail, hcs, hdots, hbegin, hend⟩ := ih
      obtain ⟨front, rfl⟩ := hend rfl
      refine ⟨front ++ ['/', '.'], by simp_all, ?_, ?_, by simp⟩
      · have hdot : pieces ['.'] = [['.']] := by decide +kernel
        rw [pieces_append_slash] at hdots ⊢
        simpa [hdot, or_imp, forall_and] using hdots
      · rcases hbegin with hnil | ⟨rest, hrest⟩
        · simp at hnil
        · refine .inr ⟨rest ++ ['.'], ?_⟩
          rw [← List.cons_append, ← hrest]
          simp
  | case3 cs hslash hdot =>
      refine ⟨[], by simp, by simp, .inl rfl, fun hhead => ?_⟩
      obtain ⟨rest, rfl⟩ := List.head?_eq_some_iff.mp hhead
      exact (hslash rest rfl).elim

theorem dropTrailing_eq_self {backwards : List Char} (hslash : backwards.head? ≠ some '/')
    (hdot : ∀ cs, backwards ≠ '.' :: '/' :: cs) : dropTrailing backwards = backwards := by
  unfold dropTrailing
  split
  case h_1 => simp at hslash
  case h_2 cs => exact absurd rfl (hdot _)
  case h_3 => rfl

/-- A text that a name can follow in a path. -/
def EndsFolder (before : List Char) : Prop :=
  before = [] ∨ ∃ front, before = front ++ ['/']

theorem pieces_endsFolder_append {before : List Char} (h : EndsFolder before)
    (further : List Char) : pieces (before ++ further) = pieces before ++ pieces further := by
  rcases h with rfl | ⟨front, rfl⟩
  · simp
  · rw [List.append_assoc, List.singleton_append, pieces_append_slash, pieces_append_slash,
      pieces_nil, List.append_nil]

theorem exists_of_parts? {path : String} {parts : Parts} (h : parts? path = some parts) :
    EndsFolder parts.before ∧ IsName (String.ofList parts.name) ∧
      ∃ tail, path.toList = parts.before ++ parts.name ++ tail ∧
        (∀ piece ∈ pieces tail, piece = ['.']) ∧ (tail = [] ∨ ∃ rest, tail = '/' :: rest) := by
  obtain ⟨tail, htext, hdots, hbegin, -⟩ := exists_dropTrailing path.toList.reverse
  rw [parts?] at h
  split at h
  case isTrue => cases h
  case isFalse hname =>
    cases h
    simp only [not_or] at hname
    refine ⟨?_, ⟨by simpa using hname.1, ?_, ?_, ?_⟩, tail, ?_, hdots, hbegin⟩
    · cases hrest : (dropTrailing path.toList.reverse).dropWhile (· != '/') with
      | nil => exact .inl rfl
      | cons c rest =>
          have hc := List.head?_dropWhile_not (· != '/') (dropTrailing path.toList.reverse)
          rw [hrest] at hc
          obtain rfl : c = '/' := by simpa using hc
          exact .inr ⟨rest.reverse, by simp⟩
    · intro hslash
      rw [String.toList_ofList, List.mem_reverse] at hslash
      simpa using List.mem_takeWhile_imp hslash
    · intro hdot
      exact hname.2.1 (by simpa using congrArg String.toList hdot)
    · intro hdots
      exact hname.2.2 (by simpa using congrArg String.toList hdots)
    · rw [List.reverse_reverse] at htext
      rw [← List.reverse_append, List.takeWhile_append_dropWhile]
      exact htext

theorem takeWhile_name {before name : List Char} (hbefore : EndsFolder before)
    (hname : '/' ∉ name) :
    (name.reverse ++ before.reverse).takeWhile (· != '/') = name.reverse := by
  rw [List.takeWhile_append_of_pos (by simpa using fun c hc => ne_of_mem_of_not_mem hc hname)]
  rcases hbefore with rfl | ⟨front, rfl⟩ <;> simp

theorem dropWhile_name {before name : List Char} (hbefore : EndsFolder before)
    (hname : '/' ∉ name) :
    (name.reverse ++ before.reverse).dropWhile (· != '/') = before.reverse := by
  rw [List.dropWhile_append_of_pos (by simpa using fun c hc => ne_of_mem_of_not_mem hc hname)]
  rcases hbefore with rfl | ⟨front, rfl⟩ <;> simp

theorem dropTrailing_name {name : String} (hname : IsName name) (before : List Char) :
    dropTrailing (name.toList.reverse ++ before) = name.toList.reverse ++ before := by
  have hslash := hname.no_slash
  cases hbackwards : name.toList.reverse with
  | nil => exact absurd (by simpa using hbackwards) hname.nonempty
  | cons last others =>
      have htext : name.toList = others.reverse ++ [last] := by
        simpa using congrArg List.reverse hbackwards
      rw [htext] at hslash
      apply dropTrailing_eq_self
      · intro hlast
        simp_all
      · intro cs hcs
        obtain ⟨rfl, hothers⟩ : last = '.' ∧ others ++ before = '/' :: cs := by simpa using hcs
        cases others with
        | nil => exact hname.not_dot (String.toList_inj.mp htext)
        | cons c others =>
            obtain ⟨rfl, -⟩ : c = '/' ∧ _ := by simpa using hothers
            simp at hslash

theorem parts?_append {before : List Char} {name : String} (hbefore : EndsFolder before)
    (hname : IsName name) :
    parts? (String.ofList (before ++ name.toList)) =
      some { before, name := name.toList, ends := true } := by
  have hne : name.toList ≠ [] := by simpa using hname.nonempty
  have hnotDot : name.toList ≠ ['.'] := fun h => hname.not_dot (String.toList_inj.mp h)
  have hnotDots : name.toList ≠ ['.', '.'] := fun h => hname.not_dots (String.toList_inj.mp h)
  simp [parts?, dropTrailing_name hname, takeWhile_name hbefore hname.no_slash,
    dropWhile_name hbefore hname.no_slash, hne, hnotDot, hnotDots]

theorem extension?_of_isName {name : String} (hname : IsName name) :
    extension? name = (splitExtension name.toList).2.map String.ofList := by
  have hself := parts?_append (.inl rfl) hname
  rw [List.nil_append, String.ofList_toList] at hself
  rw [extension?, hself]
  rfl

theorem extension?_parts {path : String} {parts : Parts} (h : parts? path = some parts) :
    extension? (String.ofList parts.name) = extension? path := by
  obtain ⟨-, hname, -⟩ := exists_of_parts? h
  rw [extension?_of_isName hname, String.toList_ofList, extension?, h]
  rfl

theorem parts?_parent {before : List Char} (hbefore : EndsFolder before) :
    parts? (String.ofList (before ++ ['.', '.'])) = none := by
  have hkept : dropTrailing ('.' :: '.' :: before.reverse) = '.' :: '.' :: before.reverse := by
    apply dropTrailing_eq_self <;> simp
  have hname := takeWhile_name hbefore (by decide : '/' ∉ ['.', '.'])
  simp_all [parts?]

theorem splitExtension_eq_some {name stem extension : List Char}
    (h : splitExtension name = (stem, some extension)) :
    stem ≠ [] ∧ name = stem ++ '.' :: extension := by
  rw [splitExtension] at h
  split at h
  case h_1 c rest hrest =>
    cases h
    refine ⟨by simp, ?_⟩
    have hname := List.takeWhile_append_dropWhile (p := (· != '.')) (l := name.reverse)
    rw [hrest] at hname
    simpa using congrArg List.reverse hname.symm
  case h_2 => cases h

theorem isName_append {stem : List Char} {extension : String} (hne : stem ≠ [])
    (hdot : stem ≠ ['.']) (hstem : '/' ∉ stem) (hextension : '/' ∉ extension.toList) :
    IsName (String.ofList (stem ++ '.' :: extension.toList)) := by
  have hshort : ∀ short : List Char, short = ['.'] ∨ short = ['.', '.'] →
      stem ++ '.' :: extension.toList ≠ short := by
    intro short hshort hsame
    rcases stem with _ | ⟨first, _ | ⟨second, others⟩⟩
    · exact hne rfl
    · rcases hshort with rfl | rfl <;> simp_all
    · rcases hshort with rfl | rfl <;> simp_all
  refine ⟨by simp, ?_, ?_, ?_⟩
  · simp [hstem, hextension]
  · exact fun h => hshort _ (.inl rfl) (by simpa using congrArg String.toList h)
  · exact fun h => hshort _ (.inr rfl) (by simpa using congrArg String.toList h)

theorem withExtension_append {before : List Char} {name old extension : String}
    (hbefore : EndsFolder before) (hname : IsName name) (hold : extension? name = some old)
    (hextension : '/' ∉ extension.toList) :
    (∃ changed, IsName changed ∧
      withExtension (String.ofList (before ++ name.toList)) extension =
        String.ofList (before ++ changed.toList)) ∨
      withExtension (String.ofList (before ++ name.toList)) extension =
        String.ofList (before ++ ['.', '.']) := by
  rw [extension?_of_isName hname] at hold
  rw [withExtension, parts?_append hbefore hname]
  cases hsplit : splitExtension name.toList with
  | mk stem taken =>
      cases taken with
      | none => simp [hsplit] at hold
      | some taken =>
          obtain ⟨hstem, hjoined⟩ := splitExtension_eq_some hsplit
          by_cases hdot : stem = ['.']
          · exact .inr (by simp [hsplit, hdot])
          · refine .inl ⟨String.ofList (stem ++ '.' :: extension.toList), ?_, ?_⟩
            · have hslash := hname.no_slash
              rw [hjoined, List.mem_append, not_or] at hslash
              exact isName_append hstem hdot hslash.1 hextension
            · apply String.toList_inj.mp
              simp [hsplit, hdot, String.toList_append]

end Path

end StackAsm
