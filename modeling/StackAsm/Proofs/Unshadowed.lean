import Mathlib
import StackAsm.Proofs.Naming

namespace StackAsm.SymbolTable

section Permuted

variable {table other : SymbolTable} (hsections : other.sections.Perm table.sections)
  (hnatives : other.natives.Perm table.natives)
include hsections hnatives

theorem names_perm : other.names.Perm table.names :=
  (hsections.map SectionSymbol.name).append (hnatives.map NativeSymbol.name)

theorem find?_of_perm (hnames : table.names.Nodup) : other.find? = table.find? := by
  have hperm := names_perm hsections hnatives
  funext name
  by_cases hname : name ∈ other.names
  · obtain ⟨symbol, hother, htable⟩ :=
      find?_of_subset hnames hsections.subset hnatives.subset hname
    rw [hother, htable]
  · have hother : other.find? name = none := find?_eq_none_iff.mpr hname
    have htable : table.find? name = none := by
      rw [find?_eq_none_iff, ← hperm.mem_iff]
      exact hname
    rw [hother, htable]

theorem check_eq_nil_of_perm {program : Program} (h : table.check program = []) :
    other.check program = [] := by
  obtain ⟨hentry, hnames, hreferences⟩ := check_eq_nil_iff.mp h
  apply check_eq_nil_iff.mpr
  refine ⟨?_, ?_, ?_⟩
  · exact (hsections.map SectionSymbol.name).mem_iff.mpr hentry
  · exact (names_perm hsections hnatives).nodup_iff.mpr hnames
  · intro instruction hmem name hname
    rw [referenceFault?, find?_of_perm hsections hnatives hnames]
    exact hreferences instruction hmem name hname

end Permuted

theorem section?_eq_some_iff {table : SymbolTable} {name : String} {sec : SectionSymbol} :
    table.section? name = some sec ↔ table.find? name = some (.code sec) := by
  rw [find?]
  cases table.section? name with
  | some found => simp
  | none => simp

theorem section?_of_find?_eq {table other : SymbolTable} (h : other.find? = table.find?) :
    other.section? = table.section? := by
  funext name
  apply Option.ext
  intro sec
  rw [section?_eq_some_iff, section?_eq_some_iff, h]

/-- No symbol of the table hides another one. -/
structure Unshadowed (table : SymbolTable) : Prop where
  sections : ∀ sec ∈ table.sections, table.find? sec.name = some (.code sec)
  natives : ∀ routine ∈ table.natives, table.find? routine.name = some (.native routine)
  section_iff : ∀ name sec,
    table.section? name = some sec ↔ table.find? name = some (.code sec)
  absent_iff : ∀ name, table.find? name = none ↔ name ∉ table.names
  permuted : ∀ other : SymbolTable, other.sections.Perm table.sections →
    other.natives.Perm table.natives →
      ∀ name, other.find? name = table.find? name ∧ other.section? name = table.section? name

/-- Nothing is hidden in a table that is accepted, whatever program it is accepted for, and its
symbols are accepted in any order. -/
theorem unshadowed_of_check {table : SymbolTable} {program : Program}
    (h : table.check program = []) :
    table.Unshadowed ∧
      ∀ other : SymbolTable, other.sections.Perm table.sections →
        other.natives.Perm table.natives → other.check program = [] ∧ other.Unshadowed := by
  have hall : ∀ other : SymbolTable, other.check program = [] → other.Unshadowed := by
    intro other hother
    have hnames := (check_eq_nil_iff.mp hother).2.1
    constructor
    · exact fun sec hmem => find?_of_mem_sections hnames hmem
    · exact fun routine hmem => find?_of_mem_natives hnames hmem
    · exact fun name sec => section?_eq_some_iff
    · exact fun name => find?_eq_none_iff
    · intro again hsections hnatives name
      have hfind := find?_of_perm hsections hnatives hnames
      rw [hfind, section?_of_find?_eq hfind]
      exact ⟨rfl, rfl⟩
  refine ⟨hall table h, ?_⟩
  intro other hsections hnatives
  have hother := check_eq_nil_of_perm hsections hnatives h
  exact ⟨hother, hall other hother⟩

/-- A table with the symbols of another one in reverse order. -/
def reversed (table : SymbolTable) : SymbolTable :=
  { sections := table.sections.reverse, natives := table.natives.reverse }

/-- A table that is laid out for no program in particular. -/
def cupboard : SymbolTable :=
  { sections :=
      [ { name := "shelf", index := 4, count := 2, address := 99 },
        { name := "main", index := 0, count := 7, address := 0 } ]
    natives :=
      [ { name := "Main", identifier := 1 }, { name := "drawer", identifier := 0xFFFFFFFF },
        { name := "Shelf", identifier := 1 } ] }

/-- A program that uses some of its names. -/
def cupboardUser : Program :=
  { declarations :=
      [ .code
          { name := "elsewhere"
            instructions :=
              [ { mnemonic := "CALL", argument := some (.symbol "drawer"), line := 2 },
                { mnemonic := "JMP", argument := some (.symbol "shelf"), line := 3 } ]
            line := 1 } ] }

theorem cupboard_unshadowed :
    cupboard.check cupboardUser = [] ∧ cupboard.Unshadowed ∧
      cupboard.reversed.check cupboardUser = [] ∧ cupboard.reversed.Unshadowed ∧
      cupboard.reversed.find? "Main" = some (.native { name := "Main", identifier := 1 }) := by
  have hcheck : cupboard.check cupboardUser = [] := by decide +kernel
  have hfind : cupboard.reversed.find? "Main" =
      some (.native { name := "Main", identifier := 1 }) := by
    decide +kernel
  obtain ⟨hcupboard, hpermuted⟩ := unshadowed_of_check hcheck
  obtain ⟨haccepted, hreversed⟩ :=
    hpermuted cupboard.reversed (List.reverse_perm _) (List.reverse_perm _)
  exact ⟨hcheck, hcupboard, haccepted, hreversed, hfind⟩

end StackAsm.SymbolTable
