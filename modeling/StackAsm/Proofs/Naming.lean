import Mathlib
import StackAsm.SymbolCheck
import StackAsm.Proofs.Layout
import StackAsm.Proofs.Operations

namespace StackAsm

namespace SymbolTable

theorem section?_eq_none_iff {table : SymbolTable} {name : String} :
    table.section? name = none ↔ name ∉ table.sections.map SectionSymbol.name :=
  Keys.find?_eq_none_iff

theorem exists_section?_iff {table : SymbolTable} {name : String} :
    (∃ sec, table.section? name = some sec) ↔
      name ∈ table.sections.map SectionSymbol.name := by
  rw [← Option.ne_none_iff_exists', ne_eq, section?_eq_none_iff, not_not]

theorem native?_eq_none_iff {table : SymbolTable} {name : String} :
    table.native? name = none ↔ name ∉ table.natives.map NativeSymbol.name :=
  Keys.find?_eq_none_iff

theorem find?_eq_none_iff {table : SymbolTable} {name : String} :
    table.find? name = none ↔ name ∉ table.names := by
  rw [find?, names, List.mem_append, not_or]
  cases hsection : table.section? name with
  | some sec =>
      have hdeclared := exists_section?_iff.mp ⟨sec, hsection⟩
      simp [hdeclared]
  | none =>
      rw [section?_eq_none_iff] at hsection
      simp only [Option.map_eq_none_iff, native?_eq_none_iff]
      exact ⟨fun h => ⟨hsection, h⟩, fun h => h.2⟩

theorem exists_find?_iff {table : SymbolTable} {name : String} :
    (∃ symbol, table.find? name = some symbol) ↔ name ∈ table.names := by
  rw [← Option.ne_none_iff_exists', ne_eq, find?_eq_none_iff, not_not]

theorem mem_of_find?_code {table : SymbolTable} {name : String} {sec : SectionSymbol}
    (h : table.find? name = some (.code sec)) : sec ∈ table.sections ∧ sec.name = name := by
  rw [find?] at h
  cases hsection : table.section? name with
  | some found =>
      rw [hsection] at h
      cases h
      exact ⟨List.mem_of_find?_eq_some hsection, by simpa using List.find?_some hsection⟩
  | none =>
      rw [hsection] at h
      obtain ⟨_, _, hfalse⟩ := Option.map_eq_some_iff.mp h
      cases hfalse

theorem mem_of_find?_native {table : SymbolTable} {name : String} {routine : NativeSymbol}
    (h : table.find? name = some (.native routine)) :
    routine ∈ table.natives ∧ routine.name = name ∧
      name ∉ table.sections.map SectionSymbol.name := by
  rw [find?] at h
  cases hsection : table.section? name with
  | some found =>
      rw [hsection] at h
      cases h
  | none =>
      rw [hsection] at h
      obtain ⟨_, hnative, hsame⟩ := Option.map_eq_some_iff.mp h
      cases hsame
      have hname : routine.name = name := by simpa using List.find?_some hnative
      exact ⟨List.mem_of_find?_eq_some hnative, hname, section?_eq_none_iff.mp hsection⟩

section Distinct

variable {table : SymbolTable}

theorem find?_of_mem_sections (hnames : table.names.Nodup) {sec : SectionSymbol}
    (hmem : sec ∈ table.sections) : table.find? sec.name = some (.code sec) := by
  have hsection : table.section? sec.name = some sec :=
    (Keys.find?_eq_some_iff (List.nodup_append.mp hnames).1).mpr ⟨hmem, rfl⟩
  rw [find?, hsection]

theorem find?_of_mem_natives (hnames : table.names.Nodup) {routine : NativeSymbol}
    (hmem : routine ∈ table.natives) : table.find? routine.name = some (.native routine) := by
  obtain ⟨-, hnatives, hdisjoint⟩ := List.nodup_append.mp hnames
  have hsection : table.section? routine.name = none := by
    rw [section?_eq_none_iff]
    intro h
    exact hdisjoint _ h _ (List.mem_map_of_mem hmem) rfl
  have hnative : table.native? routine.name = some routine :=
    (Keys.find?_eq_some_iff hnatives).mpr ⟨hmem, rfl⟩
  rw [find?, hsection, hnative]
  rfl

/-- What a table finds is found by every table that has its symbols and distinct names. -/
theorem find?_of_subset {wider : SymbolTable} (hnames : wider.names.Nodup)
    (hsections : table.sections ⊆ wider.sections) (hnatives : table.natives ⊆ wider.natives)
    {name : String} (hname : name ∈ table.names) :
    ∃ symbol, table.find? name = some symbol ∧ wider.find? name = some symbol := by
  obtain ⟨symbol, hfind⟩ := exists_find?_iff.mpr hname
  refine ⟨symbol, hfind, ?_⟩
  cases symbol with
  | code sec =>
      obtain ⟨hmem, rfl⟩ := mem_of_find?_code hfind
      exact find?_of_mem_sections hnames (hsections hmem)
  | native routine =>
      obtain ⟨hmem, rfl, -⟩ := mem_of_find?_native hfind
      exact find?_of_mem_natives hnames (hnatives hmem)

end Distinct

section Check

theorem repeatedAfter_eq_nil_iff {seen names : List String} (hseen : seen.Nodup) :
    repeatedAfter seen names = [] ↔ (seen ++ names).Nodup := by
  induction names generalizing seen with
  | nil => simpa [repeatedAfter] using hseen
  | cons name names ih =>
      have hperm : (seen ++ name :: names).Perm (name :: (seen ++ names)) := List.perm_middle
      rw [repeatedAfter, hperm.nodup_iff]
      by_cases hmem : name ∈ seen
      · rw [if_pos (List.count_eq_one_of_mem hseen hmem)]
        simp [hmem]
      · rw [if_neg (by simp [List.count_eq_zero_of_not_mem hmem]),
          ih (List.nodup_cons.mpr ⟨hmem, hseen⟩)]
        rfl

theorem entryFaults_eq_nil_iff {table : SymbolTable} :
    table.entryFaults = [] ↔ entryName ∈ table.sections.map SectionSymbol.name := by
  rw [entryFaults]
  cases hentry : table.section? entryName with
  | none =>
      rw [section?_eq_none_iff] at hentry
      simp only [Option.isNone_none, if_true, hentry]
      simp
  | some sec =>
      have hmem := exists_section?_iff.mp ⟨sec, hentry⟩
      simp [hmem]

theorem duplicateFaults_eq_nil_iff {table : SymbolTable} :
    table.duplicateFaults = [] ↔ table.names.Nodup := by
  rw [duplicateFaults, List.map_eq_nil_iff, repeatedAfter_eq_nil_iff List.nodup_nil,
    List.nil_append]

theorem referenceFault?_eq_none_iff {table : SymbolTable} {instruction : Instruction}
    {name : String} :
    table.referenceFault? instruction name = none ↔
      name ∈ table.names ∧
        (instruction.jumps = true → name ∈ table.sections.map SectionSymbol.name) := by
  rw [referenceFault?]
  cases hfind : table.find? name with
  | none =>
      have h := find?_eq_none_iff.mp hfind
      simp [h]
  | some symbol =>
      have hdeclared := exists_find?_iff.mp ⟨symbol, hfind⟩
      cases symbol with
      | code sec =>
          obtain ⟨hsec, rfl⟩ := mem_of_find?_code hfind
          simp only [true_iff]
          exact ⟨hdeclared, fun _ => List.mem_map_of_mem hsec⟩
      | native routine =>
          have hnative := (mem_of_find?_native hfind).2.2
          simp [hdeclared, hnative]

theorem referenceFaults_eq (table : SymbolTable) (program : Program) :
    table.referenceFaults program =
      (program.instructions.map Prod.snd).filterMap fun instruction =>
        instruction.symbol?.bind (table.referenceFault? instruction) := by
  rw [referenceFaults, Program.references, List.filterMap_filterMap, List.filterMap_map]
  congr 1
  funext entry
  simp only [Function.comp_apply]
  cases entry.2.symbol? <;> rfl

theorem check_eq_nil_iff {table : SymbolTable} {program : Program} :
    table.check program = [] ↔
      entryName ∈ table.sections.map SectionSymbol.name ∧ table.names.Nodup ∧
        ∀ instruction ∈ program.instructions.map Prod.snd, ∀ name,
          instruction.argument = some (.symbol name) →
            table.referenceFault? instruction name = none := by
  rw [check, List.append_eq_nil_iff, List.append_eq_nil_iff, entryFaults_eq_nil_iff,
    duplicateFaults_eq_nil_iff, referenceFaults_eq, List.filterMap_eq_nil_iff, and_assoc]
  simp only [Option.bind_eq_none_iff, Instruction.symbol?_eq_some_iff]

end Check

end SymbolTable

namespace Program

/-- The rules about the names of a program. -/
structure SoundNames (program : Program) : Prop where
  /-- Execution can begin. -/
  entry : "main" ∈ program.sections.map Section.name
  /-- No name is declared twice, by declarations of whichever kind. -/
  distinct : (program.sections.map Section.name ++ program.natives.map Native.name).Nodup
  /-- Every name that is used is declared. -/
  declared : ∀ instruction ∈ program.instructions.map Prod.snd, ∀ name,
    instruction.argument = some (.symbol name) →
      name ∈ program.sections.map Section.name ++ program.natives.map Native.name
  /-- No jump leaves the code. -/
  jumps : ∀ instruction ∈ program.instructions.map Prod.snd, ∀ name,
    instruction.argument = some (.symbol name) →
      instruction.mnemonic.toLower ∈ ["jmp", "jne", "jeq"] →
        name ∉ program.natives.map Native.name

theorem check_ofProgram_eq_nil_iff {program : Program} :
    (SymbolTable.ofProgram program).check program = [] ↔ program.SoundNames := by
  rw [SymbolTable.check_eq_nil_iff]
  simp only [SymbolTable.referenceFault?_eq_none_iff, SymbolTable.map_name_ofProgram,
    SymbolTable.names_ofProgram]
  constructor
  · rintro ⟨hentry, hdistinct, hreferences⟩
    refine ⟨hentry, hdistinct, fun i hi name hname => (hreferences i hi name hname).1, ?_⟩
    intro instruction hmem name hname hjump hnative
    have hsection := (hreferences instruction hmem name hname).2 (Instruction.jumps_iff.mpr hjump)
    exact (List.nodup_append.mp hdistinct).2.2 name hsection name hnative rfl
  · rintro ⟨hentry, hdistinct, hdeclared, hjumps⟩
    refine ⟨hentry, hdistinct, ?_⟩
    intro instruction hmem name hname
    have hname' := hdeclared instruction hmem name hname
    refine ⟨hname', fun hjump => ?_⟩
    have hnative := hjumps instruction hmem name hname (Instruction.jumps_iff.mp hjump)
    exact (List.mem_append.mp hname').resolve_right hnative

end Program

end StackAsm
