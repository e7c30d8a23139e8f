import Mathlib
import StackAsm.Proofs.Linking

namespace StackAsm.Program

section Placement

variable {program other : Program} (hsections : other.sections = program.sections)
include hsections

/-- Their positions may differ, as these count native routines. -/
theorem instructions_of_sections_eq :
    other.instructions.map Prod.snd = program.instructions.map Prod.snd := by
  rw [instructions_map_snd, instructions_map_snd, hsections]

theorem sections_laidOut_of_sections_eq : other.laidOut.sections = program.laidOut.sections := by
  change SymbolTable.layOutFrom 0 _ = SymbolTable.layOutFrom 0 _
  rw [SymbolTable.sections_ofProgram, SymbolTable.sections_ofProgram, hsections]

section Perm

variable (hnatives : other.natives.Perm program.natives)
include hnatives

theorem SoundNames.of_natives_perm (h : program.SoundNames) : other.SoundNames := by
  have hroutines := hnatives.map Native.name
  have hnames : (other.sections.map Section.name ++ other.natives.map Native.name).Perm
      (program.sections.map Section.name ++ program.natives.map Native.name) := by
    rw [hsections]
    exact hroutines.append_left _
  constructor
  · rw [hsections]
    exact h.entry
  · exact hnames.nodup_iff.mpr h.distinct
  · rw [instructions_of_sections_eq hsections]
    intro instruction hmem name hargument
    exact hnames.mem_iff.mpr (h.declared instruction hmem name hargument)
  · rw [instructions_of_sections_eq hsections]
    intro instruction hmem name hargument hjump hnative
    exact h.jumps instruction hmem name hargument hjump (hroutines.mem_iff.mp hnative)

theorem exists_assemble_of_natives_perm {assembly : Assembly}
    (h : program.assemble = .ok assembly) :
    ∃ again, other.assemble = .ok again ∧ again.bytes = assembly.bytes ∧
      again.symbols.sections = assembly.symbols.sections := by
  obtain ⟨hsound, hsymbols, records, hrecords, hbytes⟩ := assemble_eq_ok_iff.mp h
  have hother := hsound.of_natives_perm hsections hnatives
  have hlaidOut := sections_laidOut_of_sections_eq hsections
  refine ⟨{ symbols := other.laidOut, bytes := assembly.bytes }, ?_, rfl, ?_⟩
  · refine assemble_eq_ok_iff.mpr ⟨hother, rfl, records, ?_, hbytes⟩
    have hsecs : program.laidOut.sections ⊆ other.laidOut.sections := by
      rw [hlaidOut]
      exact List.Subset.refl _
    have hroutines : program.laidOut.natives ⊆ other.laidOut.natives :=
      (hnatives.symm.map _).subset
    rw [← Outcome.mapM_eq_ok_iff] at hrecords ⊢
    rw [instructions_of_sections_eq hsections,
      hsound.mapM_recordIn_of_subset hother.names_nodup hsecs hroutines, hrecords]
  · rw [hsymbols]
    exact hlaidOut

end Perm

theorem assemble_of_natives_eq (hnatives : other.natives = program.natives) :
    other.assemble = program.assemble := by
  have hinstructions := instructions_of_sections_eq hsections
  have htable : SymbolTable.ofProgram other = SymbolTable.ofProgram program := by
    rw [SymbolTable.ofProgram, SymbolTable.ofProgram, hsections, hnatives]
  by_cases hsound : program.SoundNames
  · have hother := hsound.of_natives_perm hsections (List.Perm.of_eq hnatives)
    rw [assemble_of_soundNames hsound, assemble_of_soundNames hother, hinstructions, laidOut,
      laidOut, htable]
  · have hother : ¬other.SoundNames := by
      intro h
      exact hsound (h.of_natives_perm hsections.symm (List.Perm.of_eq hnatives.symm))
    rw [assemble_of_not_soundNames hsound, assemble_of_not_soundNames hother, htable,
      SymbolTable.check, SymbolTable.check, SymbolTable.referenceFaults_eq,
      SymbolTable.referenceFaults_eq, hinstructions]

/-- Programs with the same sections and the same native routines, in whatever order and wherever
between the sections, have the same verdict, image and layout. If the order of the native routines
is the same too, they have the same table and the same faults. -/
theorem assemble_of_natives_perm (hnatives : other.natives.Perm program.natives) :
    ((∃ assembly, program.assemble = .ok assembly) ↔ ∃ again, other.assemble = .ok again) ∧
    (∀ assembly again, program.assemble = .ok assembly → other.assemble = .ok again →
      again.bytes = assembly.bytes ∧ again.symbols.sections = assembly.symbols.sections) ∧
    (other.natives = program.natives → other.assemble = program.assemble) := by
  refine ⟨⟨?_, ?_⟩, ?_, assemble_of_natives_eq hsections⟩
  · rintro ⟨assembly, h⟩
    obtain ⟨again, hagain, -⟩ := exists_assemble_of_natives_perm hsections hnatives h
    exact ⟨again, hagain⟩
  · rintro ⟨again, h⟩
    obtain ⟨assembly, hassembly, -⟩ :=
      exists_assemble_of_natives_perm hsections.symm hnatives.symm h
    exact ⟨assembly, hassembly⟩
  · intro assembly again h hagain
    obtain ⟨found, hfound, hsame⟩ := exists_assemble_of_natives_perm hsections hnatives h
    rw [hagain] at hfound
    cases hfound
    exact hsame

end Placement

/-- The sections of a program, and behind them the given native routines. -/
def followedBy (program : Program) (natives : List Native) : Program :=
  { declarations := program.sections.map .code ++ natives.map .native }

theorem sections_followedBy (program : Program) (natives : List Native) :
    (program.followedBy natives).sections = program.sections := by
  rw [sections, followedBy, List.filterMap_append, List.filterMap_map, List.filterMap_map]
  simp [Function.comp_def, Declaration.code?]

theorem natives_followedBy (program : Program) (natives : List Native) :
    (program.followedBy natives).natives = natives := by
  rw [Program.natives, followedBy, List.filterMap_append, List.filterMap_map, List.filterMap_map]
  simp [Function.comp_def, Declaration.native?]

theorem greeting_followedBy :
    (greeting.followedBy greeting.natives.reverse).sections = greeting.sections ∧
      (greeting.followedBy greeting.natives.reverse).natives = greeting.natives.reverse ∧
      greeting.natives.reverse ≠ greeting.natives ∧
      (∃ again, (greeting.followedBy greeting.natives.reverse).assemble = .ok again ∧
        again.bytes = greetingAssembly.bytes ∧
          again.symbols.sections = greetingAssembly.symbols.sections) ∧
      (greeting.followedBy greeting.natives).assemble = .ok greetingAssembly := by
  have hgreeting : greeting.assemble = .ok greetingAssembly := by decide +kernel
  have hsections := sections_followedBy greeting
  have hnatives := natives_followedBy greeting
  refine ⟨hsections _, hnatives _, by decide, ?_, ?_⟩
  · have hreverse := List.reverse_perm greeting.natives
    rw [← hnatives greeting.natives.reverse] at hreverse
    obtain ⟨hverdict, hsame, -⟩ := assemble_of_natives_perm (hsections _) hreverse
    obtain ⟨again, hagain⟩ := hverdict.mp ⟨_, hgreeting⟩
    exact ⟨again, hagain, hsame _ _ hgreeting hagain⟩
  · obtain ⟨-, -, hequal⟩ :=
      assemble_of_natives_perm (hsections _) (List.Perm.of_eq (hnatives greeting.natives))
    rw [hequal (hnatives _), hgreeting]

end StackAsm.Program
