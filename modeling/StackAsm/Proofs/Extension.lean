import Mathlib
import StackAsm.Proofs.Linking

namespace StackAsm

namespace SymbolTable

theorem layOutFrom_prefix (start : UInt64) {secs longer : List SectionSymbol}
    (h : secs <+: longer) : layOutFrom start secs <+: layOutFrom start longer := by
  obtain ⟨further, rfl⟩ := h
  have hstart : UInt64.ofNat start.toNat = start := UInt64.ofNat_toNat
  rw [← hstart, layOutFrom_append]
  exact List.prefix_append _ _

end SymbolTable

namespace Program

/-- A program with further declarations behind its own. -/
def extended (program : Program) (further : List Declaration) : Program :=
  { declarations := program.declarations ++ further }

section Extended

variable (program : Program) (further : List Declaration)

theorem sections_extended :
    (program.extended further).sections =
      program.sections ++ further.filterMap Declaration.code? := by
  rw [sections, sections, extended, List.filterMap_append]

theorem natives_extended :
    (program.extended further).natives =
      program.natives ++ further.filterMap Declaration.native? := by
  rw [natives, natives, extended, List.filterMap_append]

theorem instructions_extended :
    (program.extended further).instructions.map Prod.snd =
      program.instructions.map Prod.snd ++ further.flatMap Declaration.instructions := by
  rw [instructions_map_snd, instructions_map_snd, sections_extended, List.flatMap_append,
    ← flatMap_instructions further]

theorem sections_laidOut_extended :
    program.laidOut.sections <+: (program.extended further).laidOut.sections := by
  apply SymbolTable.layOutFrom_prefix
  rw [SymbolTable.sections_ofProgram, SymbolTable.sections_ofProgram, sections_extended,
    List.zipIdx_append, List.map_append]
  exact List.prefix_append _ _

theorem natives_laidOut_extended :
    program.laidOut.natives <+: (program.extended further).laidOut.natives := by
  change program.natives.map _ <+: (program.extended further).natives.map _
  rw [natives_extended, List.map_append]
  exact List.prefix_append _ _

end Extended

section Assemblies

variable {program : Program} {further : List Declaration} {assembly longer : Assembly}
  (h : program.assemble = .ok assembly) (hlonger : (program.extended further).assemble = .ok longer)
include h hlonger

theorem bytes_extended : assembly.bytes <+: longer.bytes := by
  obtain ⟨hsound, -, records, hrecords, hbytes⟩ := assemble_eq_ok_iff.mp h
  obtain ⟨hextended, -, others, hothers, hlongerBytes⟩ := assemble_eq_ok_iff.mp hlonger
  have hsame := hsound.mapM_recordIn_of_subset hextended.names_nodup
    (sections_laidOut_extended program further).subset
    (natives_laidOut_extended program further).subset
  rw [← Outcome.mapM_eq_ok_iff] at hrecords hothers
  -- the records of the program come first, and they are the ones that it has by itself
  rw [instructions_extended, List.mapM_append, hsame, hrecords, Outcome.bind_eq_ok_iff] at hothers
  obtain ⟨_, hfirst, hrest⟩ := hothers
  cases hfirst
  obtain ⟨rest, -, hpure⟩ := Outcome.bind_eq_ok_iff.mp hrest
  cases hpure
  rw [hbytes, hlongerBytes, List.flatMap_append]
  exact List.prefix_append _ _

/-- What a program assembles to stays where it is in whatever assembles with further declarations
behind the program: its image is the beginning of the longer one, its sections keep their entries,
addresses included, and its names keep their meaning. -/
theorem assemble_extended :
    assembly.bytes <+: longer.bytes ∧
      assembly.symbols.sections.map SectionSymbol.name = program.sections.map Section.name ∧
      assembly.symbols.sections <+: longer.symbols.sections ∧
      ∀ name ∈ program.sections.map Section.name ++ program.natives.map Native.name,
        ∃ symbol, assembly.symbols.find? name = some symbol ∧
          longer.symbols.find? name = some symbol := by
  obtain ⟨-, hsymbols, -⟩ := assemble_eq_ok_iff.mp h
  obtain ⟨hextended, hlongerSymbols, -⟩ := assemble_eq_ok_iff.mp hlonger
  have hsections := sections_laidOut_extended program further
  have hnatives := natives_laidOut_extended program further
  rw [hsymbols, hlongerSymbols, ← names_laidOut]
  refine ⟨bytes_extended h hlonger, ?_, hsections, ?_⟩
  · rw [← SymbolTable.map_name_ofProgram]
    exact SymbolTable.map_layOutFrom SectionSymbol.name (fun _ _ => rfl) 0 _
  · intro name hname
    exact SymbolTable.find?_of_subset hextended.names_nodup hsections.subset hnatives.subset hname

end Assemblies

/-- Declarations that refer back to those of the greeting. -/
def encore : List Declaration :=
  [ .native { name := "std.read", identifier := 3, line := 10 },
    .code
      { name := "encore"
        instructions :=
          [ { mnemonic := "CALL", argument := some (.symbol "std.read"), line := 12 },
            { mnemonic := "JEQ", argument := some (.symbol "encore"), line := 13 },
            { mnemonic := "JMP", argument := some (.symbol "done"), line := 14 } ]
        line := 11 } ]

/-- What the greeting assembles to with these declarations behind it. -/
def encoreAssembly : Assembly :=
  { symbols := (greeting.extended encore).laidOut
    bytes := greetingAssembly.bytes ++
      [ 0x62, 0, 0, 0, 0, 0, 0, 0, 0x03,
        0x52, 0, 0, 0, 0, 0, 0, 0, 0x24,
        0x50, 0, 0, 0, 0, 0, 0, 0, 0x1B ] }

theorem greeting_extended :
    greeting.assemble = .ok greetingAssembly ∧
      (greeting.extended encore).assemble = .ok encoreAssembly ∧
      greetingAssembly.bytes <+: encoreAssembly.bytes ∧
      greetingAssembly.symbols.sections <+: encoreAssembly.symbols.sections ∧
      ∃ symbol, greetingAssembly.symbols.find? "done" = some symbol ∧
        encoreAssembly.symbols.find? "done" = some symbol := by
  have hgreeting : greeting.assemble = .ok greetingAssembly := by decide +kernel
  have hencore : (greeting.extended encore).assemble = .ok encoreAssembly := by decide +kernel
  obtain ⟨hbytes, -, hsections, hfind⟩ := assemble_extended hgreeting hencore
  exact ⟨hgreeting, hencore, hbytes, hsections, hfind "done" (by decide)⟩

end Program

end StackAsm
