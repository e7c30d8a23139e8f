import Mathlib
import StackAsm.Proofs.Linking

namespace StackAsm

section Renamed

variable (f : String → String)

def Argument.renamed : Argument → Argument
  | symbol name => .symbol (f name)
  | literal value => .literal value

def Instruction.renamed (instruction : Instruction) : Instruction :=
  { instruction with argument := instruction.argument.map (Argument.renamed f) }

def Section.renamed (sec : Section) : Section :=
  { sec with
    name := f sec.name
    instructions := sec.instructions.map (Instruction.renamed f) }

def Native.renamed (routine : Native) : Native :=
  { routine with name := f routine.name }

def Declaration.renamed : Declaration → Declaration
  | code sec => .code (sec.renamed f)
  | native routine => .native (routine.renamed f)

def Program.renamed (program : Program) : Program :=
  { declarations := program.declarations.map (Declaration.renamed f) }

def SectionSymbol.renamed (sec : SectionSymbol) : SectionSymbol :=
  { sec with name := f sec.name }

def NativeSymbol.renamed (routine : NativeSymbol) : NativeSymbol :=
  { routine with name := f routine.name }

def Symbol.renamed : Symbol → Symbol
  | code sec => .code (sec.renamed f)
  | native routine => .native (routine.renamed f)

def SymbolTable.renamed (table : SymbolTable) : SymbolTable :=
  { sections := table.sections.map (SectionSymbol.renamed f)
    natives := table.natives.map (NativeSymbol.renamed f) }

def Assembly.renamed (assembly : Assembly) : Assembly :=
  { assembly with symbols := assembly.symbols.renamed f }

def SymbolFault.renamed : SymbolFault → SymbolFault
  | missingEntry => .missingEntry
  | duplicateName name => .duplicateName (f name)
  | unknownSymbol name line => .unknownSymbol (f name) line
  | jumpToNative name mnemonic line => .jumpToNative (f name) mnemonic line

/-- Only faults about names show any: a reference that leads nowhere is one of these. -/
def Fault.renamed : Fault → Fault
  | symbols faults => .symbols (faults.map (SymbolFault.renamed f))
  | fault => fault

theorem Symbol.referent_renamed (symbol : Symbol) :
    (symbol.renamed f).referent = symbol.referent := by
  cases symbol <;> rfl

theorem Instruction.symbol?_renamed (instruction : Instruction) :
    (instruction.renamed f).symbol? = instruction.symbol?.map f := by
  rcases instruction with ⟨mnemonic, _ | name | literal, line⟩ <;> rfl

theorem Instruction.jumps_renamed (instruction : Instruction) :
    (instruction.renamed f).jumps = instruction.jumps :=
  rfl

namespace Program

theorem sections_renamed (program : Program) :
    (program.renamed f).sections = program.sections.map (Section.renamed f) :=
  sections_map (fun declaration => by cases declaration <;> rfl) program.declarations

theorem natives_renamed (program : Program) :
    (program.renamed f).natives = program.natives.map (Native.renamed f) :=
  natives_map (fun declaration => by cases declaration <;> rfl) program.declarations

theorem instructions_renamed (program : Program) :
    (program.renamed f).instructions.map Prod.snd =
      (program.instructions.map Prod.snd).map (Instruction.renamed f) := by
  rw [instructions_map_snd, instructions_map_snd, sections_renamed, List.flatMap_map,
    List.map_flatMap]
  rfl

end Program

namespace SymbolTable

theorem ofProgram_renamed (program : Program) :
    ofProgram (program.renamed f) = (ofProgram program).renamed f := by
  rw [ofProgram, ofProgram, Program.sections_renamed, Program.natives_renamed, renamed,
    List.zipIdx_map]
  simp [Function.comp_def, Section.renamed, Native.renamed, SectionSymbol.renamed,
    NativeSymbol.renamed]

theorem names_renamed (table : SymbolTable) :
    (table.renamed f).names = table.names.map f := by
  simp [names, renamed, Function.comp_def, SectionSymbol.renamed, NativeSymbol.renamed]

theorem layOutFrom_renamed (start : UInt64) (secs : List SectionSymbol) :
    layOutFrom start (secs.map (SectionSymbol.renamed f)) =
      (layOutFrom start secs).map (SectionSymbol.renamed f) := by
  induction secs generalizing start with
  | nil => rfl
  | cons sec secs ih =>
      rw [List.map_cons, layOutFrom, layOutFrom, List.map_cons, ih]
      rfl

theorem layOut_renamed (table : SymbolTable) :
    (table.renamed f).layOut = table.layOut.renamed f := by
  rw [layOut, layOut, renamed, renamed, layOutFrom_renamed]

end SymbolTable

theorem Program.laidOut_renamed (program : Program) :
    (program.renamed f).laidOut = program.laidOut.renamed f := by
  rw [laidOut, laidOut, SymbolTable.ofProgram_renamed, SymbolTable.layOut_renamed]

end Renamed

section Injective

variable {f : String → String} (hf : Function.Injective f)
include hf

namespace SymbolTable

theorem section?_renamed (table : SymbolTable) (name : String) :
    (table.renamed f).section? (f name) = (table.section? name).map (SectionSymbol.renamed f) := by
  rw [section?, section?, renamed, List.find?_map]
  simp only [Function.comp_def, SectionSymbol.renamed, hf.eq_iff]

theorem native?_renamed (table : SymbolTable) (name : String) :
    (table.renamed f).native? (f name) = (table.native? name).map (NativeSymbol.renamed f) := by
  rw [native?, native?, renamed, List.find?_map]
  simp only [Function.comp_def, NativeSymbol.renamed, hf.eq_iff]

theorem find?_renamed (table : SymbolTable) (name : String) :
    (table.renamed f).find? (f name) = (table.find? name).map (Symbol.renamed f) := by
  rw [find?, find?, section?_renamed hf, native?_renamed hf]
  cases table.section? name with
  | some sec => rfl
  | none => cases table.native? name <;> rfl

theorem referent?_renamed (table : SymbolTable) (instruction : Instruction) :
    (table.renamed f).referent? (instruction.renamed f) = table.referent? instruction := by
  rw [referent?, referent?, Instruction.symbol?_renamed]
  cases instruction.symbol? with
  | none => rfl
  | some name =>
      rw [Option.map_some, Option.bind_some, Option.bind_some, find?_renamed hf, Option.map_map]
      congr 1
      funext symbol
      exact symbol.referent_renamed f

theorem repeatedAfter_map (seen names : List String) :
    repeatedAfter (seen.map f) (names.map f) = (repeatedAfter seen names).map f := by
  induction names generalizing seen with
  | nil => rfl
  | cons name names ih =>
      have hih := ih (name :: seen)
      rw [List.map_cons] at hih
      rw [List.map_cons, repeatedAfter, repeatedAfter, List.count_map_of_injective seen f hf, hih]
      split <;> rfl

theorem duplicateFaults_renamed (table : SymbolTable) :
    (table.renamed f).duplicateFaults = table.duplicateFaults.map (SymbolFault.renamed f) := by
  have hrepeated := repeatedAfter_map hf [] table.names
  rw [List.map_nil] at hrepeated
  rw [duplicateFaults, duplicateFaults, names_renamed, hrepeated, List.map_map, List.map_map]
  rfl

theorem referenceFault?_renamed (table : SymbolTable) (instruction : Instruction)
    (name : String) :
    (table.renamed f).referenceFault? (instruction.renamed f) (f name) =
      (table.referenceFault? instruction name).map (SymbolFault.renamed f) := by
  rw [referenceFault?, referenceFault?, find?_renamed hf]
  cases table.find? name with
  | none => rfl
  | some symbol =>
      cases symbol with
      | code sec => rfl
      | native routine =>
          simp only [Option.map_some, Symbol.renamed, Instruction.jumps_renamed,
            apply_ite (Option.map (SymbolFault.renamed f))]
          rfl

theorem referenceFaults_renamed (table : SymbolTable) (program : Program) :
    (table.renamed f).referenceFaults (program.renamed f) =
      (table.referenceFaults program).map (SymbolFault.renamed f) := by
  rw [referenceFaults_eq, referenceFaults_eq, Program.instructions_renamed, List.filterMap_map,
    List.map_filterMap]
  refine List.filterMap_congr fun instruction _ => ?_
  rw [Function.comp_apply, Instruction.symbol?_renamed]
  cases instruction.symbol? with
  | none => rfl
  | some name => exact referenceFault?_renamed hf table instruction name

section Entry

variable (hentry : f entryName = entryName)
include hentry

theorem entryFaults_renamed (table : SymbolTable) :
    (table.renamed f).entryFaults = table.entryFaults.map (SymbolFault.renamed f) := by
  have hsection := section?_renamed hf table entryName
  rw [hentry] at hsection
  rw [entryFaults, entryFaults, hsection, Option.isNone_map]
  split <;> rfl

theorem check_renamed (table : SymbolTable) (program : Program) :
    (table.renamed f).check (program.renamed f) =
      (table.check program).map (SymbolFault.renamed f) := by
  rw [check, check, List.map_append, List.map_append, entryFaults_renamed hf hentry,
    duplicateFaults_renamed hf, referenceFaults_renamed hf]

end Entry

end SymbolTable

end Injective

theorem Instruction.encode_renamed (f : String → String) {instruction : Instruction}
    {referent? : Option Referent}
    (hreferent : ∀ name, instruction.argument = some (.symbol name) → referent? ≠ none) :
    (instruction.renamed f).encode referent? = instruction.encode referent? := by
  rcases instruction with ⟨mnemonic, _ | name | literal, line⟩
  · rfl
  · cases referent? with
    | none => exact absurd rfl (hreferent name rfl)
    | some referent => rfl
  · rfl

namespace Program

section Injective

variable {f : String → String} (hf : Function.Injective f)
include hf

theorem mapM_recordIn_renamed {program : Program} (hsound : program.SoundNames) :
    ((program.renamed f).instructions.map Prod.snd).mapM (recordIn (program.renamed f).laidOut) =
      (program.instructions.map Prod.snd).mapM (recordIn program.laidOut) := by
  rw [instructions_renamed, List.mapM_map, laidOut_renamed]
  refine Outcome.mapM_congr fun instruction hmem => ?_
  rw [Function.comp_apply, recordIn, recordIn, SymbolTable.referent?_renamed hf]
  exact Instruction.encode_renamed f (hsound.referent?_ne_none hmem)

variable (hentry : f entryName = entryName)
include hentry

theorem check_ofProgram_renamed (program : Program) :
    (SymbolTable.ofProgram (program.renamed f)).check (program.renamed f) =
      ((SymbolTable.ofProgram program).check program).map (SymbolFault.renamed f) := by
  rw [SymbolTable.ofProgram_renamed, SymbolTable.check_renamed hf hentry]

theorem soundNames_renamed_iff {program : Program} :
    (program.renamed f).SoundNames ↔ program.SoundNames := by
  rw [← check_ofProgram_eq_nil_iff, ← check_ofProgram_eq_nil_iff,
    check_ofProgram_renamed hf hentry, List.map_eq_nil_iff]

/-- A renaming that is injective and keeps the name of the section to begin with changes nothing
but names: neither the verdict, nor the image, nor the order of anything. -/
theorem assemble_renamed (program : Program) :
    (program.renamed f).assemble =
      (program.assemble.map (Assembly.renamed f)).mapError (Fault.renamed f) := by
  by_cases hsound : program.SoundNames
  -- every reference leads somewhere, so no fault that is left shows a name
  · rw [assemble_of_soundNames hsound,
      assemble_of_soundNames ((soundNames_renamed_iff hf hentry).mpr hsound),
      mapM_recordIn_renamed hf hsound, laidOut_renamed]
    cases (program.instructions.map Prod.snd).mapM (recordIn program.laidOut) <;> rfl
  · have hunsound : ¬(program.renamed f).SoundNames :=
      mt (soundNames_renamed_iff hf hentry).mp hsound
    rw [assemble_of_not_soundNames hsound, assemble_of_not_soundNames hunsound,
      check_ofProgram_renamed hf hentry]
    rfl

end Injective

/-- Exchanges the names of a section and of a native routine. -/
def exchanged : String → String :=
  Equiv.swap "done" "std.putch"

/-- A program that breaks every rule about names. -/
def tangled : Program :=
  { declarations :=
      [ .native { name := "done", identifier := 1, line := 1 },
        .native { name := "done", identifier := 2, line := 2 },
        .code
          { name := "std.putch"
            instructions :=
              [ { mnemonic := "JMP", argument := some (.symbol "done"), line := 4 },
                { mnemonic := "CALL", argument := some (.symbol "nowhere"), line := 5 } ]
            line := 3 } ] }

theorem greeting_renamed_exchanged :
    Function.Injective exchanged ∧ exchanged entryName = entryName ∧
      (greeting.renamed exchanged).assemble = .ok (greetingAssembly.renamed exchanged) ∧
      (tangled.renamed exchanged).assemble =
        .error (.symbols
          [ .missingEntry, .duplicateName "std.putch", .jumpToNative "std.putch" "JMP" 4,
            .unknownSymbol "nowhere" 5 ]) := by
  have hinjective : Function.Injective exchanged := Equiv.injective _
  have hentry : exchanged entryName = entryName := by decide
  have hgreeting : greeting.assemble = .ok greetingAssembly := by decide +kernel
  have htangled : tangled.assemble =
      .error (.symbols
        [ .missingEntry, .duplicateName "done", .jumpToNative "done" "JMP" 4,
          .unknownSymbol "nowhere" 5 ]) := by decide +kernel
  refine ⟨hinjective, hentry, ?_, ?_⟩
  · rw [assemble_renamed hinjective hentry, hgreeting, Except.map, Except.mapError]
  · rw [assemble_renamed hinjective hentry, htangled]
    decide +kernel

end Program

end StackAsm
