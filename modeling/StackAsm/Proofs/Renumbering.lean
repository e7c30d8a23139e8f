import Mathlib
import StackAsm.Proofs.Grouping
import StackAsm.Proofs.Sources

namespace StackAsm

variable (f : Nat → Nat)

def Token.moved (token : Token) : Token :=
  { token with line := f token.line }

def Run.moved (run : Run) : Run :=
  { run with line := f run.line }

def Instruction.moved (instruction : Instruction) : Instruction :=
  { instruction with line := f instruction.line }

namespace LineFault

/-- Of the causes only one shows a line, that of the instruction in it. -/
def Cause.moved : Cause → Cause
  | .outsideSection instruction => .outsideSection (instruction.moved f)
  | cause => cause

def moved (fault : LineFault) : LineFault :=
  { line := f fault.line, cause := fault.cause.moved f }

end LineFault

def Declaration.moved : Declaration → Declaration
  | code sec =>
      .code
        { sec with
          instructions := sec.instructions.map (Instruction.moved f)
          line := f sec.line }
  | native routine => .native { routine with line := f routine.line }

def Program.moved (program : Program) : Program :=
  { declarations := program.declarations.map (Declaration.moved f) }

def SymbolFault.moved : SymbolFault → SymbolFault
  | unknownSymbol name line => .unknownSymbol name (f line)
  | jumpToNative name mnemonic line => .jumpToNative name mnemonic (f line)
  | fault => fault

def InstructionFault.moved (fault : InstructionFault) : InstructionFault :=
  { fault with line := f fault.line }

def Fault.moved : Fault → Fault
  | unreadable cause => .unreadable cause
  | malformedLines count => .malformedLines count
  | symbols faults => .symbols (faults.map (SymbolFault.moved f))
  | instruction fault => .instruction (fault.moved f)

namespace Run

theorem tokens_moved (run : Run) : (run.moved f).tokens = run.tokens.map (Token.moved f) := by
  rw [tokens, tokens, List.map_map]
  rfl

theorem all_map_moved {tokens : List Token}
    (hf : ∀ a ∈ tokens, ∀ b ∈ tokens, f a.line = f b.line → a.line = b.line) :
    all (tokens.map (Token.moved f)) = (all tokens).map (Run.moved f) := by
  obtain ⟨htokens, hmaximal⟩ := partition_all tokens
  have hline : ∀ run ∈ all tokens, ∃ token ∈ tokens, token.line = run.line := by
    intro run hrun
    obtain ⟨token, htoken⟩ := List.exists_mem_of_ne_nil _ run.tokens_ne_nil
    refine ⟨token, ?_, line_of_mem_tokens htoken⟩
    rw [← htokens]
    exact List.mem_flatMap.mpr ⟨run, hrun, htoken⟩
  rw [← partition_iff]
  constructor
  · rw [List.flatMap_map]
    nth_rewrite 2 [← htokens]
    rw [List.map_flatMap]
    exact List.flatMap_congr fun run _ => tokens_moved f run
  · rw [List.isChain_map]
    refine hmaximal.imp_of_mem_imp ?_
    intro a b ha hb hne heq
    obtain ⟨first, hfirst, hafter⟩ := hline a ha
    obtain ⟨second, hsecond, hbefore⟩ := hline b hb
    apply hne
    rw [← hafter, ← hbefore]
    apply hf first hfirst second hsecond
    rwa [hafter, hbefore]

section Faults

theorem mapError_label (lexemes : List Lexeme) :
    (label lexemes).mapError (LineFault.Cause.moved f) = label lexemes := by
  unfold label
  split <;> rfl

theorem mapError_identifier (lexemes : List Lexeme) :
    (identifier lexemes).mapError (LineFault.Cause.moved f) = identifier lexemes := by
  unfold identifier
  split
  · unfold Reading.identifierOf
    split <;> rfl
  · rfl
  · rfl

theorem mapError_argument (lexemes : List Lexeme) :
    (Run.argument lexemes).mapError (LineFault.Cause.moved f) = Run.argument lexemes := by
  unfold Run.argument
  split <;> rfl

theorem mapError_finish (lexemes : List Lexeme) :
    (finish lexemes).mapError (LineFault.Cause.moved f) = finish lexemes := by
  cases lexemes <;> rfl

theorem mapError_checkArgument (operation : Operation) (argument : Option Argument) :
    (Reading.checkArgument operation argument).mapError (LineFault.Cause.moved f) =
      Reading.checkArgument operation argument := by
  unfold Reading.checkArgument
  split
  · split <;> rfl
  · split
    · split
      · rfl
      · split <;> rfl
    · rfl

theorem mapError_sectionHeader (rest : List Lexeme) :
    (sectionHeader rest).mapError (LineFault.Cause.moved f) = sectionHeader rest := by
  simp only [sectionHeader, Outcome.mapError_bind, mapError_label, mapError_finish]
  rfl

theorem mapError_nativeDeclaration (rest : List Lexeme) :
    (nativeDeclaration rest).mapError (LineFault.Cause.moved f) = nativeDeclaration rest := by
  simp only [nativeDeclaration, Outcome.mapError_bind, mapError_label, mapError_identifier,
    mapError_finish]
  rfl

end Faults

theorem instruction_moved (inSection : Bool) (line : Nat) (word : String) (rest : List Lexeme) :
    Run.instruction inSection (f line) word rest =
      (Run.instruction inSection line word rest).mapError (LineFault.Cause.moved f) := by
  unfold Run.instruction
  split
  · rfl
  · simp only [Outcome.mapError_bind, mapError_argument, mapError_finish, mapError_checkArgument]
    cases inSection <;> rfl

theorem statement_moved (inSection : Bool) (run : Run) :
    (run.moved f).statement inSection =
      (run.statement inSection).mapError (LineFault.Cause.moved f) := by
  rcases run with ⟨line, _ | _ | word | literal, rest⟩
  · exact (mapError_sectionHeader f rest).symm
  · exact (mapError_nativeDeclaration f rest).symm
  · exact instruction_moved f inSection line word rest
  · rfl

end Run

namespace Judgements

def moved (judgements : Judgements) : Judgements :=
  { outcomes := judgements.outcomes.map fun outcome =>
      (outcome.map (Prod.map f id)).mapError (LineFault.moved f) }

theorem ofRuns_moved (inSection : Bool) (runs : List Run) :
    Judgements.mk (ofRuns inSection (runs.map (Run.moved f))) =
      (Judgements.mk (ofRuns inSection runs)).moved f := by
  rw [moved, Judgements.mk.injEq]
  induction runs generalizing inSection with
  | nil => rfl
  | cons run runs ih =>
      rw [List.map_cons, ofRuns, ofRuns, List.map_cons, ← ih, Run.statement_moved]
      congr 1
      cases run.statement inSection <;> rfl

theorem faults_moved (judgements : Judgements) :
    (judgements.moved f).faults = judgements.faults.map (LineFault.moved f) := by
  rw [faults, faults, moved, List.filterMap_map, List.map_filterMap]
  refine List.filterMap_congr fun outcome _ => ?_
  cases outcome <;> rfl

theorem statements_moved (judgements : Judgements) :
    (judgements.moved f).statements = judgements.statements.map (Prod.map f id) := by
  rw [statements, statements, moved, List.filterMap_map, List.map_filterMap]
  refine List.filterMap_congr fun outcome _ => ?_
  cases outcome <;> rfl

theorem declarations_moved (statements : List (Nat × Statement)) :
    declarations (statements.map (Prod.map f id)) =
      (declarations statements).map (Declaration.moved f) := by
  have hgather : (statements.map (Prod.map f id)).foldr gather ([], []) =
      Prod.map (List.map (Instruction.moved f)) (List.map (Declaration.moved f))
        (statements.foldr gather ([], [])) := by
    induction statements with
    | nil => rfl
    | cons statement statements ih =>
        rw [List.map_cons, List.foldr_cons, ih, List.foldr_cons]
        rcases statement with ⟨line, name | ⟨name, identifier⟩ | ⟨mnemonic, argument⟩⟩ <;> rfl
  rw [declarations, hgather]
  rfl

theorem result_moved (judgements : Judgements) :
    (judgements.moved f).result = judgements.result.map (Program.moved f) := by
  rw [result, result, faults_moved, statements_moved, declarations_moved, List.length_map,
    List.isEmpty_map]
  split <;> rfl

end Judgements

theorem Program.ofTokens_moved {tokens : List Token}
    (hf : ∀ a ∈ tokens, ∀ b ∈ tokens, f a.line = f b.line → a.line = b.line) :
    ofTokens (tokens.map (Token.moved f)) = (ofTokens tokens).map (Program.moved f) := by
  rw [ofTokens_eq, ofTokens_eq, Judgements.ofTokens, Judgements.ofTokens, Run.all_map_moved f hf,
    Judgements.ofRuns_moved, Judgements.result_moved]

namespace SymbolTable

theorem ofProgram_moved (program : Program) : ofProgram (program.moved f) = ofProgram program := by
  have hsections : (program.moved f).sections = program.sections.map fun sec =>
      { sec with
        instructions := sec.instructions.map (Instruction.moved f)
        line := f sec.line } :=
    Program.sections_map (fun declaration => by cases declaration <;> rfl) program.declarations
  have hnatives : (program.moved f).natives = program.natives.map fun routine =>
      { routine with line := f routine.line } :=
    Program.natives_map (fun declaration => by cases declaration <;> rfl) program.declarations
  rw [ofProgram, ofProgram, hsections, hnatives, List.zipIdx_map, List.map_map, List.map_map]
  simp [Function.comp_def]

end SymbolTable

namespace Program

theorem instructions_moved (program : Program) :
    (program.moved f).instructions =
      program.instructions.map fun (position, instruction) =>
        (position, instruction.moved f) := by
  have hplaced (declaration : Declaration) (index : Nat) : placed index (declaration.moved f) =
      (placed index declaration).map fun (position, instruction) =>
        (position, instruction.moved f) := by
    cases declaration with
    | code sec =>
        simp only [placed, Declaration.moved, Declaration.instructions, List.zipIdx_map,
          List.map_map]
        rfl
    | native routine => rfl
  rw [instructions, instructions, moved, List.zipIdx_map, List.flatMap_map, List.map_flatMap]
  exact List.flatMap_congr fun entry _ => hplaced entry.1 entry.2

theorem references_moved (program : Program) :
    (program.moved f).references =
      program.references.map fun (position, instruction, name) =>
        (position, instruction.moved f, name) := by
  rw [references, references, instructions_moved, List.filterMap_map, List.map_filterMap]
  refine List.filterMap_congr fun entry _ => ?_
  rw [Option.map_map]
  rfl

end Program

namespace SymbolTable

theorem check_moved (table : SymbolTable) (program : Program) :
    table.check (program.moved f) = (table.check program).map (SymbolFault.moved f) := by
  have hentry : table.entryFaults.map (SymbolFault.moved f) = table.entryFaults := by
    rw [entryFaults]
    split <;> rfl
  have hduplicate : table.duplicateFaults.map (SymbolFault.moved f) = table.duplicateFaults := by
    rw [duplicateFaults, List.map_map]
    rfl
  have hreference (instruction : Instruction) (name : String) :
      table.referenceFault? (instruction.moved f) name =
        (table.referenceFault? instruction name).map (SymbolFault.moved f) := by
    rw [referenceFault?, referenceFault?]
    split
    · rfl
    · rfl
    · change (if instruction.jumps = true then _ else _) = _
      split <;> rfl
  rw [check, check, List.map_append, List.map_append, hentry, hduplicate, referenceFaults,
    referenceFaults, Program.references_moved, List.filterMap_map, List.map_filterMap]
  congr 1
  exact List.filterMap_congr fun _ _ => hreference _ _

end SymbolTable

namespace Instruction

theorem encode_moved (instruction : Instruction) (referent? : Option Referent) :
    (instruction.moved f).encode referent? =
      (instruction.encode referent?).mapError (InstructionFault.moved f) := by
  rcases instruction with ⟨mnemonic, argument, line⟩
  cases hfind : Operation.find? mnemonic with
  | none =>
      simp only [encode, moved, hfind]
      rfl
  | some operation =>
      simp only [encode, moved, hfind]
      rcases argument with _ | name | literal
      · dsimp only
        split <;> rfl
      · dsimp only
        split
        · cases referent? <;> rfl
        · rfl
      · dsimp only
        split
        · cases literal.bits <;> rfl
        · rfl

end Instruction

namespace Program

theorem resolve_moved (program : Program) (table : SymbolTable) :
    Resolutions.resolve (program.moved f) table =
      (Resolutions.resolve program table).mapError (InstructionFault.moved f) := by
  rw [Resolutions.resolve_eq, Resolutions.resolve_eq, references_moved, List.mapM_map,
    Outcome.mapError_map, Outcome.mapError_mapM]
  congr 2
  funext reference
  simp only [Function.comp_apply, Resolutions.resolveReference]
  split <;> rfl

theorem image_moved (program : Program) (resolutions : Resolutions) :
    (program.moved f).image resolutions =
      (program.image resolutions).mapError (InstructionFault.moved f) := by
  rw [image_eq, image_eq, records, records, instructions_moved, List.mapM_map, Outcome.mapError_map,
    Outcome.mapError_mapM]
  congr 2
  funext entry
  exact entry.2.encode_moved f _

/-- What a renumbered program assembles to, and what is wrong with it, is that of the program. -/
theorem assemble_moved (program : Program) :
    (program.moved f).assemble = program.assemble.mapError (Fault.moved f) := by
  have hfault {α : Type} (outcome : Except InstructionFault α) :
      (outcome.mapError (InstructionFault.moved f)).mapError Fault.instruction =
        (outcome.mapError Fault.instruction).mapError (Fault.moved f) := by
    cases outcome <;> rfl
  rw [assemble_eq, assemble_eq, SymbolTable.ofProgram_moved, SymbolTable.check_moved]
  cases hcheck : (SymbolTable.ofProgram program).check program with
  | nil =>
      simp only [List.map_nil, resolve_moved, image_moved, hfault, Outcome.mapError_bind]
      rfl
  | cons fault faults => rfl

theorem bind_ofTokens_moved {tokens : List Token}
    (hf : ∀ a ∈ tokens, ∀ b ∈ tokens, f a.line = f b.line → a.line = b.line) :
    (ofTokens (tokens.map (Token.moved f))).bind assemble =
      ((ofTokens tokens).bind assemble).mapError (Fault.moved f) := by
  rw [ofTokens_moved f hf]
  cases hprogram : ofTokens tokens with
  | error fault =>
      obtain ⟨count, rfl⟩ := ofTokens_eq_error hprogram
      rfl
  | ok program => exact program.assemble_moved f

end Program

end StackAsm
