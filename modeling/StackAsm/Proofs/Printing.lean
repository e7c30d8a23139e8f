import Mathlib
import StackAsm.Proofs.Grouping
import StackAsm.Proofs.HexLiterals
import StackAsm.Proofs.Sources

namespace StackAsm

/-- The number of a native routine as it is written, with at least the given number of digits. -/
def Native.number (width : Nat) (identifier : UInt32) : String :=
  "0x" ++ Hexadecimal.padded width identifier.toNat

namespace Declaration

/-- The lines of a declaration. A section has its instructions below its header. -/
def lines (width : Nat) : Declaration → List String
  | code sec => ("section " ++ sec.name) :: sec.instructions.map Instruction.text
  | native routine => ["native " ++ routine.name ++ " " ++ Native.number width routine.identifier]

/-- A declaration that begins on the given line. -/
def placedAt (line : Nat) : Declaration → Declaration
  | code sec =>
      .code
        { name := sec.name
          instructions := (sec.instructions.zipIdx (line + 1)).map fun (instruction, own) =>
            { instruction with line := own }
          line }
  | native routine => .native { routine with line }

/-- The lines that a declaration and its instructions stand on. -/
def lineNumbers : Declaration → List Nat
  | code sec => sec.line :: sec.instructions.map Instruction.line
  | native routine => [routine.line]

/-- Declarations one below the other, the first of which begins on the given line. -/
def renumber (line : Nat) : List Declaration → List Declaration
  | [] => []
  | declaration :: declarations =>
      declaration.placedAt line ::
        renumber (line + 1 + declaration.instructions.length) declarations

end Declaration

namespace Program

def lines (width : Nat) (program : Program) : List String :=
  program.declarations.flatMap (Declaration.lines width)

/-- The program as a file, with every line ended by a line feed. -/
def file (width : Nat) (program : Program) : List UInt8 :=
  Text.encode (String.join ((program.lines width).map (· ++ "\n")))

/-- The program with its lines numbered from one. -/
def renumbered (program : Program) : Program :=
  { declarations := Declaration.renumber 1 program.declarations }

end Program

/-- The argument can be written so that it is read again: a name that is a label, or a literal that
looks like its kind. -/
def Argument.Printable : Argument → Prop
  | symbol name => Lexeme.IsLabel name
  | literal value => value.text.toList ∈ Pattern.literal value.kind

instance (argument : Argument) : Decidable argument.Printable :=
  match argument with
  | .symbol name => inferInstanceAs (Decidable (Lexeme.IsLabel name))
  | .literal value =>
      decidable_of_iff (Literal.hasShape value.kind value.text.toList = true)
        Literal.hasShape_iff_mem

/-- What a program has to be for its lines to be read again. -/
structure Program.Printable (program : Program) : Prop where
  sections : ∀ sec ∈ program.sections, Lexeme.IsLabel sec.name
  natives : ∀ routine ∈ program.natives, Lexeme.IsLabel routine.name
  canonical : ∀ instruction ∈ program.instructions.map Prod.snd, instruction.Canonical
  arguments : ∀ instruction ∈ program.instructions.map Prod.snd,
    ∀ argument ∈ instruction.argument, argument.Printable

instance (program : Program) : Decidable program.Printable :=
  decidable_of_iff
    ((∀ sec ∈ program.sections, Lexeme.IsLabel sec.name) ∧
      (∀ routine ∈ program.natives, Lexeme.IsLabel routine.name) ∧
      (∀ instruction ∈ program.instructions.map Prod.snd, instruction.Canonical) ∧
      ∀ instruction ∈ program.instructions.map Prod.snd,
        ∀ argument ∈ instruction.argument, argument.Printable)
    ⟨fun ⟨hsections, hnatives, hcanonical, harguments⟩ =>
      ⟨hsections, hnatives, hcanonical, harguments⟩,
      fun ⟨hsections, hnatives, hcanonical, harguments⟩ =>
      ⟨hsections, hnatives, hcanonical, harguments⟩⟩

namespace Native

variable (width : Nat) (identifier : UInt32)

theorem identifies_number : Run.Identifies (number width identifier) identifier :=
  (Run.identifies_iff (Literal.padded_mem_literal width _)).mpr (Literal.hexValue?_padded width _)

end Native

namespace Statement

/-- The words of a statement's line. -/
def words (width : Nat) : Statement → List String
  | openSection name => ["section", name]
  | declareNative name identifier => ["native", name, Native.number width identifier]
  | perform mnemonic argument => mnemonic :: argument.toList.map Argument.text

/-- The run that the line of a statement is scanned as. -/
def run (width : Nat) (line : Nat) : Statement → Run
  | openSection name => { line, first := .sectionKeyword, rest := [.word name] }
  | declareNative name identifier =>
      { line
        first := .nativeKeyword
        rest := [.word name, .number { kind := .hex, text := Native.number width identifier }] }
  | perform mnemonic argument =>
      { line, first := .word mnemonic, rest := argument.toList.map Argument.lexeme }

/-- The statement can be written so that it is read again. -/
inductive Printable : Statement → Prop
  | openSection {name : String} (hname : Lexeme.IsLabel name) : Printable (.openSection name)
  | declareNative {name : String} {identifier : UInt32} (hname : Lexeme.IsLabel name) :
      Printable (.declareNative name identifier)
  | perform {operation : Operation} {argument : Option Argument}
      (hoperation : operation ∈ Operation.all) (haccepts : operation.Accepts argument)
      (hargument : ∀ a ∈ argument, a.Printable) :
      Printable (.perform operation.mnemonic argument)

end Statement

theorem Operation.isLabel_mnemonic {operation : Operation} (h : operation ∈ all) :
    Lexeme.IsLabel operation.mnemonic := by
  have hall : ∀ operation ∈ all, Lexeme.isName operation.mnemonic.toList = true ∧
      operation.mnemonic ≠ "section" ∧ operation.mnemonic ≠ "native" := by decide +kernel
  obtain ⟨hname, hsection, hnative⟩ := hall operation h
  exact ⟨Lexeme.isName_iff_mem.mp hname, hsection, hnative⟩

theorem Argument.Printable.writtenAs {argument : Argument} (h : argument.Printable) :
    Lexeme.WrittenAs argument.text argument.lexeme := by
  cases argument with
  | symbol name => exact Lexeme.writtenAs_label h
  | literal value => exact Lexeme.writtenAs_literal value h

namespace Statement

variable {statement : Statement} (width line : Nat)

theorem Printable.writtenAs (h : statement.Printable) :
    List.Forall₂ Lexeme.WrittenAs (statement.words width)
      ((statement.run width line).first :: (statement.run width line).rest) := by
  cases h with
  | openSection hname =>
      exact .cons Lexeme.writtenAs_section (.cons (Lexeme.writtenAs_label hname) .nil)
  | @declareNative name identifier hname =>
      have hnumber := Lexeme.writtenAs_literal
        { kind := .hex, text := Native.number width identifier }
        (Literal.padded_mem_literal width identifier.toNat)
      have hlabel := Lexeme.writtenAs_label hname
      exact .cons Lexeme.writtenAs_native (.cons hlabel (.cons hnumber .nil))
  | @perform operation argument hoperation _ hargument =>
      refine .cons (Lexeme.writtenAs_label (Operation.isLabel_mnemonic hoperation)) ?_
      cases argument with
      | none => exact .nil
      | some argument => exact .cons (hargument argument rfl).writtenAs .nil

theorem Printable.isWord (h : statement.Printable) :
    ∀ word ∈ statement.words width, Text.IsWord word := by
  have hwritten := (h.writtenAs width 0).imp fun _ _ hword =>
    And.intro hword.isWord hword.ofWord?
  exact (List.forall₂_and_left _ _).mp hwritten |>.1

theorem Printable.scan_line (h : statement.Printable) :
    Scan.line line (" ".intercalate (statement.words width)) =
      .ok (statement.run width line).tokens := by
  rw [Scan.line, Text.words_intercalate (h.isWord width), Outcome.mapM_eq_ok_iff, Run.tokens,
    List.forall₂_map_right_iff]
  refine (h.writtenAs width line).imp ?_
  intro word lexeme hlexeme
  rw [hlexeme.ofWord?]
  cases h <;> rfl

end Statement

namespace Declaration

/-- What a declaration says line by line. -/
def statements : Declaration → List Statement
  | code sec =>
      .openSection sec.name ::
        sec.instructions.map fun instruction => .perform instruction.mnemonic instruction.argument
  | native routine => [.declareNative routine.name routine.identifier]

theorem length_statements (declaration : Declaration) :
    declaration.statements.length = 1 + declaration.instructions.length := by
  cases declaration with
  | code sec => simp [statements, instructions, Nat.add_comm]
  | native routine => rfl

theorem statements_renumber (line : Nat) (declarations : List Declaration) :
    (renumber line declarations).flatMap statements = declarations.flatMap statements := by
  have hplaced (line : Nat) (declaration : Declaration) :
      (declaration.placedAt line).statements = declaration.statements := by
    cases declaration with
    | code sec =>
        simp only [placedAt, statements, List.map_map]
        congr 1
        have hfst := congrArg (List.map fun instruction : Instruction =>
          Statement.perform instruction.mnemonic instruction.argument)
            (List.zipIdx_map_fst (line + 1) sec.instructions)
        rwa [List.map_map] at hfst
    | native routine => rfl
  induction declarations generalizing line with
  | nil => rfl
  | cons declaration declarations ih =>
      rw [renumber, List.flatMap_cons, List.flatMap_cons, hplaced, ih]

theorem lineNumbers_renumber (line : Nat) (declarations : List Declaration) :
    (renumber line declarations).flatMap lineNumbers =
      List.range' line (declarations.flatMap statements).length := by
  have hplaced (line : Nat) (declaration : Declaration) :
      (declaration.placedAt line).lineNumbers =
        List.range' line (1 + declaration.instructions.length) := by
    cases declaration with
    | code sec =>
        simp only [placedAt, lineNumbers, instructions, List.map_map]
        rw [Nat.add_comm 1, List.range'_succ, ← List.zipIdx_map_snd (line + 1) sec.instructions]
        rfl
    | native routine => rfl
  induction declarations generalizing line with
  | nil => rfl
  | cons declaration declarations ih =>
      rw [renumber, List.flatMap_cons, List.flatMap_cons, hplaced, ih, List.length_append,
        length_statements, Nat.add_assoc, List.range'_append_1]

theorem lines_eq (width : Nat) (declaration : Declaration) :
    declaration.lines width =
      declaration.statements.map fun statement => " ".intercalate (statement.words width) := by
  cases declaration with
  | code sec =>
      have hinstruction (instruction : Instruction) : instruction.text =
          " ".intercalate (Statement.words width
            (.perform instruction.mnemonic instruction.argument)) := by
        rcases instruction with ⟨mnemonic, _ | argument, line⟩
        · rfl
        · simp [Instruction.text, Statement.words, String.intercalate_cons_cons]
      have hheader : "section " ++ sec.name = " ".intercalate ["section", sec.name] := by
        rw [String.intercalate_cons_cons, String.intercalate_singleton]
        rfl
      simp only [lines, statements, List.map_cons, List.map_map]
      rw [hheader]
      exact congrArg _ (List.map_congr_left fun instruction _ => hinstruction instruction)
  | native routine =>
      simp only [lines, statements, List.map_singleton, Statement.words,
        String.intercalate_cons_cons, String.intercalate_singleton, ← String.append_assoc]
      rfl

end Declaration

namespace Program

/-- What a program says line by line. -/
def statements (program : Program) : List Statement :=
  program.declarations.flatMap Declaration.statements

theorem lines_eq (width : Nat) (program : Program) :
    program.lines width =
      program.statements.map fun statement => " ".intercalate (statement.words width) := by
  rw [lines, statements, List.map_flatMap]
  exact List.flatMap_congr fun declaration _ => declaration.lines_eq width

theorem Printable.statements {program : Program} (h : program.Printable) :
    ∀ statement ∈ program.statements, statement.Printable := by
  intro statement hmem
  obtain ⟨declaration, hdeclaration, hmem⟩ := List.mem_flatMap.mp hmem
  cases declaration with
  | code sec =>
      have hsec : sec ∈ program.sections := List.mem_filterMap.mpr ⟨_, hdeclaration, rfl⟩
      rcases List.mem_cons.mp hmem with rfl | hmem
      · exact .openSection (h.sections sec hsec)
      · obtain ⟨instruction, hinstruction, rfl⟩ := List.mem_map.mp hmem
        have hplaced : instruction ∈ program.instructions.map Prod.snd := by
          rw [instructions_map_snd]
          exact List.mem_flatMap.mpr ⟨sec, hsec, hinstruction⟩
        obtain ⟨operation, hoperation, hmnemonic, haccepts⟩ := h.canonical instruction hplaced
        rw [hmnemonic]
        exact .perform hoperation haccepts (h.arguments instruction hplaced)
  | native routine =>
      obtain rfl := List.mem_singleton.mp hmem
      exact .declareNative (h.natives routine (List.mem_filterMap.mpr ⟨_, hdeclaration, rfl⟩))

end Program

end StackAsm
