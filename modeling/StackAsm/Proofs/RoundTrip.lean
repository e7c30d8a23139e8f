import Mathlib
import StackAsm.Proofs.Printing
import StackAsm.Proofs.Scanning

namespace StackAsm

namespace Statement

/-- Statements with the numbers of their lines, the first of which is given. -/
def numbered (first : Nat) (statements : List Statement) : List (Nat × Statement) :=
  (statements.zipIdx first).map Prod.swap

theorem numbered_cons (first : Nat) (statement : Statement) (statements : List Statement) :
    numbered first (statement :: statements) =
      (first, statement) :: numbered (first + 1) statements :=
  rfl

theorem numbered_append (first : Nat) (a b : List Statement) :
    numbered first (a ++ b) = numbered first a ++ numbered (first + a.length) b := by
  rw [numbered, List.zipIdx_append, List.map_append, Nat.add_comm]
  rfl

/-- The runs of numbered statements. -/
def runs (width first : Nat) (statements : List Statement) : List Run :=
  (numbered first statements).map fun (line, statement) => statement.run width line

theorem run_line (width line : Nat) (statement : Statement) :
    (statement.run width line).line = line := by
  cases statement <;> rfl

theorem runs_isChain (width first : Nat) (statements : List Statement) :
    (runs width first statements).IsChain fun a b => a.line ≠ b.line := by
  rw [runs, numbered, List.map_map, List.isChain_map]
  refine (Program.zipIdx_pairwise statements first).isChain.imp ?_
  rintro ⟨a, m⟩ ⟨b, n⟩ h
  simpa only [Function.comp_apply, Prod.swap_prod_mk, run_line] using h.ne

end Statement

namespace Scan

theorem survey_lines (width : Nat) {statements : List Statement}
    (h : ∀ statement ∈ statements, statement.Printable) :
    Survey.ofSource (Text.encode (String.join ((statements.map fun statement =>
        " ".intercalate (statement.words width)).map (· ++ "\n")))) =
      { tokens := (Statement.runs width 1 statements).flatMap Run.tokens
        faults := []
        readable := true } := by
  set texts := statements.map fun statement => " ".intercalate (statement.words width)
  have hfree : ∀ text ∈ texts, '\n' ∉ text.toList := by
    intro text hmem
    obtain ⟨statement, hstatement, rfl⟩ := List.mem_map.mp hmem
    exact Text.lineFeed_notMem_intercalate ((h statement hstatement).isWord width)
  have hreads : Text.ReadsLines (Text.encode (String.join (texts.map (· ++ "\n"))))
      (texts.map Text.words) :=
    Text.readsLines_iff.mpr ⟨texts, Text.lines_encode_join hfree, rfl⟩
  have hscanned : (((texts.map Text.words).zipIdx 1).map fun entry => ofWords entry.2 entry.1) =
      (Statement.runs width 1 statements).map fun run => .ok run.tokens := by
    rw [Statement.runs, Statement.numbered, List.zipIdx_map, List.zipIdx_map, List.map_map,
      List.map_map, List.map_map, List.map_map]
    apply List.map_congr_left
    rintro ⟨statement, line⟩ hmem
    exact (h statement (List.fst_mem_of_mem_zipIdx hmem)).scan_line width line
  rw [ofSource_of_readsLines hreads]
  simp only [ofLines, hscanned, List.flatMap_map, List.filterMap_map]
  congr 1
  simp

end Scan

namespace Judgements

variable (width : Nat)

theorem ofRuns_cons_of_eq_ok {inSection : Bool} {run : Run} {runs : List Run}
    {statement : Statement} (h : run.statement inSection = .ok statement) :
    ofRuns inSection (run :: runs) =
      .ok (run.line, statement) :: ofRuns (run.leavesSectionOpen inSection) runs := by
  rw [ofRuns, h]

theorem ofRuns_performs (first : Nat) {performs : List Statement} (rest : List Run)
    (h : ∀ statement ∈ performs, statement.Printable ∧
      ∃ mnemonic argument, statement = .perform mnemonic argument) :
    ofRuns true (Statement.runs width first performs ++ rest) =
      (Statement.numbered first performs).map .ok ++ ofRuns true rest := by
  induction performs generalizing first with
  | nil => rfl
  | cons statement performs ih =>
      obtain ⟨hprintable, mnemonic, argument, rfl⟩ := h statement List.mem_cons_self
      have hrun : (Statement.run width first (.perform mnemonic argument)).statement true =
          .ok (.perform mnemonic argument) := by
        cases hprintable with
        | @perform operation _ hoperation haccepts _ =>
            exact Run.instruction_eq_ok_iff.mpr
              ⟨operation, argument, ⟨hoperation, rfl⟩, haccepts, rfl, rfl, rfl⟩
      rw [Statement.runs, Statement.numbered_cons, List.map_cons, List.cons_append,
        ofRuns_cons_of_eq_ok hrun, List.map_cons, List.cons_append, Statement.run_line]
      exact congrArg _ (ih (first + 1) fun other hmem => h other (List.mem_cons_of_mem _ hmem))

theorem ofRuns_declaration (inSection : Bool) (first : Nat) {declaration : Declaration}
    (rest : List Run) (h : ∀ statement ∈ declaration.statements, statement.Printable) :
    ∃ after, ofRuns inSection (Statement.runs width first declaration.statements ++ rest) =
      (Statement.numbered first declaration.statements).map .ok ++ ofRuns after rest := by
  cases declaration with
  | code sec =>
      refine ⟨true, ?_⟩
      have hrun : (Statement.run width first (.openSection sec.name)).statement inSection =
          .ok (.openSection sec.name) :=
        Run.sectionHeader_eq_ok_iff.mpr ⟨sec.name, rfl, rfl⟩
      rw [Declaration.statements, Statement.runs, Statement.numbered_cons, List.map_cons,
        List.cons_append, ofRuns_cons_of_eq_ok hrun, List.map_cons, List.cons_append]
      refine congrArg _ (ofRuns_performs width (first + 1) rest ?_)
      intro statement hmem
      obtain ⟨instruction, -, rfl⟩ := List.mem_map.mp hmem
      exact ⟨h _ (List.mem_cons_of_mem _ hmem), _, _, rfl⟩
  | native routine =>
      have hrun : (Statement.run width first
          (.declareNative routine.name routine.identifier)).statement inSection =
            .ok (.declareNative routine.name routine.identifier) :=
        Run.nativeDeclaration_eq_ok_iff.mpr ⟨routine.name, _, routine.identifier, rfl,
          Native.identifies_number width routine.identifier, rfl⟩
      exact ⟨_, ofRuns_cons_of_eq_ok hrun⟩

theorem ofRuns_declarations (inSection : Bool) (first : Nat) {declarations : List Declaration}
    (h : ∀ statement ∈ declarations.flatMap Declaration.statements, statement.Printable) :
    ofRuns inSection
        (Statement.runs width first (declarations.flatMap Declaration.statements)) =
      (Statement.numbered first (declarations.flatMap Declaration.statements)).map .ok := by
  induction declarations generalizing inSection first with
  | nil => rfl
  | cons declaration declarations ih =>
      rw [List.flatMap_cons] at h ⊢
      rw [List.forall_mem_append] at h
      rw [Statement.runs, Statement.numbered_append, List.map_append, List.map_append]
      obtain ⟨after, hdeclaration⟩ := ofRuns_declaration width inSection first _ h.1
      exact hdeclaration.trans (congrArg _ (ih after _ h.2))

theorem result_map_ok (statements : List (Nat × Statement)) :
    (Judgements.mk (statements.map .ok)).result =
      .ok { declarations := declarations statements } := by
  have hfaults : (Judgements.mk (statements.map .ok)).faults = [] := by
    rw [faults, List.filterMap_map]
    simp
  have hstatements : (Judgements.mk (statements.map .ok)).statements = statements := by
    rw [Judgements.statements, List.filterMap_map]
    exact List.filterMap_some
  rw [result, hfaults, hstatements]
  rfl

theorem foldr_gather_performs (first : Nat) (instructions : List Instruction)
    (following : List Instruction × List Declaration) :
    (Statement.numbered first (instructions.map fun instruction =>
        .perform instruction.mnemonic instruction.argument)).foldr gather following =
      ((instructions.zipIdx first).map (fun (instruction, line) => { instruction with line }) ++
        following.1, following.2) := by
  induction instructions generalizing first with
  | nil => rfl
  | cons instruction instructions ih =>
      rw [List.map_cons, Statement.numbered_cons, List.foldr_cons, ih]
      rfl

theorem foldr_gather_numbered (first : Nat) (declarations : List Declaration) :
    (Statement.numbered first (declarations.flatMap Declaration.statements)).foldr gather
        ([], []) =
      ([], Declaration.renumber first declarations) := by
  induction declarations generalizing first with
  | nil => rfl
  | cons declaration declarations ih =>
      rw [List.flatMap_cons, Statement.numbered_append, List.foldr_append, ih,
        Declaration.length_statements, Declaration.renumber, ← Nat.add_assoc]
      cases declaration with
      | code sec =>
          rw [Declaration.statements, Statement.numbered_cons, List.foldr_cons,
            foldr_gather_performs, List.append_nil]
          rfl
      | native routine => rfl

end Judgements

namespace Program

theorem read_file (width : Nat) {program : Program} (h : program.Printable) :
    ofSource (program.file width) = .ok program.renumbered := by
  have hsurvey := Scan.survey_lines width h.statements
  rw [← lines_eq] at hsurvey
  have hruns := Run.all_flatMap_tokens (Statement.runs_isChain width 1 program.statements)
  have houtcomes := Judgements.ofRuns_declarations width false 1 h.statements
  have hdeclarations : Judgements.declarations (Statement.numbered 1 program.statements) =
      Declaration.renumber 1 program.declarations :=
    congrArg Prod.snd (Judgements.foldr_gather_numbered 1 program.declarations)
  rw [ofSource_eq_ok_iff]
  refine ⟨(Statement.runs width 1 program.statements).flatMap Run.tokens, ?_, ?_⟩
  · rw [file, Scan.ofSource_eq, hsurvey]
    rfl
  · rw [ofTokens_eq, Judgements.ofTokens, hruns, statements, houtcomes, ← statements,
      Judgements.result_map_ok, hdeclarations]
    rfl

/-- What is written of a program is read as that program. Its lines are then the first ones, and
nothing else about it is changed. -/
theorem ofSource_file (width : Nat) {program : Program} (h : program.Printable) :
    ofSource (program.file width) = .ok program.renumbered ∧
      program.renumbered.statements = program.statements ∧
      program.renumbered.declarations.flatMap Declaration.lineNumbers =
        List.range' 1 (program.lines width).length := by
  refine ⟨read_file width h, Declaration.statements_renumber 1 program.declarations, ?_⟩
  rw [lines_eq, List.length_map]
  exact Declaration.lineNumbers_renumber 1 program.declarations

/-- A program with a native routine between its sections, a section without instructions that is
named like an operation, and a literal of each kind. -/
def sampler : Program :=
  { declarations :=
      [ .native { name := "std.putch", identifier := 1, line := 4 },
        .code
          { name := "main"
            instructions :=
              [ { mnemonic := "LOADI", line := 9
                  argument := some (.literal { kind := .hex, text := "0x2A" }) },
                { mnemonic := "LOADI", line := 9
                  argument := some (.literal { kind := .binary, text := "0B101" }) },
                { mnemonic := "LOADI", line := 9
                  argument := some (.literal { kind := .float, text := "0f-1.5e3" }) },
                { mnemonic := "LOADI", line := 9
                  argument := some (.literal { kind := .decimal, text := "-17" }) },
                { mnemonic := "CALL", argument := some (.symbol "std.putch"), line := 8 },
                { mnemonic := "JMP", argument := some (.symbol "HALT"), line := 8 } ]
            line := 0 },
        .native { name := "_clock", identifier := 0xFFFFFFFF, line := 1 },
        .code { name := "HALT", instructions := [], line := 2 } ] }

theorem sampler_ofSource_file :
    sampler.Printable ∧
      ofSource (sampler.file 4) = .ok sampler.renumbered ∧
      sampler.renumbered.statements = sampler.statements ∧
      sampler.renumbered.declarations.flatMap Declaration.lineNumbers =
        List.range' 1 (sampler.lines 4).length := by
  have hprintable : sampler.Printable := by decide +kernel
  exact ⟨hprintable, ofSource_file 4 hprintable⟩

end Program

end StackAsm
