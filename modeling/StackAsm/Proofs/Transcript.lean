import Mathlib
import StackAsm.Proofs.Acceptance

/-!
Programs against the tokens that they are read from. A program is put down again declaration by
declaration, each followed by its instructions, and this gives token for token what was read. Only
two things are not kept as written: how a mnemonic was spelled, and with which digits the number of
a native routine was given.
-/

namespace StackAsm

/-- The lexeme is one of the two keywords, each of which begins a declaration. -/
def Lexeme.declares : Lexeme → Bool
  | sectionKeyword => true
  | nativeKeyword => true
  | word _ => false
  | number _ => false

/-- A lexeme as far as a program still knows it. -/
inductive Mark.Content where
  | lexeme (own : Lexeme)
  | mnemonic (spelling : String)
  | identifier (number : UInt32)
  deriving DecidableEq, Repr

/-- A token as far as a program still knows it. -/
structure Mark where
  content : Mark.Content
  line : Nat
  deriving DecidableEq, Repr

namespace Mark

/-- The lexeme is one that the content may have come from. A name or a literal is as it was. A
mnemonic has the spelling of the instruction set, whatever mix of upper and lower case it was
written in. The number of a native routine is what its hex digits denote, as a number of 32 bits.
-/
inductive Content.Allows : Content → Lexeme → Prop
  | lexeme (own : Lexeme) : Allows (.lexeme own) own
  | mnemonic {operation : Operation} {word : String} (hnamed : operation.Named word) :
      Allows (.mnemonic operation.mnemonic) (.word word)
  | identifier {number : UInt32} {text : String}
      (hnumber : Literal.hexValue? text = some number.toNat) :
      Allows (.identifier number) (.number { kind := .hex, text })

/-- The token is one that the mark may have come from, and on the same line. -/
def Fits (mark : Mark) (token : Token) : Prop :=
  mark.line = token.line ∧ mark.content.Allows token.lexeme

def ofToken (token : Token) : Mark :=
  { content := .lexeme token.lexeme, line := token.line }

theorem fits_ofToken_iff {token other : Token} : (ofToken token).Fits other ↔ token = other := by
  rcases token with ⟨lexeme, line⟩
  rcases other with ⟨other, otherLine⟩
  rw [Token.mk.injEq]
  constructor
  · rintro ⟨hline, hallows⟩
    cases hallows
    exact ⟨rfl, hline⟩
  · rintro ⟨rfl, rfl⟩
    exact ⟨rfl, .lexeme lexeme⟩

theorem forall₂_fits_ofToken_iff {tokens others : List Token} :
    List.Forall₂ Fits (tokens.map ofToken) others ↔ tokens = others := by
  simp only [List.forall₂_map_left_iff, fits_ofToken_iff, List.forall₂_eq_eq_eq]

end Mark

namespace Statement

/-- What a statement knows of the lexemes that it is written with. -/
def contents : Statement → List Mark.Content
  | openSection name => [.lexeme .sectionKeyword, .lexeme (.word name)]
  | declareNative name identifier =>
      [.lexeme .nativeKeyword, .lexeme (.word name), .identifier identifier]
  | perform mnemonic argument =>
      .mnemonic mnemonic :: argument.toList.map fun argument => .lexeme argument.lexeme

/-- The statement put down on a line. -/
def marks (line : Nat) (statement : Statement) : List Mark :=
  statement.contents.map fun content => { content, line }

end Statement

def Instruction.marks (instruction : Instruction) : List Mark :=
  Statement.marks instruction.line (.perform instruction.mnemonic instruction.argument)

namespace Declaration

/-- The line that opens a section or declares a native routine, put down. -/
def headerMarks : Declaration → List Mark
  | code sec => Statement.marks sec.line (.openSection sec.name)
  | native routine =>
      Statement.marks routine.line (.declareNative routine.name routine.identifier)

/-- A declaration put down, and behind it its instructions. -/
def marks (declaration : Declaration) : List Mark :=
  declaration.headerMarks ++ declaration.instructions.flatMap Instruction.marks

def keyword : Declaration → Token
  | code sec => { lexeme := .sectionKeyword, line := sec.line }
  | native routine => { lexeme := .nativeKeyword, line := routine.line }

end Declaration

/-- A program put down, one declaration after the other. -/
def Program.marks (program : Program) : List Mark :=
  program.declarations.flatMap Declaration.marks

namespace Run

theorem Says.allows {inSection : Bool} {run : Run} {statement : Statement}
    (hshape : ∀ lexeme ∈ run.rest, lexeme.HexShaped) (h : run.Says inSection statement) :
    List.Forall₂ Mark.Content.Allows statement.contents (run.first :: run.rest) := by
  cases h with
  | header hfirst hrest =>
      rw [hfirst, hrest]
      exact .cons (.lexeme _) (.cons (.lexeme _) .nil)
  | @native name text number hfirst hrest hnumber =>
      have htext : text.toList ∈ Pattern.literal .hex :=
        hshape (.number { kind := .hex, text }) (by simp [hrest])
      have hvalue := (identifies_iff htext).mp hnumber
      rw [hfirst, hrest]
      exact .cons (.lexeme _) (.cons (.lexeme _) (.cons (.identifier hvalue) .nil))
  | instruction hfirst hnamed _ hrest _ =>
      rw [hfirst, hrest]
      refine .cons (.mnemonic hnamed) ?_
      rw [List.forall₂_map_left_iff, List.forall₂_map_right_iff, List.forall₂_same]
      intro argument _
      exact .lexeme argument.lexeme

theorem Says.leavesSectionOpen {inSection : Bool} {run : Run} {statement : Statement}
    (h : run.Says inSection statement) :
    match statement with
    | .openSection _ => run.leavesSectionOpen inSection = true
    | .declareNative .. => run.leavesSectionOpen inSection = false
    | .perform .. => inSection = true ∧ run.leavesSectionOpen inSection = true := by
  cases h with
  | header hfirst _ => simp [Run.leavesSectionOpen, hfirst]
  | native hfirst hrest hnumber =>
      have hread := nativeDeclaration_eq_ok_iff.mpr ⟨_, _, _, hrest, hnumber, rfl⟩
      simp [Run.leavesSectionOpen, hfirst, hread, Except.toOption]
  | instruction hfirst _ _ _ hsection => simp [Run.leavesSectionOpen, hfirst, hsection]

theorem fits_of_statement {inSection : Bool} {run : Run} {statement : Statement}
    (hshape : ∀ lexeme ∈ run.rest, lexeme.HexShaped)
    (h : run.statement inSection = .ok statement) :
    List.Forall₂ Mark.Fits (statement.marks run.line) run.tokens := by
  rw [Statement.marks, tokens, List.forall₂_map_left_iff, List.forall₂_map_right_iff]
  exact ((statement_eq_ok_iff.mp h).allows hshape).imp fun _ _ hallows => ⟨rfl, hallows⟩

end Run

namespace Judgements

theorem outcomes_eq_of_faults {outcomes : List (Except LineFault (Nat × Statement))}
    (h : (Judgements.mk outcomes).faults = []) :
    outcomes = (Judgements.mk outcomes).statements.map .ok := by
  induction outcomes with
  | nil => rfl
  | cons outcome outcomes ih =>
      cases outcome with
      | error fault => cases h
      | ok entry => exact congrArg _ (ih h)

theorem exists_of_ofRuns_cons {inSection : Bool} {run : Run} {runs : List Run}
    {entries : List (Nat × Statement)} (h : ofRuns inSection (run :: runs) = entries.map .ok) :
    ∃ statement rest, run.statement inSection = .ok statement ∧
      entries = (run.line, statement) :: rest ∧
      ofRuns (run.leavesSectionOpen inSection) runs = rest.map .ok := by
  rw [ofRuns, eq_comm, List.map_eq_cons_iff] at h
  obtain ⟨entry, rest, rfl, hentry, hrest⟩ := h
  cases hstatement : run.statement inSection with
  | error cause =>
      rw [hstatement] at hentry
      cases hentry
  | ok statement =>
      rw [hstatement, Except.ok.injEq] at hentry
      rw [hentry]
      exact ⟨statement, rest, rfl, rfl, hrest.symm⟩

theorem fits_of_ofRuns {inSection : Bool} {runs : List Run} {entries : List (Nat × Statement)}
    (hshape : ∀ run ∈ runs, ∀ lexeme ∈ run.rest, lexeme.HexShaped)
    (h : ofRuns inSection runs = entries.map .ok) :
    List.Forall₂ Mark.Fits (entries.flatMap fun (line, statement) => statement.marks line)
      (runs.flatMap Run.tokens) := by
  induction runs generalizing inSection entries with
  | nil =>
      rw [List.map_eq_nil_iff.mp h.symm]
      exact .nil
  | cons run runs ih =>
      obtain ⟨hrun, hruns⟩ := List.forall_mem_cons.mp hshape
      obtain ⟨statement, rest, hstatement, rfl, hrest⟩ := exists_of_ofRuns_cons h
      exact List.rel_append (Run.fits_of_statement hrun hstatement) (ih hruns hrest)

/-- Gathering keeps everything in its order. The instructions that still wait for their section
come first, so that one statement can be put in front. There are none behind the declaration of a
native routine, which closes the section before it: those would be lost. -/
theorem marks_gather {inSection : Bool} {runs : List Run} {entries : List (Nat × Statement)}
    (h : ofRuns inSection runs = entries.map .ok) :
    (entries.foldr gather ([], [])).1.flatMap Instruction.marks ++
        (entries.foldr gather ([], [])).2.flatMap Declaration.marks =
      (entries.flatMap fun (line, statement) => statement.marks line) ∧
    (inSection = false → (entries.foldr gather ([], [])).1 = []) := by
  induction runs generalizing inSection entries with
  | nil =>
      rw [List.map_eq_nil_iff.mp h.symm]
      exact ⟨rfl, fun _ => rfl⟩
  | cons run runs ih =>
      obtain ⟨statement, rest, hstatement, rfl, hrest⟩ := exists_of_ofRuns_cons h
      obtain ⟨hmarks, hwaiting⟩ := ih hrest
      have hopen := (Run.statement_eq_ok_iff.mp hstatement).leavesSectionOpen
      rw [List.foldr_cons, List.flatMap_cons, ← hmarks]
      cases statement with
      | openSection name =>
          refine ⟨?_, fun _ => rfl⟩
          simp [gather, Declaration.marks, Declaration.headerMarks, Declaration.instructions]
      | declareNative name identifier =>
          refine ⟨?_, fun _ => rfl⟩
          rw [hwaiting hopen]
          simp [gather, Declaration.marks, Declaration.headerMarks, Declaration.instructions]
      | perform mnemonic argument =>
          refine ⟨?_, fun hclosed => ?_⟩
          · simp [gather, Instruction.marks]
          · rw [hopen.1] at hclosed
            cases hclosed

end Judgements

theorem Judgements.exists_entries_of_result {judgements : Judgements} {program : Program}
    (h : judgements.result = .ok program) :
    ∃ entries : List (Nat × Statement), judgements.outcomes = entries.map .ok ∧
      program.declarations = (entries.foldr gather ([], [])).2 := by
  rw [result] at h
  split at h
  · next hfaults =>
    cases h
    exact ⟨judgements.statements, outcomes_eq_of_faults (List.isEmpty_iff.mp hfaults), rfl⟩
  · cases h

theorem Program.fits_of_ofTokens {tokens : List Token} {program : Program}
    (hshape : ∀ token ∈ tokens, token.lexeme.HexShaped) (h : ofTokens tokens = .ok program) :
    List.Forall₂ Mark.Fits program.marks tokens := by
  rw [ofTokens_eq] at h
  obtain ⟨entries, hentries, hdeclarations⟩ := Judgements.exists_entries_of_result h
  obtain ⟨hmarks, hwaiting⟩ := Judgements.marks_gather hentries
  have hpartition := Run.partition_all tokens
  have hfits := Judgements.fits_of_ofRuns
    (fun run hrun lexeme hlexeme =>
      hpartition.forall_lexeme hshape run hrun lexeme (List.mem_cons_of_mem _ hlexeme)) hentries
  rwa [hpartition.flatMap_tokens, ← hmarks, hwaiting rfl, List.flatMap_nil, List.nil_append,
    ← hdeclarations] at hfits

namespace Mark

def declares (mark : Mark) : Bool :=
  match mark.content with
  | .lexeme own => own.declares
  | .mnemonic _ => false
  | .identifier _ => false

theorem Fits.declares_eq {mark : Mark} {token : Token} (h : mark.Fits token) :
    mark.declares = token.lexeme.declares := by
  rcases mark with ⟨content, line⟩
  rcases token with ⟨lexeme, line⟩
  obtain ⟨-, hallows⟩ := h
  cases hallows <;> rfl

theorem declares_of_mem_instruction {instruction : Instruction} {mark : Mark}
    (h : mark ∈ instruction.marks) : mark.declares = false := by
  obtain ⟨content, hcontent, rfl⟩ := List.mem_map.mp h
  rcases List.mem_cons.mp hcontent with rfl | hcontent
  · rfl
  · obtain ⟨argument, -, rfl⟩ := List.mem_map.mp hcontent
    cases argument <;> rfl

theorem filter_declares_declaration (declaration : Declaration) :
    declaration.marks.filter declares = [ofToken declaration.keyword] := by
  have hinstructions :
      (declaration.instructions.flatMap Instruction.marks).filter declares = [] := by
    rw [List.filter_eq_nil_iff]
    intro mark hmark
    obtain ⟨instruction, -, hmark⟩ := List.mem_flatMap.mp hmark
    rw [declares_of_mem_instruction hmark]
    exact Bool.false_ne_true
  rw [Declaration.marks, List.filter_append, hinstructions, List.append_nil]
  cases declaration <;> rfl

section Keywords

variable {tokens : List Token}

theorem filter_declares_of_fits {declarations : List Declaration}
    (h : List.Forall₂ Fits (declarations.flatMap Declaration.marks) tokens) :
    (tokens.filter fun token => token.lexeme.declares) =
      declarations.map Declaration.keyword := by
  have hfilter : List.Forall₂ Fits ((declarations.flatMap Declaration.marks).filter declares)
      (tokens.filter fun token => token.lexeme.declares) :=
    List.rel_filter (fun _ _ hfits => iff_of_eq (congrArg (· = true) hfits.declares_eq)) h
  rw [List.filter_flatMap] at hfilter
  simp only [filter_declares_declaration] at hfilter
  rw [← List.map_eq_flatMap, ← Function.comp_def, ← List.map_map, forall₂_fits_ofToken_iff]
    at hfilter
  exact hfilter.symm

theorem declares_of_fits_instructions {instructions : List Instruction}
    (h : List.Forall₂ Fits (instructions.flatMap Instruction.marks) tokens) :
    ∀ token ∈ tokens, token.lexeme.declares = false := by
  intro token htoken
  obtain ⟨mark, hmark, hfits⟩ := Outcome.exists_of_forall₂ h.flip htoken
  obtain ⟨instruction, -, hmark⟩ := List.mem_flatMap.mp hmark
  rw [← Fits.declares_eq hfits, declares_of_mem_instruction hmark]

end Keywords

end Mark

namespace Program

/-- The program accounts for each of the tokens. -/
structure AccountsFor (program : Program) (tokens : List Token) : Prop where
  /-- Put down again, the program fits the tokens one by one. -/
  fits : List.Forall₂ Mark.Fits program.marks tokens
  /-- The keywords among the tokens are those of the declarations in their order. -/
  keywords : (tokens.filter fun token => token.lexeme.declares) =
    program.declarations.map Declaration.keyword
  /-- The keyword of its own section is the last one before an instruction. -/
  enclosed : ∀ before sec after earlier instruction later,
    program.declarations = before ++ .code sec :: after →
      sec.instructions = earlier ++ instruction :: later →
        ∃ front between own back,
          tokens = front ++ [⟨.sectionKeyword, sec.line⟩, ⟨.word sec.name, sec.line⟩] ++
            between ++ own ++ back ∧
          (front.filter fun token => token.lexeme.declares) =
            before.map Declaration.keyword ∧
          (∀ token ∈ between ++ own, token.lexeme.declares = false) ∧
          List.Forall₂ Mark.Fits (earlier.flatMap Instruction.marks) between ∧
          List.Forall₂ Mark.Fits instruction.marks own

theorem accountsFor_of_fits {program : Program} {tokens : List Token}
    (h : List.Forall₂ Mark.Fits program.marks tokens) : program.AccountsFor tokens where
  fits := h
  keywords := Mark.filter_declares_of_fits h
  enclosed := by
    intro before sec after earlier instruction later hdeclarations hinstructions
    have hmarks : program.marks =
        before.flatMap Declaration.marks ++
          (Statement.marks sec.line (.openSection sec.name) ++
            ((earlier ++ [instruction]).flatMap Instruction.marks ++
              (later.flatMap Instruction.marks ++ after.flatMap Declaration.marks))) := by
      simp [marks, hdeclarations, Declaration.marks, Declaration.headerMarks,
        Declaration.instructions, hinstructions]
    rw [hmarks] at h
    obtain ⟨front, _, rfl, hfront, h⟩ := Outcome.exists_append_of_forall₂ h
    obtain ⟨header, _, rfl, hheader, h⟩ := Outcome.exists_append_of_forall₂ h
    obtain ⟨body, back, rfl, hbody, -⟩ := Outcome.exists_append_of_forall₂ h
    have hkeyword := Mark.declares_of_fits_instructions hbody
    rw [List.flatMap_append, List.flatMap_singleton] at hbody
    obtain ⟨between, own, rfl, hbetween, hown⟩ := Outcome.exists_append_of_forall₂ hbody
    have hheader : [⟨.sectionKeyword, sec.line⟩, ⟨.word sec.name, sec.line⟩] = header :=
      Mark.forall₂_fits_ofToken_iff.mp hheader
    subst hheader
    exact ⟨front, between, own, back, by simp only [List.append_assoc],
      Mark.filter_declares_of_fits hfront, hkeyword, hbetween, hown⟩

/-- Nothing is lost, doubled or moved between tokens and the program that is read from them. -/
theorem ofTokens_accountsFor {tokens : List Token} {program : Program}
    (hshape : ∀ token ∈ tokens, token.lexeme.HexShaped) (h : ofTokens tokens = .ok program) :
    program.AccountsFor tokens :=
  accountsFor_of_fits (fits_of_ofTokens hshape h)

end Program

/-- Tokens on lines that go up and down: a native routine whose number has zeros in front, a section
that is named like an operation and calls that routine, a section without instructions, and another
native routine between sections. -/
def Token.meandering : List Token :=
  [ { lexeme := .nativeKeyword, line := 5 },
    { lexeme := .word "clock", line := 5 },
    { lexeme := .number { kind := .hex, text := "0X000000000aF" }, line := 5 },
    { lexeme := .sectionKeyword, line := 9 },
    { lexeme := .word "HALT", line := 9 },
    { lexeme := .word "LOADI", line := 3 },
    { lexeme := .number { kind := .hex, text := "0x00aF" }, line := 3 },
    { lexeme := .word "CALL", line := 4 },
    { lexeme := .word "clock", line := 4 },
    { lexeme := .sectionKeyword, line := 2 },
    { lexeme := .word "empty", line := 2 },
    { lexeme := .nativeKeyword, line := 7 },
    { lexeme := .word "beep", line := 7 },
    { lexeme := .number { kind := .hex, text := "0x1" }, line := 7 },
    { lexeme := .sectionKeyword, line := 2 },
    { lexeme := .word "main", line := 2 },
    { lexeme := .word "JMP", line := 3 },
    { lexeme := .word "HALT", line := 3 } ]

/-- What is read from these tokens. -/
def Program.meandering : Program :=
  { declarations :=
      [ .native { name := "clock", identifier := 0xAF, line := 5 },
        .code
          { name := "HALT"
            instructions :=
              [ { mnemonic := "LOADI", line := 3
                  argument := some (.literal { kind := .hex, text := "0x00aF" }) },
                { mnemonic := "CALL", argument := some (.symbol "clock"), line := 4 } ]
            line := 9 },
        .code { name := "empty", instructions := [], line := 2 },
        .native { name := "beep", identifier := 1, line := 7 },
        .code
          { name := "main"
            instructions := [{ mnemonic := "JMP", argument := some (.symbol "HALT"), line := 3 }]
            line := 2 } ] }

theorem Program.meandering_accountsFor :
    (∀ token ∈ Token.meandering, token.lexeme.HexShaped) ∧
      ofTokens Token.meandering = .ok meandering ∧ meandering.AccountsFor Token.meandering := by
  have hshape : ∀ token ∈ Token.meandering, token.lexeme.HexShaped := by decide +kernel
  have hread : ofTokens Token.meandering = .ok meandering := by decide +kernel
  exact ⟨hshape, hread, ofTokens_accountsFor hshape hread⟩

end StackAsm
