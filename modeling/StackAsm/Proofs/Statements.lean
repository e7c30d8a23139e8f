import Mathlib
import StackAsm.Proofs.Judgements
import StackAsm.Proofs.HexLiterals
import StackAsm.Proofs.Outcome
import StackAsm.Proofs.Operations

namespace StackAsm

/-- The lexeme that an argument is written as. -/
def Argument.lexeme : Argument → Lexeme
  | symbol name => .word name
  | literal value => .number value

namespace Run

theorem label_eq_ok_iff {lexemes rest : List Lexeme} {name : String} :
    label lexemes = .ok (name, rest) ↔ lexemes = .word name :: rest := by
  rcases lexemes with _ | ⟨first, others⟩
  · simp [label]
  · cases first <;> simp [label]

theorem finish_eq_ok_iff {lexemes : List Lexeme} {u : Unit} :
    finish lexemes = .ok u ↔ lexemes = [] := by
  cases lexemes <;> simp [finish]

/-- The number that stands behind the mark of a hex literal, if it is one of 32 bits. -/
def Identifies (text : String) (number : UInt32) : Prop :=
  ∃ value,
    Numeral.read 16 (UInt32.size - 1) (Numeral.dropPlus (Literal.afterMark text.toList)) =
      .ok value ∧ number = UInt32.ofNat value

theorem identifies_iff {text : String} (h : text.toList ∈ Pattern.literal .hex)
    {number : UInt32} : Identifies text number ↔ Literal.hexValue? text = some number.toNat := by
  constructor
  · rintro ⟨value, hread, rfl⟩
    obtain ⟨hvalue, hlimit⟩ := (Literal.read_hex_iff h).mp hread
    rw [UInt32.toNat_ofNat_of_lt' (Nat.lt_of_le_pred (by decide) hlimit)]
    exact hvalue
  · intro hnumber
    have hlimit : number.toNat ≤ UInt32.size - 1 := Nat.le_pred_of_lt number.toNat_lt_size
    exact ⟨number.toNat, (Literal.read_hex_iff h).mpr ⟨hnumber, hlimit⟩, UInt32.ofNat_toNat.symm⟩

theorem identifierOf_eq_ok_iff {text : String} {number : UInt32} :
    Reading.identifierOf text = .ok number ↔ Identifies text number := by
  rw [Reading.identifierOf, Identifies]
  cases Numeral.read 16 (UInt32.size - 1) (Numeral.dropPlus (Literal.afterMark text.toList)) with
  | error fault => simp
  | ok value => simp [eq_comm]

theorem identifier_eq_ok_iff {lexemes rest : List Lexeme} {number : UInt32} :
    identifier lexemes = .ok (number, rest) ↔
      ∃ text, lexemes = .number { kind := .hex, text } :: rest ∧ Identifies text number := by
  constructor
  · intro h
    unfold identifier at h
    split at h
    · next text others =>
      obtain ⟨own, hown, hpair⟩ := Outcome.map_eq_ok_iff.mp h
      cases hpair
      exact ⟨text, rfl, identifierOf_eq_ok_iff.mp hown⟩
    · cases h
    · cases h
  · rintro ⟨text, rfl, hnumber⟩
    rw [identifier, identifierOf_eq_ok_iff.mpr hnumber]
    rfl

theorem argument_eq_ok_iff {lexemes rest : List Lexeme} {argument : Option Argument} :
    Run.argument lexemes = .ok (argument, rest) ↔
      lexemes = argument.toList.map Argument.lexeme ++ rest ∧ (argument = none → rest = []) := by
  constructor
  · intro h
    unfold Run.argument at h
    split at h <;> cases h <;> simp [Argument.lexeme]
  · rintro ⟨rfl, hnone⟩
    cases argument with
    | none =>
        rw [hnone rfl]
        rfl
    | some argument => cases argument <;> rfl

theorem checkArgument_eq_ok_iff {operation : Operation} {argument : Option Argument} {u : Unit} :
    Reading.checkArgument operation argument = .ok u ↔ operation.Accepts argument := by
  constructor
  · intro h
    unfold Reading.checkArgument at h
    split at h
    · split at h
      · cases h
      · next htakes => exact ⟨by simpa using htakes, fun literal hliteral => (by cases hliteral)⟩
    · split at h
      · next htakes =>
        refine ⟨by simp [htakes], ?_⟩
        rintro literal hliteral
        cases hliteral
        cases hbits : literal.bits with
        | error fault => simp [hbits] at h
        | ok bits => exact ⟨bits, rfl⟩
      · cases h
  · rintro ⟨harity, hliteral⟩
    rcases argument with _ | name | literal
    · simp [Reading.checkArgument, ← harity]
    · simp [Reading.checkArgument, ← harity]
    · obtain ⟨bits, hbits⟩ := hliteral literal rfl
      simp [Reading.checkArgument, ← harity, hbits]

theorem sectionHeader_eq_ok_iff {rest : List Lexeme} {statement : Statement} :
    sectionHeader rest = .ok statement ↔
      ∃ name, rest = [.word name] ∧ statement = .openSection name := by
  simp only [sectionHeader, Outcome.bind_eq_ok_iff, Prod.exists, label_eq_ok_iff, finish_eq_ok_iff]
  constructor
  · rintro ⟨name, _, rfl, _, rfl, hstatement⟩
    exact ⟨name, rfl, (Except.ok.inj hstatement).symm⟩
  · rintro ⟨name, rfl, rfl⟩
    exact ⟨name, [], rfl, (), rfl, rfl⟩

theorem nativeDeclaration_eq_ok_iff {rest : List Lexeme} {statement : Statement} :
    nativeDeclaration rest = .ok statement ↔
      ∃ name text number, rest = [.word name, .number { kind := .hex, text }] ∧
        Identifies text number ∧ statement = .declareNative name number := by
  simp only [nativeDeclaration, Outcome.bind_eq_ok_iff, Prod.exists, label_eq_ok_iff,
    identifier_eq_ok_iff, finish_eq_ok_iff]
  constructor
  · rintro ⟨name, _, rfl, number, _, ⟨text, rfl, hnumber⟩, _, rfl, hstatement⟩
    exact ⟨name, text, number, rfl, hnumber, (Except.ok.inj hstatement).symm⟩
  · rintro ⟨name, text, number, rfl, hnumber, rfl⟩
    exact ⟨name, _, rfl, number, _, ⟨text, rfl, hnumber⟩, (), rfl, rfl⟩

theorem instruction_eq_ok_iff {inSection : Bool} {line : Nat} {word : String}
    {rest : List Lexeme} {statement : Statement} :
    Run.instruction inSection line word rest = .ok statement ↔
      ∃ (operation : Operation) (argument : Option Argument),
        operation.Named word ∧ operation.Accepts argument ∧
        rest = argument.toList.map Argument.lexeme ∧ inSection = true ∧
          statement = .perform operation.mnemonic argument := by
  cases hfind : Operation.find? word with
  | none =>
      rw [Operation.find?_eq_none_iff] at hfind
      constructor
      · intro h
        rw [Run.instruction, Operation.find?_eq_none_iff.mpr hfind] at h
        cases h
      · rintro ⟨operation, _, hnamed, -⟩
        exact absurd hnamed (hfind operation)
  | some operation =>
      simp only [Run.instruction, hfind, Outcome.bind_eq_ok_iff, Prod.exists, argument_eq_ok_iff,
        finish_eq_ok_iff, checkArgument_eq_ok_iff]
      constructor
      · rintro ⟨argument, _, ⟨rfl, -⟩, _, rfl, _, haccepts, hstatement⟩
        cases inSection with
        | false => cases hstatement
        | true =>
            refine ⟨operation, argument, Operation.find?_eq_some_iff.mp hfind, haccepts, ?_, rfl,
              (Except.ok.inj hstatement).symm⟩
            rw [List.append_nil]
      · rintro ⟨other, argument, hnamed, haccepts, rfl, rfl, rfl⟩
        rw [hnamed.unique (Operation.find?_eq_some_iff.mp hfind)] at haccepts ⊢
        exact ⟨argument, [], ⟨by rw [List.append_nil], fun _ => rfl⟩, (), rfl, (), haccepts, rfl⟩

/-- What a run says as a whole. Only an instruction depends on what came before it. -/
inductive Says (inSection : Bool) (run : Run) : Statement → Prop
  | header {name : String} (hfirst : run.first = .sectionKeyword)
      (hrest : run.rest = [.word name]) :
      Says inSection run (.openSection name)
  | native {name text : String} {number : UInt32} (hfirst : run.first = .nativeKeyword)
      (hrest : run.rest = [.word name, .number { kind := .hex, text }])
      (hnumber : Identifies text number) : Says inSection run (.declareNative name number)
  | instruction {word : String} {operation : Operation} {argument : Option Argument}
      (hfirst : run.first = .word word) (hnamed : operation.Named word)
      (haccepts : operation.Accepts argument)
      (hrest : run.rest = argument.toList.map Argument.lexeme) (hsection : inSection = true) :
      Says inSection run (.perform operation.mnemonic argument)

theorem statement_eq_ok_iff {inSection : Bool} {run : Run} {statement : Statement} :
    run.statement inSection = .ok statement ↔ run.Says inSection statement := by
  constructor
  · intro h
    cases hfirst : run.first with
    | sectionKeyword =>
        rw [Run.statement, hfirst] at h
        obtain ⟨name, hrest, rfl⟩ := sectionHeader_eq_ok_iff.mp h
        exact .header hfirst hrest
    | nativeKeyword =>
        rw [Run.statement, hfirst] at h
        obtain ⟨name, text, number, hrest, hnumber, rfl⟩ := nativeDeclaration_eq_ok_iff.mp h
        exact .native hfirst hrest hnumber
    | word word =>
        rw [Run.statement, hfirst] at h
        obtain ⟨operation, argument, hnamed, haccepts, hrest, hsection, rfl⟩ :=
          instruction_eq_ok_iff.mp h
        exact .instruction hfirst hnamed haccepts hrest hsection
    | number literal =>
        rw [Run.statement, hfirst] at h
        cases h
  · intro h
    cases h with
    | header hfirst hrest =>
        rw [Run.statement, hfirst]
        exact sectionHeader_eq_ok_iff.mpr ⟨_, hrest, rfl⟩
    | native hfirst hrest hnumber =>
        rw [Run.statement, hfirst]
        exact nativeDeclaration_eq_ok_iff.mpr ⟨_, _, _, hrest, hnumber, rfl⟩
    | instruction hfirst hnamed haccepts hrest hsection =>
        rw [Run.statement, hfirst]
        exact instruction_eq_ok_iff.mpr ⟨_, _, hnamed, haccepts, hrest, hsection, rfl⟩

theorem perform_of_statement {inSection : Bool} {run : Run} {mnemonic : String}
    {argument : Option Argument}
    (h : run.statement inSection = .ok (.perform mnemonic argument)) :
    ∃ operation ∈ Operation.all, mnemonic = operation.mnemonic ∧ operation.Accepts argument := by
  cases statement_eq_ok_iff.mp h with
  | instruction _ hnamed haccepts _ _ => exact ⟨_, hnamed.1, rfl, haccepts⟩

end Run

end StackAsm
