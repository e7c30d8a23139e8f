import Mathlib
import StackAsm.Image
import StackAsm.Proofs.Operations

namespace StackAsm

/-- The number that some bytes denote, the most significant first. -/
def bigEndianValue (bytes : List UInt8) : Nat :=
  bytes.foldl (fun value byte => 256 * value + byte.toNat) 0

theorem bigEndianValue_bigEndian (value : UInt64) :
    bigEndianValue (bigEndian value) = value.toNat := by
  have hvalue : value.toNat < 2 ^ 64 := value.toNat_lt
  simp [bigEndianValue, bigEndian, Nat.shiftRight_eq_div_pow]
  omega

theorem cutRecords_flatMap (records : List Record) :
    cutRecords (records.flatMap Record.bytes) = records.map Record.bytes := by
  induction records with
  | nil => rw [List.flatMap_nil, cutRecords, List.map_nil]
  | cons record records ih =>
      rw [List.flatMap_cons, Record.bytes, List.cons_append, cutRecords, List.map_cons]
      have hwidth : (bigEndian record.operand).length = Record.width - 1 := rfl
      rw [← hwidth, List.take_left, List.drop_left, ih]
      rfl

namespace Instruction

/-- The instruction has a record, wherever the name it may refer to leads: its mnemonic is one of
the instruction set, it has an argument exactly if the operation takes one, and a literal stands
for some bits. -/
def WellFormed (instruction : Instruction) : Prop :=
  ∃ operation : Operation,
    operation.Named instruction.mnemonic ∧ operation.Accepts instruction.argument

/-- What is wrong with an instruction by itself. The cases exclude each other: an argument is
looked at only if the mnemonic is known, and its literal only if there should be an argument. -/
inductive Flaw (instruction : Instruction) : InstructionFault.Cause → Prop
  | unknownMnemonic
      (hunknown : ∀ operation : Operation, ¬operation.Named instruction.mnemonic) :
      Flaw instruction (.unknownMnemonic instruction.mnemonic)
  | missingArgument {operation : Operation}
      (hnamed : operation.Named instruction.mnemonic) (htakes : operation.takesArgument = true)
      (hargument : instruction.argument = none) :
      Flaw instruction (.missingArgument instruction.mnemonic)
  | unexpectedArgument {operation : Operation} {argument : Argument}
      (hnamed : operation.Named instruction.mnemonic) (htakes : operation.takesArgument = false)
      (hargument : instruction.argument = some argument) :
      Flaw instruction (.unexpectedArgument instruction.mnemonic)
  | badLiteral {operation : Operation} {literal : Literal} {fault : Literal.Fault}
      (hnamed : operation.Named instruction.mnemonic) (htakes : operation.takesArgument = true)
      (hargument : instruction.argument = some (.literal literal))
      (hbits : literal.bits = .error fault) :
      Flaw instruction (.badLiteral fault)

/-- How an instruction comes by its record. -/
inductive Encodes (instruction : Instruction) (referent? : Option Referent) : Record → Prop
  | absent {operation : Operation}
      (hnamed : operation.Named instruction.mnemonic) (htakes : operation.takesArgument = false)
      (hargument : instruction.argument = none) :
      Encodes instruction referent? { opcode := operation.encoding.byte none, operand := 0 }
  | symbol {operation : Operation} {name : String} {referent : Referent}
      (hnamed : operation.Named instruction.mnemonic) (htakes : operation.takesArgument = true)
      (hargument : instruction.argument = some (.symbol name))
      (hreferent : referent? = some referent) :
      Encodes instruction referent?
        { opcode := operation.encoding.byte (some referent.kind), operand := referent.value }
  | literal {operation : Operation} {literal : Literal} {bits : UInt64}
      (hnamed : operation.Named instruction.mnemonic) (htakes : operation.takesArgument = true)
      (hargument : instruction.argument = some (.literal literal))
      (hbits : literal.bits = .ok bits) :
      Encodes instruction referent? { opcode := operation.encoding.byte none, operand := bits }

theorem Encodes.wellFormed {instruction : Instruction} {referent? : Option Referent}
    {record : Record} (h : instruction.Encodes referent? record) : instruction.WellFormed := by
  cases h with
  | absent hnamed htakes hargument =>
      refine ⟨_, hnamed, by rw [hargument, htakes]; rfl, ?_⟩
      intro literal hliteral
      rw [hargument] at hliteral
      cases hliteral
  | symbol hnamed htakes hargument hreferent =>
      refine ⟨_, hnamed, by rw [hargument, htakes]; rfl, ?_⟩
      intro literal hliteral
      rw [hargument] at hliteral
      cases hliteral
  | literal hnamed htakes hargument hbits =>
      refine ⟨_, hnamed, by rw [hargument, htakes]; rfl, ?_⟩
      intro literal hliteral
      rw [hargument] at hliteral
      cases hliteral
      exact ⟨_, hbits⟩

theorem Encodes.operand_eq {instruction : Instruction} {referent? : Option Referent}
    {record : Record} (h : instruction.Encodes referent? record) :
    match instruction.argument with
    | none => record.operand = 0
    | some (.symbol _) => referent?.map Referent.value = some record.operand
    | some (.literal value) => value.bits = .ok record.operand := by
  cases h with
  | absent _ _ hargument => rw [hargument]
  | symbol _ _ hargument hreferent =>
      rw [hargument]
      simp only [hreferent, Option.map_some]
  | literal _ _ hargument hbits =>
      rw [hargument]
      exact hbits

theorem Flaw.not_wellFormed {instruction : Instruction} {cause : InstructionFault.Cause}
    (h : instruction.Flaw cause) : ¬instruction.WellFormed := by
  rintro ⟨operation, hnamed, hargument, hliteral⟩
  cases h with
  | unknownMnemonic hunknown => exact hunknown operation hnamed
  | missingArgument hnamed' htakes hnone =>
      rw [hnamed.unique hnamed', hnone, htakes] at hargument
      cases hargument
  | unexpectedArgument hnamed' htakes hsome =>
      rw [hnamed.unique hnamed', hsome, htakes] at hargument
      cases hargument
  | badLiteral _ _ hsome hbits =>
      obtain ⟨bits, hok⟩ := hliteral _ hsome
      rw [hbits] at hok
      cases hok

theorem encode_cases (instruction : Instruction) (referent? : Option Referent) :
    (∃ record, instruction.encode referent? = .ok record ∧
        instruction.Encodes referent? record) ∨
      (∃ cause, instruction.encode referent? = .error { line := instruction.line, cause } ∧
        instruction.Flaw cause) ∨
      ∃ name, instruction.encode referent? =
          .error { line := instruction.line, cause := .unresolved name } ∧
        instruction.argument = some (.symbol name) ∧ referent? = none ∧
        instruction.WellFormed := by
  cases hfind : Operation.find? instruction.mnemonic with
  | none =>
      right; left
      refine ⟨.unknownMnemonic instruction.mnemonic, by simp only [encode, hfind], ?_⟩
      exact .unknownMnemonic (Operation.find?_eq_none_iff.mp hfind)
  | some operation =>
      have hnamed := Operation.find?_eq_some_iff.mp hfind
      cases hargument : instruction.argument with
      | none =>
          cases htakes : operation.takesArgument with
          | true =>
              right; left
              exact ⟨.missingArgument instruction.mnemonic,
                by simp [encode, hfind, hargument, htakes],
                .missingArgument hnamed htakes hargument⟩
          | false =>
              left
              exact ⟨_, by simp [encode, hfind, hargument, htakes],
                .absent hnamed htakes hargument⟩
      | some argument =>
          cases htakes : operation.takesArgument with
          | false =>
              right; left
              exact ⟨.unexpectedArgument instruction.mnemonic,
                by simp [encode, hfind, hargument, htakes],
                .unexpectedArgument hnamed htakes hargument⟩
          | true =>
              cases argument with
              | symbol name =>
                  cases referent? with
                  | none =>
                      right; right
                      refine ⟨name, by simp [encode, hfind, hargument, htakes], rfl, rfl,
                        operation, hnamed, ?_, ?_⟩
                      · rw [hargument, htakes]
                        rfl
                      · intro literal hliteral
                        rw [hargument] at hliteral
                        cases hliteral
                  | some referent =>
                      left
                      exact ⟨_, by simp [encode, hfind, hargument, htakes],
                        .symbol hnamed htakes hargument rfl⟩
              | literal literal =>
                  cases hbits : literal.bits with
                  | error fault =>
                      right; left
                      exact ⟨.badLiteral fault, by simp [encode, hfind, hargument, htakes, hbits],
                        .badLiteral hnamed htakes hargument hbits⟩
                  | ok bits =>
                      left
                      exact ⟨_, by simp [encode, hfind, hargument, htakes, hbits],
                        .literal hnamed htakes hargument hbits⟩

theorem encodes_of_encode_eq_ok {instruction : Instruction} {referent? : Option Referent}
    {record : Record} (h : instruction.encode referent? = .ok record) :
    instruction.Encodes referent? record := by
  rcases encode_cases instruction referent? with
    ⟨other, hencode, hrecord⟩ | ⟨_, hencode, -⟩ | ⟨_, hencode, -⟩
  · rw [h] at hencode
    cases hencode
    exact hrecord
  · rw [h] at hencode
    cases hencode
  · rw [h] at hencode
    cases hencode

theorem encode_of_flaw {instruction : Instruction} {cause : InstructionFault.Cause}
    (h : instruction.Flaw cause) (referent? : Option Referent) :
    instruction.encode referent? = .error { line := instruction.line, cause } := by
  cases h with
  | unknownMnemonic hunknown =>
      have hfind := Operation.find?_eq_none_iff.mpr hunknown
      simp only [encode, hfind]
  | missingArgument hnamed htakes hargument =>
      have hfind := Operation.find?_eq_some_iff.mpr hnamed
      simp [encode, hfind, htakes, hargument]
  | unexpectedArgument hnamed htakes hargument =>
      have hfind := Operation.find?_eq_some_iff.mpr hnamed
      simp [encode, hfind, htakes, hargument]
  | badLiteral hnamed htakes hargument hbits =>
      have hfind := Operation.find?_eq_some_iff.mpr hnamed
      simp [encode, hfind, htakes, hargument, hbits]

section Resolved

variable {instruction : Instruction} {referent? : Option Referent}
  (hreferent : ∀ name, instruction.argument = some (.symbol name) → referent? ≠ none)
include hreferent

theorem exists_encode_iff_wellFormed :
    (∃ record, instruction.encode referent? = .ok record) ↔ instruction.WellFormed := by
  rcases encode_cases instruction referent? with
    ⟨record, hencode, hrecord⟩ | ⟨_, hencode, hflaw⟩ | ⟨name, -, hname, hnone, -⟩
  · exact ⟨fun _ => hrecord.wellFormed, fun _ => ⟨record, hencode⟩⟩
  · rw [hencode]
    exact ⟨fun ⟨_, h⟩ => (by cases h), fun h => absurd h hflaw.not_wellFormed⟩
  · exact absurd hnone (hreferent name hname)

theorem encode_eq_error_iff {fault : InstructionFault} :
    instruction.encode referent? = .error fault ↔
      fault.line = instruction.line ∧ instruction.Flaw fault.cause := by
  rcases encode_cases instruction referent? with
    ⟨record, hencode, hrecord⟩ | ⟨cause, hencode, hflaw⟩ | ⟨name, -, hname, hnone, -⟩
  · rw [hencode]
    exact ⟨fun h => (by cases h), fun h => absurd hrecord.wellFormed h.2.not_wellFormed⟩
  · rw [hencode]
    constructor
    · intro h
      cases h
      exact ⟨rfl, hflaw⟩
    · rcases fault with ⟨line, other⟩
      rintro ⟨rfl, hother⟩
      rw [← hencode, encode_of_flaw hother]
  · exact absurd hnone (hreferent name hname)

end Resolved

end Instruction

end StackAsm
