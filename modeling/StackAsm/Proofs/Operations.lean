import Mathlib
import StackAsm.InstructionSet
import StackAsm.Image
import StackAsm.SymbolCheck
import StackAsm.Proofs.Keys

namespace StackAsm

/-- The number that an argument is, if it is one. -/
def Argument.literal? : Argument → Option Literal
  | symbol _ => none
  | literal value => some value

namespace Operation

theorem mnemonics_nodup : (all.map fun operation => operation.mnemonic.toLower).Nodup := by
  decide +kernel

/-- The operation is meant by the mnemonic, which may be in any mix of upper and lower case. -/
def Named (operation : Operation) (mnemonic : String) : Prop :=
  operation ∈ all ∧ operation.mnemonic.toLower = mnemonic.toLower

theorem find?_eq_some_iff {mnemonic : String} {operation : Operation} :
    find? mnemonic = some operation ↔ operation.Named mnemonic :=
  Keys.find?_eq_some_iff mnemonics_nodup

theorem find?_eq_none_iff {mnemonic : String} :
    find? mnemonic = none ↔ ∀ operation : Operation, ¬operation.Named mnemonic := by
  simp [find?, List.find?_eq_none, Named]

theorem Named.unique {mnemonic : String} {a b : Operation} (ha : a.Named mnemonic)
    (hb : b.Named mnemonic) : a = b := by
  rw [← find?_eq_some_iff] at ha hb
  exact Option.some.inj (ha.symm.trans hb)

theorem call_mem : call ∈ all := by
  decide

theorem encoding_of_mem :
    ∀ operation ∈ all,
      operation.encoding = .single (operation.encoding.byte none) ∨
        operation.encoding = .call 0x60 0x62 := by
  decide

theorem jumps_iff_of_mem :
    ∀ operation ∈ all,
      operation.jumps = true ↔ operation.mnemonic.toLower ∈ ["jmp", "jne", "jeq"] := by
  decide +kernel

theorem exists_jump_of_mem :
    ∀ name ∈ ["jmp", "jne", "jeq"], ∃ operation ∈ all, operation.mnemonic.toLower = name := by
  decide +kernel

/-- The operation goes with the argument, or with none. -/
structure Accepts (operation : Operation) (argument : Option Argument) : Prop where
  /-- There is an argument exactly if the operation takes one. -/
  arity : argument.isSome = operation.takesArgument
  /-- A literal stands for some bits. -/
  literal : ∀ literal, argument = some (.literal literal) → ∃ bits, literal.bits = .ok bits

theorem accepts_iff {operation : Operation} {argument : Option Argument} :
    operation.Accepts argument ↔
      argument.isSome = operation.takesArgument ∧
        ∀ literal ∈ argument.bind Argument.literal?, literal.bits.toOption.isSome = true := by
  have hbits {literal : Literal} :
      (∃ bits, literal.bits = .ok bits) ↔ literal.bits.toOption.isSome = true := by
    cases literal.bits <;> simp [Except.toOption]
  have hliteral {literal : Literal} :
      argument = some (.literal literal) ↔ literal ∈ argument.bind Argument.literal? := by
    rcases argument with _ | name | other
    · simp
    · simp [Argument.literal?]
    · simp [Argument.literal?, eq_comm]
  constructor
  · rintro ⟨harity, h⟩
    exact ⟨harity, fun literal hmem => hbits.mp (h literal (hliteral.mpr hmem))⟩
  · rintro ⟨harity, h⟩
    exact ⟨harity, fun literal hmem => hbits.mpr (h literal (hliteral.mp hmem))⟩

instance (operation : Operation) (argument : Option Argument) :
    Decidable (operation.Accepts argument) :=
  decidable_of_iff _ accepts_iff.symm

end Operation

theorem Instruction.jumps_iff {instruction : Instruction} :
    instruction.jumps = true ↔ instruction.mnemonic.toLower ∈ ["jmp", "jne", "jeq"] := by
  rw [jumps, Option.any_eq_true]
  constructor
  · rintro ⟨operation, hfind, hjumps⟩
    obtain ⟨hmem, hname⟩ := Operation.find?_eq_some_iff.mp hfind
    rw [← hname]
    exact (Operation.jumps_iff_of_mem operation hmem).mp hjumps
  · intro h
    obtain ⟨operation, hmem, hname⟩ := Operation.exists_jump_of_mem _ h
    refine ⟨operation, Operation.find?_eq_some_iff.mpr ⟨hmem, hname⟩, ?_⟩
    exact (Operation.jumps_iff_of_mem operation hmem).mpr (hname ▸ h)

end StackAsm
