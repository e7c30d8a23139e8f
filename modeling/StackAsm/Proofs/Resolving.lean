import Mathlib
import StackAsm.Proofs.Assembling

namespace StackAsm

namespace Resolutions

section Failure

variable {program : Program} {table : SymbolTable} {fault : InstructionFault}

/-- The fault of an instruction whose name is not in the table. -/
def unresolvedIn? (table : SymbolTable) (reference : Position × Instruction × String) :
    Option InstructionFault :=
  if reference.2.2 ∈ table.names then none
  else some { line := reference.2.1.line, cause := .unresolved reference.2.2 }

theorem exists_resolveReference_iff {reference : Position × Instruction × String} :
    (∃ entry, resolveReference table.layOut reference = .ok entry) ↔
      unresolvedIn? table reference = none := by
  obtain ⟨position, instruction, name⟩ := reference
  have hfound : (∃ entry, resolveReference table.layOut (position, instruction, name) = .ok entry) ↔
      ∃ symbol, table.layOut.find? name = some symbol := by
    simp only [resolveReference_eq_ok_iff]
    exact ⟨fun ⟨_, symbol, h, _⟩ => ⟨symbol, h⟩, fun ⟨symbol, h⟩ => ⟨_, symbol, h, rfl⟩⟩
  rw [hfound, SymbolTable.exists_find?_iff, SymbolTable.names_layOut]
  simp [unresolvedIn?]

theorem resolveReference_eq_error_iff {reference : Position × Instruction × String} :
    resolveReference table.layOut reference = .error fault ↔
      unresolvedIn? table reference = some fault := by
  obtain ⟨position, instruction, name⟩ := reference
  simp only [resolveReference, unresolvedIn?]
  cases hfind : table.layOut.find? name with
  | none =>
      have hname := SymbolTable.find?_eq_none_iff.mp hfind
      rw [SymbolTable.names_layOut] at hname
      simp [hname]
  | some symbol =>
      have hname := SymbolTable.exists_find?_iff.mp ⟨symbol, hfind⟩
      rw [SymbolTable.names_layOut] at hname
      simp [hname]

theorem resolve_eq_error_iff :
    resolve program table = .error fault ↔
      program.references.findSome? (unresolvedIn? table) = some fault := by
  rw [resolve_eq, Outcome.map_eq_error_iff, Outcome.mapM_eq_error_iff, List.findSome?_eq_some_iff]
  simp only [exists_resolveReference_iff, resolveReference_eq_error_iff]
  refine exists_congr fun before => exists_congr fun reference => exists_congr fun after => ?_
  rw [and_comm (a := ∀ _ ∈ before, _)]

end Failure

end Resolutions

namespace SymbolFault

/-- The fault of resolving that goes with an unknown symbol. -/
def unresolved? : SymbolFault → Option InstructionFault
  | unknownSymbol name line => some { line, cause := .unresolved name }
  | missingEntry | duplicateName _ | jumpToNative _ _ _ => none

theorem unresolved?_eq_some_iff {symbolFault : SymbolFault} {fault : InstructionFault} :
    symbolFault.unresolved? = some fault ↔
      ∃ name line, symbolFault = .unknownSymbol name line ∧
        fault = { line, cause := .unresolved name } := by
  cases symbolFault <;> simp [unresolved?, eq_comm]

theorem unresolved?_eq_none_iff {symbolFault : SymbolFault} :
    symbolFault.unresolved? = none ↔ ∀ name line, symbolFault ≠ .unknownSymbol name line := by
  cases symbolFault <;> simp [unresolved?]

end SymbolFault

namespace SymbolTable

theorem bind_referenceFault? (table : SymbolTable) (reference : Position × Instruction × String) :
    (table.referenceFault? reference.2.1 reference.2.2).bind SymbolFault.unresolved? =
      Resolutions.unresolvedIn? table reference := by
  obtain ⟨position, instruction, name⟩ := reference
  simp only [referenceFault?, Resolutions.unresolvedIn?]
  cases hfind : table.find? name with
  | none =>
      rw [if_neg (find?_eq_none_iff.mp hfind)]
      rfl
  | some symbol =>
      rw [if_pos (exists_find?_iff.mp ⟨symbol, hfind⟩)]
      cases symbol with
      | code sec => rfl
      | native routine => cases instruction.jumps <;> rfl

theorem findSome?_check (table : SymbolTable) (program : Program) :
    (table.check program).findSome? SymbolFault.unresolved? =
      program.references.findSome? (Resolutions.unresolvedIn? table) := by
  have hentry : table.entryFaults.findSome? SymbolFault.unresolved? = none := by
    rw [entryFaults]
    split <;> rfl
  have hduplicates : table.duplicateFaults.findSome? SymbolFault.unresolved? = none := by
    rw [duplicateFaults, List.findSome?_map, List.findSome?_eq_none_iff]
    exact fun _ _ => rfl
  rw [check, List.findSome?_append, List.findSome?_append, hentry, hduplicates, Option.none_or,
    Option.none_or, referenceFaults, ← List.head?_filterMap, List.filterMap_filterMap,
    List.head?_filterMap]
  congr 1
  funext reference
  exact bind_referenceFault? table reference

theorem findSome?_eq_some_iff {faults : List SymbolFault} {fault : InstructionFault} :
    faults.findSome? SymbolFault.unresolved? = some fault ↔
      ∃ before name line after, faults = before ++ .unknownSymbol name line :: after ∧
        (∀ name line, .unknownSymbol name line ∉ before) ∧
          fault = { line, cause := .unresolved name } := by
  simp only [List.findSome?_eq_some_iff, SymbolFault.unresolved?_eq_some_iff,
    SymbolFault.unresolved?_eq_none_iff]
  constructor
  · rintro ⟨before, _, after, rfl, ⟨name, line, rfl, rfl⟩, hbefore⟩
    exact ⟨before, name, line, after, rfl, fun n l hmem => hbefore _ hmem n l rfl, rfl⟩
  · rintro ⟨before, name, line, after, rfl, hbefore, rfl⟩
    refine ⟨before, _, after, rfl, ⟨name, line, rfl, rfl⟩, ?_⟩
    rintro _ hmem n l rfl
    exact hbefore n l hmem

end SymbolTable

namespace Resolutions

theorem kind_eq_code_of_check {program : Program} {table : SymbolTable} {resolutions : Resolutions}
    (hcheck : table.check program = []) (hresolve : resolve program table = .ok resolutions)
    {position : Position} {instruction : Instruction} {referent : Referent}
    (hmem : (position, instruction) ∈ program.instructions)
    (hjump : instruction.mnemonic.toLower ∈ ["jmp", "jne", "jeq"])
    (hget : resolutions.get? position = some referent) : referent.kind = .code := by
  rw [get?_resolve hresolve hmem, SymbolTable.referent?, Option.bind_eq_some_iff] at hget
  obtain ⟨name, hname, hreferent⟩ := hget
  obtain ⟨symbol, hfind, rfl⟩ := Option.map_eq_some_iff.mp hreferent
  cases symbol with
  | code sec => rfl
  | native routine =>
      have hused := (SymbolTable.check_eq_nil_iff.mp hcheck).2.2 instruction
        (List.mem_map_of_mem (f := Prod.snd) hmem) name (Instruction.symbol?_eq_some_iff.mp hname)
      have hsection := (SymbolTable.referenceFault?_eq_none_iff.mp hused).2
        (Instruction.jumps_iff.mpr hjump)
      rw [← SymbolTable.map_layOutFrom SectionSymbol.name (fun _ _ => rfl) 0] at hsection
      exact absurd hsection (SymbolTable.mem_of_find?_native hfind).2.2

/-- Resolving fails exactly if a check of the same program with the same table reports an unknown
symbol, and it fails with the name and the line of the first one in the report. If the check reports
nothing at all, every name is resolved, and no jump leaves the code. -/
theorem resolve_agrees (program : Program) (table : SymbolTable) :
    ((∃ fault, resolve program table = .error fault) ↔
      ∃ name line, .unknownSymbol name line ∈ table.check program) ∧
    (∀ fault, resolve program table = .error fault ↔
      ∃ before name line after,
        table.check program = before ++ .unknownSymbol name line :: after ∧
          (∀ name line, .unknownSymbol name line ∉ before) ∧
            fault = { line, cause := .unresolved name }) ∧
    (table.check program = [] →
      ∃ resolutions, resolve program table = .ok resolutions ∧
        ∀ position instruction referent, (position, instruction) ∈ program.instructions →
          instruction.mnemonic.toLower ∈ ["jmp", "jne", "jeq"] →
            resolutions.get? position = some referent → referent.kind = .code) := by
  have herror (fault : InstructionFault) :
      resolve program table = .error fault ↔
        (table.check program).findSome? SymbolFault.unresolved? = some fault := by
    rw [resolve_eq_error_iff, SymbolTable.findSome?_check]
  refine ⟨?_, fun fault => ?_, fun hcheck => ?_⟩
  · simp only [herror, ← Option.isSome_iff_exists, List.findSome?_isSome_iff]
    simp only [Option.isSome_iff_exists, SymbolFault.unresolved?_eq_some_iff]
    constructor
    · rintro ⟨_, hmem, _, name, line, rfl, -⟩
      exact ⟨name, line, hmem⟩
    · rintro ⟨name, line, hmem⟩
      exact ⟨_, hmem, _, name, line, rfl, rfl⟩
  · rw [herror, SymbolTable.findSome?_eq_some_iff]
  · cases hresolve : resolve program table with
    | error fault =>
        rw [herror, hcheck] at hresolve
        cases hresolve
    | ok resolutions =>
        refine ⟨resolutions, rfl, ?_⟩
        intro position instruction referent hmem hjump hget
        exact kind_eq_code_of_check hcheck hresolve hmem hjump hget

end Resolutions

end StackAsm
