import Mathlib
import StackAsm.Proofs.Stages
import StackAsm.Proofs.Naming

namespace StackAsm

/-- What the argument of an instruction refers to, as the table has it. -/
def SymbolTable.referent? (table : SymbolTable) (instruction : Instruction) : Option Referent :=
  instruction.symbol?.bind fun name => (table.find? name).map Symbol.referent

namespace Resolutions

theorem resolveReference_eq_ok_iff {table : SymbolTable} {position : Position}
    {instruction : Instruction} {name : String} {entry : Position × Referent} :
    resolveReference table (position, instruction, name) = .ok entry ↔
      ∃ symbol, table.find? name = some symbol ∧ entry = (position, symbol.referent) := by
  rw [resolveReference]
  cases hfind : table.find? name with
  | none =>
      constructor
      · intro h
        cases h
      · rintro ⟨symbol, hsymbol, -⟩
        cases hsymbol
  | some symbol =>
      constructor
      · intro h
        exact ⟨symbol, rfl, (Except.ok.inj h).symm⟩
      · rintro ⟨_, hsymbol, rfl⟩
        cases hsymbol
        rfl

theorem resolve_eq_ok_iff {program : Program} {table : SymbolTable} {resolutions : Resolutions} :
    resolve program table = .ok resolutions ↔
      program.references.mapM (resolveReference table.layOut) = .ok resolutions.entries := by
  rw [resolve_eq, Outcome.map_eq_ok_iff]
  constructor
  · rintro ⟨entries, h, rfl⟩
    exact h
  · intro h
    exact ⟨resolutions.entries, h, rfl⟩

theorem exists_resolve_iff {program : Program} {table : SymbolTable} :
    (∃ resolutions, resolve program table = .ok resolutions) ↔
      ∀ reference ∈ program.references, reference.2.2 ∈ table.names := by
  have hentries : (∃ resolutions, resolve program table = .ok resolutions) ↔
      ∃ entries, program.references.mapM (resolveReference table.layOut) = .ok entries := by
    simp only [resolve_eq_ok_iff]
    exact ⟨fun ⟨resolutions, h⟩ => ⟨_, h⟩, fun ⟨entries, h⟩ => ⟨{ entries }, h⟩⟩
  rw [hentries, Outcome.exists_mapM_eq_ok_iff]
  refine forall₂_congr ?_
  rintro ⟨position, instruction, name⟩ -
  simp only [resolveReference_eq_ok_iff]
  rw [← SymbolTable.names_layOut, ← SymbolTable.exists_find?_iff]
  exact ⟨fun ⟨_, symbol, h, _⟩ => ⟨symbol, h⟩, fun ⟨symbol, h⟩ => ⟨_, symbol, h, rfl⟩⟩

theorem map_fst_entries {program : Program} {table : SymbolTable} {resolutions : Resolutions}
    (h : resolve program table = .ok resolutions) :
    resolutions.entries.map Prod.fst = program.references.map Prod.fst := by
  rw [resolve_eq_ok_iff, Outcome.mapM_eq_ok_iff] at h
  symm
  rw [← List.forall₂_eq_eq_eq, List.forall₂_map_left_iff, List.forall₂_map_right_iff]
  refine h.imp ?_
  rintro ⟨position, instruction, name⟩ entry hentry
  obtain ⟨symbol, -, rfl⟩ := resolveReference_eq_ok_iff.mp hentry
  rfl

theorem get?_resolve {program : Program} {table : SymbolTable} {resolutions : Resolutions}
    (h : resolve program table = .ok resolutions) {position : Position}
    {instruction : Instruction} (hmem : (position, instruction) ∈ program.instructions) :
    resolutions.get? position = table.layOut.referent? instruction := by
  have hkeys : (resolutions.entries.map Prod.fst).Nodup := by
    rw [map_fst_entries h]
    exact List.pairwise_map.mpr program.references_pairwise
  rw [get?, SymbolTable.referent?]
  cases hname : instruction.symbol? with
  | none =>
      have hnot : position ∉ resolutions.entries.map Prod.fst := by
        rw [map_fst_entries h]
        intro hposition
        obtain ⟨⟨_, other, name⟩, hreference, rfl⟩ := List.mem_map.mp hposition
        obtain ⟨hother, hothername⟩ := Program.mem_references_iff.mp hreference
        rw [Program.instruction_unique hother hmem, hname] at hothername
        cases hothername
      rw [Keys.find?_eq_none_iff.mpr hnot]
      rfl
  | some name =>
      have hreference := Program.mem_references_iff.mpr ⟨hmem, hname⟩
      obtain ⟨entry, hentry, hresolved⟩ :=
        Outcome.exists_of_mapM_eq_ok (resolve_eq_ok_iff.mp h) hreference
      obtain ⟨symbol, hfind, rfl⟩ := resolveReference_eq_ok_iff.mp hresolved
      rw [(Keys.find?_eq_some_iff hkeys).mpr ⟨hentry, rfl⟩, Option.bind_some, hfind]
      rfl

end Resolutions

namespace Program

/-- The record of an instruction in a program with the given laid out table. -/
def recordIn (table : SymbolTable) (instruction : Instruction) :
    Except InstructionFault Record :=
  instruction.encode (table.referent? instruction)

theorem records_eq {program : Program} {table : SymbolTable} {resolutions : Resolutions}
    (h : Resolutions.resolve program table = .ok resolutions) :
    program.records resolutions =
      (program.instructions.map Prod.snd).mapM (recordIn table.layOut) := by
  rw [records, List.mapM_map]
  apply Outcome.mapM_congr
  rintro ⟨position, instruction⟩ hmem
  simp only [Function.comp_apply, recordIn, Resolutions.get?_resolve h hmem]

theorem SoundNames.exists_resolve {program : Program} (h : program.SoundNames) :
    ∃ resolutions,
      Resolutions.resolve program (SymbolTable.ofProgram program) = .ok resolutions := by
  rw [Resolutions.exists_resolve_iff]
  rintro ⟨position, instruction, name⟩ hreference
  obtain ⟨hmem, hname⟩ := mem_references_iff.mp hreference
  rw [SymbolTable.names_ofProgram]
  exact h.declared instruction (List.mem_map.mpr ⟨_, hmem, rfl⟩) name
    (Instruction.symbol?_eq_some_iff.mp hname)

/-- The table of a program with its sections laid out. -/
def laidOut (program : Program) : SymbolTable :=
  (SymbolTable.ofProgram program).layOut

theorem referent?_of_symbol {table : SymbolTable} {instruction : Instruction} {name : String}
    (h : instruction.argument = some (.symbol name)) :
    table.referent? instruction = (table.find? name).map Symbol.referent := by
  rw [SymbolTable.referent?, Instruction.symbol?_eq_some_iff.mpr h, Option.bind_some]

theorem names_laidOut (program : Program) :
    program.laidOut.names =
      program.sections.map Section.name ++ program.natives.map Native.name := by
  rw [laidOut, SymbolTable.names_layOut, SymbolTable.names_ofProgram]

theorem SoundNames.names_nodup {program : Program} (h : program.SoundNames) :
    program.laidOut.names.Nodup := by
  rw [names_laidOut]
  exact h.distinct

theorem SoundNames.referent?_ne_none {program : Program} (h : program.SoundNames)
    {instruction : Instruction} (hmem : instruction ∈ program.instructions.map Prod.snd) :
    ∀ name, instruction.argument = some (.symbol name) →
      program.laidOut.referent? instruction ≠ none := by
  intro name hargument hnone
  rw [referent?_of_symbol hargument, Option.map_eq_none_iff, SymbolTable.find?_eq_none_iff,
    names_laidOut] at hnone
  exact hnone (h.declared instruction hmem name hargument)

theorem SoundNames.mapM_recordIn_of_subset {program : Program} (h : program.SoundNames)
    {wider : SymbolTable} (hnames : wider.names.Nodup)
    (hsections : program.laidOut.sections ⊆ wider.sections)
    (hnatives : program.laidOut.natives ⊆ wider.natives) :
    (program.instructions.map Prod.snd).mapM (recordIn wider) =
      (program.instructions.map Prod.snd).mapM (recordIn program.laidOut) := by
  refine Outcome.mapM_congr fun instruction hmem => ?_
  have hreferent : wider.referent? instruction = program.laidOut.referent? instruction := by
    rw [SymbolTable.referent?, SymbolTable.referent?]
    cases hsymbol : instruction.symbol? with
    | none => rfl
    | some name =>
        have hname := h.declared instruction hmem name (Instruction.symbol?_eq_some_iff.mp hsymbol)
        rw [← names_laidOut] at hname
        obtain ⟨symbol, hfind, hwider⟩ :=
          SymbolTable.find?_of_subset hnames hsections hnatives hname
        rw [Option.bind_some, Option.bind_some, hfind, hwider]
  rw [recordIn, recordIn, hreferent]

theorem assemble_of_resolve {program : Program} (h : program.SoundNames) {resolutions : Resolutions}
    (hresolve : Resolutions.resolve program (SymbolTable.ofProgram program) = .ok resolutions) :
    program.assemble =
      ((program.image resolutions).map fun bytes =>
        { symbols := program.laidOut, bytes : Assembly }).mapError Fault.instruction := by
  rw [assemble_eq, check_ofProgram_eq_nil_iff.mpr h, hresolve]
  change ((program.image resolutions).mapError Fault.instruction >>= fun bytes =>
    pure { symbols := program.laidOut, bytes : Assembly }) = _
  cases program.image resolutions <;> rfl

theorem assemble_of_soundNames {program : Program} (h : program.SoundNames) :
    program.assemble =
      (((program.instructions.map Prod.snd).mapM (recordIn program.laidOut)).map fun records =>
        { symbols := program.laidOut, bytes := records.flatMap Record.bytes : Assembly }).mapError
        Fault.instruction := by
  obtain ⟨resolutions, hresolve⟩ := h.exists_resolve
  rw [assemble_of_resolve h hresolve, image_eq, records_eq hresolve, ← laidOut]
  cases (program.instructions.map Prod.snd).mapM (recordIn program.laidOut) <;> rfl

theorem assemble_of_not_soundNames {program : Program} (h : ¬program.SoundNames) :
    program.assemble = .error (.symbols ((SymbolTable.ofProgram program).check program)) := by
  rw [← check_ofProgram_eq_nil_iff] at h
  rw [assemble_eq]
  cases hcheck : (SymbolTable.ofProgram program).check program with
  | nil => exact absurd hcheck h
  | cons fault faults => rfl

theorem assemble_eq_ok_iff {program : Program} {assembly : Assembly} :
    program.assemble = .ok assembly ↔
      program.SoundNames ∧ assembly.symbols = program.laidOut ∧
        ∃ records,
          List.Forall₂ (fun instruction record => recordIn program.laidOut instruction = .ok record)
            (program.instructions.map Prod.snd) records ∧
          assembly.bytes = records.flatMap Record.bytes := by
  by_cases h : program.SoundNames
  · rw [assemble_of_soundNames h, Outcome.mapError_eq_ok_iff, Outcome.map_eq_ok_iff]
    simp only [Outcome.mapM_eq_ok_iff]
    constructor
    · rintro ⟨records, hrecords, rfl⟩
      exact ⟨h, rfl, records, hrecords, rfl⟩
    · rintro ⟨-, hsymbols, records, hrecords, hbytes⟩
      refine ⟨records, hrecords, ?_⟩
      rw [← hsymbols, ← hbytes]
  · rw [assemble_of_not_soundNames h]
    constructor
    · intro herror
      cases herror
    · rintro ⟨hsound, -⟩
      exact absurd hsound h

end Program

end StackAsm
