import Mathlib
import StackAsm.Proofs.Statements
import StackAsm.Proofs.Survey
import StackAsm.Proofs.TokenLoop
import StackAsm.Proofs.Verdict

namespace StackAsm

/-- The instruction has the spelling of an operation that accepts its argument. -/
def Instruction.Canonical (instruction : Instruction) : Prop :=
  ∃ operation ∈ Operation.all,
    instruction.mnemonic = operation.mnemonic ∧ operation.Accepts instruction.argument

instance (instruction : Instruction) : Decidable instruction.Canonical :=
  inferInstanceAs (Decidable (∃ operation ∈ Operation.all, _))

theorem Instruction.Canonical.wellFormed {instruction : Instruction} (h : instruction.Canonical) :
    instruction.WellFormed := by
  obtain ⟨operation, hmem, hmnemonic, haccepts⟩ := h
  exact ⟨operation, ⟨hmem, by rw [hmnemonic]⟩, haccepts⟩

namespace Judgements

theorem statement_of_mem_ofRuns {inSection : Bool} {runs : List Run} {line : Nat}
    {statement : Statement} (h : .ok (line, statement) ∈ ofRuns inSection runs) :
    ∃ within, ∃ run ∈ runs, run.statement within = .ok statement := by
  induction runs generalizing inSection with
  | nil => cases h
  | cons run runs ih =>
      rw [ofRuns, List.mem_cons] at h
      rcases h with h | h
      · refine ⟨inSection, run, List.mem_cons_self, ?_⟩
        cases hstatement : run.statement inSection with
        | error cause => simp [hstatement] at h
        | ok own =>
            rw [hstatement] at h
            cases h
            rfl
      · obtain ⟨within, other, hmem, hstatement⟩ := ih h
        exact ⟨within, other, List.mem_cons_of_mem _ hmem, hstatement⟩

/-- Each instruction of the gathered program is one of the statements. The instructions that still
wait for their section are included, so that one statement can be put in front. -/
theorem perform_of_mem_gathered {statements : List (Nat × Statement)} {instruction : Instruction}
    (h : instruction ∈ (statements.foldr gather ([], [])).1 ++
      (statements.foldr gather ([], [])).2.flatMap Declaration.instructions) :
    (instruction.line, .perform instruction.mnemonic instruction.argument) ∈ statements := by
  induction statements with
  | nil => cases h
  | cons statement statements ih =>
      rw [List.foldr_cons] at h
      rw [List.mem_cons]
      rcases statement with ⟨line, name | ⟨name, identifier⟩ | ⟨mnemonic, argument⟩⟩
      · right
        simpa [gather, Declaration.instructions, or_comm] using ih (by
          simpa [gather, Declaration.instructions] using h)
      · right
        apply ih
        exact List.mem_append_right _ (by simpa [gather, Declaration.instructions] using h)
      · rw [gather, List.cons_append, List.mem_cons] at h
        rcases h with rfl | h
        · exact .inl rfl
        · exact .inr (ih h)

theorem perform_of_mem_declarations {statements : List (Nat × Statement)}
    {instruction : Instruction}
    (h : instruction ∈ (declarations statements).flatMap Declaration.instructions) :
    (instruction.line, .perform instruction.mnemonic instruction.argument) ∈ statements :=
  perform_of_mem_gathered (List.mem_append_right _ h)

theorem mem_statements_iff {judgements : Judgements} {entry : Nat × Statement} :
    entry ∈ judgements.statements ↔ .ok entry ∈ judgements.outcomes := by
  rw [statements, List.mem_filterMap]
  constructor
  · rintro ⟨outcome, hmem, h⟩
    cases outcome with
    | error fault => cases h
    | ok own =>
        cases h
        exact hmem
  · intro h
    exact ⟨.ok entry, h, rfl⟩

end Judgements

namespace Program

theorem canonical_of_ofTokens {tokens : List Token} {program : Program}
    (h : ofTokens tokens = .ok program) {instruction : Instruction}
    (hmem : instruction ∈ program.instructions.map Prod.snd) : instruction.Canonical := by
  rw [ofTokens_eq, Judgements.result] at h
  split at h
  · cases h
    rw [instructions_map_snd, sections, ← flatMap_instructions] at hmem
    have hperform := Judgements.mem_statements_iff.mp (Judgements.perform_of_mem_declarations hmem)
    obtain ⟨_, _, -, hstatement⟩ := Judgements.statement_of_mem_ofRuns hperform
    exact Run.perform_of_statement hstatement
  · cases h

theorem ofTokens_eq_error {tokens : List Token} {fault : Fault}
    (h : ofTokens tokens = .error fault) : ∃ count, fault = .malformedLines count := by
  rw [ofTokens_eq, Judgements.result] at h
  split at h
  · cases h
  · exact ⟨_, (Except.error.inj h).symm⟩

end Program

theorem Survey.result_eq_error {survey : Survey} {fault : Fault}
    (h : survey.result = .error fault) :
    fault = .unreadable .notUtf8 ∨ ∃ count, fault = .malformedLines count := by
  rw [result] at h
  split at h
  · exact .inl (Except.error.inj h).symm
  · split at h
    · cases h
    · exact .inr ⟨_, (Except.error.inj h).symm⟩

namespace Resolutions

theorem exists_resolveReference {program : Program} {reference : Position × Instruction × String}
    (h : (SymbolTable.ofProgram program).referenceFault? reference.2.1 reference.2.2 = none) :
    ∃ entry, resolveReference program.laidOut reference = .ok entry := by
  rcases reference with ⟨position, instruction, name⟩
  have hname := (SymbolTable.referenceFault?_eq_none_iff.mp h).1
  rw [SymbolTable.names_ofProgram, ← Program.names_laidOut, ← SymbolTable.exists_find?_iff] at hname
  obtain ⟨symbol, hfind⟩ := hname
  exact ⟨_, resolveReference_eq_ok_iff.mpr ⟨symbol, hfind, rfl⟩⟩

theorem exists_get? {program : Program} (hsound : program.SoundNames) :
    ∃ resolutions, resolve program (SymbolTable.ofProgram program) = .ok resolutions ∧
      ∀ position instruction name, (position, instruction) ∈ program.instructions →
        instruction.argument = some (.symbol name) →
          ∃ referent, resolutions.get? position = some referent := by
  obtain ⟨resolutions, hresolve⟩ := hsound.exists_resolve
  refine ⟨resolutions, hresolve, ?_⟩
  intro position instruction name hplaced hname
  rw [get?_resolve hresolve hplaced, ← Option.ne_none_iff_exists']
  exact hsound.referent?_ne_none (List.mem_map.mpr ⟨_, hplaced, rfl⟩) name hname

end Resolutions

theorem Program.assemble_of_canonical {program : Program}
    (hcanonical : ∀ instruction ∈ program.instructions.map Prod.snd, instruction.Canonical) :
    (∃ assembly, program.assemble = .ok assembly) ∨
      ∃ faults, program.assemble = .error (.symbols faults) := by
  by_cases hsound : program.SoundNames
  · left
    rw [exists_assemble_iff]
    exact ⟨hsound, fun instruction hmem => (hcanonical instruction hmem).wellFormed⟩
  · exact .inr ⟨_, assemble_of_not_soundNames hsound⟩

namespace Program

theorem ofSource_eq_ok_iff {source : List UInt8} {program : Program} :
    ofSource source = .ok program ↔
      ∃ tokens, (Scan.ofSource source).result = .ok tokens ∧ ofTokens tokens = .ok program := by
  rw [ofSource_eq]
  exact Outcome.bind_eq_ok_iff

theorem canonical_of_ofSource {source : List UInt8} {program : Program}
    (h : ofSource source = .ok program) :
    ∀ instruction ∈ program.instructions.map Prod.snd, instruction.Canonical := by
  obtain ⟨tokens, -, htokens⟩ := ofSource_eq_ok_iff.mp h
  exact fun _ => canonical_of_ofTokens htokens

theorem ofSource_eq_error {source : List UInt8} {fault : Fault}
    (h : ofSource source = .error fault) :
    fault = .unreadable .notUtf8 ∨ ∃ count, fault = .malformedLines count := by
  rw [ofSource_eq] at h
  cases hscan : (Scan.ofSource source).result with
  | error cause =>
      rw [hscan] at h
      cases h
      rw [Scan.ofSource_eq] at hscan
      exact Survey.result_eq_error hscan
  | ok tokens =>
      rw [hscan] at h
      exact .inr (ofTokens_eq_error h)

end Program

/-- What a source comes to: an image, or one of the faults that a source can have. The faults of
single instructions are none of these, for a program that is read goes by the instruction set and
every name that passes the check has a referent where the instruction looks for it. -/
theorem Assembly.ofSource_outcome (source : List UInt8) :
    ((∃ assembly, ofSource source = .ok assembly) ∨
      ofSource source = .error (.unreadable .notUtf8) ∨
      (∃ count, ofSource source = .error (.malformedLines count)) ∨
      ∃ faults, ofSource source = .error (.symbols faults)) ∧
    ∀ program, Program.ofSource source = .ok program →
      (∀ instruction ∈ program.instructions.map Prod.snd, instruction.Canonical) ∧
      (∀ reference ∈ program.references,
        (SymbolTable.ofProgram program).referenceFault? reference.2.1 reference.2.2 = none →
          ∃ entry, Resolutions.resolveReference program.laidOut reference = .ok entry) ∧
      ((SymbolTable.ofProgram program).check program = [] →
        ∃ resolutions,
          Resolutions.resolve program (SymbolTable.ofProgram program) = .ok resolutions ∧
            ∀ position instruction name, (position, instruction) ∈ program.instructions →
              instruction.argument = some (.symbol name) →
                ∃ referent, resolutions.get? position = some referent) := by
  constructor
  · rw [ofSource_eq]
    cases hprogram : Program.ofSource source with
    | error fault =>
        rcases Program.ofSource_eq_error hprogram with rfl | ⟨count, rfl⟩
        · exact .inr (.inl rfl)
        · exact .inr (.inr (.inl ⟨count, rfl⟩))
    | ok program =>
        rcases Program.assemble_of_canonical (Program.canonical_of_ofSource hprogram) with
          hassembly | hfaults
        · exact .inl hassembly
        · exact .inr (.inr (.inr hfaults))
  · intro program hprogram
    refine ⟨Program.canonical_of_ofSource hprogram, ?_, ?_⟩
    · exact fun _ _ hpasses => Resolutions.exists_resolveReference hpasses
    · exact fun hcheck => Resolutions.exists_get? (Program.check_ofProgram_eq_nil_iff.mp hcheck)

end StackAsm
