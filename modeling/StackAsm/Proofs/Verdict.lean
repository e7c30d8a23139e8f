import Mathlib
import StackAsm.Proofs.Assembling
import StackAsm.Proofs.Encoding

namespace StackAsm.Program

theorem assemble_eq_error_iff {program : Program} (hsound : program.SoundNames) {fault : Fault} :
    program.assemble = .error fault ↔
      ∃ before instruction after cause,
        program.instructions.map Prod.snd = before ++ instruction :: after ∧
          (∀ earlier ∈ before, earlier.WellFormed) ∧ instruction.Flaw cause ∧
            fault = .instruction { line := instruction.line, cause } := by
  have hearlier {before after : List Instruction} {instruction : Instruction}
      (hsplit : program.instructions.map Prod.snd = before ++ instruction :: after) :
      (∀ earlier ∈ before, ∃ record, recordIn program.laidOut earlier = .ok record) ↔
        ∀ earlier ∈ before, earlier.WellFormed := by
    refine forall₂_congr fun earlier hmem => ?_
    apply Instruction.exists_encode_iff_wellFormed
    apply hsound.referent?_ne_none
    rw [hsplit]
    exact List.mem_append_left _ hmem
  rw [assemble_of_soundNames hsound, Outcome.mapError_eq_error_iff]
  simp only [Outcome.map_eq_error_iff, Outcome.mapM_eq_error_iff]
  constructor
  · rintro ⟨_, ⟨before, instruction, after, hsplit, hbefore, hfault⟩, rfl⟩
    have hmem : instruction ∈ program.instructions.map Prod.snd := by simp [hsplit]
    obtain ⟨hline, hflaw⟩ :=
      (Instruction.encode_eq_error_iff (hsound.referent?_ne_none hmem)).mp hfault
    refine ⟨before, instruction, after, _, hsplit, (hearlier hsplit).mp hbefore, hflaw, ?_⟩
    rw [← hline]
  · rintro ⟨before, instruction, after, cause, hsplit, hbefore, hflaw, rfl⟩
    exact ⟨_, ⟨before, instruction, after, hsplit, (hearlier hsplit).mpr hbefore,
      Instruction.encode_of_flaw hflaw _⟩, rfl⟩

theorem exists_assemble_iff {program : Program} :
    (∃ assembly, program.assemble = .ok assembly) ↔
      program.SoundNames ∧
        ∀ instruction ∈ program.instructions.map Prod.snd, instruction.WellFormed := by
  by_cases hsound : program.SoundNames
  · rw [assemble_of_soundNames hsound]
    simp only [Outcome.mapError_eq_ok_iff, Outcome.map_eq_ok_iff]
    have hrecords : (∃ records,
        (program.instructions.map Prod.snd).mapM (recordIn program.laidOut) = .ok records) ↔
          ∀ instruction ∈ program.instructions.map Prod.snd, instruction.WellFormed := by
      rw [Outcome.exists_mapM_eq_ok_iff]
      exact forall₂_congr fun instruction hmem =>
        Instruction.exists_encode_iff_wellFormed (hsound.referent?_ne_none hmem)
    rw [← hrecords]
    constructor
    · rintro ⟨_, records, hok, -⟩
      exact ⟨hsound, records, hok⟩
    · rintro ⟨-, records, hok⟩
      exact ⟨_, records, hok, rfl⟩
  · rw [assemble_of_not_soundNames hsound]
    constructor
    · rintro ⟨_, herror⟩
      cases herror
    · rintro ⟨h, -⟩
      exact absurd h hsound

/-- The verdict on any program. The names come first: with a fault among them nothing else is
looked at and all of their faults are reported. After them the first instruction with a flaw
decides, and none is left whose reference leads nowhere. -/
theorem assemble_verdict (program : Program) :
    ((∃ assembly, program.assemble = .ok assembly) ↔
      program.SoundNames ∧
        ∀ instruction ∈ program.instructions.map Prod.snd, instruction.WellFormed) ∧
    (¬program.SoundNames →
      (SymbolTable.ofProgram program).check program ≠ [] ∧
        program.assemble = .error (.symbols ((SymbolTable.ofProgram program).check program))) ∧
    (program.SoundNames → ∀ fault,
      (program.assemble = .error fault ↔
        ∃ before instruction after cause,
          program.instructions.map Prod.snd = before ++ instruction :: after ∧
            (∀ earlier ∈ before, earlier.WellFormed) ∧ instruction.Flaw cause ∧
              fault = .instruction { line := instruction.line, cause })) ∧
    ∀ line name,
      program.assemble ≠ .error (.instruction { line, cause := .unresolved name }) := by
  refine ⟨exists_assemble_iff, ?_, fun hsound _ => assemble_eq_error_iff hsound, ?_⟩
  · intro hunsound
    exact ⟨fun hnil => hunsound (check_ofProgram_eq_nil_iff.mp hnil),
      assemble_of_not_soundNames hunsound⟩
  · intro line name hassemble
    by_cases hsound : program.SoundNames
    · obtain ⟨_, _, _, cause, -, -, hflaw, hfault⟩ := (assemble_eq_error_iff hsound).mp hassemble
      cases hfault
      cases hflaw
    · rw [assemble_of_not_soundNames hsound] at hassemble
      cases hassemble

end StackAsm.Program
