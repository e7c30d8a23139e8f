import Mathlib
import StackAsm.Session
import StackAsm.Proofs.Assembling

namespace StackAsm.Session

theorem run_append (state : State) (earlier later : List Step) :
    run state (earlier ++ later) =
      ((run (run state earlier).1 later).1,
        (run state earlier).2 ++ (run (run state earlier).1 later).2) := by
  induction earlier generalizing state with
  | nil => rfl
  | cons next earlier ih => simp only [List.cons_append, run, ih]

/-- The four passes of assembling. -/
def passes : List Step :=
  [.collectSymbols, .check, .resolve, .makeImage]

/-- How the passes have ended, from the table that they leave and from their answers. A check with
faults is the end. Behind a check without faults the names must have been resolved, and then the
end is the image or the fault of an instruction. -/
def outcome? (table : SymbolTable) : List Answer → Option (Except Fault Assembly)
  | [.table _, .checked (fault :: faults), _, _] => some (.error (.symbols (fault :: faults)))
  | [.table _, .checked [], .resolutions _ _, .bytes bytes] =>
      some (.ok { symbols := table, bytes })
  | [.table _, .checked [], .resolutions _ _, .failed fault] => some (.error fault)
  | _ => none

section Passes

variable (state : State)

/-- Names are resolved in the table that was collected before, wherever its sections lay. What the
session held in its place is gone, and so are its resolutions if there are new ones. -/
theorem exists_run_passes :
    ∃ resolutions, (run state passes).1 =
      { program := state.program, table := state.program.laidOut, resolutions,
        buffer := state.buffer } := by
  simp only [passes, run, step]
  cases Resolutions.resolve state.program (SymbolTable.ofProgram state.program) with
  | error fault =>
      refine ⟨state.resolutions, ?_⟩
      cases state.program.image state.resolutions <;> rfl
  | ok resolutions =>
      refine ⟨resolutions, ?_⟩
      cases state.program.image resolutions <;> rfl

variable {state}

theorem run_passes_of_resolve {resolutions : Resolutions}
    (h : Resolutions.resolve state.program (SymbolTable.ofProgram state.program) =
      .ok resolutions) :
    run state passes =
      ({ (run { initial with program := state.program } passes).1 with buffer := state.buffer },
        (run { initial with program := state.program } passes).2) := by
  simp only [passes, run, step, h]
  cases state.program.image resolutions <;> rfl

theorem outcome?_of_check_eq_cons {fault : SymbolFault} {faults : List SymbolFault}
    (h : (SymbolTable.ofProgram state.program).check state.program = fault :: faults) :
    outcome? (run state passes).1.table ((run state passes).2.map Prod.fst) =
      some (.error (.symbols (fault :: faults))) := by
  simp only [passes, run, step, h]
  rfl

theorem outcome?_of_resolve {resolutions : Resolutions}
    (hcheck : (SymbolTable.ofProgram state.program).check state.program = [])
    (hresolve : Resolutions.resolve state.program (SymbolTable.ofProgram state.program) =
      .ok resolutions) :
    outcome? (run state passes).1.table ((run state passes).2.map Prod.fst) =
      some (((state.program.image resolutions).map fun bytes =>
        { symbols := state.program.laidOut, bytes : Assembly }).mapError Fault.instruction) := by
  simp only [passes, run, step, hcheck, hresolve]
  cases state.program.image resolutions <;> rfl

theorem outcome?_run_passes :
    outcome? (run state passes).1.table ((run state passes).2.map Prod.fst) =
      some state.program.assemble := by
  cases hcheck : (SymbolTable.ofProgram state.program).check state.program with
  | cons fault faults =>
      have hunsound : ¬state.program.SoundNames := by
        rw [← Program.check_ofProgram_eq_nil_iff, hcheck]
        exact List.cons_ne_nil _ _
      rw [outcome?_of_check_eq_cons hcheck, Program.assemble_of_not_soundNames hunsound, hcheck]
  | nil =>
      have hsound := Program.check_ofProgram_eq_nil_iff.mp hcheck
      obtain ⟨resolutions, hresolve⟩ := hsound.exists_resolve
      rw [outcome?_of_resolve hcheck hresolve, Program.assemble_of_resolve hsound hresolve]

end Passes

/-- A program that is set after anything else a session did is assembled by the four passes as it is
assembled at once: to the same image with the same table, or with the same faults. They leave the
program and its laid out table, and the buffer as it was. If the check finds no fault, every answer
and all that the session holds afterwards is as in a session that begins with them, except for the
buffer. -/
theorem run_passes_assemble (start : State) (earlier : List Step) (program : Program) :
    let before := (run start earlier).1
    let passed := run { before with program } passes
    let fresh := run { initial with program } passes
    run start (earlier ++ .setProgram program :: passes) =
        (passed.1, (run start earlier).2 ++ (.program program, []) :: passed.2) ∧
      outcome? passed.1.table (passed.2.map Prod.fst) = some program.assemble ∧
      (∃ resolutions, passed.1 =
        { program, table := program.laidOut, resolutions, buffer := before.buffer }) ∧
      ((SymbolTable.ofProgram program).check program = [] →
        passed.2 = fresh.2 ∧ passed.1 = { fresh.1 with buffer := before.buffer }) := by
  intro before passed fresh
  refine ⟨?_, outcome?_run_passes, exists_run_passes _, ?_⟩
  · rw [run_append]
    rfl
  · intro hcheck
    obtain ⟨resolutions, hresolve⟩ :=
      (Program.check_ofProgram_eq_nil_iff.mp hcheck).exists_resolve
    have hrun : passed = ({ fresh.1 with buffer := before.buffer }, fresh.2) :=
      run_passes_of_resolve hresolve
    rw [hrun]
    exact ⟨rfl, rfl⟩

end StackAsm.Session
