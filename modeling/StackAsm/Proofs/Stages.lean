import Mathlib
import StackAsm.Assembly
import StackAsm.Proofs.Outcome

namespace StackAsm

namespace Report

variable {ε δ α β : Type}

theorem result_mapFault (f : ε → δ) (report : Report ε α) :
    (report.mapFault f).result = report.result.mapError f :=
  rfl

theorem result_mapM (f : α → Report ε β) (xs : List α) :
    (xs.mapM f).result = xs.mapM fun x => (f x).result := by
  induction xs with
  | nil => rfl
  | cons x xs ih =>
      rw [List.mapM_cons, List.mapM_cons, result_bind]
      simp only [result_bind, result_pure, ih]
      rfl

/-- All that is logged is of a kind. -/
def Logs (kind : Event → Prop) (report : Report ε α) : Prop :=
  ∀ event ∈ report.events, kind event

namespace Logs

variable {kind : Event → Prop}

theorem of_silent (result : Except ε α) : (silent result).Logs kind :=
  nofun

theorem of_log {event : Event} (h : kind event) : (log event : Report ε Unit).Logs kind := by
  rintro _ hmem
  rwa [List.mem_singleton.mp hmem]

theorem bind {report : Report ε α} {next : α → Report ε β} (h : report.Logs kind)
    (hnext : ∀ a, (next a).Logs kind) : (report >>= next).Logs kind := by
  intro event hmem
  rw [events_bind, List.mem_append] at hmem
  rcases hmem with hmem | hmem
  · exact h event hmem
  · split at hmem
    · cases hmem
    · exact hnext _ event hmem

theorem of_pure (a : α) : (pure a : Report ε α).Logs kind :=
  nofun

theorem mapFault {f : ε → δ} {report : Report ε α} (h : report.Logs kind) :
    (report.mapFault f).Logs kind :=
  h

theorem mono {wider : Event → Prop} {report : Report ε α} (h : report.Logs kind)
    (hwider : ∀ event, kind event → wider event) : report.Logs wider :=
  fun event hmem => hwider event (h event hmem)

theorem mapM {f : α → Report ε β} (h : ∀ a, (f a).Logs kind) (xs : List α) :
    (xs.mapM f).Logs kind := by
  induction xs with
  | nil => exact of_pure []
  | cons x xs ih =>
      rw [List.mapM_cons]
      exact (h x).bind fun y => ih.bind fun ys => of_pure _

theorem foldlM {f : β → α → Report ε β} (h : ∀ b a, (f b a).Logs kind) (b : β) (xs : List α) :
    (xs.foldlM f b).Logs kind := by
  induction xs generalizing b with
  | nil => exact of_pure b
  | cons x xs ih =>
      rw [List.foldlM_cons]
      exact (h b x).bind ih

end Logs

end Report

namespace Resolutions

theorem resolve_eq (program : Program) (table : SymbolTable) :
    resolve program table =
      (program.references.mapM (resolveReference table.layOut)).map fun entries => { entries } := by
  have hreference (reference : Position × Instruction × String) :
      (referenceReport table.layOut reference).result =
        resolveReference table.layOut reference := by
    rw [referenceReport, Report.result_bind]
    exact bind_pure _
  rw [resolve, report, Report.result_bind, Report.result_mapM]
  simp only [hreference, Report.result_pure]
  cases program.references.mapM (resolveReference table.layOut) <;> rfl

end Resolutions

namespace Program

/-- The records of a program, or the fault of its first instruction that has none. -/
def records (program : Program) (resolutions : Resolutions) :
    Except InstructionFault (List Record) :=
  program.instructions.mapM fun (position, instruction) =>
    instruction.encode (resolutions.get? position)

theorem result_emit (resolutions : Resolutions) (image : List UInt8) (position : Position)
    (instruction : Instruction) :
    (emit resolutions image (position, instruction)).result =
      (instruction.encode (resolutions.get? position)).map fun record => image ++ record.bytes := by
  rw [emit, Report.result_bind]
  cases instruction.encode (resolutions.get? position) <;> rfl

/-- The image grows record by record. -/
theorem result_foldlM_emit (resolutions : Resolutions) (image : List UInt8)
    (placed : List (Position × Instruction)) :
    (placed.foldlM (emit resolutions) image).result =
      (placed.mapM fun ((position, instruction) : Position × Instruction) =>
        instruction.encode (resolutions.get? position)).map fun records : List Record =>
          image ++ records.flatMap Record.bytes := by
  induction placed generalizing image with
  | nil => exact congrArg Except.ok (List.append_nil image).symm
  | cons own placed ih =>
      obtain ⟨position, instruction⟩ := own
      rw [List.foldlM_cons, List.mapM_cons, Report.result_bind, result_emit]
      dsimp only
      cases instruction.encode (resolutions.get? position) with
      | error fault => rfl
      | ok record =>
          refine (ih (image ++ record.bytes)).trans ?_
          cases placed.mapM fun ((position, instruction) : Position × Instruction) =>
            instruction.encode (resolutions.get? position) with
          | error fault => rfl
          | ok records => exact congrArg Except.ok (List.append_assoc _ _ _)

theorem image_eq (program : Program) (resolutions : Resolutions) :
    program.image resolutions =
      (program.records resolutions).map (·.flatMap Record.bytes) :=
  result_foldlM_emit resolutions [] program.instructions

theorem assemble_eq (program : Program) :
    program.assemble =
      match (SymbolTable.ofProgram program).check program with
      | [] => do
          let resolutions ←
            (Resolutions.resolve program (SymbolTable.ofProgram program)).mapError Fault.instruction
          let bytes ← (program.image resolutions).mapError Fault.instruction
          return { symbols := (SymbolTable.ofProgram program).layOut, bytes }
      | faults => .error (.symbols faults) := by
  rw [assemble, report, Report.log_bind, Report.logAll_bind, Report.logAll_bind]
  dsimp only
  cases (SymbolTable.ofProgram program).check program with
  | nil =>
      dsimp only
      rw [build, Report.result_bind, Report.result_mapFault]
      refine congrArg (bind _) (funext fun resolutions => ?_)
      rw [Report.result_bind, Report.result_mapFault]
      rfl
  | cons fault faults => rfl

theorem ofSource_eq (source : List UInt8) :
    ofSource source = (Scan.ofSource source).result.bind ofTokens :=
  Report.result_bind _ _

end Program

theorem Assembly.ofSource_eq (source : List UInt8) :
    ofSource source = (Program.ofSource source).bind Program.assemble :=
  Report.result_bind _ _

end StackAsm
