import Mathlib
import StackAsm.Proofs.ImageWriting
import StackAsm.Proofs.Logging

namespace StackAsm

open FileTree

namespace ImageFile

theorem write_asks (path : String) (bytes : List UInt8) :
    (write path bytes).Asks fun request =>
      ∀ changed ∈ request.changes, changed = temporary path ∨ changed = path := by
  have hreplace : (replace path bytes).Asks fun request =>
      ∀ changed ∈ request.changes, changed = temporary path ∨ changed = path := by
    refine .bind ((writeNew_asks (temporary path) bytes).mono ?_) fun written => ?_
    · exact fun request hchanges changed hchanged => .inl (hchanges changed hchanged)
    · cases written with
      | error error => exact .of_pure
      | ok => exact .of_perform (by simp [FileRequest.changes])
  refine .bind hreplace fun replaced => ?_
  cases replaced with
  | error error => exact .bind (.of_perform (by simp [FileRequest.changes])) fun _ => .of_pure
  | ok => exact .of_pure

end ImageFile

namespace Assembler

/-- The log is not put in the place of the input nor, where an image is going to be written, is the
image or its temporary file. -/
structure InputApart (tree : FileTree) (working : List String) (line : CommandLine Key)
    (location : List String) (content : List UInt8) : Prop where
  log : ∀ path, line.text? .log = some (some path) → tree.fileAt? working path ≠ some location
  image : line.has .check = false → (∃ assembly, Assembly.ofSource content = .ok assembly) →
    ∀ path, imagePath? line = some path → tree.fileAt? working path ≠ some location
  temporary : line.has .check = false → (∃ assembly, Assembly.ofSource content = .ok assembly) →
    ∀ path, imagePath? line = some path →
      tree.fileAt? working (ImageFile.temporary path) ≠ some location

section Input

variable {tree reached : FileTree} {working location : List String} {logger : Logger}
  {line : CommandLine Key} {content : List UInt8}
  (hlogger : line.text? .log = some logger.file?)
  (hapart : InputApart tree working line location content)
include hlogger hapart

theorem ensures_of_changesLog {α : Type} {dialogue : FileDialogue α}
    (h : dialogue.Asks (ChangesLog logger)) (hreached : AlikeOutside {location}ᶜ tree reached) :
    dialogue.Ensures (Permits working) reached (AlikeOutside {location}ᶜ tree) fun _ _ => True := by
  refine ensures_alikeOutside (h.mono ?_) hreached
  intro request hchanges path hpath
  refine avoids_singleton_iff.mpr (hapart.log path ?_)
  rw [hlogger, hchanges path hpath]

theorem assembleInput_ensures {input : String} {executable : Bool}
    (hinput : tree.find working input = .ok (location, .file content executable))
    (hreached : AlikeOutside {location}ᶜ tree reached) :
    (assembleInput logger input).Ensures (Permits working) reached (AlikeOutside {location}ᶜ tree)
      fun result _ =>
        ∀ assembly, result = .ok assembly → Assembly.ofSource content = .ok assembly := by
  refine .bind (fun _ _ => True) (.of_perform hreached fun reply after hreply => ?_) ?_
  · obtain ⟨rfl, -⟩ := hreply
    exact ⟨hreached, trivial⟩
  intro opened after hafter _
  cases opened with
  | error error => exact .of_pure hafter nofun
  | ok =>
      refine .bind _ (ensures_of_changesLog hlogger hapart (log_asks _ _) hafter) ?_
      intro _ after hafter _
      refine .bind (fun reply _ => ∀ source, reply = .ok source → source = content)
        (.of_perform hafter fun reply later hreply => ?_) fun reply later hlater hcontent => ?_
      · -- The input has been left alone so far, so this is still its first content.
        obtain ⟨rfl, hread⟩ := hreply
        refine ⟨hafter, fun source hsource => ?_⟩
        have hfind := (hafter.find_eq_file_iff (by simp)).mpr hinput
        have hsame := (hread source hsource).symm.trans (read_eq_ok_iff.mpr ⟨_, _, hfind⟩)
        cases hsame
        rfl
      cases reply with
      | error error => exact .of_pure hlater nofun
      | ok source =>
          obtain rfl := hcontent source rfl
          refine .bind _ (ensures_of_changesLog hlogger hapart (logAll_asks _ _) hlater) ?_
          intro _ after hafter _
          cases hassembly : (Assembly.report source).result with
          | error fault => exact .of_pure hafter nofun
          | ok assembly =>
              refine .of_pure hafter fun _ hresult => ?_
              cases hresult
              exact hassembly

theorem writeOutput_ensures {path : String} {assembly : Assembly}
    (hcheck : line.has .check = false) (hpath : imagePath? line = some path)
    (hassembly : Assembly.ofSource content = .ok assembly)
    (hreached : AlikeOutside {location}ᶜ tree reached) :
    (writeOutput logger path assembly).Ensures (Permits working) reached
      (AlikeOutside {location}ᶜ tree) fun _ _ => True := by
  refine .bind _ (ensures_of_changesLog hlogger hapart (log_asks _ _) hreached) ?_
  intro _ after hafter _
  refine .bind _ (ensures_alikeOutside ((ImageFile.write_asks _ _).mono ?_) hafter) ?_
  · intro request hchanges changed hchanged
    rcases hchanges changed hchanged with rfl | rfl
    · exact avoids_singleton_iff.mpr (hapart.temporary hcheck ⟨assembly, hassembly⟩ path hpath)
    · exact avoids_singleton_iff.mpr (hapart.image hcheck ⟨assembly, hassembly⟩ _ hpath)
  · intro written later hlater _
    cases written with
    | error error => exact .of_pure hlater trivial
    | ok => exact .of_pure hlater trivial

theorem finish_ensures {assembly : Assembly} (hassembly : Assembly.ofSource content = .ok assembly)
    (hreached : AlikeOutside {location}ᶜ tree reached) :
    (finish logger line assembly).Ensures (Permits working) reached (AlikeOutside {location}ᶜ tree)
      fun _ _ => True := by
  rw [finish]
  split
  case isTrue =>
    exact .bind _ (ensures_of_changesLog hlogger hapart (log_asks _ _) hreached) fun _ _ hafter _ =>
      .of_pure hafter trivial
  case isFalse hcheck =>
    cases hpath : imagePath? line with
    | none => exact .of_pure hreached trivial
    | some path =>
        have hwritten := writeOutput_ensures hlogger hapart (Bool.eq_false_of_not_eq_true hcheck)
          hpath hassembly hreached
        refine .bind _ hwritten fun written later hlater _ => ?_
        cases written with
        | error failure => exact .of_pure hlater trivial
        | ok => exact .of_pure hlater trivial

theorem showCommand_ensures (hreached : AlikeOutside {location}ᶜ tree reached) :
    (showCommand logger line).Ensures (Permits working) reached (AlikeOutside {location}ᶜ tree)
      fun _ _ => True := by
  rw [showCommand]
  split
  case isTrue =>
    cases commandNote? line with
    | none => exact .of_pure hreached trivial
    | some record =>
        exact .bind _ (ensures_of_changesLog hlogger hapart (log_asks _ _) hreached)
          fun _ _ hafter _ => .of_pure hafter trivial
  case isFalse => exact .of_pure hreached trivial

theorem printListing_ensures {assembly : Assembly}
    (hreached : AlikeOutside {location}ᶜ tree reached) :
    (printListing line assembly).Ensures (Permits working) reached (AlikeOutside {location}ᶜ tree)
      fun _ _ => True := by
  rw [printListing]
  split
  case isTrue =>
    exact ensures_of_changesLog hlogger hapart
      (.of_perform (by simp [ChangesLog, FileRequest.changes])) hreached
  case isFalse => exact .of_pure hreached trivial

theorem run_ensures {input : String} {executable : Bool}
    (hoperand : Text.decode? line.operand = some input)
    (hinput : tree.find working input = .ok (location, .file content executable))
    (hreached : AlikeOutside {location}ᶜ tree reached) :
    (run logger line).Ensures (Permits working) reached (AlikeOutside {location}ᶜ tree)
      fun _ _ => True := by
  rw [run, hoperand]
  refine .bind _ (assembleInput_ensures hlogger hapart hinput hreached) ?_
  intro result after hafter hresult
  cases result with
  | error failure => exact .of_pure hafter trivial
  | ok assembly =>
      have hassembly := hresult assembly rfl
      refine .bind _ (ensures_of_changesLog hlogger hapart (logAll_asks _ _) hafter) ?_
      intro _ later hlater _
      refine .bind _ (printListing_ensures hlogger hapart hlater) ?_
      intro printed listed hlisted _
      cases printed with
      | error error => exact .of_pure hlisted trivial
      | ok => exact finish_ensures hlogger hapart hassembly hlisted

theorem runLogged_ensures {input : String} {executable : Bool}
    (hoperand : Text.decode? line.operand = some input)
    (hinput : tree.find working input = .ok (location, .file content executable)) :
    (runLogged logger line).Ensures (Permits working) tree (AlikeOutside {location}ᶜ tree)
      fun _ _ => True := by
  refine .bind _ (ensures_of_changesLog hlogger hapart (openLog_asks logger) (.refl _ _)) ?_
  intro opened after hafter _
  cases opened with
  | error error => exact .of_pure hafter trivial
  | ok =>
      refine .bind _ (showCommand_ensures hlogger hapart hafter) fun shown noted hnoted _ => ?_
      cases shown with
      | error stop => exact .of_pure hnoted trivial
      | ok =>
          refine .bind _ (run_ensures hlogger hapart hoperand hinput hnoted) ?_
          intro result ended hended _
          cases result with
          | ok => exact .of_pure hended trivial
          | error stop =>
              cases stop with
              | panicked => exact .of_pure hended trivial
              | failed failure =>
                  exact .bind _ (ensures_of_changesLog hlogger hapart (log_asks _ _) hended)
                    fun _ _ hfinal _ => .of_pure hfinal trivial

end Input

/-- The input keeps its content at every moment of a run, whatever fails, unless the log takes its
place or, in a run that comes to write an image, the image or its temporary file does. A command
line that is not accepted changes nothing at all. -/
theorem program_keeps_input {parser : CommandLine.Parser Key} {tree later : FileTree}
    {working : List String} {arguments : List (List UInt8)}
    {exchanges : List (Σ request : FileRequest, request.Reply)} {rest : FileDialogue Nat}
    (hrun : (program parser arguments).Run (Permits working) tree exchanges later rest) :
    (∀ code, parser arguments = .ended code → later = tree) ∧
    ∀ line input location content executable, parser arguments = .accepted line →
      Text.decode? line.operand = some input →
      tree.find working input = .ok (location, .file content executable) →
      InputApart tree working line location content →
      later.find working input = .ok (location, .file content executable) := by
  constructor
  · intro code hended
    rw [program, hended] at hrun
    exact (Dialogue.run_pure_iff.mp hrun).2.1
  · intro line input location content executable hline hoperand hinput hapart
    rw [program, hline] at hrun
    dsimp only at hrun
    cases hlogger : line.text? .log with
    | none =>
        rw [hlogger] at hrun
        rw [(Dialogue.run_pure_iff.mp hrun).2.1]
        exact hinput
    | some file? =>
        rw [hlogger] at hrun
        obtain ⟨hlater, -⟩ := runLogged_ensures hlogger hapart hoperand hinput _ _ _ hrun
        exact (hlater.find_eq_file_iff (by simp)).mpr hinput

/-- A machine with two sources whose names are those of an image and of a temporary file. -/
def muddle : Machine where
  tree :=
    { entries :=
        [ (["a.slim"], .file (Text.encode "section main\n HALT\n") false),
          (["b.tmp"], .file (Text.encode "section main\n HALT\n") false) ] }
  working := []
  output := []
  refusal? := none
  clock := ""
  environment := []

/-- The assembler in the muddle, with some texts as arguments. -/
def sorting (arguments : List String) : Nat × Machine :=
  muddle.runFiles (program (CommandLine.read switches) (arguments.map Text.encode))

theorem muddle_keeps_input :
    (sorting ["-o", "c", "a.slim"]).2.tree.find [] "a.slim" =
      .ok (["a.slim"], .file (Text.encode "section main\n HALT\n") false) := by
  have hline : CommandLine.read switches (["-o", "c", "a.slim"].map Text.encode) =
      .accepted
        { occurrences := [{ key := .output, value? := some (Text.encode "c") }]
          operand := Text.encode "a.slim" } := by decide +kernel
  have hpath : imagePath?
      { occurrences := [{ key := .output, value? := some (Text.encode "c") }]
        operand := Text.encode "a.slim" } = some "c" := by decide +kernel
  obtain ⟨exchanges, hrun⟩ := Machine.exists_run muddle
    (program (CommandLine.read switches) (["-o", "c", "a.slim"].map Text.encode))
  refine (program_keeps_input hrun).2 _ _ _ _ _ hline (by decide +kernel) (by decide +kernel)
    ⟨nofun, ?_, ?_⟩
  · intro _ _ path himage
    cases himage.symm.trans hpath
    decide +kernel
  · intro _ _ path himage
    cases himage.symm.trans hpath
    decide +kernel

/-- An input is lost that has the name of its own image, or else the name of the temporary file of
the image that is asked for. -/
theorem muddle_loses_inputs :
    (CommandLine.read switches (["a.slim"].map Text.encode) =
        .accepted { occurrences := [], operand := Text.encode "a.slim" } ∧
      muddle.tree.read [] "a.slim" = .ok (Text.encode "section main\n HALT\n") ∧
        (sorting ["a.slim"]).2.tree.read [] "a.slim" = .ok [1, 0, 0, 0, 0, 0, 0, 0, 0]) ∧
    (CommandLine.read switches (["-o", "b", "b.tmp"].map Text.encode) =
        .accepted
          { occurrences := [{ key := .output, value? := some (Text.encode "b") }]
            operand := Text.encode "b.tmp" } ∧
      muddle.tree.fileAt? [] "b" ≠ muddle.tree.fileAt? [] "b.tmp" ∧
        muddle.tree.read [] "b.tmp" = .ok (Text.encode "section main\n HALT\n") ∧
          (sorting ["-o", "b", "b.tmp"]).2.tree.find [] "b.tmp" = .error .noEntry) := by
  refine ⟨⟨?_, ?_, ?_⟩, ?_, ?_, ?_, ?_⟩ <;> decide +kernel

end Assembler

end StackAsm
