import Mathlib
import StackAsm.Command.Assembler
import StackAsm.Proofs.Launching
import StackAsm.Proofs.Lines

namespace StackAsm

theorem CommandLine.read_takesPath {κ : Type} [DecidableEq κ] {switches : List (Switch κ)}
    (h : fallbacks switches = []) : (read switches).TakesPath := by
  intro path hpath
  obtain ⟨rest, rfl⟩ := List.head?_eq_some_iff.mp hpath
  have hdivide : divide switches none [0x2F :: rest] =
      .ok { occurrences := [], operands := [0x2F :: rest] } := by
    simp [divide, readGroup?, unfilled, Except.map]
  have hrespects (operand : List UInt8) :
      respects switches { occurrences := [], operand } = true := by
    simp [respects, count, has]
  rw [read, hdivide]
  simp only [hrespects, h, if_true, List.append_nil]

namespace Assembler

theorem imagePath?_of_takesPath {reader : CommandLine.Parser Key} (hreader : reader.TakesPath)
    {path : String} (h : path.toList.head? = some '/') :
    ∃ line, reader [Text.encode path] = .accepted line ∧
      imagePath? line = some (Path.withExtension path ImageFile.extension) := by
  obtain ⟨rest, hrest⟩ := List.head?_eq_some_iff.mp h
  have hslash : (Text.encode path).head? = some 0x2F := by
    rw [← String.ofList_toList (s := path), hrest, ← List.singleton_append, String.ofList_append,
      Text.encode_append]
    rfl
  refine ⟨_, hreader _ hslash, ?_⟩
  rw [imagePath?, Text.decode?_encode]
  rfl

end Assembler

namespace Launcher

variable {working : List String} {line : CommandLine Key} {companion file : String}

/-- The image that is run is the one beside the source that has been assembled. -/
theorem Attempt.IsAt.argument_eq {source attempt : Attempt} {tree after : FileTree}
    (hsource : source.IsAt (assembling line companion file) working tree)
    (h : attempt.IsAt (running line file (some source)) working after)
    (hworking : ∀ name ∈ working, Path.IsName name) :
    attempt.argument = Path.withExtension source.argument ImageFile.extension := by
  obtain ⟨hextension, location, node, hfind, habsolute⟩ := h.passes
  rw [habsolute]
  exact (hsource.namesEntry hworking).pathText_eq (by decide) hextension hfind

theorem program_ensures {parser : CommandLine.Parser Key} {arguments : List (List UInt8)}
    {state : Surroundings} (hline : parser arguments = .accepted line)
    (hfile : Text.decode? line.operand = some file) :
    (program parser companion arguments).Ensures (Permits working) state
      (fun later => ∃ assembler? executor?,
        later = (state.following assembler?).following executor? ∧
          Course line companion file working state.tree assembler? executor?)
      fun status later => ∃ assembler? executor?,
        later = (state.following assembler?).following executor? ∧
          Ending line companion file working state.tree assembler? executor? (status = 0) := by
  rw [program, hline]
  simp only [hfile]
  exact runLogged_ensures

/-- A launcher whose file is named by bytes that are no text starts nothing and fails. Otherwise it
has started, at every moment, at most the assembler and after it the executor, each on the absolute
path of an entry that is there and has the extension, and the executor only if nothing that was
asked for before has failed. When it ends it has started what it could, and it succeeds exactly if
everything that was asked for has succeeded. -/
theorem program_dispatches {parser : CommandLine.Parser Key}
    {reader : CommandLine.Parser Assembler.Key} {arguments : List (List UInt8)} {tree : FileTree}
    {exchanges : List (Σ request : LaunchRequest, request.Reply)} {later : Surroundings}
    {rest : LaunchDialogue Nat} (hline : parser arguments = .accepted line)
    (hreader : reader.TakesPath) (hworking : ∀ name ∈ working, Path.IsName name)
    (hrun : (program parser companion arguments).Run (Permits working) { tree, attempts := [] }
      exchanges later rest) :
    (Text.decode? line.operand = none →
      later.attempts = [] ∧ ∀ status, rest = pure status → status ≠ 0) ∧
    ∀ file, Text.decode? line.operand = some file → ∃ assembler? executor?,
      later.attempts = assembler?.toList ++ executor?.toList ∧
      Course line companion file working tree assembler? executor? ∧
      (∀ attempt ∈ assembler?, attempt.before.NamesEntry sourceExtension attempt.argument) ∧
      (∀ attempt ∈ executor?, attempt.before.NamesEntry ImageFile.extension attempt.argument ∧
        ∀ source ∈ assembler?,
          attempt.argument = Path.withExtension source.argument ImageFile.extension ∧
            ∃ reading, reader [Text.encode source.argument] = .accepted reading ∧
              Assembler.imagePath? reading = some attempt.argument) ∧
      ∀ status, rest = pure status →
        Ending line companion file working tree assembler? executor? (status = 0) := by
  constructor
  · intro hfile
    rw [program, hline] at hrun
    simp only [hfile] at hrun
    obtain ⟨-, rfl, rfl⟩ := Dialogue.run_pure_iff.mp hrun
    refine ⟨rfl, ?_⟩
    rintro _ ⟨⟩
    decide
  intro file hfile
  obtain ⟨halways, hright⟩ := program_ensures hline hfile _ _ _ hrun
  obtain ⟨assembler?, executor?, rfl, hcourse, hending⟩ : ∃ assembler? executor?,
      later = (Surroundings.following { tree, attempts := [] } assembler?).following executor? ∧
        Course line companion file working tree assembler? executor? ∧
          ∀ status, rest = pure status →
            Ending line companion file working tree assembler? executor? (status = 0) := by
    -- Only the end tells what was not started, and it concerns the same two attempts.
    by_cases hended : ∃ status, rest = pure status
    · obtain ⟨status, rfl⟩ := hended
      obtain ⟨assembler?, executor?, hlater, hending⟩ := hright status rfl
      refine ⟨assembler?, executor?, hlater, hending.course, ?_⟩
      rintro _ ⟨⟩
      exact hending
    · obtain ⟨assembler?, executor?, hlater, hcourse⟩ := halways
      exact ⟨assembler?, executor?, hlater, hcourse, fun status h => absurd ⟨status, h⟩ hended⟩
  refine ⟨assembler?, executor?, rfl, hcourse, ?_, ?_, hending⟩
  · intro attempt hattempt
    obtain ⟨-, hisAt⟩ := hcourse.assembler attempt hattempt
    rw [hisAt.before_eq]
    exact hisAt.namesEntry hworking
  · intro attempt hattempt
    obtain ⟨-, hisAt⟩ := hcourse.executor attempt hattempt
    refine ⟨hisAt.before_eq ▸ hisAt.namesEntry hworking, ?_⟩
    rintro source ⟨⟩
    obtain ⟨-, hsource⟩ := hcourse.assembler source rfl
    have himage := hsource.argument_eq hisAt hworking
    obtain ⟨reading, hreading, hpath⟩ :=
      Assembler.imagePath?_of_takesPath hreader (hsource.namesEntry hworking).head?_eq
    exact ⟨himage, reading, hreading, by rw [hpath, himage]⟩

/-- A tree with a source. -/
def desk : FileTree :=
  { entries := [(["a.slap"], .file [] false)] }

/-- Replies to a launcher at the root of the tree. The assembler leaves an image, and the executor
takes the source away. -/
def deskAnswer (state : Surroundings) : (request : LaunchRequest) → request.Reply × Surroundings
  | .timeStamp => ("", state)
  | .print _ => (.ok (), state)
  | .pathExists path => ((state.tree.find [] path).toOption.isSome, state)
  | .canonicalPath path =>
      ((state.tree.find [] path).map fun (location, _) => FileTree.pathText location, state)
  | .start program argument =>
      let after :=
        if program = "slap" then state.tree.put ["a.slim"] (.file [] false)
        else state.tree.erase ["a.slap"]
      (.ok (.exited 0), state.following (state.attempt program argument (.ok (.exited 0)) after))

/-- A launcher that is to assemble and to run. -/
def errand : LaunchDialogue Nat :=
  program (CommandLine.read (switches none)) "slap" (["-a", "-r", "a.slap"].map Text.encode)

theorem errand_dispatches :
    ∃ exchanges later,
      errand.Run (Permits []) { tree := desk, attempts := [] } exchanges later (pure 0) ∧
        later.attempts.map (fun attempt => (attempt.program, attempt.argument)) =
            [("slap", "/a.slap"), ("slim", "/a.slim")] ∧
          ∃ assembler? executor?,
            later.attempts = assembler?.toList ++ executor?.toList ∧
              Succeeded assembler? ∧ Succeeded executor? := by
  have hline : CommandLine.read (switches none) (["-a", "-r", "a.slap"].map Text.encode) =
      .accepted
        { occurrences := [{ key := .assemble, value? := none }, { key := .run, value? := none }]
          operand := Text.encode "a.slap" } := by decide +kernel
  have hswitches : CommandLine.fallbacks Assembler.switches = [] := rfl
  have hanswer : ∀ (inner state : Surroundings) (request : LaunchRequest), inner = state →
      ∃ after, Permits [] state request (deskAnswer inner request).1 after ∧
        (deskAnswer inner request).2 = after := by
    rintro inner _ request rfl
    refine ⟨_, ?_, rfl⟩
    cases request with
    | timeStamp | print => rfl
    | pathExists path => exact ⟨rfl, Outcome.isSome_toOption_iff⟩
    | canonicalPath path => exact ⟨rfl, rfl⟩
    | start program argument => exact ⟨_, rfl⟩
  obtain ⟨exchanges, _, hrun, rfl⟩ := Dialogue.exists_run_of_simulate _ hanswer errand
    (rfl : ({ tree := desk, attempts := [] } : Surroundings) = _)
  have hstatus : (errand.simulate deskAnswer { tree := desk, attempts := [] }).1 = 0 := by
    decide +kernel
  rw [hstatus] at hrun
  obtain ⟨assembler?, executor?, hattempts, -, -, -, hending⟩ :=
    (program_dispatches hline (CommandLine.read_takesPath hswitches) (by simp) hrun).2 "a.slap"
      (by decide +kernel)
  obtain ⟨-, hassembler, hexecutor⟩ := (hending 0 rfl).succeeds_iff.mp rfl
  exact ⟨exchanges, _, hrun, by decide +kernel, assembler?, executor?, hattempts,
    (hassembler rfl).2, (hexecutor rfl).2⟩

end Launcher

end StackAsm
