import Mathlib
import StackAsm.Proofs.ImageWriting
import StackAsm.Proofs.Likeness
import StackAsm.Proofs.Logging

/-!
What the exit code of the assembler tells, and which files a run changes. The program is compared
with one that keeps no log and prints no listing: neither can be noticed in the exit code or in any
other file.
-/

namespace StackAsm

open FileTree Machine

namespace ImageFile

variable {base : FileTree} {working : List String} {refusal? : Option SystemError}
  {hidden : Set (List String)} {path : String}

theorem writeAll_agree (hpath : base.Avoids working path hidden) (bytes : List UInt8) :
    Agree base working refusal? hidden (writeAll path bytes) (writeAll path bytes)
      fun result twinResult => result = .ok () ↔ twinResult = .ok () := by
  induction bytes using writeAll.induct with
  | case1 =>
      rw [writeAll]
      exact .of_pure Iff.rfl
  | case2 bytes hbytes ih =>
      rw [writeAll, dif_neg hbytes]
      refine .of_ask (by simpa [FileRequest.paths] using hpath) fun reply twinReply hreplies => ?_
      cases reply with
      | error error =>
          cases twinReply with
          | error twinError => exact .of_pure (by simp)
          | ok taken => cases (hreplies taken).mpr rfl
      | ok taken =>
          cases (hreplies taken).mp rfl
          by_cases hnone : taken = 0
          · simp only [hnone, if_true]
            exact .of_pure (by simp)
          · simp only [hnone, if_false]
            exact ih taken hnone

theorem writeNew_agree (hpath : base.Avoids working path hidden) (bytes : List UInt8) :
    Agree base working refusal? hidden (writeNew path bytes) (writeNew path bytes)
      fun result twinResult => result = .ok () ↔ twinResult = .ok () := by
  refine .bind (.of_perform (by simpa [FileRequest.paths] using hpath)) ?_
  intro created twinCreated hcreated
  rcases Outcome.eq_ok_iff_cases hcreated with ⟨rfl, rfl⟩ | ⟨error, twinError, rfl, rfl⟩
  · refine .bind (writeAll_agree hpath bytes) fun written twinWritten hwritten => ?_
    rcases Outcome.eq_ok_iff_cases hwritten with ⟨rfl, rfl⟩ | ⟨error, twinError, rfl, rfl⟩
    · exact .of_perform (by simpa [FileRequest.paths] using hpath)
    · exact .of_pure (by simp)
  · exact .of_pure (by simp)

theorem write_agree (hpath : base.Avoids working path hidden)
    (htemporary : base.Avoids working (temporary path) hidden) (bytes : List UInt8) :
    Agree base working refusal? hidden (write path bytes) (write path bytes)
      fun result twinResult => result = .ok () ↔ twinResult = .ok () := by
  have hreplace : Agree base working refusal? hidden (replace path bytes) (replace path bytes)
      fun result twinResult => result = .ok () ↔ twinResult = .ok () := by
    refine .bind (writeNew_agree htemporary bytes) fun written twinWritten hwritten => ?_
    rcases Outcome.eq_ok_iff_cases hwritten with ⟨rfl, rfl⟩ | ⟨error, twinError, rfl, rfl⟩
    · exact .of_perform (by simpa [FileRequest.paths] using ⟨htemporary, hpath⟩)
    · exact .of_pure (by simp)
  refine .bind hreplace fun replaced twinReplaced hreplaced => ?_
  rcases Outcome.eq_ok_iff_cases hreplaced with ⟨rfl, rfl⟩ | ⟨error, twinError, rfl, rfl⟩
  · exact .of_pure Iff.rfl
  · refine .bind (.of_perform (by simpa [FileRequest.paths] using htemporary)) fun _ _ _ => ?_
    exact .of_pure (by simp)

theorem read_of_write {machine : Machine} {later : FileTree} {bytes : List UInt8}
    (h : (machine.runFiles (write path bytes)).1 = .ok ())
    (hpath : machine.tree.Avoids machine.working path hidden)
    (hlater : AlikeOutside hidden later (machine.runFiles (write path bytes)).2.tree) :
    later.read machine.working path = .ok bytes := by
  obtain ⟨location, executable, hfind⟩ :=
    ((runFiles_of_ensures (write_ensures path bytes)).2 h).found
  have hdirectories := runFiles_directories machine (write path bytes)
  rw [read_eq_ok_iff]
  exact ⟨location, executable,
    hlater.symm.find_of_find (hdirectories.avoids_iff.mpr hpath) hfind⟩

end ImageFile

namespace Assembler

/-- What a command line asks the assembler for. -/
structure Options where
  input : String
  verbosity : Nat
  output? : Option String
  /-- Whether to stop before the image is written. -/
  checkOnly : Bool
  /-- Whether to print the listing. -/
  showListing : Bool
  /-- A file that log lines are added to. -/
  logFile? : Option String
  deriving DecidableEq, Repr

namespace Options

/-- The options that a command line gives, if all its values are texts. -/
def ofLine? (line : CommandLine Key) : Option Options := do
  let input ← Text.decode? line.operand
  let output? ← line.text? .output
  let logFile? ← line.text? .log
  return {
    input
    verbosity := line.count .verbose
    output?
    checkOnly := line.has .check
    showListing := line.has .listing
    logFile? }

def logger (options : Options) : Logger :=
  { verbosity := options.verbosity, file? := options.logFile? }

def imagePath (options : Options) : String :=
  ImageFile.pathFor options.input options.output?

theorem ofLine?_eq_some_iff {line : CommandLine Key} {options : Options} :
    ofLine? line = some options ↔
      Text.decode? line.operand = some options.input ∧
        line.text? .output = some options.output? ∧
          line.text? .log = some options.logFile? ∧
            line.count .verbose = options.verbosity ∧
              line.has .check = options.checkOnly ∧ line.has .listing = options.showListing := by
  obtain ⟨input, verbosity, output?, checkOnly, showListing, logFile?⟩ := options
  simp only [ofLine?, bind, Option.bind_eq_some_iff, pure, Option.some.injEq, mk.injEq]
  grind

end Options

/-- The assembly of the input, if it can be read and assembled. -/
def assembled? (tree : FileTree) (working : List String) (input : String) : Option Assembly :=
  match tree.read working input with
  | .error _ => none
  | .ok source => (Assembly.ofSource source).toOption

theorem assembled?_eq_some_iff {tree : FileTree} {working : List String} {input : String}
    {assembly : Assembly} :
    assembled? tree working input = some assembly ↔
      ∃ source, tree.read working input = .ok source ∧ Assembly.ofSource source = .ok assembly := by
  rw [assembled?]
  cases tree.read working input with
  | error error => simp
  | ok source => cases hassembly : Assembly.ofSource source <;> simp [Except.toOption, hassembly]

/-- Reads and assembles the input without a word. -/
def assembleQuietly (input : String) : FileDialogue (Option Assembly) := do
  match ← Dialogue.perform (FileRequest.openInput input) with
  | .error _ => return none
  | .ok () =>
      match ← Dialogue.perform (FileRequest.readInput input) with
      | .error _ => return none
      | .ok source => return (Assembly.ofSource source).toOption

/-- Writes an image without a word. The result is whether it could be written. -/
def writeQuietly (path : String) (bytes : List UInt8) : FileDialogue Bool := do
  match ← ImageFile.write path bytes with
  | .error _ => return false
  | .ok () => return true

/-- What is left of the program without its log and its listing. The result is whether it
succeeds. -/
def runQuietly (options : Options) : FileDialogue Bool := do
  match ← assembleQuietly options.input with
  | none => return false
  | some assembly =>
      if options.checkOnly then return true
      else writeQuietly options.imagePath assembly.bytes

theorem runFiles_assembleQuietly (machine : Machine) (input : String) :
    machine.runFiles (assembleQuietly input) =
      (assembled? machine.tree machine.working input, machine) := by
  rw [assembleQuietly, runFiles_bind, runFiles_perform, assembled?]
  simp only [answerFile]
  cases hfind : machine.tree.find machine.working input with
  | error error =>
      have hread : machine.tree.read machine.working input = .error error := by
        rw [FileTree.read, hfind]
        rfl
      rw [hread]
      rfl
  | ok found =>
      have hreply : machine.runFiles (Dialogue.perform (FileRequest.readInput input)) =
          (machine.tree.read machine.working input, machine) := rfl
      rw [Except.map]
      dsimp only
      rw [runFiles_bind, hreply]
      cases machine.tree.read machine.working input <;> rfl

section Quiet

variable {machine : Machine} {options : Options}

theorem runFiles_runQuietly_of_none
    (h : assembled? machine.tree machine.working options.input = none) :
    machine.runFiles (runQuietly options) = (false, machine) := by
  rw [runQuietly, runFiles_bind, runFiles_assembleQuietly, h]
  rfl

theorem runFiles_runQuietly_of_check {assembly : Assembly}
    (h : assembled? machine.tree machine.working options.input = some assembly)
    (hcheck : options.checkOnly = true) :
    machine.runFiles (runQuietly options) = (true, machine) := by
  rw [runQuietly, runFiles_bind, runFiles_assembleQuietly, h]
  simp only [hcheck, if_true]
  rfl

theorem runFiles_runQuietly_of_write {assembly : Assembly}
    (h : assembled? machine.tree machine.working options.input = some assembly)
    (hcheck : options.checkOnly = false) :
    let written := machine.runFiles (ImageFile.write options.imagePath assembly.bytes)
    machine.runFiles (runQuietly options) = (decide (written.1 = .ok ()), written.2) := by
  rw [runQuietly, runFiles_bind, runFiles_assembleQuietly, h]
  simp only [hcheck, Bool.false_eq_true, if_false]
  rw [writeQuietly, runFiles_bind]
  cases (machine.runFiles _).1 with
  | ok => rfl
  | error => rfl

theorem runQuietly_eq_true_iff :
    (machine.runFiles (runQuietly options)).1 = true ↔
      ∃ assembly, assembled? machine.tree machine.working options.input = some assembly ∧
        (options.checkOnly = true ∨
          (machine.runFiles (ImageFile.write options.imagePath assembly.bytes)).1 = .ok ()) := by
  cases hassembled : assembled? machine.tree machine.working options.input with
  | none => simp [runFiles_runQuietly_of_none hassembled]
  | some assembly =>
      cases hcheck : options.checkOnly with
      | true => simp [runFiles_runQuietly_of_check hassembled hcheck]
      | false => simp [runFiles_runQuietly_of_write hassembled hcheck]

end Quiet

section Loud

variable {tree : FileTree} {working : List String} {refusal? : Option SystemError}
  {logger : Logger} {line : CommandLine Key} {options : Options}

theorem agree_after_log {α β γ : Type} {dialogue : FileDialogue α} {next : α → FileDialogue β}
    {twin : FileDialogue γ} {right : β → γ → Prop} (hdialogue : dialogue.Asks (ChangesLog logger))
    (hnext : ∀ result,
      Agree tree working refusal? (logPlaces tree working logger) (next result) twin right) :
    Agree tree working refusal? (logPlaces tree working logger) (dialogue >>= next) twin right :=
  .silently (within_logPlaces hdialogue) hnext

/-- The log, if there is one, can be opened, and it is not a file that the program works on. -/
structure LogApart (tree : FileTree) (working : List String) (options : Options) : Prop where
  opens : ∀ path, options.logFile? = some path →
    ∃ after, tree.openForWriting working path id = .ok after
  input : tree.Avoids working options.input (logPlaces tree working options.logger)
  output : tree.Avoids working options.imagePath (logPlaces tree working options.logger)
  temporary : tree.Avoids working (ImageFile.temporary options.imagePath)
    (logPlaces tree working options.logger)

theorem assembleInput_agree {input : String}
    (hinput : tree.Avoids working input (logPlaces tree working logger)) :
    Agree tree working refusal? (logPlaces tree working logger) (assembleInput logger input)
      (assembleQuietly input) fun result assembly? => result.toOption = assembly? := by
  refine .bind (.of_perform (by simpa [FileRequest.paths] using hinput)) ?_
  intro opened twin hopened
  rcases Outcome.eq_ok_iff_cases hopened with ⟨rfl, rfl⟩ | ⟨error, twinError, rfl, rfl⟩
  · refine agree_after_log (log_asks _ _) fun _ => ?_
    refine .bind (.of_perform (by simpa [FileRequest.paths] using hinput)) ?_
    intro content twin hcontent
    cases content with
    | error error =>
        cases twin with
        | error twinError => exact .of_pure rfl
        | ok source => cases (hcontent source).mpr rfl
    | ok source =>
        cases (hcontent source).mp rfl
        refine agree_after_log (logAll_asks _ _) fun _ => ?_
        change Agree _ _ _ _ _ (pure (Assembly.report source).result.toOption) _
        cases (Assembly.report source).result with
        | error fault => exact .of_pure rfl
        | ok assembly => exact .of_pure rfl
  · exact .of_pure rfl

theorem writeOutput_agree {path : String}
    (hpath : tree.Avoids working path (logPlaces tree working logger))
    (htemporary : tree.Avoids working (ImageFile.temporary path) (logPlaces tree working logger))
    (assembly : Assembly) :
    Agree tree working refusal? (logPlaces tree working logger) (writeOutput logger path assembly)
      (writeQuietly path assembly.bytes)
      fun result success => result = .ok () ↔ success = true := by
  refine agree_after_log (log_asks _ _) fun _ => ?_
  refine .bind (ImageFile.write_agree hpath htemporary assembly.bytes) ?_
  intro written twin hwritten
  rcases Outcome.eq_ok_iff_cases hwritten with ⟨rfl, rfl⟩ | ⟨error, twinError, rfl, rfl⟩
  · exact .of_pure (by simp)
  · exact .of_pure (by simp)

/-- How a run ends that succeeds, and one that does not. -/
def Ends : Bool → Except (Stop Failure) Unit → Prop
  | true, result => result = .ok ()
  | false, result => ∃ failure, result = .error (.failed failure)

section Texts

variable (hoptions : Options.ofLine? line = some options)
include hoptions

theorem imagePath?_eq : imagePath? line = some options.imagePath := by
  obtain ⟨hinput, houtput, -⟩ := Options.ofLine?_eq_some_iff.mp hoptions
  rw [imagePath?, hinput, houtput]
  rfl

theorem agree_after_showCommand {β γ : Type}
    {next : Except (Stop Failure) Unit → FileDialogue β} {twin : FileDialogue γ}
    {right : β → γ → Prop}
    (hnext : Agree tree working refusal? (logPlaces tree working logger) (next (.ok ())) twin
      right) :
    Agree tree working refusal? (logPlaces tree working logger) (showCommand logger line >>= next)
      twin right := by
  obtain ⟨hinput, houtput, -⟩ := Options.ofLine?_eq_some_iff.mp hoptions
  obtain ⟨record, hrecord⟩ : ∃ record, commandNote? line = some record := by
    rw [commandNote?, hinput, houtput]
    exact ⟨_, rfl⟩
  rw [showCommand, hrecord]
  split
  case isTrue =>
    change Agree _ _ _ _ ((log logger record >>= fun _ => pure (.ok ())) >>= next) _ _
    rw [bind_assoc]
    exact agree_after_log (log_asks _ _) fun _ => hnext
  case isFalse => exact hnext

theorem finish_agree (hlog : LogApart tree working options) (assembly : Assembly) :
    Agree tree working refusal? (logPlaces tree working options.logger)
      (finish options.logger line assembly)
      (if options.checkOnly = true then return true
      else writeQuietly options.imagePath assembly.bytes)
      fun result success => Ends success result := by
  obtain ⟨-, -, -, -, hcheck, -⟩ := Options.ofLine?_eq_some_iff.mp hoptions
  rw [finish, imagePath?_eq hoptions, hcheck]
  split
  case isTrue => exact agree_after_log (log_asks _ _) fun _ => .of_pure rfl
  case isFalse =>
    rw [← bind_pure (writeQuietly _ _)]
    refine .bind (writeOutput_agree hlog.output hlog.temporary assembly) ?_
    intro written success hwritten
    cases written with
    | ok =>
        rw [hwritten.mp rfl]
        exact .of_pure rfl
    | error failure =>
        have hfailed : success = false :=
          Bool.eq_false_of_not_eq_true fun h => by cases hwritten.mpr h
        rw [hfailed]
        exact .of_pure ⟨failure, rfl⟩

theorem run_agree (hlog : LogApart tree working options)
    (hprints : options.showListing = true → refusal? = none) :
    Agree tree working refusal? (logPlaces tree working options.logger) (run options.logger line)
      (runQuietly options) fun result success => Ends success result := by
  obtain ⟨hinput, -, -, -, -, hlisting⟩ := Options.ofLine?_eq_some_iff.mp hoptions
  rw [run, hinput]
  refine .bind (assembleInput_agree hlog.input) ?_
  rintro result _ rfl
  cases result with
  | error failure => exact .of_pure ⟨failure, rfl⟩
  | ok assembly =>
      refine agree_after_log (logAll_asks _ _) fun _ => ?_
      rw [printListing, hlisting]
      split
      case isTrue hshown => exact .print (hprints hshown) (finish_agree hoptions hlog assembly)
      case isFalse => exact finish_agree hoptions hlog assembly

theorem exitCode_agree (hlog : LogApart tree working options)
    (hprints : options.showListing = true → refusal? = none) :
    Agree tree working refusal? (logPlaces tree working options.logger)
      (do
        match ← showCommand options.logger line with
        | .error _ => return Stop.panicCode
        | .ok () =>
            match ← run options.logger line with
            | .ok () => return 0
            | .error .panicked => return Stop.panicCode
            | .error (.failed failure) =>
                log options.logger (note .error ("fatal: " ++ failure.message))
                return 1)
      (runQuietly options) fun status success => status = if success = true then 0 else 1 := by
  refine agree_after_showCommand hoptions ?_
  rw [← bind_pure (runQuietly options)]
  refine .bind (run_agree hoptions hlog hprints) fun result success hends => ?_
  cases success with
  | true =>
      obtain rfl := hends
      exact .of_pure rfl
  | false =>
      obtain ⟨failure, rfl⟩ := hends
      exact agree_after_log (log_asks _ _) fun _ => .of_pure rfl

end Texts

theorem openLog_succeeds {machine : Machine}
    (hlog : LogApart machine.tree machine.working options) :
    (machine.runFiles (openLog options.logger)).1 = .ok () := by
  rw [openLog]
  split
  case h_1 => rfl
  case h_2 path hpath =>
    obtain ⟨after, hafter⟩ := hlog.opens path hpath
    change (machine.commit (machine.tree.openForWriting machine.working path id)).1 = _
    rw [hafter]
    rfl

/-- The exit code says whether the program succeeds without log and listing, also on another
machine with the same tree, and the same files are left there. -/
theorem runLogged_eq {machine other : Machine} (hoptions : Options.ofLine? line = some options)
    (hlog : LogApart machine.tree machine.working options)
    (hprints : options.showListing = true → machine.refusal? = none)
    (htree : other.tree = machine.tree) (hworking : other.working = machine.working) :
    (machine.runFiles (runLogged options.logger line)).1 =
        (if (other.runFiles (runQuietly options)).1 = true then 0 else 1) ∧
      AlikeOutside (logPlaces machine.tree machine.working options.logger)
        (machine.runFiles (runLogged options.logger line)).2.tree
        (other.runFiles (runQuietly options)).2.tree := by
  have halike : Alike machine.tree machine.working machine.refusal?
      (logPlaces machine.tree machine.working options.logger) machine other :=
    ⟨rfl, hworking, rfl, .refl _ _, by rw [htree]⟩
  -- The other machine keeps no log, so it stands still while the log is opened here.
  have hopened := halike.silently (within_logPlaces (openLog_asks options.logger))
  rw [runLogged, runFiles_bind, openLog_succeeds hlog]
  obtain ⟨hstatus, hlater⟩ := exitCode_agree hoptions hlog hprints _ _ hopened
  exact ⟨hstatus, hlater.files⟩

theorem program_eq_runLogged {parser : CommandLine.Parser Key} {arguments : List (List UInt8)}
    (hline : parser arguments = .accepted line) (hoptions : Options.ofLine? line = some options) :
    program parser arguments = runLogged options.logger line := by
  obtain ⟨-, -, hlogFile, hverbosity, -⟩ := Options.ofLine?_eq_some_iff.mp hoptions
  rw [program, hline]
  simp only [hlogFile, hverbosity]
  rfl

end Loud

theorem exists_find_of_assembled? {tree : FileTree} {working : List String} {input : String}
    {assembly : Assembly} (h : assembled? tree working input = some assembly) :
    ∃ found, tree.find working input = .ok found := by
  obtain ⟨source, hread, -⟩ := assembled?_eq_some_iff.mp h
  obtain ⟨location, executable, hfind⟩ := read_eq_ok_iff.mp hread
  exact ⟨_, hfind⟩

/-- A machine with a source that stops at once. -/
def workshop : Machine where
  tree := { entries := [(["a.slap"], .file (Text.encode "section main\n HALT\n") false)] }
  working := []
  output := []
  refusal? := none
  clock := ""
  environment := []

/-- The assembler with some texts as arguments. -/
def invocation (arguments : List String) : FileDialogue Nat :=
  program (CommandLine.read switches) (arguments.map Text.encode)

/-- The same machine with a standard output that takes nothing. -/
def muteWorkshop : Machine :=
  { workshop with refusal? := some (.other "No space left on device") }

end Assembler

end StackAsm
