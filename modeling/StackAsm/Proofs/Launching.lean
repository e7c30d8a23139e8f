import Mathlib
import StackAsm.Command.Launcher
import StackAsm.Proofs.AbsolutePaths
import StackAsm.Proofs.Runs

/-!
Which programs the launcher starts, and what its exit status tells. Nothing is known of the programs
that it starts: each may fail to start or end in any way, and leave any files behind. While none of
them runs the files stay as they are.
-/

namespace StackAsm.Launcher

/-- An attempt to run a program on a file. -/
structure Attempt where
  program : String
  argument : String
  /-- The files when the program is to start. -/
  before : FileTree
  outcome : Except SystemError ExitStatus
  /-- The files when the program has ended. -/
  after : FileTree
  deriving DecidableEq

/-- The file tree around a launcher, and what it has attempted so far. -/
structure Surroundings where
  tree : FileTree
  attempts : List Attempt
  deriving DecidableEq

/-- An attempt to run a program on a file in some surroundings. -/
def Surroundings.attempt (state : Surroundings) (program file : String)
    (outcome : Except SystemError ExitStatus) (after : FileTree) : Attempt :=
  { program, argument := file, before := state.tree, outcome, after }

/-- The files after one further attempt or none. -/
def filesAfter (tree : FileTree) (attempt? : Option Attempt) : FileTree :=
  attempt?.elim tree Attempt.after

/-- The surroundings after one further attempt or none. -/
def Surroundings.following (state : Surroundings) (attempt? : Option Attempt) : Surroundings :=
  { tree := filesAfter state.tree attempt?
    attempts := state.attempts ++ attempt?.toList }

@[simp]
theorem following_none (state : Surroundings) : state.following none = state := by
  simp [Surroundings.following, filesAfter]

/-- What may be replied to a launcher, and what may become of its surroundings. -/
def Permits (working : List String) (state : Surroundings) :
    (request : LaunchRequest) → request.Reply → Surroundings → Prop
  | .timeStamp, _, after => after = state
  | .print _, _, after => after = state
  | .pathExists path, reply, after =>
      after = state ∧ (reply = true ↔ ∃ found, state.tree.find working path = .ok found)
  | .canonicalPath path, reply, after =>
      after = state ∧
        reply = (state.tree.find working path).map fun (location, _) => FileTree.pathText location
  | .start program argument, outcome, after =>
      ∃ tree, after = state.following (state.attempt program argument outcome tree)

/-- A program that is to be run on a file with an extension. The program is missing if its name is
not a text. -/
structure Job where
  program? : Option String
  file : String
  extension : String

/-- The file of a job passes its check, and has the absolute path. -/
def Job.Passes (job : Job) (working : List String) (tree : FileTree) (absolute : String) :
    Prop :=
  Path.extension? job.file = some job.extension ∧
    ∃ location node, tree.find working job.file = .ok (location, node) ∧
      absolute = FileTree.pathText location

/-- An attempt is at a job: it gets what the check of the file has found. -/
structure Attempt.IsAt (attempt : Attempt) (job : Job) (working : List String)
    (tree : FileTree) : Prop where
  program_eq : job.program? = some attempt.program
  before_eq : attempt.before = tree
  passes : job.Passes working tree attempt.argument

/-- There has been an attempt, and the program has ended with code zero. -/
def Succeeded (attempt? : Option Attempt) : Prop :=
  ∃ attempt ∈ attempt?, attempt.outcome = .ok (.exited 0)

variable {working : List String} {state : Surroundings} {verbosity : Nat}

theorem requireFile_ensures (job : Job) :
    (requireFile job.file job.extension).Ensures (Permits working) state (· = state)
      fun result _ => ∀ path, result = .ok path ↔ job.Passes working state.tree path := by
  refine .bind
    (fun reply _ => reply = true ↔ ∃ found, state.tree.find working job.file = .ok found)
    (.of_perform rfl fun reply after h => h) ?_
  rintro reply after rfl hexists
  cases reply with
  | false =>
      refine .of_pure rfl fun path => ⟨nofun, ?_⟩
      rintro ⟨-, location, node, hfind, -⟩
      cases hexists.mpr ⟨_, hfind⟩
  | true =>
      obtain ⟨⟨location, node⟩, hfind⟩ := hexists.mp rfl
      rw [if_pos rfl]
      by_cases hextension : Path.extension? job.file = some job.extension
      · rw [if_pos hextension]
        refine .bind (fun reply _ => reply = .ok (FileTree.pathText location))
          (.of_perform rfl fun reply later h => ⟨h.1, by rw [h.2, hfind]; rfl⟩) ?_
        rintro reply later rfl rfl
        refine .of_pure rfl fun path => ⟨?_, ?_⟩
        · rintro ⟨⟩
          exact ⟨hextension, location, node, hfind, rfl⟩
        · rintro ⟨-, found, other, hother, rfl⟩
          rw [hfind] at hother
          cases hother
          rfl
      · rw [if_neg hextension]
        exact .of_pure rfl fun path => ⟨nofun, fun hpasses => absurd hpasses.1 hextension⟩

theorem log_ensures (severity : Severity) (message : String) :
    (log verbosity severity message).Ensures (Permits working) state (· = state)
      fun _ _ => True := by
  rw [log]
  split
  case isTrue =>
    refine .bind (fun _ _ => True) (.of_perform rfl fun _ _ h => ⟨h, trivial⟩) ?_
    rintro stamp after rfl -
    refine .bind (fun _ _ => True) (.of_perform rfl fun _ _ h => ⟨h, trivial⟩) ?_
    rintro printed later rfl -
    exact .of_pure rfl trivial
  case isFalse => exact .of_pure rfl trivial

theorem log_bind_ensures {α : Type} {severity : Severity} {message : String}
    {next : LaunchDialogue α} {always : Surroundings → Prop} {right : α → Surroundings → Prop}
    (h : next.Ensures (Permits working) state always right) :
    (log options severity message >>= fun _ => next).Ensures (Permits working) state always
      right := by
  have halways : always state := (h _ _ _ (.here _ _)).1
  refine .bind (fun _ later => later = state)
    ((log_ensures severity message).mono (fun _ hlater => hlater ▸ halways)
      fun _ _ hlater _ => hlater) ?_
  rintro _ later - rfl
  exact h

/-- What has become of a job at some moment: if there is an attempt at it, it was called for. -/
def Job.Begun (job : Job) (calledFor : Prop) (working : List String) (tree : FileTree)
    (attempt? : Option Attempt) : Prop :=
  ∀ attempt ∈ attempt?, calledFor ∧ attempt.IsAt job working tree

/-- What has become of a job in the end: there is an attempt at it exactly if it was called for, its
program has a name and its file passes the check. -/
structure Job.Tried (job : Job) (calledFor : Prop) (working : List String) (tree : FileTree)
    (attempt? : Option Attempt) : Prop where
  isAt : ∀ attempt ∈ attempt?, attempt.IsAt job working tree
  isSome_iff : attempt?.isSome ↔
    calledFor ∧ job.program?.isSome ∧ ∃ absolute, job.Passes working tree absolute

theorem Job.Tried.begun {job : Job} {calledFor : Prop} {tree : FileTree}
    {attempt? : Option Attempt} (h : job.Tried calledFor working tree attempt?) :
    job.Begun calledFor working tree attempt? := by
  intro attempt hattempt
  have hcalled := h.isSome_iff.mp (Option.isSome_of_mem hattempt)
  exact ⟨hcalled.1, h.isAt attempt hattempt⟩

theorem Job.Tried.succeeded_iff {job : Job} {calledFor : Prop} {tree : FileTree}
    {attempt? : Option Attempt} (h : job.Tried calledFor working tree attempt?) :
    (∃ absolute, job.Passes working tree absolute) ∧ Succeeded attempt? ↔ Succeeded attempt? := by
  refine ⟨And.right, fun hsucceeded => ⟨?_, hsucceeded⟩⟩
  obtain ⟨attempt, hattempt, -⟩ := hsucceeded
  exact ⟨attempt.argument, (h.isAt attempt hattempt).passes⟩

theorem start_ensures (program file : String) :
    (start verbosity program file).Ensures (Permits working) state
      (fun later => later = state ∨
        ∃ outcome tree, later = state.following (state.attempt program file outcome tree))
      fun result later => ∃ outcome tree,
        later = state.following (state.attempt program file outcome tree) ∧
          (result = .ok () ↔ outcome = .ok (.exited 0)) := by
  refine log_bind_ensures (.bind
    (fun reply later => ∃ tree, later = state.following (state.attempt program file reply tree))
    (.of_perform (.inl rfl) fun reply later h => ⟨.inr ⟨reply, h⟩, h⟩) ?_)
  rintro reply later halways ⟨tree, hlater⟩
  cases reply with
  | error error => exact .of_pure halways ⟨_, tree, hlater, by simp⟩
  | ok status =>
      dsimp only
      split
      case isTrue hsuccess =>
        refine .of_pure halways ⟨_, tree, hlater, ?_⟩
        simpa [ExitStatus.success] using hsuccess
      case isFalse hfails =>
        refine .of_pure halways ⟨_, tree, hlater, ?_⟩
        simpa [ExitStatus.success] using hfails

theorem startOn_ensures (job : Job) :
    (startOn verbosity job.program? job.file job.extension).Ensures (Permits working) state
      (fun later => ∃ attempt?, later = state.following attempt? ∧
        job.Begun True working state.tree attempt?)
      fun result later => ∃ attempt?, later = state.following attempt? ∧
        job.Tried True working state.tree attempt? ∧
          match result with
          | .error _ => ¬Succeeded attempt?
          | .ok path => ∃ attempt ∈ attempt?,
              attempt.argument = path ∧ attempt.outcome = .ok (.exited 0) := by
  have hnone : ∃ attempt?, state = state.following attempt? ∧
      job.Begun True working state.tree attempt? := ⟨none, (following_none state).symm, nofun⟩
  unfold startOn
  cases hprogram : job.program? with
  | none =>
      refine .of_pure hnone ⟨none, (following_none _).symm, ⟨nofun, ?_⟩, by simp [Succeeded]⟩
      simp [hprogram]
  | some program =>
      refine .bind
        (fun result later => later = state ∧
          ∀ path, result = .ok path ↔ job.Passes working state.tree path)
        ((requireFile_ensures job).mono (fun _ h => h ▸ hnone) fun _ _ h hpasses => ⟨h, hpasses⟩) ?_
      rintro checked state - ⟨rfl, hchecked⟩
      cases checked with
      | error failure =>
          refine .of_pure hnone ⟨none, (following_none _).symm, ⟨nofun, ?_⟩, by simp [Succeeded]⟩
          simpa [hprogram] using fun absolute => (hchecked absolute).mpr
      | ok path =>
          -- The check has changed nothing, so the program starts among the files that were checked.
          have hpasses := (hchecked path).mp rfl
          have htried : ∀ outcome tree, job.Tried True working state.tree
              (some (state.attempt program path outcome tree)) := by
            refine fun outcome tree => ⟨?_, by simpa [hprogram] using ⟨path, hpasses⟩⟩
            rintro _ ⟨⟩
            exact ⟨hprogram, rfl, hpasses⟩
          refine .bind _ ((start_ensures program path).mono ?_ fun _ _ _ h => h) ?_
          · rintro later (rfl | ⟨outcome, tree, rfl⟩)
            · exact hnone
            · exact ⟨_, rfl, (htried outcome tree).begun⟩
          · rintro result later halways ⟨outcome, tree, rfl, hresult⟩
            cases result with
            | error failure =>
                have hfails : outcome ≠ .ok (.exited 0) := by simpa using hresult
                refine .of_pure halways ⟨_, rfl, htried outcome tree, ?_⟩
                simpa [Succeeded, Surroundings.attempt] using hfails
            | ok =>
                exact .of_pure halways ⟨_, rfl, htried outcome tree, _, rfl, rfl, hresult.mp rfl⟩

section Line

variable {line : CommandLine Key} {companion file : String}

def assembling (line : CommandLine Key) (companion file : String) : Job :=
  { program? := assemblerOf? line companion, file, extension := sourceExtension }

/-- Running the image of the file that has been assembled, or else the file that is given. -/
def running (line : CommandLine Key) (file : String) (assembler? : Option Attempt) : Job :=
  { program? := executorOf? line
    file := assembler?.elim file fun attempt =>
      Path.withExtension attempt.argument ImageFile.extension
    extension := ImageFile.extension }

theorem assembleStep_ensures :
    (assembleStep line companion file).Ensures (Permits working) state
      (fun later => ∃ assembler?, later = state.following assembler? ∧
        (assembling line companion file).Begun (line.has .assemble = true) working state.tree
          assembler?)
      fun result later => ∃ assembler?, later = state.following assembler? ∧
        (assembling line companion file).Tried (line.has .assemble = true) working state.tree
            assembler? ∧
          ∀ image, result = .ok image ↔
            (line.has .assemble = true → Succeeded assembler?) ∧
              image = (running line file assembler?).file := by
  rw [assembleStep]
  cases hassemble : line.has .assemble with
  | false =>
      refine .of_pure ⟨none, (following_none state).symm, nofun⟩
        ⟨none, (following_none state).symm, ⟨nofun, by simp⟩, fun image => ?_⟩
      simp [running, eq_comm]
  | true =>
      rw [if_pos rfl]
      refine log_bind_ensures
        (.bind _ ((startOn_ensures (assembling line companion file)).mono ?_ fun _ _ _ h => h) ?_)
      · rintro later ⟨assembler?, rfl, hbegun⟩
        exact ⟨assembler?, rfl, by simpa using hbegun⟩
      · rintro result later halways ⟨assembler?, rfl, htried, hresult⟩
        cases result with
        | error failure =>
            refine .of_pure halways ⟨assembler?, rfl, by simpa using htried, fun image => ?_⟩
            simp [hresult]
        | ok source =>
            obtain ⟨attempt, rfl, rfl, hsucceeds⟩ := hresult
            refine .of_pure halways ⟨some attempt, rfl, by simpa using htried, fun image => ?_⟩
            simp [Succeeded, hsucceeds, running, eq_comm]

theorem runStep_ensures (assembler? : Option Attempt) :
    (runStep line (running line file assembler?).file).Ensures (Permits working) state
      (fun later => ∃ executor?, later = state.following executor? ∧
        (running line file assembler?).Begun (line.has .run = true) working state.tree executor?)
      fun result later => ∃ executor?, later = state.following executor? ∧
        (running line file assembler?).Tried (line.has .run = true) working state.tree executor? ∧
          (result = .ok () ↔ (line.has .run = true → Succeeded executor?)) := by
  rw [runStep]
  cases hrun : line.has .run with
  | false =>
      exact .of_pure ⟨none, (following_none state).symm, nofun⟩
        ⟨none, (following_none state).symm, ⟨nofun, by simp⟩, by simp⟩
  | true =>
      rw [if_pos rfl]
      refine log_bind_ensures
        (.bind _ ((startOn_ensures (running line file assembler?)).mono ?_ fun _ _ _ h => h) ?_)
      · rintro later ⟨executor?, rfl, hbegun⟩
        exact ⟨executor?, rfl, by simpa using hbegun⟩
      · rintro result later halways ⟨executor?, rfl, htried, hresult⟩
        cases result with
        | error failure =>
            exact .of_pure halways ⟨executor?, rfl, by simpa using htried, by simpa using hresult⟩
        | ok path =>
            obtain ⟨attempt, rfl, -, hsucceeds⟩ := hresult
            refine .of_pure halways ⟨some attempt, rfl, by simpa using htried, ?_⟩
            simp [Succeeded, hsucceeds]

/-- What a launcher does at most: it assembles only if that is asked for, and it runs only if that
is asked for and nothing that was to be done before has failed. -/
structure Course (line : CommandLine Key) (companion file : String) (working : List String)
    (tree : FileTree) (assembler? executor? : Option Attempt) : Prop where
  assembler : (assembling line companion file).Begun (line.has .assemble = true) working tree
    assembler?
  executor : (running line file assembler?).Begun
    (line.has .run = true ∧ (line.has .assemble = true → Succeeded assembler?)) working
    (filesAfter tree assembler?) executor?

/-- What a launcher has done when it ends, and when it succeeds. -/
structure Ending (line : CommandLine Key) (companion file : String) (working : List String)
    (tree : FileTree) (assembler? executor? : Option Attempt) (succeeds : Prop) : Prop where
  assembler : (assembling line companion file).Tried (line.has .assemble = true) working tree
    assembler?
  executor : (running line file assembler?).Tried
    (line.has .run = true ∧ (line.has .assemble = true → Succeeded assembler?)) working
    (filesAfter tree assembler?) executor?
  succeeds_iff : succeeds ↔
    (line.has .assemble = true ∨ line.has .run = true) ∧
      (line.has .assemble = true →
        (∃ absolute, (assembling line companion file).Passes working tree absolute) ∧
          Succeeded assembler?) ∧
        (line.has .run = true →
          (∃ absolute,
            (running line file assembler?).Passes working (filesAfter tree assembler?) absolute) ∧
              Succeeded executor?)

theorem Ending.course {tree : FileTree} {assembler? executor? : Option Attempt} {succeeds : Prop}
    (h : Ending line companion file working tree assembler? executor? succeeds) :
    Course line companion file working tree assembler? executor? :=
  ⟨h.assembler.begun, h.executor.begun⟩

theorem run_ensures :
    (run line companion file).Ensures (Permits working) state
      (fun later => ∃ assembler? executor?,
        later = (state.following assembler?).following executor? ∧
          Course line companion file working state.tree assembler? executor?)
      fun result later => ∃ assembler? executor?,
        later = (state.following assembler?).following executor? ∧
          Ending line companion file working state.tree assembler? executor? (result = .ok ()) := by
  rw [run]
  split
  case isFalse hnothing =>
    obtain ⟨hassemble, hrun⟩ : line.has .assemble = false ∧ line.has .run = false := by
      simpa using hnothing
    refine .of_pure ⟨none, none, by simp, nofun, nofun⟩ ⟨none, none, by simp, ?_⟩
    refine ⟨⟨nofun, by simp [hassemble]⟩, ⟨nofun, by simp [hrun]⟩, by simp [hassemble, hrun]⟩
  case isTrue hsomething =>
    refine .bind _ (assembleStep_ensures.mono ?_ fun _ _ _ h => h) ?_
    · rintro later ⟨assembler?, rfl, hassembler⟩
      exact ⟨assembler?, none, by simp, hassembler, nofun⟩
    · rintro result later halways ⟨assembler?, rfl, htried, hresult⟩
      cases result with
      | error failure =>
          have hfails : line.has .assemble = true ∧ ¬Succeeded assembler? := by
            simpa using hresult (running line file assembler?).file
          refine .of_pure halways ⟨assembler?, none, by simp, htried, ⟨nofun, ?_⟩, ?_⟩
          · simp [hfails.1, hfails.2]
          · simp [hfails.1, hfails.2]
      | ok image =>
          -- The second check is made among the files that the assembler has left.
          obtain ⟨hsucceeds, rfl⟩ := (hresult image).mp rfl
          refine (runStep_ensures assembler?).mono ?_ ?_
          · rintro later ⟨executor?, rfl, hexecutor⟩
            refine ⟨assembler?, executor?, rfl, htried.begun, fun attempt hattempt => ?_⟩
            obtain ⟨hrun, hisAt⟩ := hexecutor attempt hattempt
            exact ⟨⟨hrun, hsucceeds⟩, hisAt⟩
          · rintro result later - ⟨executor?, rfl, hexecutor, hrun⟩
            have hexecutor : (running line file assembler?).Tried (line.has .run = true) working
              (filesAfter state.tree assembler?) executor? := hexecutor
            refine ⟨assembler?, executor?, rfl, htried, ⟨hexecutor.isAt, ?_⟩, ?_⟩
            · simp only [hexecutor.isSome_iff, and_iff_left hsucceeds]
            · rw [hrun, htried.succeeded_iff, hexecutor.succeeded_iff]
              exact ⟨fun h => ⟨by simpa using hsomething, hsucceeds, h⟩, fun h => h.2.2⟩

theorem runLogged_ensures :
    (runLogged line companion file).Ensures (Permits working) state
      (fun later => ∃ assembler? executor?,
        later = (state.following assembler?).following executor? ∧
          Course line companion file working state.tree assembler? executor?)
      fun status later => ∃ assembler? executor?,
        later = (state.following assembler?).following executor? ∧
          Ending line companion file working state.tree assembler? executor? (status = 0) := by
  refine .bind _ (run_ensures.mono (fun _ h => h) fun _ _ _ h => h) ?_
  rintro result later halways ⟨assembler?, executor?, rfl, hending⟩
  cases result with
  | ok => exact .of_pure halways ⟨assembler?, executor?, rfl, by simpa using hending⟩
  | error stop =>
      have hended (status : Nat) (hfails : status ≠ 0) : ∃ first? second?,
          (state.following assembler?).following executor? =
              (state.following first?).following second? ∧
            Ending line companion file working state.tree first? second? (status = 0) :=
        ⟨assembler?, executor?, rfl, by simpa [hfails] using hending⟩
      cases stop with
      | panicked => exact .of_pure halways (hended _ (by decide))
      | failed failure => exact log_bind_ensures (.of_pure halways (hended _ (by decide)))

end Line

theorem Attempt.IsAt.namesEntry {attempt : Attempt} {job : Job} {tree : FileTree}
    (h : attempt.IsAt job working tree) (hworking : ∀ name ∈ working, Path.IsName name) :
    tree.NamesEntry job.extension attempt.argument := by
  obtain ⟨hextension, location, node, hfind, habsolute⟩ := h.passes
  rw [habsolute]
  exact FileTree.namesEntry_of_find hworking hextension hfind

end StackAsm.Launcher
