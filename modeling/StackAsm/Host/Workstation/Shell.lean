import StackAsm.Host.Workstation.Expansion
import StackAsm.Host.Workstation.Utilities

/-!
The shell of a workstation: how scripts are carried out.

A step carries out one command with the help of an engine for the commands in it, so the depth of a
script is bounded in one place only.
-/

namespace StackAsm.Shell

structure State where
  /-- The name under which the script was called. -/
  name : String
  arguments : List String
  bindings : List (String × String)
  /-- The names of the variables that programs are given. -/
  exported : List String
  /-- The letters of the settings that are on. -/
  settings : List Char
  status : Nat
  descriptors : Descriptors
  /-- Whether a failure is expected, so that it does not end the script. -/
  tested : Bool

/-- Why a script does not go on with the next command. -/
inductive Departure where
  | exit (status : Nat)
  | killed (signal : Nat)
  deriving DecidableEq, Repr

abbrev Evaluation (α : Type) : Type :=
  ExceptT Departure (StateT State Activity) α

namespace Evaluation

/-- Does something on the station. -/
def act {α : Type} (activity : Activity α) : Evaluation α :=
  ExceptT.lift (StateT.lift activity)

def setStatus (status : Nat) : Evaluation Unit :=
  modify ({ · with status })

/-- Carries something out, undoes what it has changed in some way, and then departs if it did. -/
def undoing {α : Type} (restore : State → State → State) (action : Evaluation α) :
    Evaluation α := do
  let before ← get
  let outcome ← ExceptT.mk do return .ok (← action.run)
  modify (restore before)
  match outcome with
  | .ok result => return result
  | .error departure => throw departure

/-- Carries something out as a part of the script that changes nothing in it but the station.
It returns the status. -/
def isolated (action : Evaluation Unit) : Evaluation Nat := do
  let working := (← act get).machine.working
  let outcome ← undoing (fun before _ => before) <| ExceptT.mk do
    match ← action.run with
    | .ok () => return .ok (.exit (← get).status)
    | .error departure => return .ok departure
  act (modify fun station => { station with machine := { station.machine with working } })
  match outcome with
  | .exit status => return status
  | .killed signal => throw (.killed signal)

def assign (name value : String) : Evaluation Unit :=
  modify fun state => { state with bindings := (name, value) :: state.bindings.filter (·.1 ≠ name) }

/-- The number by which a script knows itself as a process. -/
def processNumber : String := "1000"

/-- The number of the process that has started it. -/
def parentNumber : String := "999"

/-- The value of a parameter that is not a list, if it is set. -/
def value? (name : String) : Evaluation (Option String) := do
  let state ← get
  match name with
  | "?" => return some (toString state.status)
  | "$" => return some processNumber
  | "PPID" => return some parentNumber
  | "#" => return some (toString state.arguments.length)
  | "-" => return some (String.ofList state.settings)
  | _ =>
      match name.toNat? with
      | some 0 => return some state.name
      | some place => return state.arguments[place - 1]?
      | none => return state.bindings.lookup name

end Evaluation

open Evaluation (act setStatus)

/-- The means to run something in a script. -/
structure Engine where
  run : Command → Evaluation Unit
  /-- Runs the text of a script as a part of this one. -/
  interpret : String → Evaluation Unit
  launch : Launch

/-! ### Words -/

/-- The descriptors with one of them changed. -/
def redirect (descriptors : Descriptors) (descriptor channel : Nat) : Descriptors :=
  (descriptor, channel) :: descriptors.filter (·.1 ≠ descriptor)

/-- Runs a script for its output, without the line ends at its end. -/
def substitute (engine : Engine) (script : String) : Evaluation String := do
  let channel ← act (Station.attach (.pipe []))
  let status ← Evaluation.isolated do
    modify fun state => { state with descriptors := redirect state.descriptors 1 channel }
    engine.interpret script
  setStatus status
  let bytes := (← act (Station.readAll channel)).toOption.getD []
  let output := (Octets.ofBytes (bytes.filter (· != 0))).toList
  return String.ofList (output.reverse.dropWhile (· == '\n')).reverse

/-- The fragments of all arguments. Quoted behind a star they are one value. -/
def argumentList (name : String) (quoted : Bool) : Evaluation (List Fragment) := do
  let arguments := (← get).arguments
  if quoted && name == "*" then return Fragment.ofValue true (String.intercalate " " arguments)
  else return List.intercalate [.boundary] (arguments.map (Fragment.ofValue quoted))

mutual

def expandPart (engine : Engine) : Part → Evaluation (List Fragment)
  | .char char quoted => return [.glyph { char, literal := quoted } false]
  | .emptyQuotes => return [.quotation]
  | .output script quoted => return Fragment.ofValue quoted (← substitute engine script)
  | .parameter name operator operand quoted => do
      if name = "@" ∨ name = "*" then argumentList name quoted
      else
        let value? ← Evaluation.value? name
        let value := value?.getD ""
        let present := value?.isSome && !(operator.startsWith ":" && value.isEmpty)
        match operator.toList.getLast? with
        | none => return Fragment.ofValue quoted value
        | some '-' =>
            if present then return Fragment.ofValue quoted value else expandWord engine operand
        | some '+' => if present then expandWord engine operand else return []
        | some '=' =>
            if present then return Fragment.ofValue quoted value
            else
              let chosen := Fragment.text (← expandWord engine operand)
              Evaluation.assign name chosen
              return Fragment.ofValue quoted chosen
        | some 'h' => return Fragment.ofValue quoted (toString value.length)
        | some sign => do
            let glyphs := Fragment.glyphs (← expandWord engine operand)
            let kept := Pattern.trim (Pattern.ofGlyphs glyphs) (sign == '%') (operator.length == 2)
              value.toList
            return Fragment.ofValue quoted (String.ofList kept)

/-- Expands a word without splitting it. -/
def expandWord (engine : Engine) : List Part → Evaluation (List Fragment)
  | [] => return []
  | part :: parts => return (← expandPart engine part) ++ (← expandWord engine parts)

end

def wordText (engine : Engine) (word : Word) : Evaluation String :=
  return Fragment.text (← expandWord engine word)

def fields (engine : Engine) (words : List Word) : Evaluation (List String) := do
  let found ← words.mapM fun word => do
    let split := Fragment.fields none (← expandWord engine word)
    return (← split.mapM fun field => act (Pattern.paths field)).flatten
  return found.flatten

def assignAll (engine : Engine) (assignments : List (String × Word)) : Evaluation Unit :=
  assignments.forM fun (name, word) => do Evaluation.assign name (← wordText engine word)

/-! ### Redirections -/

/-- Carries out a redirection, and tells whether it succeeded. -/
def applyRedirection (engine : Engine) (redirection : Redirection) : Evaluation Bool := do
  let target ← wordText engine redirection.target
  let descriptors := (← get).descriptors
  let found ←
    match redirection.kind with
    | .duplicate => pure (target.toNat?.bind fun number => descriptors.lookup number)
    | .input => return ← connect (← act (Station.openPath target .reading)).toOption
    | .output => return ← connect (← act (Station.openPath target .writing)).toOption
    | .append => return ← connect (← act (Station.openPath target .appending)).toOption
  if target = "-" then
    modify ({ · with descriptors := descriptors.filter (·.1 ≠ redirection.descriptor) })
    return true
  else connect found
where
  connect (channel? : Option Nat) : Evaluation Bool := do
    match channel? with
    | none => return false
    | some channel =>
        modify fun state =>
          { state with descriptors := redirect state.descriptors redirection.descriptor channel }
        return true

/-- Carries out redirections until one fails. -/
def applyRedirections (engine : Engine) : List Redirection → Evaluation Bool
  | [] => return true
  | redirection :: more => do
      if ← applyRedirection engine redirection then applyRedirections engine more
      else return false

/-- Does something with redirections, which are undone afterwards. If they do not succeed, nothing
else is done, and the status tells so. -/
def withRedirections (engine : Engine) (redirections : List Redirection)
    (action : Evaluation Unit) : Evaluation Bool :=
  Evaluation.undoing (fun before after => { after with descriptors := before.descriptors }) do
    let succeeded ← applyRedirections engine redirections
    if succeeded then action else setStatus 2
    return succeeded

/-! ### Programs -/

/-- What a command of the script gives to a program. -/
def callOf (name : String) (arguments : List String) : Evaluation Call := do
  let state ← get
  let environment := state.bindings.filter fun (name, _) => state.exported.contains name
  return { name, arguments, environment, descriptors := state.descriptors }

/-- The path of the program of a name: the first that can be run, or else the first file. -/
def findProgram (name : String) : Evaluation (Option String) := do
  if name.toList.contains '/' then return some name
  let directories := ((← Evaluation.value? "PATH").getD "").splitOn ":"
  let found ← directories.mapM fun directory => do
    let path := if directory.isEmpty then name else Utility.inside directory name
    match ← act (Station.find path) with
    | .ok (_, .file _ executable) => return some (path, executable)
    | _ => return none
  let files := found.filterMap id
  return ((files.find? Prod.snd).orElse fun _ => files.head?).map Prod.fst

def shellPath : String := "/bin/sh"

/-- Runs the program of a name, and returns its status. A file without a format is taken for a
script. -/
def runProgram (engine : Engine) (name : String) (arguments : List String) : Evaluation Nat := do
  match ← if name.isEmpty then pure none else findProgram name with
  | none => return 127
  | some path =>
      let call ← callOf name arguments
      let outcome ← act do
        match ← engine.launch path call with
        | .error .notExecutableFormat =>
            engine.launch shellPath { call with name := shellPath, arguments := path :: arguments }
        | outcome => return outcome
      match outcome with
      | .ok (.exited code) => return code
      | .ok (.signalled number) => return 128 + number
      | .error .noEntry | .error .notDirectory | .error .nameTooLong | .error .tooManyLevels =>
          return 127
      | .error _ => return 126

/-! ### Commands of the shell -/

/-- Ends the script because of a misused command. -/
def abort {α : Type} : Evaluation α :=
  throw (.exit 2)

/-- Reads a number without a sign, or ends the script. -/
def number (text : String) : Evaluation Nat :=
  match Numeral.decimal? text with
  | some value => return value
  | none => abort

/-- The settings, and what is left of the arguments that changed them. -/
def readSettings (settings : List Char) : List String → Option (List Char × List String)
  | [] => some (settings, [])
  | "--" :: rest => some (settings, rest)
  | argument :: rest =>
      match argument.toList with
      | '-' :: letters =>
          if letters.all "aefnuxcs".toList.contains then readSettings (settings ++ letters) rest
          else none
      | '+' :: letters => readSettings (settings.filter (!letters.contains ·)) rest
      | _ => some (settings, argument :: rest)

/-- The signals that do not end a program. -/
def harmlessSignals : List (Nat × String) :=
  [ (0, "EXIT"), (17, "CHLD"), (18, "CONT"), (19, "STOP"), (20, "TSTP"), (21, "TTIN"),
    (22, "TTOU"), (23, "URG"), (28, "WINCH") ]

def signal? (text : String) : Option Nat :=
  match Numeral.decimal? text with
  | some number => if number ≤ 64 then some number else none
  | none =>
      let named := harmlessSignals ++ ExitStatus.signalNames.map fun (number, name) =>
        (number, String.ofList (name.toList.drop 3))
      (named.find? (·.2 = text)).map Prod.fst

/-- Sends a signal. Only the script itself can get it. -/
def kill (signalName : String) (targets : List String) : Evaluation Nat := do
  match signal? signalName with
  | none => return 2
  | some signal =>
      if targets.isEmpty || targets.any (· ≠ Evaluation.processNumber) then return 1
      if (harmlessSignals.lookup signal).isSome then return 0
      throw (.killed signal)

def changeDirectory (path : String) : Evaluation Nat := do
  match ← act (Station.find path) with
  | .ok (working, .directory) =>
      act (modify fun station => { station with machine := { station.machine with working } })
      Evaluation.assign "PWD" (Utility.locationText working)
      return 0
  | _ => return 2

def exportAll (declarations : List String) : Evaluation Nat := do
  for declaration in declarations do
    let (name, value) := declaration.toList.span (· != '=')
    if let _ :: value := value then
      Evaluation.assign (String.ofList name) (String.ofList value)
    modify fun state => { state with exported := String.ofList name :: state.exported }
  return 0

/-- The commands whose faults end the script, and before which assignments last. -/
def specialCommand? (engine : Engine) (name : String) (arguments : List String) :
    Option (Evaluation Nat) :=
  match name, arguments with
  | ":", _ => some (return 0)
  | "exit", [] => some do throw (.exit (← get).status)
  | "exit", text :: _ => some do throw (.exit ((← number text) % 256))
  | "export", declarations => some (exportAll declarations)
  | "unset", names => some do
      modify fun state =>
        { state with bindings := state.bindings.filter (!names.contains ·.1) }
      return 0
  | "eval", words => some do
      engine.interpret (String.intercalate " " words)
      return (← get).status
  | "set", words => some do
      match readSettings (← get).settings words with
      | none => abort
      | some (settings, rest) =>
          modify fun state =>
            { state with settings, arguments := if rest.isEmpty then state.arguments else rest }
          return 0
  | "shift", words => some do
      let count ← if let text :: _ := words then number text else pure 1
      if (← get).arguments.length < count then abort
      modify fun state => { state with arguments := state.arguments.drop count }
      return 0
  | _, _ => none

/-- The other commands of the shell. Some of them are the same as a utility. -/
def regularCommand? (name : String) (arguments : List String) : Option (Evaluation Nat) :=
  match name, arguments with
  | "cd", [] => some (return 0)
  | "cd", path :: _ => some (changeDirectory path)
  | "echo", words => some do
      let call ← callOf name arguments
      return Utility.codeOf (← act (call.print (Utility.echoText true words)))
  | "kill", "-s" :: signal :: targets => some (kill signal targets)
  | "kill", words =>
      match words.map String.toList with
      | ('-' :: signal) :: _ => some (kill (String.ofList signal) (words.drop 1))
      | _ => some (kill "TERM" words)
  | "wait", _ | "umask", _ => some (return 0)
  | _, _ =>
      if ["[", "false", "printf", "pwd", "test", "true"].contains name then
        (Utility.all.lookup name).map fun utility => do act (utility (← callOf name arguments))
      else none

/-! ### Execution -/

/-- Ends the script after a failure, if it is set to do so and did not expect one. -/
def checkFailure : Evaluation Unit := do
  let state ← get
  if state.status ≠ 0 ∧ !state.tested ∧ state.settings.contains 'e' then
    throw (.exit state.status)

/-- Runs a command whose failure is expected. -/
def expecting (action : Evaluation Unit) : Evaluation Unit :=
  Evaluation.undoing (fun before after => { after with tested := before.tested }) do
    modify ({ · with tested := true })
    action

/-- Carries out a command with arguments. Assignments in front of it are seen by it alone, except
for some commands of the shell. -/
def runNamed (engine : Engine) (assignments : List (String × Word)) (name : String)
    (arguments : List String) : Evaluation Unit := do
  match specialCommand? engine name arguments with
  | some action =>
      assignAll engine assignments
      setStatus (← action)
  | none =>
      let restore (before after : State) : State :=
        if assignments.isEmpty then after
        else { after with bindings := before.bindings, exported := before.exported }
      Evaluation.undoing restore do
        assignAll engine assignments
        modify fun state => { state with exported := assignments.map Prod.fst ++ state.exported }
        setStatus (← (regularCommand? name arguments).getD (runProgram engine name arguments))

def simple (engine : Engine) (assignments : List (String × Word)) (words : List Word)
    (redirections : List Redirection) : Evaluation Unit := do
  match ← fields engine words with
  | [] =>
      setStatus 0
      let _ ← withRedirections engine redirections (assignAll engine assignments)
  | "exec" :: arguments =>
      assignAll engine assignments
      unless ← applyRedirections engine redirections do
        abort
      match arguments with
      | [] => setStatus 0
      | name :: rest => throw (.exit (← runProgram engine name rest))
  | name :: arguments =>
      let succeeded ← withRedirections engine redirections
        (runNamed engine assignments name arguments)
      if !succeeded ∧ (specialCommand? engine name arguments).isSome then abort

/-- Runs the commands of a pipeline, each with the output of the one before as its input. -/
def pipeline (engine : Engine) : List Command → Evaluation Unit
  | [] => return ()
  | [command] => do setStatus (← Evaluation.isolated (engine.run command))
  | command :: commands => do
      let channel ← act (Station.attach (.pipe []))
      let _ ← Evaluation.isolated do
        modify fun state => { state with descriptors := redirect state.descriptors 1 channel }
        engine.run command
      Evaluation.undoing (fun before after => { after with descriptors := before.descriptors }) do
        modify fun state => { state with descriptors := redirect state.descriptors 0 channel }
        pipeline engine commands

/-- Repeats a body while its test succeeds, or until it does. -/
def repeatWhile (engine : Engine) (untilSuccess : Bool) (test body : Command) :
    Nat → Evaluation Unit
  | 0 => return ()
  | fuel + 1 => do
      expecting (engine.run test)
      if ((← get).status == 0) != untilSuccess then
        engine.run body
        repeatWhile engine untilSuccess test body fuel
      else setStatus 0

def loopLimit : Nat := 10000

/-- Carries out a command. -/
def step (engine : Engine) : Command → Evaluation Unit
  | .simple assignments words redirections => do
      simple engine assignments words redirections
      checkFailure
  | .sequence [] => setStatus 0
  | .sequence commands => commands.forM engine.run
  | .andThen first second => do
      expecting (engine.run first)
      if (← get).status = 0 then engine.run second
  | .orElse first second => do
      expecting (engine.run first)
      if (← get).status ≠ 0 then engine.run second
  | .negation command => do
      expecting (engine.run command)
      setStatus (if (← get).status = 0 then 1 else 0)
  | .pipeline commands => do
      pipeline engine commands
      checkFailure
  | .subshell body => do
      setStatus (← Evaluation.isolated (engine.run body))
      checkFailure
  | .redirected body redirections => do
      unless ← withRedirections engine redirections (engine.run body) do
        checkFailure
  | .conditional test yes no => do
      expecting (engine.run test)
      engine.run (if (← get).status = 0 then yes else no)
  | .loop untilSuccess test body => repeatWhile engine untilSuccess test body loopLimit
  | .each name words body => do
      let values ← fields engine words
      setStatus 0
      values.forM fun value => do
        Evaluation.assign name value
        engine.run body

/-- Runs the lines of commands of a script one after the other. -/
def lines (run : Command → Evaluation Unit) : Nat → List Char → Evaluation Unit
  | 0, _ => return ()
  | fuel + 1, script => do
      match nextLine script with
      | .none => return ()
      | .broken => abort
      | .commands command rest =>
          run command
          lines run fuel rest

/-- The engine that carries out commands nested to a given depth. Commands are only read while a
setting asks for that. -/
def Engine.ofDepth (launch : Launch) : Nat → Engine
  | 0 => { run := fun _ => abort, interpret := fun _ => abort, launch }
  | depth + 1 =>
      let run (command : Command) : Evaluation Unit := do
        unless (← get).settings.contains 'n' do
          step (ofDepth launch depth) command
      { run
        interpret := fun text => do
          if nextLine text.toList matches .none then setStatus 0
          lines run (text.length + 1) text.toList
        launch }

def depthLimit : Nat := 1000

def runScript (launch : Launch) (call : Call) (settings : List Char) (name : String)
    (arguments : List String) (script : String) : Activity ExitStatus := do
  let path :=
    if (call.environment.lookup "PATH").isSome then [] else [("PATH", Machine.usualSearchPath)]
  let start : State :=
    { name, arguments, settings
      bindings := path ++ call.environment
      exported := call.environment.map Prod.fst
      status := 0
      descriptors := call.descriptors
      tested := false }
  let (outcome, state) ← ((Engine.ofDepth launch depthLimit).interpret script).run start
  match outcome with
  | .ok () => return .exited state.status
  | .error (.exit status) => return .exited status
  | .error (.killed signal) => return .signalled signal

/-- The script in bytes. Zeros in it are passed over. -/
def scriptText (bytes : List UInt8) : String :=
  Octets.ofBytes (bytes.filter (· != 0))

/-- Runs the shell: on the script that is its argument, in a file, or on standard input. A directory
is read as an empty script. -/
def program (launch : Launch) (call : Call) : Activity ExitStatus := do
  match readSettings [] call.arguments with
  | none => return .exited 2
  | some (settings, rest) =>
      match settings.contains 'c', rest with
      | true, [] => return .exited 2
      | true, script :: more =>
          runScript launch call settings (more.headD call.name) (more.drop 1) script
      | false, [] =>
          let bytes := (← call.readOperand "-").toOption.getD []
          runScript launch call settings call.name [] (scriptText bytes)
      | false, file :: arguments =>
          match ← call.readOperand file with
          | .ok bytes => runScript launch call settings file arguments (scriptText bytes)
          | .error .isDirectory => return .exited 0
          | .error _ => return .exited 2

end StackAsm.Shell
