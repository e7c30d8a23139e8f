import StackAsm.Token
import StackAsm.InstructionSet
import StackAsm.Report

/-!
Reading: from tokens to a program.

Each line is a statement: a section header, the declaration of a native routine, or an instruction.
Tokens are taken one by one from the front of what is left. A line that is no statement is reported,
and the rest of it is skipped, so that every faulty line of a source is reported once.
-/

namespace StackAsm

/-- A reading under way. -/
structure Reading where
  /-- What has not been taken yet. -/
  tokens : List Token
  declarations : List Declaration
  /-- The number of lines that turned out to be faulty. -/
  faults : Nat
  deriving DecidableEq, Repr

namespace Reading

/-- Reads a part of a line, or ends with what is wrong there. The tokens that it took are gone in
both cases, and the declarations that it made stay. -/
abbrev Production (α : Type) : Type :=
  ExceptT LineFault.Cause (StateM Reading) α

/-- Takes the next token if it is on the line. -/
def takeOn (line : Nat) : Production (Option Lexeme) :=
  modifyGet fun reading =>
    match reading.tokens with
    | [] => (none, reading)
    | token :: tokens =>
        if token.line = line then (some token.lexeme, { reading with tokens }) else (none, reading)

def label (line : Nat) : Production String := do
  match ← takeOn line with
  | some (.word name) => return name
  | some (.number literal) => throw (.literalForLabel literal.text)
  | some _ => throw .keywordForLabel
  | none => throw .missingLabel

/-- The number that a hex literal gives to a native routine. -/
def identifierOf (text : String) : Except LineFault.Cause UInt32 :=
  match Numeral.read 16 (UInt32.size - 1) (Numeral.dropPlus (Literal.afterMark text.toList)) with
  | .ok value => .ok (UInt32.ofNat value)
  | .error _ => .error (.wideIdentifier text)

/-- The number of a native routine. -/
def identifier (line : Nat) : Production UInt32 := do
  match ← takeOn line with
  | some (.number { kind := .hex, text }) => liftExcept (identifierOf text)
  | some _ => throw .identifierNotHex
  | none => throw .missingIdentifier

/-- The argument of an instruction, if there is one. -/
def argument (line : Nat) : Production (Option Argument) := do
  match ← takeOn line with
  | some (.word name) => return some (.symbol name)
  | some (.number literal) => return some (.literal literal)
  | some _ => throw .keywordForArgument
  | none => return none

/-- Nothing may be left over. -/
def endOfLine (line : Nat) : Production Unit := do
  match (← get).tokens with
  | [] => return ()
  | token :: _ => if token.line = line then throw .trailingToken

def declare (declaration : Declaration) : Production Unit :=
  modify fun reading => { reading with declarations := reading.declarations ++ [declaration] }

/-- Does something that may end with a fault, and goes on in any case. -/
def attempt {α : Type} (production : Production α) : Production (Except LineFault.Cause α) :=
  ExceptT.lift production.run

/-- Reads a section header behind its keyword. The section is open even if its header is faulty, so
that its instructions are not reported as stray. -/
def sectionHeader (line : Nat) : Production Unit := do
  let name ← attempt (label line)
  declare (.code { name := name.toOption.getD "", instructions := [], line })
  let _ ← liftExcept name
  endOfLine line

/-- Reads the declaration of a native routine behind its keyword. -/
def nativeDeclaration (line : Nat) : Production Unit := do
  let name ← label line
  let identifier ← identifier line
  endOfLine line
  declare (.native { name, identifier, line })

/-- The argument is there exactly when the operation takes one, and a literal has 64 bits. -/
def checkArgument (operation : Operation) : Option Argument → Except LineFault.Cause Unit
  | none =>
      if operation.takesArgument then .error (.argumentRequired operation.mnemonic) else .ok ()
  | some argument =>
      if operation.takesArgument then
        match argument with
        | .symbol _ => .ok ()
        | .literal literal =>
            match literal.bits with
            | .ok _ => .ok ()
            | .error fault => .error (.badLiteral fault)
      else .error (.argumentRefused operation.mnemonic)

/-- Adds an instruction to the last of some declarations, if that is a section. -/
def extendLast? (instruction : Instruction) (declarations : List Declaration) :
    Option (List Declaration) :=
  match declarations.getLast? with
  | some (.code sec) =>
      let extended := { sec with instructions := sec.instructions ++ [instruction] }
      some (declarations.dropLast ++ [.code extended])
  | _ => none

/-- Adds an instruction to the section that it stands in. -/
def perform (instruction : Instruction) : Production Unit := do
  match extendLast? instruction (← get).declarations with
  | some declarations => modify fun reading => { reading with declarations }
  | none => throw (.outsideSection instruction)

/-- Reads an instruction that begins with the given word. The mnemonic gets the spelling of the
instruction set. It must stand in a section, which is looked at last. -/
def instruction (word : String) (line : Nat) : Production Unit :=
  match Operation.find? word with
  | none => throw (.unknownMnemonic word)
  | some operation => do
      let argument ← argument line
      endOfLine line
      liftExcept (checkArgument operation argument)
      perform { mnemonic := operation.mnemonic, argument, line }

def statement (first : Token) : Production Unit :=
  match first.lexeme with
  | .sectionKeyword => sectionHeader first.line
  | .nativeKeyword => nativeDeclaration first.line
  | .word word => instruction word first.line
  | .number literal => throw (.strayLiteral literal.text)

def skipLine (line : Nat) (reading : Reading) : Reading :=
  { reading with tokens := reading.tokens.dropWhile (·.line = line) }

/-- Reads a line from its first token on, which has been taken. A fault is counted, and what is left
of the line is skipped. -/
def turn (first : Token) (reading : Reading) : Option LineFault × Reading :=
  match (statement first).run.run reading with
  | (.ok (), after) => (none, after)
  | (.error cause, after) =>
      let counted := { after with faults := after.faults + 1 }
      (some { line := first.line, cause }, counted.skipLine first.line)

section Run

variable {α β : Type} (reading : Reading)

theorem run_get : (get : Production Reading).run.run reading = (.ok reading, reading) :=
  rfl

theorem run_modifyGet (f : Reading → α × Reading) :
    (modifyGet f : Production α).run.run reading = (.ok (f reading).1, (f reading).2) :=
  rfl

theorem run_liftExcept (outcome : Except LineFault.Cause α) :
    (liftExcept outcome : Production α).run.run reading = (outcome, reading) := by
  cases outcome <;> rfl

theorem run_attempt (production : Production α) :
    (attempt production).run.run reading =
      (.ok (production.run.run reading).1, (production.run.run reading).2) :=
  rfl

theorem run_bind (production : Production α) (next : α → Production β) :
    (production >>= next).run.run reading =
      match production.run.run reading with
      | (.ok a, after) => (next a).run.run after
      | (.error cause, after) => (.error cause, after) := by
  rw [ExceptT.run_bind, StateT.run_bind]
  change (match production.run.run reading with | (_, _) => _ : Except _ β × Reading) = _
  rcases production.run.run reading with ⟨_ | a, after⟩ <;> rfl

theorem run_takeOn (line : Nat) :
    (takeOn line).run.run reading =
      match reading.tokens with
      | [] => (.ok none, reading)
      | token :: tokens =>
          if token.line = line then (.ok (some token.lexeme), { reading with tokens })
          else (.ok none, reading) := by
  rw [takeOn, run_modifyGet]
  cases reading.tokens with
  | nil => rfl
  | cons token tokens =>
      dsimp only
      split <;> rfl

theorem run_endOfLine (line : Nat) :
    (endOfLine line).run.run reading =
      match reading.tokens with
      | [] => (.ok (), reading)
      | token :: _ =>
          if token.line = line then (.error .trailingToken, reading) else (.ok (), reading) := by
  rw [endOfLine, run_bind, run_get]
  rcases reading with ⟨_ | ⟨token, tokens⟩, declarations, faults⟩
  · rfl
  · dsimp only
    split <;> rfl

end Run

/-- A production takes tokens from the front, if it takes any. -/
def Consumes {α : Type} (production : Production α) : Prop :=
  ∀ reading, (production.run.run reading).2.tokens <:+ reading.tokens

namespace Consumes

variable {α β : Type}

theorem of_pure (a : α) : Consumes (pure a : Production α) :=
  fun _ => List.suffix_rfl

theorem of_throw (cause : LineFault.Cause) : Consumes (throw cause : Production α) :=
  fun _ => List.suffix_rfl

theorem of_liftExcept (outcome : Except LineFault.Cause α) :
    Consumes (liftExcept outcome : Production α) := by
  intro reading
  simp [run_liftExcept]

theorem attempt {production : Production α} (h : Consumes production) :
    Consumes (attempt production) :=
  h

theorem bind {production : Production α} {next : α → Production β} (h : Consumes production)
    (hnext : ∀ a, Consumes (next a)) : Consumes (production >>= next) := by
  intro reading
  have hfirst := h reading
  rw [run_bind]
  split
  · next a after hrun =>
    rw [hrun] at hfirst
    exact (hnext a after).trans hfirst
  · next cause after hrun =>
    rw [hrun] at hfirst
    exact hfirst

theorem takeOn (line : Nat) : Consumes (takeOn line) := by
  intro reading
  rw [run_takeOn]
  split
  · exact List.suffix_rfl
  · next token tokens htokens =>
    split
    · rw [htokens]
      exact List.suffix_cons token tokens
    · exact List.suffix_rfl

theorem label (line : Nat) : Consumes (label line) := by
  refine (takeOn line).bind fun lexeme? => ?_
  split
  · exact of_pure _
  all_goals exact of_throw _

theorem identifier (line : Nat) : Consumes (identifier line) := by
  refine (takeOn line).bind fun lexeme? => ?_
  split
  · exact of_liftExcept _
  all_goals exact of_throw _

theorem argument (line : Nat) : Consumes (argument line) := by
  refine (takeOn line).bind fun lexeme? => ?_
  split
  · exact of_pure _
  · exact of_pure _
  · exact of_throw _
  · exact of_pure _

theorem endOfLine (line : Nat) : Consumes (endOfLine line) := by
  intro reading
  rw [run_endOfLine]
  split
  · exact List.suffix_rfl
  · split <;> exact List.suffix_rfl

theorem sectionHeader (line : Nat) : Consumes (sectionHeader line) := by
  refine (label line).attempt.bind fun name => ?_
  refine bind (fun _ => List.suffix_rfl) fun _ => ?_
  exact (of_liftExcept name).bind fun _ => endOfLine line

theorem nativeDeclaration (line : Nat) : Consumes (nativeDeclaration line) := by
  refine (label line).bind fun name => (identifier line).bind fun number => ?_
  exact (endOfLine line).bind fun _ _ => List.suffix_rfl

theorem perform (instruction : Instruction) : Consumes (perform instruction) := by
  intro reading
  rw [Reading.perform, run_bind, run_get]
  dsimp only
  split <;> exact List.suffix_rfl

theorem instruction (word : String) (line : Nat) : Consumes (instruction word line) := by
  rw [Reading.instruction]
  split
  · exact of_throw _
  · refine (argument line).bind fun argument => (endOfLine line).bind fun _ => ?_
    exact (of_liftExcept _).bind fun _ => perform _

theorem statement (first : Token) : Consumes (statement first) := by
  rw [Reading.statement]
  split
  · exact sectionHeader _
  · exact nativeDeclaration _
  · exact instruction _ _
  · exact of_throw _

end Consumes

theorem tokens_turn_suffix (first : Token) (reading : Reading) :
    (turn first reading).2.tokens <:+ reading.tokens := by
  have hconsumes := Consumes.statement first reading
  rw [turn]
  split
  · next after hrun =>
    rw [hrun] at hconsumes
    exact hconsumes
  · next cause after hrun =>
    rw [hrun] at hconsumes
    exact (List.dropWhile_suffix _).trans hconsumes

/-- The end of the tokens: the program, unless some of its lines were faulty. -/
def finish (reading : Reading) : Report Fault Program :=
  if 0 < reading.faults then do
    Report.log (.readingStopped reading.faults)
    .fail (.malformedLines reading.faults)
  else return { declarations := reading.declarations }

def run (reading : Reading) : Report Fault Program :=
  match reading with
  | { tokens := [], .. } => reading.finish
  | { tokens := first :: tokens, declarations, faults } =>
      let outcome := turn first { tokens, declarations, faults }
      match outcome.1 with
      | none => outcome.2.run
      | some fault => do
          Report.log (.lineFault fault)
          outcome.2.run
termination_by reading.tokens.length
decreasing_by
  all_goals exact Nat.lt_succ_of_le (tokens_turn_suffix first _).length_le

def start (tokens : List Token) : Reading :=
  { tokens, declarations := [], faults := 0 }

def ofTokens (tokens : List Token) : Report Fault Program :=
  (start tokens).run

end Reading

namespace Program

def ofTokens (tokens : List Token) : Except Fault Program :=
  (Reading.ofTokens tokens).result

end Program

end StackAsm
