import StackAsm.Reading

namespace StackAsm

/-- What a well-formed line says. -/
inductive Statement where
  | openSection (name : String)
  | declareNative (name : String) (identifier : UInt32)
  | perform (mnemonic : String) (argument : Option Argument)
  deriving DecidableEq, Repr

/-- The lexemes of neighbouring tokens on one line. There is at least one. -/
structure Run where
  line : Nat
  first : Lexeme
  rest : List Lexeme
  deriving DecidableEq, Repr

namespace Run

/-- A run from its tokens, which are all on one line. -/
def ofTokens? : List Token → Option Run
  | [] => none
  | token :: tokens =>
      some { line := token.line, first := token.lexeme, rest := tokens.map Token.lexeme }

/-- Splits tokens into the longest runs of equal line. -/
def all (tokens : List Token) : List Run :=
  (tokens.splitBy fun a b => a.line == b.line).filterMap ofTokens?

/-- The name that a declaration gives, and what follows it. -/
def label : List Lexeme → Except LineFault.Cause (String × List Lexeme)
  | .word name :: rest => .ok (name, rest)
  | .number literal :: _ => .error (.literalForLabel literal.text)
  | _ :: _ => .error .keywordForLabel
  | [] => .error .missingLabel

/-- The number of a native routine, and what follows it. -/
def identifier : List Lexeme → Except LineFault.Cause (UInt32 × List Lexeme)
  | .number { kind := .hex, text } :: rest =>
      (Reading.identifierOf text).map fun number => (number, rest)
  | _ :: _ => .error .identifierNotHex
  | [] => .error .missingIdentifier

/-- The argument of an instruction, if there is one, and what follows it. -/
def argument : List Lexeme → Except LineFault.Cause (Option Argument × List Lexeme)
  | .word name :: rest => .ok (some (.symbol name), rest)
  | .number literal :: rest => .ok (some (.literal literal), rest)
  | _ :: _ => .error .keywordForArgument
  | [] => .ok (none, [])

def finish : List Lexeme → Except LineFault.Cause Unit
  | [] => .ok ()
  | _ :: _ => .error .trailingToken

/-- A section header behind its keyword. -/
def sectionHeader (rest : List Lexeme) : Except LineFault.Cause Statement := do
  let (name, rest) ← label rest
  finish rest
  return .openSection name

/-- The declaration of a native routine behind its keyword. -/
def nativeDeclaration (rest : List Lexeme) : Except LineFault.Cause Statement := do
  let (name, rest) ← label rest
  let (number, rest) ← identifier rest
  finish rest
  return .declareNative name number

/-- An instruction that begins with the given word. -/
def instruction (inSection : Bool) (line : Nat) (word : String) (rest : List Lexeme) :
    Except LineFault.Cause Statement :=
  match Operation.find? word with
  | none => .error (.unknownMnemonic word)
  | some operation => do
      let (argument, rest) ← argument rest
      finish rest
      Reading.checkArgument operation argument
      if inSection then return .perform operation.mnemonic argument
      else .error (.outsideSection { mnemonic := operation.mnemonic, argument, line })

def statement (inSection : Bool) (run : Run) : Except LineFault.Cause Statement :=
  match run.first with
  | .sectionKeyword => sectionHeader run.rest
  | .nativeKeyword => nativeDeclaration run.rest
  | .word word => instruction inSection run.line word run.rest
  | .number literal => .error (.strayLiteral literal.text)

/-- Whether instructions may follow. Only a well-formed native declaration closes a section. -/
def leavesSectionOpen (inSection : Bool) (run : Run) : Bool :=
  match run.first with
  | .sectionKeyword => true
  | .nativeKeyword => inSection && (nativeDeclaration run.rest).toOption.isNone
  | _ => inSection

end Run

/-- Runs as statements or faults. -/
structure Judgements where
  outcomes : List (Except LineFault (Nat × Statement))

namespace Judgements

/-- Judges runs one after the other. The flag says whether they begin within a section. -/
def ofRuns (inSection : Bool) : List Run → List (Except LineFault (Nat × Statement))
  | [] => []
  | run :: runs =>
      (match run.statement inSection with
        | .ok statement => .ok (run.line, statement)
        | .error cause => .error { line := run.line, cause }) ::
      ofRuns (run.leavesSectionOpen inSection) runs

/-- Judges the runs of tokens. They begin outside of any section. -/
def ofTokens (tokens : List Token) : Judgements :=
  { outcomes := ofRuns false (Run.all tokens) }

/-- The faults in the order of the runs. -/
def faults (judgements : Judgements) : List LineFault :=
  judgements.outcomes.filterMap fun outcome =>
    match outcome with
    | .ok _ => none
    | .error fault => some fault

/-- The statements of the well-formed runs, each with its line. -/
def statements (judgements : Judgements) : List (Nat × Statement) :=
  judgements.outcomes.filterMap Except.toOption

@[simp]
theorem faults_cons_ok (statement : Nat × Statement)
    (outcomes : List (Except LineFault (Nat × Statement))) :
    (mk (.ok statement :: outcomes)).faults = (mk outcomes).faults :=
  rfl

@[simp]
theorem faults_cons_error (fault : LineFault)
    (outcomes : List (Except LineFault (Nat × Statement))) :
    (mk (.error fault :: outcomes)).faults = fault :: (mk outcomes).faults :=
  rfl

/-- Puts a statement in front of a program's text, of which the instructions before the first
declaration are kept apart until their section is known. -/
def gather (statement : Nat × Statement) (following : List Instruction × List Declaration) :
    List Instruction × List Declaration :=
  match statement with
  | (line, .perform mnemonic argument) => ({ mnemonic, argument, line } :: following.1, following.2)
  | (line, .openSection name) =>
      ([], .code { name, instructions := following.1, line } :: following.2)
  | (line, .declareNative name identifier) =>
      ([], .native { name, identifier, line } :: following.2)

/-- The declarations that statements make up: a section has the instructions up to the next
declaration. -/
def declarations (statements : List (Nat × Statement)) : List Declaration :=
  (statements.foldr gather ([], [])).2

/-- The program, if every run is a statement. -/
def result (judgements : Judgements) : Except Fault Program :=
  if judgements.faults.isEmpty then .ok { declarations := declarations judgements.statements }
  else .error (.malformedLines judgements.faults.length)

/-- What is logged: each fault, and a summary if there is one. -/
def events (judgements : Judgements) : List Event :=
  judgements.faults.map Event.lineFault ++
    if judgements.faults.isEmpty then [] else [.readingStopped judgements.faults.length]

end Judgements

end StackAsm
