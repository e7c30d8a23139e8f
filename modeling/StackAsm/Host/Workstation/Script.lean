/-!
Scripts: the commands of a shell as syntax trees, and how they are read from a text.

Reading takes one line of commands at a time, as far as compound commands let a line end, so that
a script runs up to the line in which its grammar is broken. The amount of fuel that reading gets
grows with the text and is never used up.
-/

namespace StackAsm.Shell

inductive Part where
  | char (c : Char) (quoted : Bool)
  /-- Quotes with nothing in them, which still make a word. -/
  | emptyQuotes
  /-- The value of a parameter, to which an operator may do something. -/
  | parameter (name operator : String) (operand : List Part) (quoted : Bool)
  | output (script : String) (quoted : Bool)
  deriving Inhabited

abbrev Word : Type :=
  List Part

/-- What a redirection does with a descriptor. -/
inductive RedirectionKind where
  | input
  | output
  | append
  /-- Makes it the same as another descriptor, or closes it. -/
  | duplicate
  deriving DecidableEq, Repr

/-- A redirection, with the word that it is followed by. -/
structure Redirection where
  descriptor : Nat
  kind : RedirectionKind
  target : Word

inductive Command where
  /-- Assignments, a command name and arguments, all of which may be missing. -/
  | simple (assignments : List (String × Word)) (words : List Word)
      (redirections : List Redirection)
  | sequence (commands : List Command)
  | andThen (first second : Command)
  | orElse (first second : Command)
  | negation (command : Command)
  | pipeline (commands : List Command)
  | subshell (body : Command)
  | redirected (body : Command) (redirections : List Redirection)
  | conditional (test yes no : Command)
  /-- Repeats its body while the test succeeds, or until it does. -/
  | loop (untilSuccess : Bool) (test body : Command)
  | each (name : String) (words : List Word) (body : Command)
  deriving Inhabited

def endsWord (c : Char) : Bool :=
  " \t\n;&|<>()".toList.contains c

def inName (c : Char) : Bool :=
  c.isAlphanum || c == '_'

def takeName (cs : List Char) : List Char × List Char :=
  if cs.head?.any Char.isDigit then ([], cs) else cs.span inName

/-- Takes the name of a parameter off the beginning of a text. Outside of braces only one digit is
part of it. -/
def takeParameter (braces : Bool) (cs : List Char) : List Char × List Char :=
  match cs with
  | [] => ([], [])
  | c :: rest =>
      if "?$#-@*".toList.contains c then ([c], rest)
      else if c.isDigit then if braces then cs.span Char.isDigit else ([c], rest)
      else takeName cs

/-- The operators on the values of parameters, of which the first that fits is read. -/
def parameterOperators : List String :=
  [":-", ":+", ":=", "-", "+", "=", "##", "#", "%%", "%"]

/-- Takes a script up to the parenthesis that closes it. The state is how many more parentheses are
open, and the quotes that are. -/
def takeScript : Nat → Option Char → List Char → Option (List Char × List Char)
  | _, _, [] | _, _, ['\\'] => none
  | depth, quote, '\\' :: c :: rest =>
      (takeScript depth quote rest).map fun (read, rest) => ('\\' :: c :: read, rest)
  | depth, some quote, c :: rest =>
      (takeScript depth (if c = quote then none else some quote) rest).map fun (read, rest) =>
        (c :: read, rest)
  | depth, none, c :: rest =>
      if c = ')' ∧ depth = 0 then some ([], rest)
      else
        let quote := if c = '\'' ∨ c = '"' then some c else none
        let depth := if c = '(' then depth + 1 else if c = ')' then depth - 1 else depth
        (takeScript depth quote rest).map fun (read, rest) => (c :: read, rest)

/-- What a part of a word is enclosed by. -/
inductive Enclosure where
  | nothing
  | doubleQuotes
  /-- Braces behind a dollar sign, and whether they stand in double quotes. -/
  | braces (quoted : Bool)
  deriving DecidableEq, Repr

/-- Whether characters are quoted in an enclosure. -/
def Enclosure.quotes : Enclosure → Bool
  | nothing => false
  | doubleQuotes => true
  | braces quoted => quoted

mutual

/-- Reads parts up to the end of what encloses them. -/
def readParts : Nat → Enclosure → List Char → Option (List Part × List Char)
  | 0, _, _ => none
  | _ + 1, .nothing, [] => some ([], [])
  | _ + 1, _, [] => none
  | fuel + 1, enclosure, c :: rest =>
      if enclosure = .nothing ∧ endsWord c then some ([], c :: rest)
      else if enclosure = .doubleQuotes ∧ c = '"' then some ([], rest)
      else if enclosure ≠ .nothing ∧ enclosure ≠ .doubleQuotes ∧ c = '\x7d' then some ([], rest)
      else do
        let (first, rest) ← readPart fuel enclosure c rest
        let (others, rest) ← readParts fuel enclosure rest
        return (first ++ others, rest)

/-- Reads a part that begins with a character. -/
def readPart : Nat → Enclosure → Char → List Char → Option (List Part × List Char)
  | 0, _, _, _ => none
  | fuel + 1, enclosure, c, rest =>
      let quoted := enclosure.quotes
      match c, rest with
      | '\\', '\n' :: rest => some ([], rest)
      | '\\', d :: rest =>
          if !quoted || "$\\\"\x60".toList.contains d then some ([.char d true], rest)
          else some ([.char '\\' true, .char d true], rest)
      | '\'', rest =>
          if quoted then some ([.char '\'' true], rest)
          else
            let (body, rest) := rest.span (· != '\'')
            if rest.isEmpty then none
            else
              some (if body.isEmpty then [.emptyQuotes] else body.map (.char · true), rest.drop 1)
      | '"', rest => do
          let (body, rest) ← readParts fuel .doubleQuotes rest
          return (if body.isEmpty then [.emptyQuotes] else body, rest)
      | '\x60', rest =>
          let (body, rest) := rest.span (· != '\x60')
          if rest.isEmpty then none
          else some ([.output (String.ofList body) quoted], rest.drop 1)
      | '$', '(' :: rest =>
          (takeScript 0 none rest).map fun (script, rest) =>
            ([.output (String.ofList script) quoted], rest)
      | '$', '\x7b' :: rest =>
          let (name, rest) := takeParameter true rest
          match parameterOperators.find? (·.toList.isPrefixOf rest) with
          | some operator => do
              -- the quotes around the whole do not quote a pattern in it
              let inner := quoted && !(operator.startsWith "#" || operator.startsWith "%")
              let (operand, rest) ← readParts fuel (.braces inner) (rest.drop operator.length)
              return ([.parameter (String.ofList name) operator operand quoted], rest)
          | none =>
              match rest, takeParameter true rest with
              | '\x7d' :: rest, _ => some ([.parameter (String.ofList name) "" [] quoted], rest)
              | _, (measured, '\x7d' :: rest) =>
                  if name = ['#'] then
                    some ([.parameter (String.ofList measured) "length" [] quoted], rest)
                  else none
              | _, _ => none
      | '$', rest =>
          match takeParameter false rest with
          | ([], rest) => some ([.char '$' quoted], rest)
          | (name, rest) => some ([.parameter (String.ofList name) "" [] quoted], rest)
      | c, rest => some ([.char c quoted], rest)

end

/-- Reads from a text, or fails where it breaks the grammar. -/
abbrev Reader (α : Type) : Type :=
  StateT (List Char) Option α

namespace Reader

/-- The text behind blanks and a comment. -/
def behindBlanks : List Char → List Char
  | '\\' :: '\n' :: cs => behindBlanks cs
  | ' ' :: cs | '\t' :: cs => behindBlanks cs
  | '#' :: cs => cs.dropWhile (· != '\n')
  | cs => cs

/-- The operators, of which the first that fits is read. -/
def operators : List String :=
  ["&&", "||", ">>", "<&", ">&", "<", ">", "|", "&", ";", "(", ")", "\n"]

/-- The operator or the beginning of a word that comes next. It is empty at the end. -/
def next : Reader String := do
  modify behindBlanks
  let cs ← get
  match operators.find? (·.toList.isPrefixOf cs) with
  | some operator => return operator
  | none => return String.ofList (cs.takeWhile (!endsWord ·))

/-- Whether the given text comes next, which is then left out. -/
def accept (text : String) : Reader Bool := do
  if (← next) = text then
    modify (·.drop text.length)
    return true
  else return false

/-- Leaves out a text that has to come next. -/
def expect (text : String) : Reader Unit := do
  unless ← accept text do
    failure

def skipLineEnds : Reader Unit := do
  for _ in ← get do
    let _ ← accept "\n"

/-- Takes a word, which is empty if none comes next. -/
def word : Reader Word := do
  modify behindBlanks
  let cs ← get
  let (parts, rest) ← readParts (2 * cs.length + 2) .nothing cs
  set rest
  return parts

def redirectionOperators : List (String × Nat × RedirectionKind) :=
  [ (">>", 1, .append), ("<&", 0, .duplicate), (">&", 1, .duplicate), ("<", 0, .input),
    (">", 1, .output) ]

def redirection? : Reader (Option Redirection) := do
  modify behindBlanks
  let (digits, rest) := (← get).span Char.isDigit
  match redirectionOperators.find? (·.1.toList.isPrefixOf rest) with
  | none => return none
  | some (operator, usual, kind) =>
      set (rest.drop operator.length)
      let target ← word
      if target.isEmpty then failure
      let descriptor := (String.ofList digits).toNat?.getD usual
      return some { descriptor, kind, target }

def redirections : Nat → Reader (List Redirection)
  | 0 => failure
  | fuel + 1 => do
      match ← redirection? with
      | none => return []
      | some redirection => return redirection :: (← redirections fuel)

def assignment? : Reader (Option (String × Word)) := do
  modify behindBlanks
  match takeName (← get) with
  | (c :: name, '=' :: rest) =>
      set rest
      if rest.head?.all endsWord then return some (String.ofList (c :: name), [])
      return some (String.ofList (c :: name), ← word)
  | _ => return none

def simpleRest : Nat → List (String × Word) → List Word → List Redirection → Reader Command
  | 0, _, _, _ => failure
  | fuel + 1, assignments, words, redirections => do
      match ← redirection? with
      | some redirection => simpleRest fuel assignments words (redirections ++ [redirection])
      | none =>
          match ← if words.isEmpty then assignment? else pure none with
          | some assignment => simpleRest fuel (assignments ++ [assignment]) words redirections
          | none =>
              if (← get).head?.all endsWord then
                if assignments.isEmpty && words.isEmpty && redirections.isEmpty then failure
                return .simple assignments words redirections
              else simpleRest fuel assignments (words ++ [← word]) redirections

/-- The words that end a list of commands, where a command might begin. -/
def closingWords : List String :=
  ["then", "else", "elif", "fi", "do", "done", "\x7d"]

/-- Takes words up to the end of a line or a semicolon. -/
def words : Nat → Reader (List Word)
  | 0 => failure
  | fuel + 1 => do
      if ← accept ";" then return []
      if ← accept "\n" then return []
      match ← word with
      | [] => failure
      | first => return first :: (← words fuel)

mutual

/-- Takes a list of commands, which must not be empty, over several lines. -/
def commands : Nat → Reader (List Command)
  | 0 => failure
  | fuel + 1 => do
      skipLineEnds
      let first ← andOr fuel
      let parted := (← accept ";") || (← accept "\n")
      skipLineEnds
      let following ← next
      if !parted || ["", ")"].contains following || closingWords.contains following then
        return [first]
      else return first :: (← commands fuel)

/-- Takes a pipeline and those that depend on its success. -/
def andOr : Nat → Reader Command
  | 0 => failure
  | fuel + 1 => do andOrRest fuel (← pipeline fuel)

/-- Takes the pipelines behind a command that depend on its success. -/
def andOrRest : Nat → Command → Reader Command
  | 0, _ => failure
  | fuel + 1, first => do
      if ← accept "&&" then
        skipLineEnds
        andOrRest fuel (.andThen first (← pipeline fuel))
      else if ← accept "||" then
        skipLineEnds
        andOrRest fuel (.orElse first (← pipeline fuel))
      else return first

/-- Takes a pipeline, which may be negated. -/
def pipeline : Nat → Reader Command
  | 0 => failure
  | fuel + 1 => do
      if ← accept "!" then return .negation (← pipeline fuel)
      match ← piped fuel with
      | [single] => return single
      | several => return .pipeline several

def piped : Nat → Reader (List Command)
  | 0 => failure
  | fuel + 1 => do
      let first ← command fuel
      if ← accept "|" then
        skipLineEnds
        return first :: (← piped fuel)
      else return [first]

def conditionalRest : Nat → Reader Command
  | 0 => failure
  | fuel + 1 => do
      let test := Command.sequence (← commands fuel)
      expect "then"
      let yes := Command.sequence (← commands fuel)
      if ← accept "elif" then return .conditional test yes (← conditionalRest fuel)
      let no ← if ← accept "else" then commands fuel else pure []
      expect "fi"
      return .conditional test yes (.sequence no)

def loopBody : Nat → Reader Command
  | 0 => failure
  | fuel + 1 => do
      skipLineEnds
      expect "do"
      let body ← commands fuel
      expect "done"
      return .sequence body

def command : Nat → Reader Command
  | 0 => failure
  | fuel + 1 => do
      let opening ← next
      if closingWords.contains opening then failure
      let compound : Option (Reader Command) :=
        match opening with
        | "(" => some do
            let body ← commands fuel
            expect ")"
            return .subshell (.sequence body)
        | "\x7b" => some do
            let body ← commands fuel
            expect "\x7d"
            return .sequence body
        | "if" => some (conditionalRest fuel)
        | "while" => some do
            let test := Command.sequence (← commands fuel)
            return .loop false test (← loopBody fuel)
        | "until" => some do
            let test := Command.sequence (← commands fuel)
            return .loop true test (← loopBody fuel)
        | "for" => some do
            let name ← next
            expect name
            expect "in"
            return .each name (← words fuel) (← loopBody fuel)
        | _ => none
      match compound with
      | none => simpleRest fuel [] [] []
      | some rest =>
          expect opening
          let body ← rest
          match ← redirections fuel with
          | [] => return body
          | redirections => return .redirected body redirections

end

def line : Nat → Reader (List Command)
  | 0 => failure
  | fuel + 1 => do
      let first ← andOr fuel
      let parted ← accept ";"
      let ended ← accept "\n"
      if ended || (← next).isEmpty then return [first]
      else if parted then return first :: (← line fuel)
      else failure

end Reader

inductive NextLine where
  | none
  | commands (command : Command) (rest : List Char)
  | broken

def nextLine (script : List Char) : NextLine :=
  let fuel := 10 * (script.length + 1)
  let read : Reader (Option Command) := do
    Reader.skipLineEnds
    if (← Reader.next).isEmpty then return Option.none
    return some (.sequence (← Reader.line fuel))
  match read.run script with
  | some (some command, rest) => .commands command rest
  | some (Option.none, _) => .none
  | Option.none => .broken

end StackAsm.Shell
