import StackAsm.Text.Lines

/-!
Command line arguments: switches with or without a value, and one operand. Arguments are bytes, and
what they stand for need not be a text.

A program leaves the reading of its command line to a parser, which may end the program itself. The
parser here goes by these rules. A switch is written as a dash and its letter, or as two dashes and
its name. Letters may be joined behind one dash. The value of a switch follows its letter directly,
follows an equals sign, or is the next argument, provided that does not look like a switch. A value
may be left out only where the switch has a fallback. All arguments behind `--` are operands.
-/

namespace StackAsm

/-- A switch of a command line. -/
structure Switch (κ : Type) where
  key : κ
  letter : Option Char
  names : List String
  takesValue : Bool
  repeats : Bool
  /-- The value that stands in where the command line gives none. -/
  fallback? : Option (List UInt8)

namespace Switch

variable {κ : Type}

/-- A switch without a value. -/
def flag (key : κ) (letter : Option Char) (names : List String) : Switch κ :=
  { key, letter, names, takesValue := false, repeats := false, fallback? := none }

def valued (key : κ) (letter : Option Char) (names : List String) : Switch κ :=
  { key, letter, names, takesValue := true, repeats := false, fallback? := none }

/-- The same switch, which may be given any number of times. -/
def repeatable (switch : Switch κ) : Switch κ :=
  { switch with repeats := true }

/-- The same switch with a value that may stand in. -/
def withFallback (switch : Switch κ) (fallback? : Option (List UInt8)) : Switch κ :=
  { switch with fallback? }

def hasLetter (switch : Switch κ) (byte : UInt8) : Bool :=
  switch.letter.map Char.toUInt8 == some byte

def hasName (switch : Switch κ) (name : List UInt8) : Bool :=
  (switch.names.map Text.encode).contains name

end Switch

/-- A switch that was given, with its value if it takes one and that was not left out. -/
structure Occurrence (κ : Type) where
  key : κ
  value? : Option (List UInt8)
  deriving DecidableEq, Repr

/-- A command line in its parts. -/
structure CommandLine (κ : Type) where
  occurrences : List (Occurrence κ)
  operand : List UInt8
  deriving DecidableEq, Repr

namespace CommandLine

variable {κ : Type}

section Parts

variable [DecidableEq κ]

def count (line : CommandLine κ) (key : κ) : Nat :=
  line.occurrences.countP (·.key = key)

def has (line : CommandLine κ) (key : κ) : Bool :=
  line.occurrences.any (·.key = key)

def value? (line : CommandLine κ) (key : κ) : Option (List UInt8) :=
  line.occurrences.findSome? fun given => if given.key = key then given.value? else none

/-- The value of a switch as a text, if there is a value. It fails if that is not a text. -/
def text? (line : CommandLine κ) (key : κ) : Option (Option String) :=
  match line.value? key with
  | none => some none
  | some bytes => (Text.decode? bytes).map some

end Parts

/-- What a parser makes of the arguments of a program. -/
inductive Verdict (κ : Type) where
  | accepted (line : CommandLine κ)
  /-- The parser has ended the program with an exit code, since the arguments are wrong or ask for
  nothing but help. What it prints then is left out. -/
  | ended (code : Nat)
  deriving DecidableEq, Repr

/-- A parser of command lines. -/
abbrev Parser (κ : Type) : Type :=
  List (List UInt8) → Verdict κ

/-- A parser takes a single argument that begins with a slash for the operand. -/
def Parser.TakesPath (parser : Parser κ) : Prop :=
  ∀ path, path.head? = some 0x2F → parser [path] = .accepted { occurrences := [], operand := path }

/-! ### The parser -/

/-- The exit code of a program whose arguments are wrong. -/
def misuse : Nat := 1

/-- The letters and the names by which every program is asked for help or for its version. -/
def helpLetters : List Char := ['h', 'V']

@[inherit_doc helpLetters]
def helpNames : List String := ["help", "version"]

/-- Switches that were given, and the one among them whose value is still to come. -/
structure Group (κ : Type) where
  occurrences : List (Occurrence κ)
  pending : Option κ

/-- A single switch that was given in full. -/
def Group.single (key : κ) (value? : Option (List UInt8)) : Group κ :=
  { occurrences := [{ key, value? }], pending := none }

/-- A switch whose value is still to come. -/
def Group.awaiting (key : κ) : Group κ :=
  { occurrences := [], pending := some key }

/-- A value without the equals signs at its beginning. -/
def valueOf (bytes : List UInt8) : List UInt8 :=
  bytes.dropWhile (· == 0x3D)

/-- Reads the letters behind a single dash. Those behind the letter of a switch with a value are
its value. -/
def readLetters (switches : List (Switch κ)) : List UInt8 → Except Nat (Group κ)
  | [] => .ok { occurrences := [], pending := none }
  | byte :: bytes =>
      if (helpLetters.map Char.toUInt8).contains byte then .error 0
      else
        match switches.find? (·.hasLetter byte) with
        | none => .error misuse
        | some switch =>
            if switch.takesValue then
              if bytes.isEmpty then .ok (.awaiting switch.key)
              else .ok (.single switch.key (some (valueOf bytes)))
            else
              let given : Occurrence κ := { key := switch.key, value? := none }
              (readLetters switches bytes).map fun group =>
                { group with occurrences := given :: group.occurrences }

/-- Reads the name behind two dashes, of which any more are dropped. What follows an equals sign
is the value, and without effect if the switch takes none. -/
def readName (switches : List (Switch κ)) (bytes : List UInt8) : Except Nat (Group κ) :=
  let body := bytes.dropWhile (· == 0x2D)
  let name := body.takeWhile (· != 0x3D)
  let rest := body.dropWhile (· != 0x3D)
  if (helpNames.map Text.encode).contains name then .error 0
  else
    match switches.find? (·.hasName name) with
    | none => .error misuse
    | some switch =>
        if !switch.takesValue then .ok (.single switch.key none)
        else if rest.isEmpty then .ok (.awaiting switch.key)
        else .ok (.single switch.key (some (valueOf rest)))

/-- Reads the switches that an argument holds, if it looks like a switch. A single dash does not. -/
def readGroup? (switches : List (Switch κ)) : List UInt8 → Option (Except Nat (Group κ))
  | 0x2D :: 0x2D :: bytes => some (readName switches bytes)
  | 0x2D :: byte :: bytes => some (readLetters switches (byte :: bytes))
  | _ => none

/-- A switch whose value never came. -/
def unfilled (pending : Option κ) : List (Occurrence κ) :=
  pending.toList.map fun key => { key, value? := none }

/-- The switches that were given, and the operands. -/
structure Division (κ : Type) where
  occurrences : List (Occurrence κ)
  operands : List (List UInt8)

/-- Divides arguments into switches and operands, where a switch may be waiting for its value. It
fails with an exit code. -/
def divide (switches : List (Switch κ)) (pending : Option κ) :
    List (List UInt8) → Except Nat (Division κ)
  | [] => .ok { occurrences := unfilled pending, operands := [] }
  | argument :: arguments =>
      if argument = [0x2D, 0x2D] then
        .ok { occurrences := unfilled pending, operands := arguments }
      else
        match readGroup? switches argument, pending with
        | some (.error code), _ => .error code
        | some (.ok group), _ =>
            (divide switches group.pending arguments).map fun division =>
              { division with
                occurrences := unfilled pending ++ group.occurrences ++ division.occurrences }
        | none, some key =>
            (divide switches none arguments).map fun division =>
              { division with
                occurrences := { key, value? := some argument } :: division.occurrences }
        | none, none =>
            (divide switches none arguments).map fun division =>
              { division with operands := argument :: division.operands }

variable [DecidableEq κ]

/-- The values that stand in for those that were not given. -/
def fallbacks (switches : List (Switch κ)) : List (Occurrence κ) :=
  switches.filterMap fun switch =>
    switch.fallback?.map fun value => { key := switch.key, value? := some value }

/-- Whether only switches that may be repeated were given more than once, and no value is missing.
-/
def respects (switches : List (Switch κ)) (given : CommandLine κ) : Bool :=
  switches.all fun switch =>
    (switch.repeats || given.count switch.key ≤ 1) &&
      (!switch.takesValue || !given.has switch.key || (given.value? switch.key).isSome ||
        switch.fallback?.isSome)

/-- Reads a command line with exactly one operand. -/
def read (switches : List (Switch κ)) : Parser κ := fun arguments =>
  match divide switches none arguments with
  | .error code => .ended code
  | .ok division =>
      match division.operands with
      | [operand] =>
          let given : CommandLine κ := { occurrences := division.occurrences, operand }
          if respects switches given then
            .accepted { given with occurrences := given.occurrences ++ fallbacks switches }
          else .ended misuse
      | _ => .ended misuse

end CommandLine

end StackAsm
