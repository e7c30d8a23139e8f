import StackAsm.Host.Workstation.Station
import StackAsm.Number.Numeral

/-!
The utilities that the scripts of a workstation use, in their usual forms. What they say about
failures goes to standard error, where nobody looks, so only their exit codes are kept.
-/

namespace StackAsm

/-- A program of a workstation that starts no others. It returns its exit code. -/
abbrev Utility : Type :=
  Call → Activity Nat

namespace Utility

/-- Separates the letters of options, which stand behind a dash, from the operands. There must be
no other letters than the given ones. -/
def options? (letters : String) : List String → Option (List Char × List String)
  | [] => some ([], [])
  | "--" :: operands => some ([], operands)
  | argument :: rest =>
      match argument.toList with
      | '-' :: c :: cs =>
          if (c :: cs).all letters.toList.contains then
            (options? letters rest).map fun (found, operands) => (c :: cs ++ found, operands)
          else none
      | _ => (options? letters rest).map fun (found, operands) => (found, argument :: operands)

/-- A utility with options. It ends with the given code if it is misused. -/
def withOptions (letters : String) (misuse : Nat)
    (act : Call → List Char → List String → Activity Nat) : Utility := fun call =>
  match options? letters call.arguments with
  | none => return misuse
  | some (found, operands) => act call found operands

/-- Deals with operands one after the other, and ends with zero if all goes well. -/
def forOperands (operands : List String) (act : String → Activity Bool) : Activity Nat := do
  let outcomes ← operands.mapM act
  return if outcomes.all id then 0 else 1

def codeOf (succeeded : Bool) : Nat :=
  if succeeded then 0 else 1

def linesText (lines : List String) : String :=
  String.join (lines.map (· ++ "\n"))

def locationText (path : List String) : String :=
  Octets.ofText (FileTree.pathText path)

/-! ### Texts -/

/-- Replaces what is written behind backslashes. -/
def unescaped : List Char → List Char
  | '\\' :: 'n' :: cs => '\n' :: unescaped cs
  | '\\' :: 't' :: cs => '\t' :: unescaped cs
  | '\\' :: '\\' :: cs => '\\' :: unescaped cs
  | c :: cs => c :: unescaped cs
  | [] => []

/-- What `echo` prints of its arguments. That of a shell replaces what is behind backslashes. -/
def echoText (escapes : Bool) (arguments : List String) : String :=
  let (bare, words) :=
    match arguments with
    | "-n" :: words => (true, words)
    | words => (false, words)
  let text := String.intercalate " " words
  (if escapes then String.ofList (unescaped text.toList) else text) ++ if bare then "" else "\n"

/-- A format with arguments filled in, and the arguments that are left. -/
def fillIn : List Char → List String → List Char × List String
  | '%' :: '%' :: cs, arguments =>
      let (text, rest) := fillIn cs arguments
      ('%' :: text, rest)
  | '%' :: c :: cs, arguments =>
      let value := arguments.headD (if c = 'd' then "0" else "")
      let (text, rest) := fillIn cs (arguments.drop 1)
      (value.toList ++ text, rest)
  | c :: cs, arguments =>
      let (text, rest) := fillIn cs arguments
      (c :: text, rest)
  | [], arguments => ([], arguments)

/-- What `printf` prints: its format, as often as there are arguments for it. -/
def formatted (format : List Char) : Nat → List String → List Char
  | 0, _ => []
  | fuel + 1, arguments =>
      let (text, rest) := fillIn format arguments
      text ++
        if rest.isEmpty ∨ rest.length = arguments.length then [] else formatted format fuel rest

def printfText (format : String) (arguments : List String) : String :=
  String.ofList (formatted (unescaped format.toList) (arguments.length + 1) arguments)

def cat : Utility := withOptions "u" 1 fun call _ operands => do
  forOperands (if operands.isEmpty then ["-"] else operands) fun operand => do
    match ← call.readOperand operand with
    | .error _ => return false
    | .ok bytes => call.printBytes bytes

def wordCount (bytes : List UInt8) : Nat :=
  let isSpace (byte : UInt8) : Bool := byte == 32 || (9 ≤ byte && byte ≤ 13)
  let isVisible (byte : UInt8) : Bool := 33 ≤ byte && byte ≤ 126
  ((bytes.splitOnP isSpace).filter (·.any isVisible)).length

/-- Counts lines, words and bytes. Several counts are as wide as the number of all bytes. -/
def wc : Utility := withOptions "lwc" 1 fun call found operands => do
  let given := if operands.isEmpty then ["-"] else operands
  let isWanted (letter : Char) : Bool := found.isEmpty || found.contains letter
  let counts (bytes : List UInt8) : List Nat :=
    (if isWanted 'l' then [bytes.count Text.lineFeed] else []) ++
      (if isWanted 'w' then [wordCount bytes] else []) ++
      if isWanted 'c' then [bytes.length] else []
  let contents ← given.mapM fun operand => do
    return (operand, ← call.readOperand operand)
  let total := contents.flatMap fun (_, content) => content.toOption.getD []
  let width :=
    if given.length = 1 ∧ (counts []).length = 1 then 0
    else if operands.isEmpty then 7
    else (toString total.length).length
  let row (bytes : List UInt8) (name : String) : String :=
    let columns := (counts bytes).map fun count =>
      let digits := toString count
      String.ofList (List.replicate (width - digits.length) ' ') ++ digits
    String.intercalate " " (columns ++ if operands.isEmpty then [] else [name])
  let rows := contents.filterMap fun (operand, content) =>
    content.toOption.map fun bytes => row bytes operand
  let sums := if 1 < operands.length then [row total "total"] else []
  let printed ← call.print (linesText (rows ++ sums))
  return codeOf (printed && contents.all (·.2.toOption.isSome))

def head : Utility := fun call => do
  let (count, operands) :=
    match call.arguments with
    | "-n" :: number :: operands => (number.toNat?.getD 0, operands)
    | operands => (10, operands)
  forOperands (if operands.isEmpty then ["-"] else operands) fun operand => do
    match ← call.readOperand operand with
    | .error _ => return false
    | .ok bytes =>
        let lines := (bytes.splitOn Text.lineFeed).take count
        let whole := lines.length < (bytes.splitOn Text.lineFeed).length
        call.printBytes ([Text.lineFeed].intercalate lines ++ if whole then [Text.lineFeed] else [])

/-- Tells by its exit code whether two files are the same. -/
def cmp : Utility := withOptions "s" 2 fun call _ operands => do
  match operands with
  | [first, second] =>
      match ← call.readOperand first, ← call.readOperand second with
      | .ok a, .ok b => return codeOf (a = b)
      | _, _ => return 2
  | _ => return 2

/-! ### Paths -/

/-- The last name of a path, without the slashes at its end. Of slashes alone one is left. -/
def lastName (path : String) : String :=
  match path.toList.reverse.dropWhile (· == '/') with
  | [] => if path.isEmpty then "" else "/"
  | kept => String.ofList (kept.takeWhile (· != '/')).reverse

/-- The path of the directory that holds an entry. -/
def parentPath (path : String) : String :=
  let kept := path.toList.reverse.dropWhile (· == '/')
  match (kept.dropWhile (· != '/')).dropWhile (· == '/') with
  | [] => if path.startsWith "/" then "/" else "."
  | above => String.ofList above.reverse

def inside (directory name : String) : String :=
  if directory.endsWith "/" then directory ++ name else directory ++ "/" ++ name

/-- Prints the last name of a path, without an ending if one is given. -/
def basename : Utility := withOptions "" 1 fun call _ operands => do
  match operands with
  | [path] => return codeOf (← call.print (lastName path ++ "\n"))
  | [path, ending] =>
      let name := lastName path
      let kept :=
        if name ≠ ending ∧ name.endsWith ending then name.toList.take (name.length - ending.length)
        else name.toList
      return codeOf (← call.print (String.ofList kept ++ "\n"))
  | _ => return 1

/-- Prints the paths of the directories that hold entries. -/
def dirname : Utility := withOptions "" 1 fun call _ operands => do
  if operands.isEmpty then return 1
  return codeOf (← call.print (linesText (operands.map parentPath)))

/-- Lists directories, and names the other operands. -/
def ls : Utility := withOptions "1aAd" 2 fun call found operands => do
  let given := Octets.sorted (if operands.isEmpty then ["."] else operands)
  let listing (operand : String) : Activity (Option (Bool × List String)) := do
    match ← Station.find operand with
    | .error _ => return none
    | .ok (_, .file _ _) => return some (false, [operand])
    | .ok (location, .directory) =>
        let names ← Station.children location
        if found.contains 'd' then return some (false, [operand])
        else if found.contains 'a' then return some (true, "." :: ".." :: names)
        else if found.contains 'A' then return some (true, names)
        else return some (true, names.filter (!·.startsWith "."))
  let listings ← given.mapM fun operand => return (operand, ← listing operand)
  let named := listings.flatMap fun
    | (_, some (false, names)) => names
    | _ => []
  let blocks := listings.filterMap fun
    | (operand, some (true, names)) =>
        some ((if 1 < given.length then operand ++ ":\n" else "") ++ linesText names)
    | _ => none
  let parts := (if named.isEmpty then [] else [linesText named]) ++ blocks
  let printed ← call.print (String.intercalate "\n" parts)
  return if printed && listings.all (·.2.isSome) then 0 else 2

def isSame (first second : String) : Activity Bool := do
  match ← Station.find first, ← Station.find second with
  | .ok (a, _), .ok (b, _) => return a = b
  | _, _ => return false

def copyFile (source target : String) : Activity Bool := do
  if ← isSame source target then return false
  match ← Station.find source with
  | .ok (_, .file content executable) =>
      let known := (← Station.find target).toOption.isSome
      match ← Station.openPath target .writing with
      | .error _ => return false
      | .ok channel =>
          let stored ← Station.writeTo channel content
          match ← Station.find target with
          | .ok (location, .file written _) =>
              unless known do
                modify fun station =>
                  let tree := station.machine.tree.put location (.file written executable)
                  { station with machine := { station.machine with tree } }
              return stored
          | _ => return false
  | _ => return false

def moveFile (source target : String) : Activity Bool := do
  if ← isSame source target then return false
  let outcome ← Station.change fun tree working =>
    tree.rename working (Octets.toText source) (Octets.toText target)
  return outcome.toOption.isSome

/-- A utility that brings files to a target: the last operand, or a place in it. -/
def bringing (act : String → String → Activity Bool) : Utility :=
  withOptions "f" 1 fun _ _ operands => do
    let target := operands.getLast?.getD ""
    let intoDirectory ← Station.isDirectory target
    if operands.length < 2 ∨ (2 < operands.length ∧ !intoDirectory) then return 1
    forOperands operands.dropLast fun source =>
      act source (if intoDirectory then inside target (lastName source) else target)

/-- Removes files, and directories with all that is in them if that is asked for. -/
def rm : Utility := withOptions "rRf" 1 fun _ found operands => do
  if operands.isEmpty && !found.contains 'f' then return 1
  forOperands operands fun operand => do
    match ← Station.find operand with
    | .error _ => return found.contains 'f'
    | .ok (location, node) =>
        if node = .directory ∧ !(found.contains 'r' || found.contains 'R') then return false
        modify fun station =>
          let entries := station.machine.tree.entries.filter (!location.isPrefixOf ·.1)
          { station with machine := { station.machine with tree := { entries } } }
        return true

def mkdir : Utility := withOptions "p" 1 fun _ found operands => do
  if operands.isEmpty then return 1
  forOperands operands fun operand => do
    let outcome ← Station.change fun tree working => do
      let place ← tree.locate working (Octets.toText operand)
      match tree.at? place with
      | .error .noEntry => return tree.put place.path .directory
      | .ok .directory => if found.contains 'p' then return tree else .error .exists
      | _ => .error .exists
    return outcome.toOption.isSome

def rmdir : Utility := withOptions "" 1 fun _ _ operands => do
  if operands.isEmpty then return 1
  forOperands operands fun operand => do
    match ← Station.find operand with
    | .ok (location, .directory) =>
        if !(← Station.children location).isEmpty then return false
        modify fun station =>
          let tree := station.machine.tree.erase location
          { station with machine := { station.machine with tree } }
        return true
    | _ => return false

def touch : Utility := withOptions "c" 1 fun _ found operands => do
  if operands.isEmpty then return 1
  forOperands operands fun operand => do
    if found.contains 'c' || (← Station.isDirectory operand) then return true
    return (← Station.openPath operand .appending).toOption.isSome

def chmod : Utility := fun call => do
  match call.arguments with
  | mode :: operand :: operands =>
      let executable :=
        ["+x", "a+x", "u+x"].contains mode || mode.toList.any fun c => "1357".toList.contains c
      forOperands (operand :: operands) fun path => do
        match ← Station.find path with
        | .error _ => return false
        | .ok (_, .directory) => return true
        | .ok (location, .file content _) =>
            modify fun station =>
              let tree := station.machine.tree.put location (.file content executable)
              { station with machine := { station.machine with tree } }
            return true
  | _ => return 1

def pwd : Utility := fun call => do
  return codeOf (← call.print (locationText (← get).machine.working ++ "\n"))

/-! ### Conditions -/

/-- Whether a property of files holds of what is at a path. All that exists may be read and
written. -/
def holdsOfFile (property path : String) : Activity Bool := do
  match ← Station.find path with
  | .error _ => return false
  | .ok (location, node) =>
      let isDevice := (Station.devices.lookup location).isSome
      match property, node with
      | "-e", _ | "-r", _ | "-w", _ | "-d", .directory | "-x", .directory | "-s", .directory =>
          return true
      | "-f", .file _ _ => return !isDevice
      | "-s", .file content _ => return !content.isEmpty
      | "-x", .file _ executable => return executable
      | _, _ => return false

def comparison? : String → Option (Int → Int → Bool)
  | "-eq" => some fun a b => a == b
  | "-ne" => some fun a b => a != b
  | "-lt" => some fun a b => decide (a < b)
  | "-le" => some fun a b => decide (a ≤ b)
  | "-gt" => some fun a b => decide (b < a)
  | "-ge" => some fun a b => decide (b ≤ a)
  | _ => none

/-- Decides what the words of `test` say. They may have no meaning. -/
def holds? : List String → Activity (Option Bool)
  | [] => return some false
  | [word] => return some !word.isEmpty
  | ["!", word] => return some word.isEmpty
  | ["-n", word] => return some !word.isEmpty
  | ["-z", word] => return some word.isEmpty
  | [property, path] => return some (← holdsOfFile property path)
  | [a, "=", b] => return some (a = b)
  | [a, "!=", b] => return some (a ≠ b)
  | ["!", a, b] => return (← holds? [a, b]).map (!·)
  | [a, operator, b] =>
      match comparison? operator, Numeral.signedDecimal? a, Numeral.signedDecimal? b with
      | some holds, some x, some y => return some (holds x y)
      | _, _, _ => return none
  | ["!", a, b, c] => return (← holds? [a, b, c]).map (!·)
  | _ => return none

/-- Decides a condition, which may have to end with a bracket. -/
def test (brackets : Bool) : Utility := fun call => do
  if brackets ∧ call.arguments.getLast? ≠ some "]" then return 2
  match ← holds? (if brackets then call.arguments.dropLast else call.arguments) with
  | none => return 2
  | some holds => return codeOf holds

def all : List (String × Utility) :=
  [ ("[", test true), ("basename", basename), ("cat", cat), ("chmod", chmod), ("cmp", cmp),
    ("cp", bringing copyFile), ("dirname", dirname),
    ("echo", fun call => return codeOf (← call.print (echoText false call.arguments))),
    ("false", fun _ => return 1), ("head", head), ("ls", ls), ("mkdir", mkdir),
    ("mv", bringing moveFile),
    ("printf", fun call => do
      match call.arguments with
      | [] => return 1
      | format :: rest => return codeOf (← call.print (printfText format rest))),
    ("pwd", pwd), ("readlink", fun _ => return 1), ("rm", rm), ("rmdir", rmdir),
    ("test", test false), ("touch", touch), ("true", fun _ => return 0), ("wc", wc) ]

end Utility

end StackAsm
