import StackAsm.Host.Workstation.Script
import StackAsm.Host.Workstation.Station

/-!
Expansion of words: parameters and commands are replaced by values and outputs, the result is split
into fields, and fields that are patterns become the paths that they fit.
-/

namespace StackAsm.Shell

structure Glyph where
  char : Char
  /-- Whether it stands for itself in a pattern. -/
  literal : Bool
  deriving DecidableEq, Repr

def textOf (glyphs : List Glyph) : String :=
  String.ofList (glyphs.map Glyph.char)

inductive PatternItem where
  | char (c : Char)
  | any
  | anyText
  /-- One of the characters from the first to the last of some pairs, or none of them. -/
  | oneOf (complement : Bool) (ranges : List (Char × Char))
  deriving DecidableEq, Repr

namespace Pattern

/-- Takes the ranges of a bracket up to its end, which is not the first of them. -/
def takeRanges (isFirst : Bool) : List Glyph → Option (List (Char × Char) × List Glyph)
  | [] => none
  | first :: rest =>
      if first = { char := ']', literal := false } ∧ !isFirst then some ([], rest)
      else
        match rest with
        | { char := '-', literal := false } :: { char := last, literal } :: rest =>
            if last = ']' ∧ !literal then some ([(first.char, first.char), ('-', '-')], rest)
            else
              (takeRanges false rest).map fun (more, rest) => ((first.char, last) :: more, rest)
        | rest =>
            (takeRanges false rest).map fun (more, rest) => ((first.char, first.char) :: more, rest)

/-- Reads a pattern. A bracket without an end stands for itself. -/
def items : Nat → List Glyph → List PatternItem
  | fuel + 1, glyph :: rest =>
      match glyph with
      | { char := '*', literal := false } => .anyText :: items fuel rest
      | { char := '?', literal := false } => .any :: items fuel rest
      | { char := '[', literal := false } =>
          let complement := rest.head?.any (·.char == '!')
          match takeRanges true (if complement then rest.drop 1 else rest) with
          | some (ranges, rest) => .oneOf complement ranges :: items fuel rest
          | none => .char '[' :: items fuel rest
      | { char, .. } => .char char :: items fuel rest
  | _, _ => []

def ofGlyphs (glyphs : List Glyph) : List PatternItem :=
  items glyphs.length glyphs

def fitsChar (item : PatternItem) (c : Char) : Bool :=
  match item with
  | .char d => c == d
  | .any | .anyText => true
  | .oneOf complement ranges => ranges.any (fun (a, b) => a ≤ c && c ≤ b) != complement

/-- Whether a pattern fits all of a text. -/
def fits : List PatternItem → List Char → Bool
  | [], cs => cs.isEmpty
  | .anyText :: items, cs =>
      (List.range (cs.length + 1)).any fun count => fits items (cs.drop count)
  | item :: items, c :: cs => fitsChar item c && fits items cs
  | _ :: _, [] => false

/-- Takes the shortest or longest beginning or end that fits off a text. -/
def trim (pattern : List PatternItem) (fromEnd longest : Bool) (text : List Char) : List Char :=
  let cuts := (List.range (text.length + 1)).filter fun count =>
    fits pattern (if fromEnd then text.drop count else text.take count)
  match if longest != fromEnd then cuts.getLast? else cuts.head? with
  | none => text
  | some count => if fromEnd then text.take count else text.drop count

/-- Whether glyphs hold a sign of a pattern. -/
def isPattern (glyphs : List Glyph) : Bool :=
  glyphs.any fun glyph => !glyph.literal && "*?[".toList.contains glyph.char

/-- The names in a directory that a segment of a pattern fits. A leading dot has to be written. -/
def namesThatFit (segment : List Glyph) (directory : String) : Activity (List String) := do
  match ← Station.find directory with
  | .ok (location, .directory) =>
      return (← Station.children location).filter fun name =>
        (name.toList.head? = some '.' → segment.head?.any (·.char == '.')) &&
          fits (ofGlyphs segment) name.toList
  | _ => return []

/-- The paths that begin in a given way and go on as some segments say. -/
def pathsThatFit : List (List Glyph) → String → Activity (List String)
  | [], start => return [start]
  | segment :: segments, start => do
      let names ←
        if isPattern segment then namesThatFit segment (if start.isEmpty then "." else start)
        else pure [textOf segment]
      let ending := if segments.isEmpty then "" else "/"
      let found ← names.mapM fun name => do
        match ← Station.find (start ++ name) with
        | .ok _ => pathsThatFit segments (start ++ name ++ ending)
        | .error _ =>
            -- the root is the empty name before the first slash
            if name.isEmpty then pathsThatFit segments (start ++ ending) else return []
      return found.flatten

/-- The paths that a pattern fits, in order, or the text itself if there are none. -/
def paths (glyphs : List Glyph) : Activity (List String) := do
  if !isPattern glyphs then return [textOf glyphs]
  match ← pathsThatFit (glyphs.splitOnP (·.char == '/')) "" with
  | [] => return [textOf glyphs]
  | found => return Octets.sorted found

end Pattern

inductive Fragment where
  /-- A character, and whether fields may be split at it. -/
  | glyph (glyph : Glyph) (splits : Bool)
  /-- Something quoted, which makes a field even if it is empty. -/
  | quotation
  /-- The place between two arguments. -/
  | boundary
  deriving DecidableEq, Repr

namespace Fragment

def ofValue (quoted : Bool) (value : String) : List Fragment :=
  let glyphs := value.toList.map fun char => glyph { char, literal := quoted } (!quoted)
  if quoted then quotation :: glyphs else glyphs

/-- The glyphs of fragments that are not split. Between arguments there is a space. -/
def glyphs (fragments : List Fragment) : List Glyph :=
  fragments.filterMap fun
    | glyph shown _ => some shown
    | quotation => none
    | boundary => some { char := ' ', literal := true }

/-- The text of fragments that are not split. -/
def text (fragments : List Fragment) : String :=
  textOf (glyphs fragments)

/-- Splits fragments into fields, behind the one that has begun, if any. -/
def fields : Option (List Glyph) → List Fragment → List (List Glyph)
  | field, [] => field.toList
  | field, quotation :: rest => fields (some (field.getD [])) rest
  | field, boundary :: rest => field.toList ++ fields none rest
  | field, glyph shown splits :: rest =>
      if splits && " \t\n".toList.contains shown.char then field.toList ++ fields none rest
      else fields (some (field.getD [] ++ [shown])) rest

end Fragment

end StackAsm.Shell
