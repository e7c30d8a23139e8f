import Mathlib
import StackAsm.Scan

/-!
Scanning at a glance: what the lines of a source come to, of which the scanner passes on no more
than the tokens and the number of faults.
-/

namespace StackAsm

/-- All that there is to find out about a source. -/
structure Survey where
  /-- The tokens of the lines without a fault. -/
  tokens : List Token
  /-- One fault for each line that has a word of no class. -/
  faults : List InvalidWord
  /-- Whether all lines could be decoded. -/
  readable : Bool
  deriving DecidableEq, Repr

namespace Survey

/-- Scans lines of text, the first of which has the given number. -/
def ofTexts (first : Nat) (texts : List String) : List (Except InvalidWord (List Token)) :=
  (texts.zipIdx first).map fun (text, number) => Scan.line number text

/-- The lines up to the first that could not be decoded. -/
def ofDecoded (first : Nat) (decoded : List (Option String)) : Survey :=
  let scanned := ofTexts first ((decoded.takeWhile Option.isSome).filterMap id)
  { tokens := scanned.flatMap fun outcome => outcome.toOption.getD []
    faults := scanned.filterMap fun outcome =>
      match outcome with
      | .ok _ => none
      | .error fault => some fault
    readable := decoded.all Option.isSome }

def ofSource (source : List UInt8) : Survey :=
  ofDecoded 1 ((Text.lines source).map Text.decode?)

/-- The tokens of the source, if nothing is wrong with it. -/
def result (survey : Survey) : Except Fault (List Token) :=
  if !survey.readable then .error (.unreadable .notUtf8)
  else if survey.faults.isEmpty then .ok survey.tokens
  else .error (.malformedLines survey.faults.length)

/-- What is logged: each fault, and a summary unless the scan was cut short. -/
def events (survey : Survey) : List Event :=
  survey.faults.map Event.invalidWord ++
    if !survey.readable then []
    else if survey.faults.isEmpty then [.scanned survey.tokens.length]
    else [.scanningStopped survey.faults.length]

theorem faults_of_result {survey : Survey} {tokens : List Token} (h : survey.result = .ok tokens) :
    survey.faults = [] := by
  unfold result at h
  split at h
  · cases h
  · split at h
    · next hempty => exact List.isEmpty_iff.mp hempty
    · cases h

theorem ofDecoded_nil (first : Nat) :
    ofDecoded first [] = { tokens := [], faults := [], readable := true } :=
  rfl

theorem ofDecoded_some (first : Nat) (text : String) (decoded : List (Option String)) :
    ofDecoded first (some text :: decoded) =
      match Scan.line first text with
      | .ok tokens =>
          { ofDecoded (first + 1) decoded with
            tokens := tokens ++ (ofDecoded (first + 1) decoded).tokens }
      | .error fault =>
          { ofDecoded (first + 1) decoded with
            faults := fault :: (ofDecoded (first + 1) decoded).faults } := by
  simp only [ofDecoded, ofTexts, List.takeWhile_cons, Option.isSome_some, if_true,
    List.filterMap_cons, id, List.zipIdx_cons, List.map_cons, List.flatMap_cons, List.all_cons,
    Bool.true_and]
  cases Scan.line first text <;> rfl

end Survey

namespace Scan

theorem finish_eq (tokens : List Token) (faults : Nat) :
    finish tokens faults =
      { result := if faults = 0 then .ok tokens else .error (.malformedLines faults)
        events :=
          if faults = 0 then [.scanned tokens.length] else [.scanningStopped faults] } := by
  rw [finish]
  rcases Nat.eq_zero_or_pos faults with rfl | hpos
  · rfl
  · simp only [hpos, hpos.ne', if_false, if_true]
    rfl

theorem lines_eq (number : Nat) (tokens : List Token) (faults : Nat) (lines : List (List UInt8)) :
    let survey := Survey.ofDecoded number (lines.map Text.decode?)
    let count := faults + survey.faults.length
    Scan.lines number tokens faults lines =
      { result :=
          if !survey.readable then .error (.unreadable .notUtf8)
          else if count = 0 then .ok (tokens ++ survey.tokens)
          else .error (.malformedLines count)
        events := survey.faults.map .invalidWord ++
          if !survey.readable then []
          else if count = 0 then [.scanned (tokens ++ survey.tokens).length]
          else [.scanningStopped count] } := by
  induction lines generalizing number tokens faults with
  | nil =>
      rw [Scan.lines, finish_eq, List.map_nil, Survey.ofDecoded_nil]
      dsimp only
      rw [List.append_nil]
      rfl
  | cons bytes later ih =>
      rw [Scan.lines, List.map_cons]
      cases Text.decode? bytes with
      | none => rfl
      | some text =>
          rw [Survey.ofDecoded_some]
          dsimp only
          cases line number text with
          | ok found =>
              dsimp only
              rw [ih]
              simp only [List.append_assoc]
          | error fault =>
              have hcount (rest : Nat) : faults + 1 + rest = faults + (rest + 1) := by omega
              have hfaulty (rest : Nat) : faults + (rest + 1) ≠ 0 := by omega
              dsimp only
              rw [ih, Report.log_bind]
              simp only [hcount, hfaulty, if_false, List.length_cons, List.map_cons,
                List.cons_append]

theorem ofSource_eq (source : List UInt8) :
    ofSource source =
      { result := (Survey.ofSource source).result, events := (Survey.ofSource source).events } := by
  rw [ofSource, lines_eq, Survey.result, Survey.events, ← Survey.ofSource]
  simp only [Nat.zero_add, List.length_eq_zero_iff, List.nil_append, List.isEmpty_iff]

end Scan

end StackAsm
