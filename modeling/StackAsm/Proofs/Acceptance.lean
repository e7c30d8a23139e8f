import Mathlib
import StackAsm.Proofs.Grouping
import StackAsm.Proofs.HexLiterals
import StackAsm.Proofs.Statements
import StackAsm.Proofs.TokenLoop

namespace StackAsm

/-- A hex literal among the lexemes is written as the scanner would have it. -/
def Lexeme.HexShaped : Lexeme → Prop
  | number { kind := .hex, text } => text.toList ∈ Pattern.literal .hex
  | _ => True

instance : DecidablePred Lexeme.HexShaped
  | .number { kind := .hex, text } =>
      decidable_of_iff (Literal.hasShape .hex text.toList = true) Literal.hasShape_iff_mem
  | .number { kind := .binary, .. } => .isTrue trivial
  | .number { kind := .float, .. } => .isTrue trivial
  | .number { kind := .decimal, .. } => .isTrue trivial
  | .sectionKeyword => .isTrue trivial
  | .nativeKeyword => .isTrue trivial
  | .word _ => .isTrue trivial

namespace Run

variable {run : Run} {earlier : List Run}

/-- The declaration of a native routine: a name and a hex number of at most 32 bits. -/
def IsNative (run : Run) : Prop :=
  run.first = .nativeKeyword ∧ ∃ name text number,
    run.rest = [.word name, .number { kind := .hex, text }] ∧
      Literal.hexValue? text = some number ∧ number < 2 ^ 32

/-- The text of a hex number that follows a name, if there is nothing else. -/
def nativeNumber? : List Lexeme → Option String
  | [.word _, .number { kind := .hex, text }] => some text
  | _ => none

theorem nativeNumber?_eq_some_iff {rest : List Lexeme} {text : String} :
    nativeNumber? rest = some text ↔
      ∃ name, rest = [.word name, .number { kind := .hex, text }] := by
  constructor
  · intro h
    unfold nativeNumber? at h
    split at h <;> simp_all
  · rintro ⟨name, rfl⟩
    rfl

instance : DecidablePred IsNative := fun run =>
  decidable_of_iff
    (run.first = .nativeKeyword ∧
      ∃ number ∈ (nativeNumber? run.rest).bind Literal.hexValue?, number < 2 ^ 32) <| by
    simp only [IsNative, Option.mem_def, Option.bind_eq_some_iff, nativeNumber?_eq_some_iff]
    refine and_congr_right fun _ => ?_
    constructor
    · rintro ⟨number, ⟨text, ⟨name, hrest⟩, hnumber⟩, hlimit⟩
      exact ⟨name, text, number, hrest, hnumber, hlimit⟩
    · rintro ⟨name, text, number, hrest, hnumber, hlimit⟩
      exact ⟨number, ⟨text, ⟨name, hrest⟩, hnumber⟩, hlimit⟩

/-- The run decides what the instructions after it belong to. The header of a section does so even
if it is faulty. -/
def Declares (run : Run) : Prop :=
  run.first = .sectionKeyword ∨ run.IsNative

instance : DecidablePred Declares := fun _ => inferInstanceAs (Decidable (_ ∨ _))

/-- The latest of the runs that declares something begins like a section. -/
def InSection (earlier : List Run) : Prop :=
  ∃ run ∈ earlier.reverse.find? (decide <| Declares ·), run.first = .sectionKeyword

instance : DecidablePred InSection := fun _ => inferInstanceAs (Decidable (∃ _ ∈ _, _))

/-- A run that is a statement where it stands, behind the earlier runs. -/
inductive WellFormed (earlier : List Run) (run : Run) : Prop
  | header {name : String} (hfirst : run.first = .sectionKeyword) (hrest : run.rest = [.word name])
  | native (hnative : run.IsNative)
  | instruction {word : String} {operation : Operation} {argument : Option Argument}
      (hfirst : run.first = .word word)
      (hrest : run.rest = argument.toList.map Argument.lexeme)
      (hnamed : operation.Named word) (haccepts : operation.Accepts argument)
      (hsection : InSection earlier)

theorem inSection_append :
    InSection (earlier ++ [run]) ↔
      if run.Declares then run.first = .sectionKeyword else InSection earlier := by
  simp only [InSection, List.reverse_append, List.reverse_singleton, List.singleton_append,
    List.find?_cons]
  by_cases h : run.Declares
  · simp [h]
  · simp [h]

theorem exists_nativeDeclaration_iff (hshape : ∀ lexeme ∈ run.rest, lexeme.HexShaped)
    (hfirst : run.first = .nativeKeyword) :
    (∃ statement, nativeDeclaration run.rest = .ok statement) ↔ run.IsNative := by
  have htext {name text : String} (hrest : run.rest = [.word name, .number ⟨.hex, text⟩]) :
      text.toList ∈ Pattern.literal .hex :=
    hshape (.number ⟨.hex, text⟩) (by simp [hrest])
  simp only [nativeDeclaration_eq_ok_iff, IsNative, hfirst, true_and]
  constructor
  · rintro ⟨_, name, text, number, hrest, hnumber, -⟩
    exact ⟨name, text, number.toNat, hrest, (identifies_iff (htext hrest)).mp hnumber,
      number.toNat_lt⟩
  · rintro ⟨name, text, number, hrest, hnumber, hlt⟩
    refine ⟨_, name, text, UInt32.ofNat number, hrest, ?_, rfl⟩
    rw [identifies_iff (htext hrest), UInt32.toNat_ofNat_of_lt' hlt]
    exact hnumber

theorem exists_statement_iff_of_ne (hfirst : run.first ≠ .nativeKeyword) :
    (∃ statement, run.statement (InSection earlier) = .ok statement) ↔
      run.WellFormed earlier := by
  simp only [statement_eq_ok_iff]
  constructor
  · rintro ⟨_, h⟩
    cases h with
    | header hheader hrest => exact .header hheader hrest
    | native hnative => exact absurd hnative hfirst
    | instruction hword hnamed haccepts hrest hsection =>
        exact .instruction hword hrest hnamed haccepts (of_decide_eq_true hsection)
  · intro h
    cases h with
    | header hheader hrest => exact ⟨_, .header hheader hrest⟩
    | native hnative => exact absurd hnative.1 hfirst
    | instruction hword hrest hnamed haccepts hsection =>
        exact ⟨_, .instruction hword hnamed haccepts hrest (decide_eq_true hsection)⟩

theorem wellFormed_iff_of_eq (hfirst : run.first = .nativeKeyword) :
    run.WellFormed earlier ↔ run.IsNative := by
  constructor
  · rintro (⟨hword, -⟩ | h | ⟨hword, -⟩)
    · simp [hfirst] at hword
    · exact h
    · simp [hfirst] at hword
  · exact .native

instance : Decidable (run.WellFormed earlier) :=
  if hfirst : run.first = .nativeKeyword then
    decidable_of_iff run.IsNative (wellFormed_iff_of_eq hfirst).symm
  else
    decidable_of_iff ((run.statement (InSection earlier)).toOption.isSome = true) <| by
      rw [← exists_statement_iff_of_ne hfirst]
      cases run.statement (InSection earlier) <;> simp [Except.toOption]

section Shaped

variable (hshape : ∀ lexeme ∈ run.rest, lexeme.HexShaped)
include hshape

theorem exists_statement_iff :
    (∃ statement, run.statement (InSection earlier) = .ok statement) ↔
      run.WellFormed earlier := by
  by_cases hfirst : run.first = .nativeKeyword
  · rw [wellFormed_iff_of_eq hfirst, ← exists_nativeDeclaration_iff hshape hfirst]
    simp only [statement, hfirst]
  · exact exists_statement_iff_of_ne hfirst

theorem leavesSectionOpen_eq :
    run.leavesSectionOpen (InSection earlier) = decide (InSection (earlier ++ [run])) := by
  rw [Bool.eq_iff_iff, decide_eq_true_iff, inSection_append]
  cases hfirst : run.first with
  | sectionKeyword => simp [leavesSectionOpen, Declares, hfirst]
  | nativeKeyword =>
      have hnative := exists_nativeDeclaration_iff hshape hfirst
      cases hread : nativeDeclaration run.rest with
      | error cause =>
          have hnot : ¬run.IsNative := by simpa [hread] using hnative
          simp [leavesSectionOpen, Declares, hfirst, hread, hnot, Except.toOption]
      | ok statement =>
          have h : run.IsNative := by simpa [hread] using hnative
          simp [leavesSectionOpen, Declares, hfirst, hread, h, Except.toOption]
  | word word =>
      have hnot : ¬run.IsNative := fun h => by simp [h.1] at hfirst
      simp [leavesSectionOpen, Declares, hfirst, hnot]
  | number literal =>
      have hnot : ¬run.IsNative := fun h => by simp [h.1] at hfirst
      simp [leavesSectionOpen, Declares, hfirst, hnot]

end Shaped

/-- The runs that are not well formed where they stand, behind the earlier runs. -/
def illFormed (earlier : List Run) : List Run → List Run
  | [] => []
  | run :: runs =>
      if run.WellFormed earlier then illFormed (earlier ++ [run]) runs
      else run :: illFormed (earlier ++ [run]) runs

theorem illFormed_eq_nil_iff {runs : List Run} :
    illFormed earlier runs = [] ↔
      ∀ before run after, runs = before ++ run :: after → run.WellFormed (earlier ++ before) := by
  induction runs generalizing earlier with
  | nil => simp [illFormed]
  | cons first runs ih =>
      rw [illFormed]
      constructor
      · intro h
        split at h
        · next hfirst =>
          rw [ih] at h
          rintro (_ | ⟨own, before⟩) run after hsplit
          · cases hsplit
            rwa [List.append_nil]
          · cases hsplit
            simpa using h before run after rfl
        · cases h
      · intro h
        have hfirst : first.WellFormed earlier := by simpa using h [] first runs rfl
        rw [if_pos hfirst, ih]
        intro before run after hsplit
        simpa using h (first :: before) run after (by rw [hsplit, List.cons_append])

end Run

namespace Judgements

/-- Reading goes from run to run. What it carries along is the section that the runs so far leave
open, so each run is judged behind all that came before it. -/
theorem faults_ofRuns {earlier runs : List Run}
    (hshape : ∀ run ∈ runs, ∀ lexeme ∈ run.rest, lexeme.HexShaped) :
    (Judgements.mk (ofRuns (Run.InSection earlier) runs)).faults.map LineFault.line =
      (Run.illFormed earlier runs).map Run.line := by
  induction runs generalizing earlier with
  | nil => rfl
  | cons run runs ih =>
      obtain ⟨hrun, hruns⟩ := List.forall_mem_cons.mp hshape
      have hrest := @ih (earlier ++ [run]) hruns
      have hstatement := @Run.exists_statement_iff run earlier hrun
      rw [ofRuns, Run.leavesSectionOpen_eq hrun, Run.illFormed]
      cases hread : run.statement (Run.InSection earlier) with
      | ok statement =>
          rw [if_pos (hstatement.mp ⟨statement, hread⟩)]
          exact hrest
      | error cause =>
          rw [if_neg (fun h => by simp [← hstatement, hread] at h), List.map_cons, ← hrest]
          rfl

theorem faults_of_partition {tokens : List Token} {runs : List Run}
    (hshape : ∀ token ∈ tokens, token.lexeme.HexShaped) (h : Run.Partition tokens runs) :
    (ofTokens tokens).faults.map LineFault.line = (Run.illFormed [] runs).map Run.line := by
  rw [ofTokens, Run.partition_iff.mp h]
  exact @faults_ofRuns [] runs fun run hrun lexeme hlexeme =>
    h.forall_lexeme hshape run hrun lexeme (List.mem_cons_of_mem _ hlexeme)

end Judgements

namespace Reading

/-- What the loop makes of tokens that fall into the runs. -/
structure Judges (tokens : List Token) (runs : List Run) : Prop where
  /-- Each turn of the loop takes one run, all of it and nothing of the next. A run that is not well
  formed is counted once, and no other is. -/
  turns : ∀ earlier later, runs = earlier ++ later →
    (advance^[earlier.length] (start tokens)).tokens = later.flatMap Run.tokens ∧
      (advance^[earlier.length] (start tokens)).faults = (Run.illFormed [] earlier).length
  /-- Behind the last of these turns nothing is left, and the loop ends there. -/
  ended : (advance^[runs.length] (start tokens)).tokens = [] ∧
    Program.ofTokens tokens = (advance^[runs.length] (start tokens)).finish.result
  /-- The runs that are not well formed are reported, each once and in order. -/
  reported : ∃ faults : List LineFault,
    faults.map LineFault.line = (Run.illFormed [] runs).map Run.line ∧
      (ofTokens tokens).events =
        faults.map .lineFault ++ if faults = [] then [] else [.readingStopped faults.length]
  accepted : (∃ program, Program.ofTokens tokens = .ok program) ↔
    ∀ earlier run later, runs = earlier ++ run :: later → run.WellFormed earlier
  refused : (¬∀ earlier run later, runs = earlier ++ run :: later → run.WellFormed earlier) →
    Program.ofTokens tokens = .error (.malformedLines (Run.illFormed [] runs).length)

section Partition

variable {tokens : List Token} {runs : List Run}
  (hshape : ∀ token ∈ tokens, token.lexeme.HexShaped) (h : Run.Partition tokens runs)
include hshape h

theorem turns_of_partition {earlier later : List Run} (hruns : runs = earlier ++ later) :
    (advance^[earlier.length] (start tokens)).tokens = later.flatMap Run.tokens ∧
      (advance^[earlier.length] (start tokens)).faults = (Run.illFormed [] earlier).length := by
  have hearlier : ∀ run ∈ earlier, ∀ lexeme ∈ run.rest, lexeme.HexShaped :=
    fun run hrun lexeme hlexeme =>
      h.forall_lexeme hshape run (hruns ▸ List.mem_append_left _ hrun) lexeme
        (List.mem_cons_of_mem _ hlexeme)
  obtain ⟨extended, hturns⟩ := iterate_advance (hruns ▸ h.maximal) [] 0
  rw [← hruns, h.flatMap_tokens] at hturns
  have hfaults := congrArg List.length (@Judgements.faults_ofRuns [] earlier hearlier)
  rw [List.length_map, List.length_map] at hfaults
  rw [start, hturns]
  exact ⟨rfl, (Nat.zero_add _).trans hfaults⟩

theorem judges_of_partition : Judges tokens runs := by
  have hreported := Judgements.faults_of_partition hshape h
  have hlength : (Judgements.ofTokens tokens).faults.length = (Run.illFormed [] runs).length := by
    simpa using congrArg List.length hreported
  have hnil : (Judgements.ofTokens tokens).faults = [] ↔
      ∀ earlier run later, runs = earlier ++ run :: later → run.WellFormed earlier := by
    rw [← List.length_eq_zero_iff, hlength, List.length_eq_zero_iff, Run.illFormed_eq_nil_iff]
    simp only [List.nil_append]
  have hnothing := (turns_of_partition hshape h (List.append_nil runs).symm).1
  refine ⟨fun _ _ => turns_of_partition hshape h, ⟨hnothing, ?_⟩, ⟨_, hreported, ?_⟩, ?_, ?_⟩
  · rw [← result_run_of_nil hnothing, result_run_iterate]
    rfl
  · rw [ofTokens_eq, Judgements.events]
    simp only [List.isEmpty_iff]
  · rw [← hnil, Program.ofTokens_eq, Judgements.result, ← List.isEmpty_iff]
    split
    · next hempty => exact ⟨fun _ => hempty, fun _ => ⟨_, rfl⟩⟩
    · next hempty =>
        refine ⟨?_, fun h => absurd h hempty⟩
        rintro ⟨_, hread⟩
        cases hread
  · intro hill
    rw [← hnil, ← List.isEmpty_iff] at hill
    rw [Program.ofTokens_eq, Judgements.result, if_neg hill, hlength]

end Partition

end Reading

/-- The verdict on tokens, on lines of whatever numbers in whatever order. They fall into runs in
one way, and a program is read from them exactly if each of these runs is well formed. Otherwise
the count is that of the runs that are not. The loop over the tokens goes from run to run. -/
theorem Program.ofTokens_judges {tokens : List Token}
    (hshape : ∀ token ∈ tokens, token.lexeme.HexShaped) :
    (∃! runs, Run.Partition tokens runs) ∧
      ∀ runs, Run.Partition tokens runs → Reading.Judges tokens runs := by
  constructor
  · refine ⟨Run.all tokens, Run.partition_all tokens, ?_⟩
    intro runs h
    exact (Run.partition_iff.mp h).symm
  · exact fun _ h => Reading.judges_of_partition hshape h

/-- Tokens on lines that go up and down: a section with a faulty header and two instructions, a
native routine with too great a number between them and one with zeros in front behind them, and
instructions that stand outside or have too many arguments. -/
def Token.scattered : List Token :=
  [ { lexeme := .sectionKeyword, line := 7 },
    { lexeme := .number { kind := .decimal, text := "5" }, line := 7 },
    { lexeme := .word "LOADI", line := 3 },
    { lexeme := .number { kind := .hex, text := "0x2A" }, line := 3 },
    { lexeme := .nativeKeyword, line := 9 },
    { lexeme := .word "clock", line := 9 },
    { lexeme := .number { kind := .hex, text := "0x100000000" }, line := 9 },
    { lexeme := .word "HALT", line := 3 },
    { lexeme := .nativeKeyword, line := 2 },
    { lexeme := .word "clock", line := 2 },
    { lexeme := .number { kind := .hex, text := "0X0000000000F" }, line := 2 },
    { lexeme := .word "HALT", line := 8 },
    { lexeme := .sectionKeyword, line := 1 },
    { lexeme := .word "main", line := 1 },
    { lexeme := .word "JMP", line := 4 },
    { lexeme := .word "main", line := 4 },
    { lexeme := .word "main", line := 4 } ]

theorem Token.scattered_judges :
    (∀ token ∈ scattered, token.lexeme.HexShaped) ∧
      Program.ofTokens scattered = .error (.malformedLines 4) ∧
      (∃! runs, Run.Partition scattered runs) ∧
        ∀ runs, Run.Partition scattered runs → Reading.Judges scattered runs := by
  have hshape : ∀ token ∈ scattered, token.lexeme.HexShaped := by decide +kernel
  have hcount : Program.ofTokens scattered = .error (.malformedLines 4) := by decide +kernel
  exact ⟨hshape, hcount, Program.ofTokens_judges hshape⟩

end StackAsm
