import Mathlib
import StackAsm.Proofs.Grouping
import StackAsm.Proofs.Statements

/-!
The loop over the tokens reads run by run. Nothing in it knows of runs: a production stops wherever
it meets a fault, a faulty section header still opens its section, and only the number of the line
tells where to go on. Yet a turn of the loop takes exactly one run, and all that it keeps of it is
what the run is judged to be.
-/

namespace StackAsm

namespace Reading

/-- The same reading in front of lexemes of one line and of later tokens. -/
def facing (reading : Reading) (line : Nat) (lexemes : List Lexeme) (later : List Token) :
    Reading :=
  { reading with tokens := lexemes.map (fun lexeme => { lexeme, line }) ++ later }

/-- The production does with the tokens of a line what the function does with their lexemes. Of
those it leaves some, and if it succeeds, the ones that the function leaves. -/
def Mirrors {α : Type} (line : Nat) (later : List Token) (production : Production α)
    (function : List Lexeme → Except LineFault.Cause (α × List Lexeme)) : Prop :=
  ∀ (reading : Reading) (lexemes : List Lexeme), ∃ left,
    production.run.run (reading.facing line lexemes later) =
        ((function lexemes).map Prod.fst, reading.facing line left later) ∧
      ∀ a rest, function lexemes = .ok (a, rest) → left = rest

section Line

variable {line : Nat} {later : List Token} (hlater : ∀ token ∈ later.head?, token.line ≠ line)
include hlater

theorem run_takeOn_facing (reading : Reading) (lexemes : List Lexeme) :
    (takeOn line).run.run (reading.facing line lexemes later) =
      (.ok lexemes.head?, reading.facing line lexemes.tail later) := by
  rw [run_takeOn]
  cases lexemes with
  | cons lexeme lexemes => simp [facing]
  | nil =>
      cases later with
      | nil => rfl
      | cons token later => simp [facing, hlater token rfl]

theorem dropWhile_facing (lexemes : List Lexeme) :
    (lexemes.map (fun lexeme => ({ lexeme, line } : Token)) ++ later).dropWhile (·.line = line) =
      later := by
  induction lexemes with
  | cons lexeme lexemes ih => simpa using ih
  | nil =>
      cases later with
      | nil => rfl
      | cons token later => simp [hlater token rfl]

theorem label_mirrors : Mirrors line later (label line) Run.label := by
  intro reading lexemes
  refine ⟨lexemes.tail, ?_, ?_⟩
  · rw [label, run_bind, run_takeOn_facing hlater]
    rcases lexemes with _ | ⟨_ | _ | _ | _, lexemes⟩ <;> rfl
  · rintro name rest h
    rcases lexemes with _ | ⟨_ | _ | _ | _, lexemes⟩ <;> cases h
    rfl

theorem identifier_mirrors : Mirrors line later (identifier line) Run.identifier := by
  intro reading lexemes
  refine ⟨lexemes.tail, ?_, ?_⟩
  · rw [identifier, run_bind, run_takeOn_facing hlater]
    rcases lexemes with _ | ⟨_ | _ | _ | ⟨_ | _ | _ | _, text⟩, lexemes⟩
    all_goals try rfl
    cases h : identifierOf text <;> simp [Run.identifier, h, run_liftExcept, Except.map]
  · rintro number rest h
    rcases lexemes with _ | ⟨_ | _ | _ | ⟨_ | _ | _ | _, text⟩, lexemes⟩
    all_goals try cases h
    cases hnumber : identifierOf text <;> simp_all [Run.identifier, Except.map]

theorem argument_mirrors : Mirrors line later (argument line) Run.argument := by
  intro reading lexemes
  refine ⟨lexemes.tail, ?_, ?_⟩
  · rw [argument, run_bind, run_takeOn_facing hlater]
    rcases lexemes with _ | ⟨_ | _ | _ | _, lexemes⟩ <;> rfl
  · rintro found rest h
    rcases lexemes with _ | ⟨_ | _ | _ | _, lexemes⟩ <;> cases h <;> rfl

theorem run_endOfLine_facing (reading : Reading) (lexemes : List Lexeme) :
    (endOfLine line).run.run (reading.facing line lexemes later) =
      (Run.finish lexemes, reading.facing line lexemes later) := by
  rw [run_endOfLine]
  cases lexemes with
  | cons lexeme lexemes => simp [facing, Run.finish]
  | nil =>
      cases later with
      | nil => rfl
      | cons token later => simp [facing, Run.finish, hlater token rfl]

end Line

/-- Whether the last of some declarations is a section. -/
def leavesOpen (declarations : List Declaration) : Bool :=
  match declarations.getLast? with
  | some (.code _) => true
  | _ => false

/-- The declarations with a statement behind them. -/
def extend (declarations : List Declaration) : Nat × Statement → List Declaration
  | (line, .openSection name) => declarations ++ [.code { name, instructions := [], line }]
  | (line, .declareNative name identifier) =>
      declarations ++ [.native { name, identifier, line }]
  | (line, .perform mnemonic argument) =>
      (extendLast? { mnemonic, argument, line } declarations).getD declarations

theorem leavesOpen_append (declarations : List Declaration) (declaration : Declaration) :
    leavesOpen (declarations ++ [declaration]) = declaration.code?.isSome := by
  rw [leavesOpen, List.getLast?_concat]
  cases declaration <;> rfl

/-- What the tokens of a line do to a reading that faces them: it comes to the judgement of their
run. A statement leaves none of them, and the declarations are extended by it. Whether a section is
open behind them is told from the judgement. -/
def Performs (line : Nat) (later : List Token) (reading : Reading)
    (opened : Except LineFault.Cause Statement → Bool) (production : Production Unit)
    (lexemes : List Lexeme) (judgement : Except LineFault.Cause Statement) : Prop :=
  ∃ left declarations,
    production.run.run (reading.facing line lexemes later) =
        (judgement.map fun _ => (), { reading with declarations }.facing line left later) ∧
      (∀ statement, judgement = .ok statement →
        left = [] ∧ declarations = extend reading.declarations (line, statement)) ∧
      leavesOpen declarations = opened judgement

section Line

variable {line : Nat} {later : List Token} {reading : Reading} {lexemes : List Lexeme}

theorem performs_sectionHeader (hlater : ∀ token ∈ later.head?, token.line ≠ line) :
    Performs line later reading (fun _ => true) (sectionHeader line) lexemes
      (Run.sectionHeader lexemes) := by
  obtain ⟨left, hlabel, hleft⟩ := label_mirrors hlater reading lexemes
  rw [Performs, sectionHeader, run_bind, run_attempt, hlabel, Run.sectionHeader]
  cases hname : Run.label lexemes with
  | error cause =>
      refine ⟨left, reading.declarations ++ [.code { name := "", instructions := [], line }], rfl,
        ?_, leavesOpen_append _ _⟩
      intro statement hstatement
      cases hstatement
  | ok parts =>
      obtain ⟨name, rest⟩ := parts
      obtain rfl := hleft name rest hname
      let opened : Reading := { reading with
        declarations := reading.declarations ++ [.code { name, instructions := [], line }] }
      refine ⟨left, opened.declarations, ?_, ?_, leavesOpen_append reading.declarations _⟩
      · refine (run_endOfLine_facing hlater opened left).trans ?_
        cases left <;> rfl
      · intro statement hstatement
        cases left with
        | nil =>
            cases hstatement
            exact ⟨rfl, rfl⟩
        | cons => cases hstatement

variable {opened : Except LineFault.Cause Statement → Bool}
  (hopened : ∀ cause, opened (.error cause) = leavesOpen reading.declarations)
include hopened

theorem performs_throw (cause : LineFault.Cause) :
    Performs line later reading opened (throw cause) lexemes (.error cause) :=
  ⟨lexemes, reading.declarations, rfl, nofun, (hopened cause).symm⟩

section Bind

variable {α : Type}

theorem Mirrors.performs {production : Production α} {next : α → Production Unit}
    {function : List Lexeme → Except LineFault.Cause (α × List Lexeme)}
    {judge : α × List Lexeme → Except LineFault.Cause Statement}
    (h : Mirrors line later production function)
    (hnext : ∀ a rest, Performs line later reading opened (next a) rest (judge (a, rest))) :
    Performs line later reading opened (production >>= next) lexemes
      (function lexemes >>= judge) := by
  obtain ⟨left, hrun, hleft⟩ := h reading lexemes
  rw [Performs, run_bind, hrun]
  cases houtcome : function lexemes with
  | error cause => exact ⟨left, reading.declarations, rfl, nofun, (hopened cause).symm⟩
  | ok parts =>
      obtain rfl := hleft parts.1 parts.2 houtcome
      exact hnext parts.1 parts.2

theorem performs_endOfLine (hlater : ∀ token ∈ later.head?, token.line ≠ line)
    {next : Unit → Production Unit} {judgement : Unit → Except LineFault.Cause Statement}
    (hnext : Performs line later reading opened (next ()) [] (judgement ())) :
    Performs line later reading opened (endOfLine line >>= next) lexemes
      (Run.finish lexemes >>= judgement) := by
  rw [Performs, run_bind, run_endOfLine_facing hlater]
  cases lexemes with
  | nil => exact hnext
  | cons lexeme lexemes => exact ⟨_, reading.declarations, rfl, nofun, (hopened _).symm⟩

theorem performs_liftExcept {outcome : Except LineFault.Cause α} {next : α → Production Unit}
    {judge : α → Except LineFault.Cause Statement}
    (hnext : ∀ a, Performs line later reading opened (next a) lexemes (judge a)) :
    Performs line later reading opened (liftExcept outcome >>= next) lexemes
      (outcome >>= judge) := by
  rw [Performs, run_bind, run_liftExcept]
  cases outcome with
  | error cause => exact ⟨lexemes, reading.declarations, rfl, nofun, (hopened cause).symm⟩
  | ok a => exact hnext a

end Bind

end Line

theorem extendLast?_append (instruction : Instruction) (declarations : List Declaration)
    (sec : Section) :
    extendLast? instruction (declarations ++ [.code sec]) =
      some (declarations ++
        [.code { sec with instructions := sec.instructions ++ [instruction] }]) := by
  rw [extendLast?, List.getLast?_concat]
  simp

theorem exists_append_of_leavesOpen {declarations : List Declaration}
    (h : leavesOpen declarations = true) :
    ∃ earlier sec, declarations = earlier ++ [.code sec] := by
  rw [leavesOpen] at h
  split at h
  · next sec hlast =>
    obtain ⟨earlier, rfl⟩ := List.getLast?_eq_some_iff.mp hlast
    exact ⟨earlier, sec, rfl⟩
  · cases h

theorem extendLast?_eq_none {declarations : List Declaration} (h : leavesOpen declarations = false)
    (instruction : Instruction) : extendLast? instruction declarations = none := by
  rw [leavesOpen] at h
  rw [extendLast?]
  cases hlast : declarations.getLast? with
  | none => rfl
  | some declaration =>
      cases declaration with
      | code sec =>
          rw [hlast] at h
          cases h
      | native native => rfl

section Line

variable {line : Nat} {later : List Token} {reading : Reading} {lexemes : List Lexeme}

theorem performs_perform (mnemonic : String) (argument : Option Argument) :
    Performs line later reading (fun _ => leavesOpen reading.declarations)
      (perform { mnemonic, argument, line }) []
      (if leavesOpen reading.declarations then .ok (.perform mnemonic argument)
        else .error (.outsideSection { mnemonic, argument, line })) := by
  rw [Performs, perform, run_bind, run_get]
  dsimp only [facing]
  cases hopen : leavesOpen reading.declarations with
  | false =>
      rw [extendLast?_eq_none hopen]
      refine ⟨[], reading.declarations, rfl, ?_, hopen⟩
      intro statement hstatement
      cases hstatement
  | true =>
      obtain ⟨earlier, sec, hdeclarations⟩ := exists_append_of_leavesOpen hopen
      rw [hdeclarations, extendLast?_append]
      refine ⟨[], _, rfl, ?_, leavesOpen_append earlier _⟩
      rintro _ ⟨⟩
      rw [extend, extendLast?_append]
      exact ⟨rfl, rfl⟩

variable (hlater : ∀ token ∈ later.head?, token.line ≠ line)
include hlater

theorem performs_nativeDeclaration :
    Performs line later reading
      (fun judgement => leavesOpen reading.declarations && judgement.toOption.isNone)
      (nativeDeclaration line) lexemes (Run.nativeDeclaration lexemes) := by
  have hopened (cause : LineFault.Cause) :
      (leavesOpen reading.declarations &&
          (Except.error cause : Except _ Statement).toOption.isNone) =
        leavesOpen reading.declarations :=
    Bool.and_true _
  refine (label_mirrors hlater).performs hopened fun name rest => ?_
  refine (identifier_mirrors hlater).performs hopened fun number rest => ?_
  refine performs_endOfLine hopened hlater ?_
  refine ⟨[], _, rfl, ?_, (leavesOpen_append reading.declarations _).trans ?_⟩
  · rintro _ ⟨⟩
    exact ⟨rfl, rfl⟩
  · exact (Bool.and_false _).symm

theorem performs_instruction (word : String) :
    Performs line later reading (fun _ => leavesOpen reading.declarations) (instruction word line)
      lexemes (Run.instruction (leavesOpen reading.declarations) line word lexemes) := by
  rw [instruction, Run.instruction]
  cases Operation.find? word with
  | none => exact performs_throw (fun _ => rfl) _
  | some operation =>
      refine (argument_mirrors hlater).performs (fun _ => rfl) fun argument rest => ?_
      refine performs_endOfLine (fun _ => rfl) hlater ?_
      refine performs_liftExcept (fun _ => rfl) fun _ => ?_
      exact performs_perform operation.mnemonic argument

end Line

theorem statement_performs {run : Run} {later : List Token}
    (hlater : ∀ token ∈ later.head?, token.line ≠ run.line) (reading : Reading) :
    ∃ opened, opened (run.statement (leavesOpen reading.declarations)) =
        run.leavesSectionOpen (leavesOpen reading.declarations) ∧
      Performs run.line later reading opened (statement { lexeme := run.first, line := run.line })
        run.rest (run.statement (leavesOpen reading.declarations)) := by
  rcases run with ⟨line, _ | _ | word | literal, rest⟩
  · exact ⟨_, rfl, performs_sectionHeader hlater⟩
  · exact ⟨_, rfl, performs_nativeDeclaration hlater⟩
  · exact ⟨_, rfl, performs_instruction hlater word⟩
  · exact ⟨fun _ => leavesOpen reading.declarations, rfl, performs_throw (fun _ => rfl) _⟩

/-- The fault of a judgement, with the line that it is about. -/
def faultOn (line : Nat) (judgement : Except LineFault.Cause Statement) : Option LineFault :=
  match judgement with
  | .ok _ => none
  | .error cause => some { line, cause }

/-- One turn of the loop takes one run, all of it and nothing behind it. -/
theorem turn_run {run : Run} {later : List Token}
    (hlater : ∀ token ∈ later.head?, token.line ≠ run.line) (declarations : List Declaration)
    (faults : Nat) :
    let judgement := run.statement (leavesOpen declarations)
    ∃ extended,
      turn { lexeme := run.first, line := run.line }
          { tokens := run.rest.map (fun lexeme => { lexeme, line := run.line }) ++ later,
            declarations, faults } =
        (faultOn run.line judgement,
          { tokens := later, declarations := extended,
            faults := faults + (faultOn run.line judgement).toList.length }) ∧
      (∀ statement, judgement = .ok statement →
        extended = extend declarations (run.line, statement)) ∧
      leavesOpen extended = run.leavesSectionOpen (leavesOpen declarations) := by
  obtain ⟨opened, hopened, left, extended, hrun, hextended, hopen⟩ :=
    statement_performs hlater { tokens := [], declarations, faults }
  refine ⟨extended, ?_, fun statement h => (hextended statement h).2, hopen.trans hopened⟩
  rw [turn]
  dsimp only [facing] at hrun
  rw [hrun]
  cases hjudgement : run.statement (leavesOpen declarations) with
  | ok statement =>
      obtain ⟨rfl, -⟩ := hextended statement hjudgement
      rfl
  | error cause =>
      simp only [Except.map, faultOn, skipLine, dropWhile_facing hlater]
      rfl

theorem line_ne_of_isChain {run : Run} {runs : List Run}
    (h : (run :: runs).IsChain fun a b => a.line ≠ b.line) :
    ∀ token ∈ (runs.flatMap Run.tokens).head?, token.line ≠ run.line := by
  cases runs with
  | nil => exact nofun
  | cons next runs =>
      rintro _ ⟨⟩
      exact (List.isChain_cons_cons.mp h).1.symm

theorem run_turn (first : Token) (tokens : List Token) (declarations : List Declaration)
    (faults : Nat) :
    run { tokens := first :: tokens, declarations, faults } =
      match turn first { tokens, declarations, faults } with
      | (none, after) => after.run
      | (some fault, after) =>
          { result := after.run.result, events := .lineFault fault :: after.run.events } := by
  rw [run]
  rcases turn first { tokens, declarations, faults } with ⟨_ | fault, after⟩ <;> rfl

theorem finish_eq (reading : Reading) :
    reading.finish =
      { result :=
          if reading.faults = 0 then .ok { declarations := reading.declarations }
          else .error (.malformedLines reading.faults)
        events := if reading.faults = 0 then [] else [.readingStopped reading.faults] } := by
  rw [finish]
  rcases Nat.eq_zero_or_pos reading.faults with hzero | hpos
  · simp only [hzero, lt_irrefl, if_false, if_true]
    rfl
  · simp only [hpos, hpos.ne', if_false, if_true]
    rfl

/-- Runs are read one after the other. Once one of them is faulty, it does not matter any more what
the others are read as. -/
theorem run_runs {runs : List Run} (hmaximal : runs.IsChain fun a b => a.line ≠ b.line)
    (declarations : List Declaration) (faults : Nat) :
    let judged := Judgements.mk (Judgements.ofRuns (leavesOpen declarations) runs)
    let count := faults + judged.faults.length
    run { tokens := runs.flatMap Run.tokens, declarations, faults } =
      { result :=
          if count = 0 then .ok { declarations := judged.statements.foldl extend declarations }
          else .error (.malformedLines count)
        events :=
          judged.faults.map .lineFault ++ if count = 0 then [] else [.readingStopped count] } := by
  induction runs generalizing declarations faults with
  | nil =>
      rw [List.flatMap_nil, run, finish_eq]
      rfl
  | cons next runs ih =>
      obtain ⟨extended, hturn, hextended, hopen⟩ :=
        turn_run (line_ne_of_isChain hmaximal) declarations faults
      have hrest := ih hmaximal.tail extended
      rw [hopen] at hrest
      rw [List.flatMap_cons, Run.tokens, List.map_cons, List.cons_append, run_turn, hturn,
        Judgements.ofRuns]
      cases hjudgement : next.statement (leavesOpen declarations) with
      | ok statement =>
          obtain rfl := hextended statement hjudgement
          exact hrest faults
      | error cause =>
          have hcount (later : Nat) : faults + 1 + later = faults + (later + 1) := by omega
          have hfaulty (later : Nat) : faults + (later + 1) ≠ 0 := by omega
          dsimp only [faultOn]
          rw [Option.toList_some, List.length_singleton, hrest]
          simp only [Judgements.faults_cons_error, List.length_cons, hcount, List.map_cons,
            List.cons_append, hfaulty, if_false]

/-- The declarations with instructions added to the last of them, if that is a section. -/
def attach (declarations : List Declaration) (instructions : List Instruction) :
    List Declaration :=
  match declarations.getLast? with
  | some (.code sec) =>
      declarations.dropLast ++
        [.code { sec with instructions := sec.instructions ++ instructions }]
  | _ => declarations

theorem attach_append_code (declarations : List Declaration) (sec : Section)
    (instructions : List Instruction) :
    attach (declarations ++ [.code sec]) instructions =
      declarations ++ [.code { sec with instructions := sec.instructions ++ instructions }] := by
  rw [attach, List.getLast?_concat]
  simp

theorem attach_of_not_leavesOpen {declarations : List Declaration}
    (h : leavesOpen declarations = false) (instructions : List Instruction) :
    attach declarations instructions = declarations := by
  rw [leavesOpen] at h
  rw [attach]
  split at h
  · cases h
  · rfl

theorem attach_nil (declarations : List Declaration) : attach declarations [] = declarations := by
  cases hopen : leavesOpen declarations with
  | false => exact attach_of_not_leavesOpen hopen []
  | true =>
      obtain ⟨earlier, sec, rfl⟩ := exists_append_of_leavesOpen hopen
      rw [attach_append_code, List.append_nil]

theorem attach_extend_perform (declarations : List Declaration) (line : Nat) (mnemonic : String)
    (argument : Option Argument) (instructions : List Instruction) :
    attach (extend declarations (line, .perform mnemonic argument)) instructions =
      attach declarations ({ mnemonic, argument, line } :: instructions) := by
  rw [extend]
  cases hopen : leavesOpen declarations with
  | false =>
      rw [extendLast?_eq_none hopen, Option.getD_none, attach_of_not_leavesOpen hopen,
        attach_of_not_leavesOpen hopen]
  | true =>
      obtain ⟨earlier, sec, rfl⟩ := exists_append_of_leavesOpen hopen
      rw [extendLast?_append, Option.getD_some, attach_append_code, attach_append_code,
        List.append_assoc, List.singleton_append]

theorem foldl_extend (statements : List (Nat × Statement)) (declarations : List Declaration) :
    statements.foldl extend declarations =
      attach declarations (statements.foldr Judgements.gather ([], [])).1 ++
        (statements.foldr Judgements.gather ([], [])).2 := by
  induction statements generalizing declarations with
  | nil => rw [List.foldl_nil, List.foldr_nil, attach_nil, List.append_nil]
  | cons statement statements ih =>
      rw [List.foldl_cons, ih, List.foldr_cons]
      rcases statement with ⟨line, name | ⟨name, identifier⟩ | ⟨mnemonic, argument⟩⟩
      · rw [extend, attach_append_code, Judgements.gather, attach_nil, List.append_assoc]
        rfl
      · rw [extend, attach_of_not_leavesOpen (leavesOpen_append _ _), Judgements.gather, attach_nil,
          List.append_assoc]
        rfl
      · rw [attach_extend_perform]
        rfl

/-- The loop comes to what its runs are judged to be. -/
theorem ofTokens_eq (tokens : List Token) :
    ofTokens tokens =
      { result := (Judgements.ofTokens tokens).result
        events := (Judgements.ofTokens tokens).events } := by
  have hpartition := Run.partition_all tokens
  have hrun := run_runs hpartition.maximal [] 0
  rw [hpartition.flatMap_tokens] at hrun
  refine hrun.trans ?_
  rw [Judgements.result, Judgements.events, Judgements.declarations]
  simp only [Nat.zero_add, List.length_eq_zero_iff, foldl_extend, List.isEmpty_iff]
  rfl

/-- The reading behind one more turn of the loop. -/
def advance (reading : Reading) : Reading :=
  match reading.tokens with
  | [] => reading
  | first :: tokens => (turn first { reading with tokens }).2

theorem advance_cons (first : Token) (tokens : List Token) (declarations : List Declaration)
    (faults : Nat) :
    advance { tokens := first :: tokens, declarations, faults } =
      (turn first { tokens, declarations, faults }).2 :=
  rfl

theorem result_run_advance (reading : Reading) :
    reading.advance.run.result = reading.run.result := by
  rcases reading with ⟨_ | ⟨first, tokens⟩, declarations, faults⟩
  · rfl
  · rw [run_turn, advance_cons]
    rcases turn first { tokens, declarations, faults } with ⟨_ | fault, after⟩ <;> rfl

theorem result_run_iterate (count : Nat) (reading : Reading) :
    (advance^[count] reading).run.result = reading.run.result := by
  induction count with
  | zero => rfl
  | succ count ih => rw [Function.iterate_succ_apply', result_run_advance, ih]

theorem result_run_of_nil {reading : Reading} (h : reading.tokens = []) :
    reading.run.result = reading.finish.result := by
  obtain ⟨tokens, declarations, faults⟩ := reading
  subst h
  rw [run]

theorem iterate_advance {earlier later : List Run}
    (hmaximal : (earlier ++ later).IsChain fun a b => a.line ≠ b.line)
    (declarations : List Declaration) (faults : Nat) :
    ∃ extended,
      advance^[earlier.length]
          { tokens := (earlier ++ later).flatMap Run.tokens, declarations, faults } =
        { tokens := later.flatMap Run.tokens
          declarations := extended
          faults := faults + (Judgements.mk
            (Judgements.ofRuns (leavesOpen declarations) earlier)).faults.length } := by
  induction earlier generalizing declarations faults with
  | nil => exact ⟨declarations, rfl⟩
  | cons next earlier ih =>
      rw [List.cons_append] at hmaximal
      obtain ⟨extended, hturn, -, hopen⟩ :=
        turn_run (line_ne_of_isChain hmaximal) declarations faults
      obtain ⟨final, hrest⟩ := ih hmaximal.tail extended
        (faults + (faultOn next.line (next.statement (leavesOpen declarations))).toList.length)
      refine ⟨final, ?_⟩
      have hadvance : advance
          { tokens := (next :: earlier ++ later).flatMap Run.tokens, declarations, faults } = _ :=
        congrArg Prod.snd hturn
      rw [List.length_cons, Function.iterate_succ_apply]
      refine (congrArg _ hadvance).trans (hrest.trans ?_)
      rw [hopen, Judgements.ofRuns]
      cases next.statement (leavesOpen declarations) with
      | ok statement => rfl
      | error cause =>
          simp only [faultOn, Judgements.faults_cons_error, List.length_cons, Option.toList_some,
            List.length_nil, Reading.mk.injEq, true_and]
          omega

end Reading

theorem Program.ofTokens_eq (tokens : List Token) :
    ofTokens tokens = (Judgements.ofTokens tokens).result := by
  rw [ofTokens, Reading.ofTokens_eq]

end StackAsm
