import Mathlib
import StackAsm.Assembly
import StackAsm.Proofs.FaultyLines
import StackAsm.Proofs.Sources

/-!
Diagnostics. The records of errors that are logged while a source is assembled are told by what
becomes of the source: each faulty line or name has one record, in order, and a summary with their
number follows, unless the source broke off.
-/

namespace StackAsm

namespace Event

/-- The records of errors among what is logged for some events. -/
def errors (events : List Event) : List LogRecord :=
  (events.map record).filter (·.severity = .error)

theorem errors_append (events others : List Event) :
    errors (events ++ others) = errors events ++ errors others := by
  simp only [errors, List.map_append, List.filter_append]

theorem errors_eq_nil {events : List Event} (h : ∀ event ∈ events, event.severity ≠ .error) :
    errors events = [] := by
  rw [errors, List.filter_eq_nil_iff, List.forall_mem_map]
  intro event hmem hsame
  exact h event hmem (of_decide_eq_true hsame)

theorem errors_map {α : Type} {event : α → Event} {blame : α → LogRecord}
    (hrecord : ∀ x, (event x).record = blame x) (hblame : ∀ x, (blame x).severity = .error)
    (xs : List α) : errors (xs.map event) = xs.map blame := by
  have hrecords : (xs.map event).map record = xs.map blame := by
    rw [List.map_map]
    exact List.map_congr_left fun x _ => hrecord x
  rw [errors, hrecords, List.filter_eq_self, List.forall_mem_map]
  intro x _
  exact decide_eq_true (hblame x)

end Event

namespace LineFault

/-- The message speaks of the line: the number of the line stands in it as a whole. -/
def Names (message : String) (line : Nat) : Prop :=
  ∃ before after : String, message = before ++ " on line " ++ toString line ++ after ∧
    ∀ c ∈ after.toList.head?, c.isDigit = false

theorem names_message (fault : LineFault) : Names fault.message fault.line := by
  have hnames (before after : String) (hafter : ∀ c ∈ after.toList.head?, c.isDigit = false) :
      Names (before ++ onLine fault.line ++ after) fault.line :=
    ⟨before, after, by simp only [onLine, String.append_assoc], hafter⟩
  rcases fault with ⟨line, cause⟩
  cases cause with
  | strayLiteral text =>
      simpa [message] using hnames ("unexpected numeric literal " ++ quoted text) "" (by simp)
  | literalForLabel text =>
      simpa [message, String.append_assoc] using
        hnames "expected a label" (", got literal " ++ quoted text) (by simp)
  | keywordForLabel =>
      simpa [message] using hnames "expected a label" ", got a keyword" (by simp)
  | missingLabel =>
      simpa [message] using hnames "expected a label" "" (by simp)
  | trailingToken =>
      simpa [message] using hnames "unexpected trailing token" "" (by simp)
  | wideIdentifier text =>
      simpa [message] using
        hnames ("native identifier " ++ quoted text) " does not fit in 32 bits" (by simp)
  | identifierNotHex =>
      simpa [message] using hnames "native identifier" " must be a hex literal" (by simp)
  | missingIdentifier =>
      simpa [message] using hnames "expected a native identifier" "" (by simp)
  | unknownMnemonic word =>
      simpa [message] using hnames ("unknown mnemonic " ++ quoted word) "" (by simp)
  | keywordForArgument =>
      simpa [message] using hnames "unexpected keyword in argument position" "" (by simp)
  | argumentRequired mnemonic =>
      simpa [message] using hnames mnemonic " requires an argument" (by simp)
  | argumentRefused mnemonic =>
      simpa [message] using hnames mnemonic " takes no argument" (by simp)
  | badLiteral literal =>
      simpa [message] using hnames literal.message "" (by simp)
  | outsideSection instruction =>
      simpa [message] using
        hnames ("instruction " ++ quoted instruction.text) " is outside of a section" (by simp)

end LineFault

/-- What is logged for a word that has no class. -/
def InvalidWord.blame (fault : InvalidWord) : LogRecord :=
  { target := "slap::assembler::lexer"
    severity := .error
    message := "invalid token `" ++ fault.word ++ "` on line " ++ toString fault.line }

/-- What is logged for a violated rule about names. -/
def SymbolFault.blame (fault : SymbolFault) : LogRecord :=
  { target := "slap::assembler::validator", severity := .error, message := fault.message }

theorem Event.record_invalidWord (fault : InvalidWord) :
    (invalidWord fault).record = fault.blame := by
  have hbefore : "invalid token `" = "invalid token " ++ "`" := by simp only [String.reduceAppend]
  have hafter : "` on line " = "`" ++ " on line " := by simp only [String.reduceAppend]
  have hmessage : (invalidWord fault).message = fault.message := rfl
  rw [record, InvalidWord.blame, LogRecord.mk.injEq, hmessage, hbefore, hafter]
  refine ⟨?_, rfl, ?_⟩
  · simp only [target, assemblerTarget, String.reduceAppend]
  · simp only [InvalidWord.message, quoted, onLine, String.append_assoc]

theorem Survey.errors_events (survey : Survey) :
    Event.errors survey.events =
      survey.faults.map InvalidWord.blame ++
        if survey.readable = true ∧ survey.faults ≠ [] then
          [{ target := "slap::assembler::lexer"
             severity := .error
             message :=
               "stopped assembly due to " ++ toString survey.faults.length ++ " lexer error(s)" }]
        else [] := by
  rw [events, Event.errors_append, Event.errors_map Event.record_invalidWord fun _ => rfl]
  congr 1
  cases hreadable : survey.readable with
  | false => simp [Event.errors]
  | true =>
      cases survey.faults with
      | nil => simp [Event.errors, Event.record, Event.severity]
      | cons fault faults => rfl

theorem Scan.errors_events (source : List UInt8) :
    Event.errors (ofSource source).events = Event.errors (Survey.ofSource source).events := by
  rw [ofSource_eq]

namespace Judgements

theorem errors_events (judgements : Judgements) :
    Event.errors judgements.events =
      judgements.faults.map (fun fault => (Event.lineFault fault).record) ++
        if judgements.faults = [] then []
        else
          [{ target := "slap::assembler::parser"
             severity := .error
             message :=
               "stopped assembly due to " ++ toString judgements.faults.length ++
                 " parsing error(s)" }] := by
  rw [events, Event.errors_append, Event.errors_map (fun _ => rfl) fun _ => rfl]
  congr 1
  cases judgements.faults with
  | nil => rfl
  | cons fault faults => rfl

end Judgements

namespace Program

theorem record_symbolFault (fault : SymbolFault) :
    (Event.symbolFault fault).record = fault.blame := by
  rw [Event.record, SymbolFault.blame, LogRecord.mk.injEq]
  refine ⟨?_, rfl, rfl⟩
  simp only [Event.target, Event.assemblerTarget, String.reduceAppend]

theorem errors_build (program : Program) (table : SymbolTable) :
    Event.errors (program.build table).events = [] := by
  have hreference (reference : Position × Instruction × String) :
      (Resolutions.referenceReport table.layOut reference).Logs (·.severity ≠ .error) :=
    (Report.Logs.of_silent _).bind fun _ =>
      (Report.Logs.of_log (by simp [Event.severity])).bind fun _ => .of_pure _
  have hemit (resolutions : Resolutions) (image : List UInt8) (placed : Position × Instruction) :
      (emit resolutions image placed).Logs (·.severity ≠ .error) :=
    (Report.Logs.of_silent _).bind fun _ =>
      (Report.Logs.of_log (by simp [Event.severity])).bind fun _ => .of_pure _
  apply Event.errors_eq_nil
  have hresolved : (Resolutions.report program table).Logs (·.severity ≠ .error) :=
    (Report.Logs.mapM hreference program.references).bind fun _ => .of_pure _
  refine hresolved.mapFault.bind fun resolutions => ?_
  have himage : (program.imageReport resolutions).Logs (·.severity ≠ .error) :=
    Report.Logs.foldlM (hemit resolutions) [] program.instructions
  refine himage.mapFault.bind fun bytes => ?_
  exact (Report.Logs.of_log (by simp [Event.severity])).bind fun _ => .of_pure _

theorem errors_assemblyEvents (program : Program) :
    Event.errors program.assemblyEvents =
      ((SymbolTable.ofProgram program).check program).map SymbolFault.blame ++
        if (SymbolTable.ofProgram program).check program = [] then []
        else [{ target := "slap::assembler"
                severity := .error
                message := "symbol validation failed" }] := by
  have hcollected : Event.errors (SymbolTable.collectionEvents program) = [] := by
    apply Event.errors_eq_nil
    rw [SymbolTable.collectionEvents, List.forall_mem_map]
    intro declaration _
    cases declaration <;> simp [Event.severity]
  have hchecked : Event.errors ((SymbolTable.ofProgram program).checkEvents program) =
      ((SymbolTable.ofProgram program).check program).map SymbolFault.blame :=
    Event.errors_map record_symbolFault (fun _ => rfl) _
  have hassembling (declarations : Nat) (events : List Event) :
      Event.errors (.assembling declarations :: events) = Event.errors events := by
    simp [Event.errors, Event.record, Event.severity]
  rw [assemblyEvents, report, Report.log_bind, Report.logAll_bind, Report.logAll_bind, hassembling,
    Event.errors_append, Event.errors_append, hcollected, hchecked, List.nil_append]
  congr 1
  cases (SymbolTable.ofProgram program).check program with
  | nil => exact errors_build program (SymbolTable.ofProgram program)
  | cons fault faults => rfl

end Program

namespace Assembly

/-- The records of errors that go with what becomes of a source. -/
inductive Diagnosed (source : List UInt8) : Except Fault Assembly → List LogRecord → Prop
  | accepted (assembly : Assembly) : Diagnosed source (.ok assembly) []
  /-- What comes before the first line that is no text is scanned, but not counted. -/
  | brokenOff {words : List (List String)} {faults : List InvalidWord}
      (hwords : Text.BreaksOff source words) (hfaults : Scan.Blames words faults) :
      Diagnosed source (.error (.unreadable .notUtf8)) (faults.map InvalidWord.blame)
  | scanned {words : List (List String)} {faults : List InvalidWord}
      (hwords : Text.ReadsLines source words) (hfaults : Scan.Blames words faults)
      (hne : faults ≠ []) :
      Diagnosed source (.error (.malformedLines faults.length))
        (faults.map InvalidWord.blame ++
          [{ target := "slap::assembler::lexer"
             severity := .error
             message :=
               "stopped assembly due to " ++ toString faults.length ++ " lexer error(s)" }])
  | read {words : List (List String)} {tokens : List Token} {runs : List Run} {lines : List Nat}
      {records : List LogRecord} (hwords : Text.ReadsLines source words)
      (hvalid : ∀ line ∈ words, ¬Scan.InvalidLine line) (htokens : Scan.Transcribes words tokens)
      (hruns : Run.Partition tokens runs) (hlines : Run.Blames runs lines) (hne : lines ≠ [])
      (hrecords : List.Forall₂ (fun line record =>
        record.target = "slap::assembler::parser" ∧ record.severity = .error ∧
          LineFault.Names record.message line) lines records) :
      Diagnosed source (.error (.malformedLines lines.length))
        (records ++
          [{ target := "slap::assembler::parser"
             severity := .error
             message :=
               "stopped assembly due to " ++ toString lines.length ++ " parsing error(s)" }])
  | checked {faults : List SymbolFault} (hne : faults ≠ []) :
      Diagnosed source (.error (.symbols faults))
        (faults.map SymbolFault.blame ++
          [{ target := "slap::assembler"
             severity := .error
             message := "symbol validation failed" }])

section Stages

variable {source : List UInt8}

theorem errors_events_of_error {fault : Fault} (h : (Scan.ofSource source).result = .error fault) :
    ofSource source = .error fault ∧
      Event.errors (events source) = Event.errors (Survey.ofSource source).events := by
  have hprogram : (Program.sourceReport source).result = .error fault := by
    rw [Program.sourceReport, Report.result_bind, h]
    rfl
  constructor
  · rw [ofSource, report, Report.result_bind, hprogram]
    rfl
  · rw [events, report, Report.events_bind, hprogram, Program.sourceReport, Report.events_bind, h,
      ← Scan.errors_events]
    simp only [List.append_nil]

theorem errors_events_of_ok {tokens : List Token} (h : (Scan.ofSource source).result = .ok tokens) :
    ofSource source = (Program.ofTokens tokens).bind Program.assemble ∧
      Event.errors (events source) =
        Event.errors (Judgements.ofTokens tokens).events ++
          Event.errors (match Program.ofTokens tokens with
            | .error _ => []
            | .ok program => program.assemblyEvents) := by
  have hprogram : (Program.sourceReport source).result = Program.ofTokens tokens := by
    rw [Program.sourceReport, Report.result_bind, h]
    rfl
  have hscan : Event.errors (Scan.ofSource source).events = [] := by
    have hfaults : (Survey.ofSource source).faults = [] := by
      rw [Scan.ofSource_eq] at h
      exact Survey.faults_of_result h
    rw [Scan.errors_events, Survey.errors_events, hfaults]
    simp
  have hread : Event.errors (Program.sourceReport source).events =
      Event.errors (Judgements.ofTokens tokens).events := by
    rw [Program.sourceReport, Report.events_bind, h, Event.errors_append, hscan, List.nil_append]
    exact congrArg (fun report => Event.errors report.events) (Reading.ofTokens_eq tokens)
  constructor
  · rw [ofSource, report, Report.result_bind, hprogram]
    rfl
  · rw [events, report, Report.events_bind, Event.errors_append, hread, hprogram]
    cases Program.ofTokens tokens <;> rfl

theorem diagnosed_of_breaksOff {words : List (List String)} (h : Text.BreaksOff source words)
    (hinvalid : ¬source.toByteArray.IsValidUTF8) :
    Diagnosed source (ofSource source) (Event.errors (events source)) := by
  obtain ⟨hresult, herrors⟩ := errors_events_of_error (Scan.result_eq_unreadable_iff.mpr hinvalid)
  have hreadable : (Survey.ofSource source).readable ≠ true := Scan.readable_iff.not.mpr hinvalid
  rw [hresult, herrors, Survey.errors_events, if_neg fun h => hreadable h.1, List.append_nil]
  apply Diagnosed.brokenOff h
  rw [Scan.faults_ofSource_of_breaksOff h]
  exact Scan.blames_ofLines words

theorem diagnosed_of_invalidLine {words : List (List String)} (h : Text.ReadsLines source words)
    (hcount : words.countP (Scan.InvalidLine ·) ≠ 0) :
    Diagnosed source (ofSource source) (Event.errors (events source)) := by
  have hlength := Scan.length_faults_ofLines 1 words
  have hne : (Scan.ofLines 1 words).faults ≠ [] := by
    rwa [ne_eq, ← List.length_eq_zero_iff, hlength]
  have hscan : (Scan.ofSource source).result =
      .error (.malformedLines (Scan.ofLines 1 words).faults.length) := by
    rw [Scan.ofSource_eq, Scan.ofSource_of_readsLines h, Scan.result_ofLines, if_neg hcount,
      hlength]
  obtain ⟨hresult, herrors⟩ := errors_events_of_error hscan
  rw [hresult, herrors, Survey.errors_events, Scan.ofSource_of_readsLines h, if_pos ⟨rfl, hne⟩]
  exact .scanned h (Scan.blames_ofLines words) hne

theorem diagnosed_of_check {program : Program}
    (h : ∀ instruction ∈ program.instructions.map Prod.snd, instruction.Canonical) :
    Diagnosed source program.assemble (Event.errors program.assemblyEvents) := by
  rw [Program.errors_assemblyEvents]
  by_cases hcheck : (SymbolTable.ofProgram program).check program = []
  · have hsound := Program.check_ofProgram_eq_nil_iff.mp hcheck
    obtain ⟨assembly, hassembly⟩ :=
      Program.exists_assemble_iff.mpr ⟨hsound, fun _ hmem => (h _ hmem).wellFormed⟩
    rw [if_pos hcheck, hcheck, hassembly]
    exact .accepted assembly
  · rw [if_neg hcheck,
      Program.assemble_of_not_soundNames (Program.check_ofProgram_eq_nil_iff.not.mp hcheck)]
    exact .checked hcheck

theorem diagnosed_of_transcribes {words : List (List String)} {tokens : List Token}
    (h : Text.ReadsLines source words) (hvalid : ∀ line ∈ words, ¬Scan.InvalidLine line)
    (htokens : Scan.Transcribes words tokens)
    (hscan : (Scan.ofSource source).result = .ok tokens) :
    Diagnosed source (ofSource source) (Event.errors (events source)) := by
  obtain ⟨hresult, herrors⟩ := errors_events_of_ok hscan
  have hruns := Run.partition_all tokens
  have hblames := Run.blames_illFormed (hruns.pairwise_line htokens.pairwise_line)
  have hreported := Judgements.faults_of_partition htokens.hexShaped hruns
  rw [hresult, herrors, Judgements.errors_events]
  by_cases hfaults : (Judgements.ofTokens tokens).faults = []
  · obtain ⟨program, hprogram⟩ : ∃ program, Program.ofTokens tokens = .ok program :=
      ⟨_, (Program.ofTokens_eq tokens).trans (if_pos (List.isEmpty_iff.mpr hfaults))⟩
    rw [hprogram, hfaults]
    exact diagnosed_of_check fun _ => Program.canonical_of_ofTokens hprogram
  · have hprogram : Program.ofTokens tokens =
        .error (.malformedLines (Judgements.ofTokens tokens).faults.length) :=
      (Program.ofTokens_eq tokens).trans (if_neg (mt List.isEmpty_iff.mp hfaults))
    have hlength := (Judgements.ofTokens tokens).faults.length_map LineFault.line
    rw [← hreported] at hblames
    rw [hprogram, if_neg hfaults, ← hlength]
    change Diagnosed source (.error _) (_ ++ [])
    rw [List.append_nil]
    refine .read h hvalid htokens hruns hblames (mt List.map_eq_nil_iff.mp hfaults) ?_
    rw [List.forall₂_map_left_iff, List.forall₂_map_right_iff, List.forall₂_same]
    intro fault _
    refine ⟨?_, rfl, fault.names_message⟩
    simp only [Event.record, Event.target, Event.assemblerTarget, String.reduceAppend]

end Stages

/-- What is reported of a source, whatever its bytes are. -/
theorem ofSource_diagnosed (source : List UInt8) :
    Diagnosed source (ofSource source) (Event.errors (events source)) := by
  by_cases hvalid : source.toByteArray.IsValidUTF8
  · obtain ⟨words, hwords⟩ := Text.exists_readsLines_iff.mpr hvalid
    by_cases hcount : words.countP (Scan.InvalidLine ·) = 0
    · have hlines : ∀ line ∈ words, ¬Scan.InvalidLine line := by
        simpa [List.countP_eq_zero] using hcount
      obtain ⟨tokens, hscan, htokens⟩ := (Scan.reports_of_readsLines hwords).valid hcount
      exact diagnosed_of_transcribes hwords hlines htokens hscan
    · exact diagnosed_of_invalidLine hwords hcount
  · obtain ⟨words, hwords⟩ := Text.exists_breaksOff hvalid
    exact diagnosed_of_breaksOff hwords hvalid

end Assembly

end StackAsm
