import Mathlib
import StackAsm.Proofs.Acceptance
import StackAsm.Proofs.Enumeration
import StackAsm.Proofs.Scanning

namespace StackAsm

namespace Text

/-- The bytes are no text, and the words are those of the lines before the first that is none. -/
def BreaksOff (source : List UInt8) (words : List (List String)) : Prop :=
  ∃ (texts : List String) (bad : List UInt8) (rest : List (List UInt8)),
    FallsInto source (texts.map encode ++ bad :: rest) ∧ ¬bad.toByteArray.IsValidUTF8 ∧
      List.Forall₂ ReadsLine texts words

theorem breaksOff_iff {source : List UInt8} {words : List (List String)} :
    BreaksOff source words ↔
      ∃ (texts : List String) (bad : List UInt8) (rest : List (List UInt8)),
        lines source = texts.map encode ++ bad :: rest ∧ decode? bad = none ∧
          texts.map Text.words = words := by
  have hbad (bad : List UInt8) : ¬bad.toByteArray.IsValidUTF8 ↔ decode? bad = none := by
    simp only [isValidUTF8_iff, Option.eq_none_iff_forall_ne_some, ne_eq, decode?_eq_some_iff,
      not_exists]
  simp only [BreaksOff, fallsInto_iff, forall₂_readsLine_iff, hbad]

theorem exists_encode_append_of_not {pieces : List (List UInt8)}
    (h : ¬∀ piece ∈ pieces, ∃ text, encode text = piece) :
    ∃ (texts : List String) (bad : List UInt8) (rest : List (List UInt8)),
      pieces = texts.map encode ++ bad :: rest ∧ decode? bad = none := by
  induction pieces with
  | nil => exact absurd (by simp) h
  | cons piece pieces ih =>
      cases hpiece : decode? piece with
      | none => exact ⟨[], piece, pieces, rfl, hpiece⟩
      | some text =>
          obtain rfl := decode?_eq_some_iff.mp hpiece
          rw [List.forall_mem_cons, not_and] at h
          obtain ⟨texts, bad, rest, rfl, hbad⟩ := ih (h ⟨text, rfl⟩)
          exact ⟨text :: texts, bad, rest, rfl, hbad⟩

theorem exists_breaksOff {source : List UInt8} (h : ¬source.toByteArray.IsValidUTF8) :
    ∃ words, BreaksOff source words := by
  have hlines : FallsInto source (lines source) := fallsInto_iff.mpr rfl
  rw [isValidUTF8_iff, hlines.exists_encode_iff] at h
  obtain ⟨texts, bad, rest, hsplit, hbad⟩ := exists_encode_append_of_not h
  exact ⟨_, breaksOff_iff.mpr ⟨texts, bad, rest, hsplit, hbad, rfl⟩⟩

theorem numbered_pairwise (first : Nat) (words : List (List String)) :
    (numbered first words).Pairwise fun a b => a.2 ≤ b.2 := by
  rw [numbered, List.pairwise_flatMap]
  constructor
  · rintro ⟨line, number⟩ -
    rw [List.pairwise_map]
    exact List.pairwise_of_forall fun _ _ => le_rfl
  · refine (Program.zipIdx_pairwise words first).imp ?_
    rintro ⟨line, i⟩ ⟨other, j⟩ hlt a ha b hb
    obtain ⟨_, -, rfl⟩ := List.mem_map.mp ha
    obtain ⟨_, -, rfl⟩ := List.mem_map.mp hb
    exact hlt.le

end Text

namespace Scan

/-- The word is the first of the line that has no class. -/
def FirstInvalid (line : List String) (word : String) : Prop :=
  ∃ before after, line = before ++ word :: after ∧
    (∀ other ∈ before, ¬Lexeme.Invalid other) ∧ Lexeme.Invalid word

/-- The faults are those of the lines with an invalid word, from the first to the last. Lines are
counted from one. -/
structure Blames (words : List (List String)) (faults : List InvalidWord) : Prop where
  ordered : faults.Pairwise fun a b => a.line < b.line
  mem_iff : ∀ fault, fault ∈ faults ↔
    1 ≤ fault.line ∧ ∃ line, words[fault.line - 1]? = some line ∧ FirstInvalid line fault.word

theorem ofWords_eq_error_iff {number : Nat} {line : List String} {fault : InvalidWord} :
    ofWords number line = .error fault ↔ fault.line = number ∧ FirstInvalid line fault.word := by
  rw [ofWords, Outcome.mapM_eq_error_iff]
  constructor
  · rintro ⟨before, word, after, hsplit, hbefore, hword⟩
    cases hlexeme : Lexeme.ofWord? word with
    | some lexeme => simp [hlexeme] at hword
    | none =>
        simp only [hlexeme] at hword
        cases hword
        refine ⟨rfl, before, after, hsplit, ?_, Lexeme.invalid_iff.mpr hlexeme⟩
        intro other hmem hinvalid
        obtain ⟨token, htoken⟩ := hbefore other hmem
        simp [Lexeme.invalid_iff.mp hinvalid] at htoken
  · rintro ⟨rfl, before, after, hsplit, hbefore, hword⟩
    refine ⟨before, fault.word, after, hsplit, ?_, ?_⟩
    · intro other hmem
      obtain ⟨lexeme, hlexeme⟩ :=
        Option.ne_none_iff_exists'.mp (Lexeme.invalid_iff.not.mp (hbefore other hmem))
      exact ⟨{ lexeme, line := fault.line }, by simp only [hlexeme]⟩
    · simp only [Lexeme.invalid_iff.mp hword]

theorem mem_faults_ofLines_iff {first : Nat} {words : List (List String)} {fault : InvalidWord} :
    fault ∈ (ofLines first words).faults ↔
      ∃ line, (line, fault.line) ∈ words.zipIdx first ∧ FirstInvalid line fault.word := by
  simp only [ofLines, List.filterMap_map, List.mem_filterMap, Function.comp_apply, Prod.exists]
  constructor
  · rintro ⟨line, number, hmem, h⟩
    cases hscanned : ofWords number line with
    | ok tokens => simp [hscanned] at h
    | error own =>
        rw [hscanned] at h
        cases h
        obtain ⟨rfl, hfirst⟩ := ofWords_eq_error_iff.mp hscanned
        exact ⟨line, hmem, hfirst⟩
  · rintro ⟨line, hmem, hfirst⟩
    refine ⟨line, fault.line, hmem, ?_⟩
    rw [ofWords_eq_error_iff.mpr ⟨rfl, hfirst⟩]

theorem blames_ofLines (words : List (List String)) : Blames words (ofLines 1 words).faults := by
  constructor
  · simp only [ofLines, List.filterMap_map, List.pairwise_filterMap]
    refine (Program.zipIdx_pairwise words 1).imp ?_
    rintro ⟨line, i⟩ ⟨other, j⟩ hlt a ha b hb
    cases hline : ofWords i line with
    | ok tokens => simp [hline] at ha
    | error fault =>
        cases hother : ofWords j other with
        | ok tokens => simp [hother] at hb
        | error otherFault =>
            simp only [Function.comp_apply, hline, hother, Option.some.injEq] at ha hb
            rw [← ha, ← hb, (ofWords_eq_error_iff.mp hline).1, (ofWords_eq_error_iff.mp hother).1]
            exact hlt
  · intro fault
    simp only [mem_faults_ofLines_iff, List.mk_mem_zipIdx_iff_le_and_getElem?_sub, and_assoc,
      exists_and_left]

theorem faults_ofSource_of_breaksOff {source : List UInt8} {words : List (List String)}
    (h : Text.BreaksOff source words) :
    (Survey.ofSource source).faults = (ofLines 1 words).faults := by
  obtain ⟨texts, bad, rest, hlines, hbad, rfl⟩ := Text.breaksOff_iff.mp h
  have hdecoded : (Text.lines source).map Text.decode? =
      texts.map some ++ none :: rest.map Text.decode? := by
    rw [hlines, List.map_append, List.map_cons, hbad, List.map_map]
    congr 1
    exact List.map_congr_left fun text _ => Text.decode?_encode text
  have htexts : ((texts.map some ++ none :: rest.map Text.decode?).takeWhile
      Option.isSome).filterMap id = texts := by
    rw [List.takeWhile_append_of_pos (by simp), List.takeWhile_cons_of_neg (by simp),
      List.append_nil, List.filterMap_map]
    simp
  rw [Survey.ofSource, hdecoded]
  simp only [Survey.ofDecoded, htexts, ofTexts_eq]
  rfl

/-- There is one token for each word, on its line and of its only class. -/
def Transcribes (words : List (List String)) (tokens : List Token) : Prop :=
  List.Forall₂ (fun (word, number) token =>
      token.line = number ∧ ∀ lexeme, Lexeme.Spells word lexeme ↔ lexeme = token.lexeme)
    (Text.numbered 1 words) tokens

section Transcribes

variable {words : List (List String)} {tokens : List Token}

theorem Transcribes.pairwise_line (h : Transcribes words tokens) :
    tokens.Pairwise fun a b => a.line ≤ b.line := by
  have hlines : (Text.numbered 1 words).map Prod.snd = tokens.map Token.line := by
    rw [← List.forall₂_eq_eq_eq, List.forall₂_map_left_iff, List.forall₂_map_right_iff]
    exact h.imp fun _ _ hline => hline.1.symm
  have hsorted := List.pairwise_map.mpr (Text.numbered_pairwise 1 words)
  rw [hlines, List.pairwise_map] at hsorted
  exact hsorted

theorem Transcribes.hexShaped (h : Transcribes words tokens) :
    ∀ token ∈ tokens, token.lexeme.HexShaped := by
  intro token htoken
  obtain ⟨⟨word, number⟩, -, -, hclass⟩ := Outcome.exists_of_forall₂ h.flip htoken
  have hspells := (hclass token.lexeme).mpr rfl
  cases hlexeme : token.lexeme with
  | sectionKeyword => trivial
  | nativeKeyword => trivial
  | word name => trivial
  | number literal =>
      rw [hlexeme] at hspells
      rcases literal with ⟨_ | _ | _ | _, text⟩
      case hex =>
        cases hspells with
        | number hpattern => exact hpattern
      all_goals trivial

end Transcribes

end Scan

namespace Run

theorem Partition.pairwise_line {tokens : List Token} {runs : List Run} (h : Partition tokens runs)
    (hsorted : tokens.Pairwise fun a b => a.line ≤ b.line) :
    runs.Pairwise fun a b => a.line < b.line := by
  have hle : runs.Pairwise fun a b => a.line ≤ b.line := by
    rw [← h.flatMap_tokens, List.pairwise_flatMap] at hsorted
    refine hsorted.2.imp ?_
    intro a b hab
    exact hab { lexeme := a.first, line := a.line } List.mem_cons_self
      { lexeme := b.first, line := b.line } List.mem_cons_self
  have hne := h.maximal
  have : IsTrans Run fun a b => a.line < b.line := ⟨fun _ _ _ => lt_trans⟩
  rw [← List.isChain_iff_pairwise, List.isChain_iff_forall_rel_of_append_cons_cons]
  rw [List.isChain_iff_forall_rel_of_append_cons_cons] at hne
  intro a b before after hsplit
  apply lt_of_le_of_ne
  · exact List.isChain_iff_forall_rel_of_append_cons_cons.mp hle.isChain hsplit
  · exact hne hsplit

theorem illFormed_sublist (earlier runs : List Run) : (illFormed earlier runs).Sublist runs := by
  induction runs generalizing earlier with
  | nil => exact .slnil
  | cons run runs ih =>
      rw [illFormed]
      split
      · exact (ih _).cons _
      · exact (ih _).cons_cons _

theorem mem_illFormed_iff {earlier runs : List Run} {run : Run} :
    run ∈ illFormed earlier runs ↔
      ∃ before after, runs = before ++ run :: after ∧ ¬run.WellFormed (earlier ++ before) := by
  induction runs generalizing earlier with
  | nil => simp [illFormed]
  | cons first runs ih =>
      have hstep : run ∈ illFormed earlier (first :: runs) ↔
          (run = first ∧ ¬first.WellFormed earlier) ∨
            run ∈ illFormed (earlier ++ [first]) runs := by
        rw [illFormed]
        split
        · next h => simp [h]
        · next h => simp [h]
      rw [hstep, ih]
      constructor
      · rintro (⟨rfl, hill⟩ | ⟨before, after, rfl, hill⟩)
        · exact ⟨[], runs, rfl, by rwa [List.append_nil]⟩
        · refine ⟨first :: before, after, rfl, ?_⟩
          rwa [List.append_cons]
      · rintro ⟨_ | ⟨own, before⟩, after, hsplit, hill⟩
        · cases hsplit
          rw [List.append_nil] at hill
          exact .inl ⟨rfl, hill⟩
        · cases hsplit
          rw [List.append_cons] at hill
          exact .inr ⟨before, after, rfl, hill⟩

/-- The lines are those of the runs that are no statements where they stand, from the first to the
last. -/
structure Blames (runs : List Run) (lines : List Nat) : Prop where
  ordered : lines.Pairwise (· < ·)
  mem_iff : ∀ line, line ∈ lines ↔
    ∃ earlier run later, runs = earlier ++ run :: later ∧ run.line = line ∧ ¬run.WellFormed earlier

theorem blames_illFormed {runs : List Run} (h : runs.Pairwise fun a b => a.line < b.line) :
    Blames runs ((illFormed [] runs).map Run.line) := by
  constructor
  · rw [List.pairwise_map]
    exact h.sublist (illFormed_sublist [] runs)
  · intro line
    simp only [List.mem_map, mem_illFormed_iff, List.nil_append]
    constructor
    · rintro ⟨run, ⟨earlier, later, hsplit, hill⟩, hline⟩
      exact ⟨earlier, run, later, hsplit, hline, hill⟩
    · rintro ⟨earlier, run, later, hsplit, hline, hill⟩
      exact ⟨run, ⟨earlier, later, hsplit, hill⟩, hline⟩

end Run

end StackAsm
