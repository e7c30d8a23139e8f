import Mathlib
import StackAsm.Proofs.Outcome
import StackAsm.Proofs.Shapes
import StackAsm.Proofs.Splitting
import StackAsm.Proofs.Survey

namespace StackAsm

namespace Lexeme

/-- The word is written for the lexeme: it has the pattern of its class, and its text is kept. -/
inductive Spells : String → Lexeme → Prop
  | sectionKeyword : Spells "section" .sectionKeyword
  | nativeKeyword : Spells "native" .nativeKeyword
  | word {name : String} (hname : IsLabel name) : Spells name (.word name)
  | number {literal : Literal} (hliteral : literal.text.toList ∈ Pattern.literal literal.kind) :
      Spells literal.text (.number literal)

/-- The word is no keyword and has none of the patterns. -/
structure Invalid (word : String) : Prop where
  notSection : word ≠ "section"
  notNative : word ≠ "native"
  notLiteral : ∀ kind, word.toList ∉ Pattern.literal kind
  notLabel : word.toList ∉ Pattern.label

theorem spells_iff {word : String} {lexeme : Lexeme} :
    Spells word lexeme ↔ ofWord? word = some lexeme := by
  constructor
  · intro h
    cases h with
    | sectionKeyword => rfl
    | nativeKeyword => rfl
    | word hname => exact ofWord?_of_isLabel hname
    | number hliteral => exact ofWord?_of_mem_literal hliteral
  · intro h
    unfold ofWord? at h
    split at h
    · next hsection =>
      cases h
      exact hsection ▸ .sectionKeyword
    · next hsection =>
      split at h
      · next hnative =>
        cases h
        exact hnative ▸ .nativeKeyword
      · next hnative =>
        split at h
        · next literal hliteral =>
          cases h
          obtain ⟨rfl, hpattern⟩ := Literal.ofWord?_eq_some_iff.mp hliteral
          exact .number hpattern
        · split at h
          · next hname =>
            cases h
            exact .word ⟨isName_iff_mem.mp hname, hsection, hnative⟩
          · cases h

theorem invalid_iff {word : String} : Invalid word ↔ ofWord? word = none := by
  simp only [Option.eq_none_iff_forall_ne_some, ne_eq, ← spells_iff]
  constructor
  · rintro ⟨hsection, hnative, hliteral, hlabel⟩ lexeme h
    cases h with
    | sectionKeyword => exact hsection rfl
    | nativeKeyword => exact hnative rfl
    | word hname => exact hlabel hname.pattern
    | number hpattern => exact hliteral _ hpattern
  · intro h
    have hsection : word ≠ "section" := by
      rintro rfl
      exact h _ .sectionKeyword
    have hnative : word ≠ "native" := by
      rintro rfl
      exact h _ .nativeKeyword
    refine ⟨hsection, hnative, ?_, ?_⟩
    · intro kind hpattern
      exact h _ (@Spells.number { kind, text := word } hpattern)
    · intro hpattern
      exact h _ (.word ⟨hpattern, hsection, hnative⟩)

instance : DecidablePred Invalid := fun _ => decidable_of_iff _ invalid_iff.symm

end Lexeme

namespace Text

/-- The words of some lines, each with the number of its line. The first line has the given number.
-/
def numbered (first : Nat) (words : List (List String)) : List (String × Nat) :=
  (words.zipIdx first).flatMap fun (line, number) => line.map fun word => (word, number)

theorem numbered_cons (first : Nat) (line : List String) (words : List (List String)) :
    numbered first (line :: words) =
      (line.map fun word => (word, first)) ++ numbered (first + 1) words := by
  rw [numbered, List.zipIdx_cons, List.flatMap_cons]
  rfl

theorem exists_of_mem_numbered {first : Nat} {words : List (List String)}
    {entry : String × Nat} (h : entry ∈ numbered first words) : ∃ line ∈ words, entry.1 ∈ line := by
  obtain ⟨⟨line, number⟩, hline, hentry⟩ := List.mem_flatMap.mp h
  obtain ⟨word, hword, rfl⟩ := List.mem_map.mp hentry
  exact ⟨line, List.fst_mem_of_mem_zipIdx hline, hword⟩

end Text

namespace Scan

/-- A line with a word of no class. -/
def InvalidLine (line : List String) : Prop :=
  ∃ word ∈ line, Lexeme.Invalid word

instance : DecidablePred InvalidLine := fun _ => inferInstanceAs (Decidable (∃ _ ∈ _, _))

/-- The token of a numbered word, if it has a class. -/
def token? (entry : String × Nat) : Option Token :=
  (Lexeme.ofWord? entry.1).map fun lexeme => { lexeme, line := entry.2 }

theorem token?_eq_some_iff {entry : String × Nat} {token : Token} :
    token? entry = some token ↔
      token.line = entry.2 ∧ ∀ lexeme, Lexeme.Spells entry.1 lexeme ↔ lexeme = token.lexeme := by
  simp only [token?, Option.map_eq_some_iff, Lexeme.spells_iff]
  constructor
  · rintro ⟨lexeme, hlexeme, rfl⟩
    simp [hlexeme, eq_comm]
  · rintro ⟨hline, hlexeme⟩
    exact ⟨token.lexeme, (hlexeme _).mpr rfl, by rw [← hline]⟩

theorem forall₂_token? {first : Nat} {words : List (List String)}
    (h : ∀ line ∈ words, ¬InvalidLine line) :
    List.Forall₂ (fun entry token => token? entry = some token) (Text.numbered first words)
      ((Text.numbered first words).filterMap token?) := by
  have hrange : (Text.numbered first words).map token? ∈ Set.range (List.map some) := by
    rw [Set.range_list_map]
    intro outcome houtcome
    obtain ⟨entry, hentry, rfl⟩ := List.mem_map.mp houtcome
    obtain ⟨line, hline, hword⟩ := Text.exists_of_mem_numbered hentry
    have hvalid : ¬Lexeme.Invalid entry.1 := fun hinvalid => h line hline ⟨_, hword, hinvalid⟩
    obtain ⟨lexeme, hlexeme⟩ := Option.ne_none_iff_exists'.mp (Lexeme.invalid_iff.not.mp hvalid)
    exact ⟨{ lexeme, line := entry.2 }, by rw [token?, hlexeme]; rfl⟩
  obtain ⟨tokens, htokens⟩ := hrange
  have hfilter : (Text.numbered first words).filterMap token? = tokens := calc
    _ = ((Text.numbered first words).map token?).filterMap id := by
      rw [List.filterMap_map, Function.id_comp]
    _ = tokens := by
      rw [← htokens, List.filterMap_map]
      exact List.filterMap_some
  rw [hfilter, ← List.forall₂_map_left_iff (R := (· = some ·)),
    ← List.forall₂_map_right_iff (R := Eq), List.forall₂_eq_eq_eq, htokens]

def ofWords (number : Nat) (line : List String) : Except InvalidWord (List Token) :=
  line.mapM fun word =>
    match Lexeme.ofWord? word with
    | some lexeme => .ok { lexeme, line := number }
    | none => .error { word, line := number }

/-- All that scanning finds out about lines of words, the first of which has the given number. -/
def ofLines (first : Nat) (words : List (List String)) : Survey :=
  let scanned := (words.zipIdx first).map fun (line, number) => ofWords number line
  { tokens := scanned.flatMap fun outcome => outcome.toOption.getD []
    faults := scanned.filterMap fun outcome =>
      match outcome with
      | .ok _ => none
      | .error fault => some fault
    readable := true }

theorem ofWords_eq_ok {number : Nat} {line : List String} (h : ¬InvalidLine line) :
    ofWords number line = .ok ((line.map fun word => (word, number)).filterMap token?) := by
  rw [ofWords, Outcome.mapM_eq_ok_iff]
  induction line with
  | nil => exact .nil
  | cons word line ih =>
      simp only [InvalidLine, List.exists_mem_cons_iff, not_or] at h ih
      obtain ⟨lexeme, hlexeme⟩ := Option.ne_none_iff_exists'.mp (Lexeme.invalid_iff.not.mp h.1)
      have htoken : token? (word, number) = some { lexeme, line := number } := by
        rw [token?, hlexeme]
        rfl
      rw [List.map_cons, List.filterMap_cons_some htoken]
      refine .cons ?_ (ih h.2)
      simp only [hlexeme]

theorem exists_ofWords_eq_error {number : Nat} {line : List String} (h : InvalidLine line) :
    ∃ fault, ofWords number line = .error fault := by
  cases hscanned : ofWords number line with
  | error fault => exact ⟨fault, rfl⟩
  | ok tokens =>
      obtain ⟨word, hword, hinvalid⟩ := h
      obtain ⟨_, -, htoken⟩ := Outcome.exists_of_mapM_eq_ok hscanned hword
      rw [Lexeme.invalid_iff] at hinvalid
      simp [hinvalid] at htoken

theorem ofLines_cons (first : Nat) (line : List String) (words : List (List String)) :
    (¬InvalidLine line ∧
      (ofLines first (line :: words)).tokens =
        (line.map fun word => (word, first)).filterMap token? ++
          (ofLines (first + 1) words).tokens ∧
      (ofLines first (line :: words)).faults = (ofLines (first + 1) words).faults) ∨
    InvalidLine line ∧
      ∃ fault, (ofLines first (line :: words)).faults =
        fault :: (ofLines (first + 1) words).faults := by
  by_cases h : InvalidLine line
  · obtain ⟨fault, hfault⟩ := @exists_ofWords_eq_error first _ h
    refine .inr ⟨h, fault, ?_⟩
    simp [ofLines, List.zipIdx_cons, hfault]
  · refine .inl ⟨h, ?_, ?_⟩
    · simp [ofLines, List.zipIdx_cons, ofWords_eq_ok h, Except.toOption]
    · simp [ofLines, List.zipIdx_cons, ofWords_eq_ok h]

theorem length_faults_ofLines (first : Nat) (words : List (List String)) :
    (ofLines first words).faults.length = words.countP (InvalidLine ·) := by
  induction words generalizing first with
  | nil => rfl
  | cons line words ih =>
      rcases ofLines_cons first line words with ⟨h, -, hfaults⟩ | ⟨h, fault, hfaults⟩
      · rw [hfaults, ih, List.countP_cons_of_neg (by simpa using h)]
      · rw [hfaults, List.length_cons, ih, List.countP_cons_of_pos (by simpa using h)]

theorem tokens_ofLines (first : Nat) {words : List (List String)}
    (h : ∀ line ∈ words, ¬InvalidLine line) :
    (ofLines first words).tokens = (Text.numbered first words).filterMap token? := by
  induction words generalizing first with
  | nil => rfl
  | cons line words ih =>
      obtain ⟨hline, hwords⟩ := List.forall_mem_cons.mp h
      rcases ofLines_cons first line words with ⟨-, htokens, -⟩ | ⟨hinvalid, -⟩
      · rw [htokens, ih _ hwords, Text.numbered_cons, List.filterMap_append]
      · exact absurd hinvalid hline

/-- Lines that are read one by one are refused for each line with an invalid word, and else give a
token for each word. -/
theorem result_ofLines (first : Nat) (words : List (List String)) :
    (ofLines first words).result =
      if words.countP (InvalidLine ·) = 0 then .ok ((Text.numbered first words).filterMap token?)
      else .error (.malformedLines (words.countP (InvalidLine ·))) := by
  have hlength := length_faults_ofLines first words
  have hreadable : (ofLines first words).readable = true := rfl
  split
  · next hcount =>
    have hvalid : ∀ line ∈ words, ¬InvalidLine line := by
      simpa [List.countP_eq_zero] using hcount
    rw [hcount, List.length_eq_zero_iff] at hlength
    simp [Survey.result, hreadable, hlength, tokens_ofLines first hvalid]
  · next hcount =>
    have hne : (ofLines first words).faults ≠ [] := by
      rwa [ne_eq, ← List.length_eq_zero_iff, hlength]
    simp [Survey.result, hreadable, hne, hlength]

theorem ofTexts_eq (first : Nat) (texts : List String) :
    Survey.ofTexts first texts =
      ((texts.map Text.words).zipIdx first).map fun (line, number) => ofWords number line := by
  rw [Survey.ofTexts, List.zipIdx_map, List.map_map]
  rfl

section Source

variable {source : List UInt8} {words : List (List String)}

theorem ofSource_of_readsLines (h : Text.ReadsLines source words) :
    Survey.ofSource source = ofLines 1 words := by
  obtain ⟨texts, hlines, rfl⟩ := Text.readsLines_iff.mp h
  have hdecoded : (Text.lines source).map Text.decode? = texts.map some := by
    rw [hlines, List.map_map]
    exact List.map_congr_left fun text _ => Text.decode?_encode text
  have htexts : ((texts.map some).takeWhile Option.isSome).filterMap id = texts := by
    rw [List.takeWhile_eq_self_iff.mpr (by simp), List.filterMap_map]
    simp
  have hreadable : (texts.map some).all Option.isSome = true := by simp
  rw [Survey.ofSource, hdecoded]
  simp only [Survey.ofDecoded, htexts, ofTexts_eq, hreadable]
  rfl

theorem readable_iff :
    (Survey.ofSource source).readable = true ↔ source.toByteArray.IsValidUTF8 := by
  have hlines : Text.FallsInto source (Text.lines source) := Text.fallsInto_iff.mpr rfl
  simp only [Survey.ofSource, Survey.ofDecoded, List.all_map, List.all_eq_true,
    Function.comp_apply, Option.isSome_iff_exists, Text.decode?_eq_some_iff, Text.isValidUTF8_iff,
    hlines.exists_encode_iff]

theorem result_eq_unreadable_iff :
    (ofSource source).result = .error (.unreadable .notUtf8) ↔
      ¬source.toByteArray.IsValidUTF8 := by
  rw [← readable_iff, ofSource_eq, Survey.result]
  cases (Survey.ofSource source).readable with
  | false => simp
  | true => cases (Survey.ofSource source).faults <;> simp

end Source

/-- What scanning a source with the given words comes to. -/
structure Reports (words : List (List String)) (result : Except Fault (List Token)) : Prop where
  /-- Every line with an invalid word counts once. -/
  invalid : 0 < words.countP (InvalidLine ·) →
    result = .error (.malformedLines (words.countP (InvalidLine ·)))
  /-- Each word has a token of its only class. -/
  valid : words.countP (InvalidLine ·) = 0 → ∃ tokens, result = .ok tokens ∧
    List.Forall₂ (fun (word, number) token =>
        token.line = number ∧ ∀ lexeme, Lexeme.Spells word lexeme ↔ lexeme = token.lexeme)
      (Text.numbered 1 words) tokens

theorem reports_of_readsLines {source : List UInt8} {words : List (List String)}
    (h : Text.ReadsLines source words) : Reports words (ofSource source).result := by
  rw [ofSource_eq, ofSource_of_readsLines h, result_ofLines]
  constructor
  · intro hcount
    rw [if_neg hcount.ne']
  · intro hcount
    rw [if_pos hcount]
    have hvalid : ∀ line ∈ words, ¬InvalidLine line := by
      simpa [List.countP_eq_zero] using hcount
    exact ⟨_, rfl, (forall₂_token? hvalid).imp fun _ _ => token?_eq_some_iff.mp⟩

/-- The outcome of scanning, whatever the bytes are. Only bytes that are no text at all are refused
as such, and text falls into lines and words in one way. -/
theorem ofSource_reports (source : List UInt8) :
    ((ofSource source).result = .error (.unreadable .notUtf8) ↔
      ¬source.toByteArray.IsValidUTF8) ∧
    (source.toByteArray.IsValidUTF8 → ∃! words, Text.ReadsLines source words) ∧
    ∀ words, Text.ReadsLines source words → Reports words (ofSource source).result := by
  refine ⟨result_eq_unreadable_iff, ?_, fun _ => reports_of_readsLines⟩
  intro hvalid
  obtain ⟨words, hwords⟩ := Text.exists_readsLines_iff.mpr hvalid
  exact ⟨words, hwords, fun _ hother => hother.unique hwords⟩

end Scan

end StackAsm
