import Mathlib
import StackAsm.Proofs.Lines

namespace StackAsm.Text

/-- The bytes fall into the lines: each is ended by a line feed, but the last one need not be. -/
inductive FallsInto : List UInt8 → List (List UInt8) → Prop
  | nil : FallsInto [] []
  | last {line : List UInt8} (hne : line ≠ []) (hfree : lineFeed ∉ line) : FallsInto line [line]
  | cons {line rest : List UInt8} {lines : List (List UInt8)} (hfree : lineFeed ∉ line)
      (hrest : FallsInto rest lines) : FallsInto (line ++ lineFeed :: rest) (line :: lines)

/-- The words of a text: what stands between separators, the longest possible. -/
inductive Reads : List Char → List String → Prop
  | nil : Reads [] []
  | separator {c : Char} {text : List Char} {words : List String} (hc : isSeparator c = true)
      (htext : Reads text words) : Reads (c :: text) words
  | word {word : String} {text : List Char} {words : List String} (hne : word.toList ≠ [])
      (hword : ∀ c ∈ word.toList, isSeparator c = false)
      (hend : ∀ c ∈ text.head?, isSeparator c = true) (htext : Reads text words) :
      Reads (word.toList ++ text) (word :: words)

/-- The words of a line: those of the text before its first semicolon. -/
def ReadsLine (line : String) (words : List String) : Prop :=
  ∃ code comment, line.toList = code ++ comment ∧ ';' ∉ code ∧ (∀ c ∈ comment.head?, c = ';') ∧
    Reads code words

/-- The bytes are text, and the words are those of its lines. -/
def ReadsLines (source : List UInt8) (words : List (List String)) : Prop :=
  ∃ texts : List String, FallsInto source (texts.map encode) ∧ List.Forall₂ ReadsLine texts words

section Lines

theorem lines_append (line rest : List UInt8) (hfree : lineFeed ∉ line) :
    lines (line ++ lineFeed :: rest) = line :: lines rest := by
  have hne := List.splitOn_ne_nil lineFeed rest
  simp only [lines, List.splitOn_append_cons_self_of_not_mem hfree,
    List.getLast?_cons_of_ne_nil hne, List.dropLast_cons_of_ne_nil hne]
  split <;> rfl

theorem FallsInto.lines_eq {bytes : List UInt8} {pieces : List (List UInt8)}
    (h : FallsInto bytes pieces) : lines bytes = pieces := by
  induction h with
  | nil => rfl
  | last hne hfree => simp [lines, List.splitOn_eq_singleton hfree, hne]
  | cons hfree _ ih => rw [lines_append _ _ hfree, ih]

theorem exists_fallsInto (bytes : List UInt8) : ∃ pieces, FallsInto bytes pieces := by
  induction hlength : bytes.length using Nat.strongRecOn generalizing bytes with
  | _ length ih =>
      subst hlength
      by_cases hmem : lineFeed ∈ bytes
      · obtain ⟨line, rest, rfl, hfree⟩ := List.eq_append_cons_of_mem hmem
        obtain ⟨pieces, hpieces⟩ := ih rest.length (by simp; omega) rest rfl
        exact ⟨_, .cons hfree hpieces⟩
      · rcases eq_or_ne bytes [] with rfl | hne
        · exact ⟨[], .nil⟩
        · exact ⟨_, .last hne hmem⟩

theorem fallsInto_iff {bytes : List UInt8} {pieces : List (List UInt8)} :
    FallsInto bytes pieces ↔ lines bytes = pieces := by
  constructor
  · exact FallsInto.lines_eq
  · rintro rfl
    obtain ⟨pieces, hpieces⟩ := exists_fallsInto bytes
    exact hpieces.lines_eq ▸ hpieces

end Lines

section Words

theorem head_dropWhile {p : Char → Bool} {text : List Char} :
    ∀ c ∈ (text.dropWhile p).head?, p c = false := by
  intro c hc
  have hfalse := List.head?_dropWhile_not p text
  rw [hc] at hfalse
  simpa using hfalse

theorem wordsOf_cons_of_isSeparator {c : Char} (hc : isSeparator c = true) (text : List Char) :
    wordsOf (c :: text) = wordsOf text := by
  rw [wordsOf, List.splitOnP_cons_eq_if_modifyHead, if_pos hc]
  rfl

theorem wordsOf_append {word text : List Char} (hne : word ≠ [])
    (hword : ∀ c ∈ word, isSeparator c = false) (hend : ∀ c ∈ text.head?, isSeparator c = true) :
    wordsOf (word ++ text) = String.ofList word :: wordsOf text := by
  rcases text with _ | ⟨c, text⟩
  · rw [List.append_nil, wordsOf, List.splitOnP_eq_singleton hword]
    simp [wordsOf, hne]
  · have hc := hend c rfl
    rw [wordsOf_cons_of_isSeparator hc, wordsOf,
      List.splitOnP_append_cons_of_forall_mem hword c hc]
    simp [wordsOf, hne]

theorem Reads.wordsOf_eq {text : List Char} {words : List String} (h : Reads text words) :
    wordsOf text = words := by
  induction h with
  | nil => rfl
  | separator hc _ ih => rw [wordsOf_cons_of_isSeparator hc, ih]
  | word hne hword hend _ ih => rw [wordsOf_append hne hword hend, ih, String.ofList_toList]

theorem exists_word_append {c : Char} (hc : isSeparator c = false) (text : List Char) :
    ∃ (word : String) (rest : List Char), c :: text = word.toList ++ rest ∧ word.toList ≠ [] ∧
      (∀ d ∈ word.toList, isSeparator d = false) ∧ ∀ d ∈ rest.head?, isSeparator d = true := by
  refine ⟨String.ofList ((c :: text).takeWhile (!isSeparator ·)),
    (c :: text).dropWhile (!isSeparator ·), ?_⟩
  rw [String.toList_ofList]
  refine ⟨List.takeWhile_append_dropWhile.symm, by simp [hc], ?_, ?_⟩
  · intro d hd
    simpa using List.mem_takeWhile_imp hd
  · intro d hd
    simpa using head_dropWhile d hd

theorem exists_reads (text : List Char) : ∃ words, Reads text words := by
  induction hlength : text.length using Nat.strongRecOn generalizing text with
  | _ length ih =>
      subst hlength
      rcases text with _ | ⟨c, text⟩
      · exact ⟨[], .nil⟩
      · cases hc : isSeparator c with
        | true =>
            obtain ⟨words, hwords⟩ := ih text.length (by simp) text rfl
            exact ⟨words, .separator hc hwords⟩
        | false =>
            obtain ⟨word, rest, hsplit, hne, hword, hend⟩ := exists_word_append hc text
            have hlt : rest.length < (c :: text).length := by
              rw [hsplit, List.length_append]
              exact Nat.lt_add_of_pos_left (List.length_pos_of_ne_nil hne)
            obtain ⟨words, hwords⟩ := ih rest.length hlt rest rfl
            rw [hsplit]
            exact ⟨word :: words, .word hne hword hend hwords⟩

theorem reads_iff {text : List Char} {words : List String} :
    Reads text words ↔ wordsOf text = words := by
  constructor
  · exact Reads.wordsOf_eq
  · rintro rfl
    obtain ⟨words, hwords⟩ := exists_reads text
    exact hwords.wordsOf_eq ▸ hwords

theorem readsLine_iff {line : String} {words : List String} :
    ReadsLine line words ↔ Text.words line = words := by
  simp only [ReadsLine, reads_iff]
  constructor
  · rintro ⟨before, comment, hline, hfree, hcomment, hwords⟩
    have hcode : code line.toList = before := by
      rw [code, hline, List.takeWhile_append_of_pos fun c hc => by
        simpa using ne_of_mem_of_not_mem hc hfree]
      rcases comment with _ | ⟨c, comment⟩
      · simp
      · simp [hcomment c rfl]
    rw [Text.words, hcode, hwords]
  · intro hwords
    refine ⟨code line.toList, line.toList.dropWhile (· != ';'),
      List.takeWhile_append_dropWhile.symm, ?_, ?_, hwords⟩
    · intro hmem
      simpa using List.mem_takeWhile_imp hmem
    · intro c hc
      simpa using head_dropWhile c hc

end Words

section Encoding

theorem encode_eq_flatMap (text : String) :
    encode text = text.toList.flatMap String.utf8EncodeChar := by
  rw [encode, String.toUTF8_eq_toByteArray, ← String.utf8Encode_toList, List.utf8Encode,
    List.data_toByteArray]

theorem isValidUTF8_iff {bytes : List UInt8} :
    bytes.toByteArray.IsValidUTF8 ↔ ∃ text, encode text = bytes := by
  constructor
  · rintro ⟨chars, hchars⟩
    refine ⟨String.ofList chars, ?_⟩
    rw [encode_eq_flatMap, String.toList_ofList]
    simpa [List.utf8Encode, ByteArray.ext_iff, eq_comm] using hchars
  · rintro ⟨text, rfl⟩
    have hbytes : (encode text).toByteArray = text.toByteArray := by
      simp [encode, ByteArray.ext_iff]
    rw [hbytes]
    exact text.isValidUTF8

theorem decode?_eq_some_iff {bytes : List UInt8} {text : String} :
    decode? bytes = some text ↔ encode text = bytes := by
  constructor
  · intro h
    by_cases hvalid : bytes.toByteArray.IsValidUTF8
    · obtain ⟨own, rfl⟩ := isValidUTF8_iff.mp hvalid
      rw [decode?_encode] at h
      rw [Option.some.inj h]
    · rw [decode?, String.fromUTF8?, dif_neg hvalid] at h
      cases h
  · rintro rfl
    exact decode?_encode text

theorem encode_injective : Function.Injective encode := by
  intro a b h
  exact Option.some.inj ((decode?_encode a).symm.trans (decode?_eq_some_iff.mpr h.symm))

theorem exists_of_flatMap_eq_append {chars : List Char} {line rest : List UInt8}
    (h : chars.flatMap String.utf8EncodeChar = line ++ lineFeed :: rest) :
    (∃ before : List Char, before.flatMap String.utf8EncodeChar = line) ∧
      ∃ after : List Char, after.flatMap String.utf8EncodeChar = rest := by
  induction chars generalizing line with
  | nil => simp at h
  | cons c chars ih =>
      rw [List.flatMap_cons, List.append_eq_append_iff] at h
      rcases h with ⟨line, rfl, hrest⟩ | ⟨bytes, hc, hbytes⟩
      · obtain ⟨⟨before, rfl⟩, hafter⟩ := ih hrest
        exact ⟨⟨c :: before, rfl⟩, hafter⟩
      · rcases bytes with _ | ⟨byte, bytes⟩
        · obtain ⟨-, hafter⟩ := @ih [] hbytes.symm
          exact ⟨⟨[c], by simpa using hc⟩, hafter⟩
        · -- the line feed is one of the bytes of `c`, so it is `c`
          obtain ⟨rfl, rfl⟩ := List.cons.inj hbytes
          obtain rfl := eq_of_lineFeed_mem (c := c) (by simp [hc])
          have hline : [lineFeed] = line ++ lineFeed :: bytes := hc
          obtain ⟨rfl, -, rfl⟩ : line = [] ∧ _ := by
            simpa [List.append_eq_cons_iff, eq_comm] using hline
          exact ⟨⟨[], rfl⟩, chars, rfl⟩

theorem exists_encode_append_iff {line rest : List UInt8} :
    (∃ text, encode text = line ++ lineFeed :: rest) ↔
      (∃ text, encode text = line) ∧ ∃ text, encode text = rest := by
  constructor
  · rintro ⟨text, htext⟩
    rw [encode_eq_flatMap] at htext
    obtain ⟨⟨before, hbefore⟩, after, hafter⟩ := exists_of_flatMap_eq_append htext
    exact ⟨⟨String.ofList before, by rwa [encode_eq_flatMap, String.toList_ofList]⟩,
      String.ofList after, by rwa [encode_eq_flatMap, String.toList_ofList]⟩
  · rintro ⟨⟨before, rfl⟩, after, rfl⟩
    refine ⟨before ++ "\n" ++ after, ?_⟩
    rw [encode_append, encode_append, List.append_assoc]
    rfl

theorem FallsInto.exists_encode_iff {source : List UInt8} {pieces : List (List UInt8)}
    (h : FallsInto source pieces) :
    (∃ text, encode text = source) ↔ ∀ piece ∈ pieces, ∃ text, encode text = piece := by
  induction h with
  | nil => simpa using ⟨"", rfl⟩
  | last => simp
  | cons _ _ ih => rw [exists_encode_append_iff, ih, List.forall_mem_cons]

end Encoding

section Sources

variable {source : List UInt8} {words : List (List String)}

theorem forall₂_readsLine_iff {texts : List String} :
    List.Forall₂ ReadsLine texts words ↔ texts.map Text.words = words := by
  have hline : ReadsLine = fun line words => Text.words line = words := by
    funext line words
    exact propext readsLine_iff
  rw [hline, ← List.forall₂_map_left_iff (R := Eq), List.forall₂_eq_eq_eq]

theorem readsLines_iff :
    ReadsLines source words ↔
      ∃ texts : List String, lines source = texts.map encode ∧ texts.map Text.words = words := by
  simp only [ReadsLines, fallsInto_iff, forall₂_readsLine_iff]

theorem exists_readsLines_iff :
    (∃ words, ReadsLines source words) ↔ source.toByteArray.IsValidUTF8 := by
  have hlines : FallsInto source (lines source) := fallsInto_iff.mpr rfl
  simp only [isValidUTF8_iff, hlines.exists_encode_iff, readsLines_iff]
  constructor
  · rintro ⟨_, texts, htexts, -⟩ piece hpiece
    rw [htexts] at hpiece
    obtain ⟨text, -, htext⟩ := List.mem_map.mp hpiece
    exact ⟨text, htext⟩
  · intro h
    have hrange : lines source ∈ Set.range (List.map encode) := by
      rw [Set.range_list_map]
      exact h
    obtain ⟨texts, htexts⟩ := hrange
    exact ⟨_, texts, htexts.symm, rfl⟩

theorem ReadsLines.unique {other : List (List String)} (h : ReadsLines source words)
    (hother : ReadsLines source other) : words = other := by
  obtain ⟨texts, htexts, rfl⟩ := readsLines_iff.mp h
  obtain ⟨others, hothers, rfl⟩ := readsLines_iff.mp hother
  rw [encode_injective.list_map (htexts.symm.trans hothers)]

end Sources

end StackAsm.Text
