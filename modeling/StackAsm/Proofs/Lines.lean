import Mathlib
import StackAsm.Text.Lines

namespace StackAsm.Text

theorem encode_append (a b : String) : encode (a ++ b) = encode a ++ encode b := by
  simp [encode]

theorem encode_join (texts : List String) :
    encode (String.join texts) = texts.flatMap encode := by
  induction texts with
  | nil => rfl
  | cons text texts ih => rw [String.join_cons, encode_append, ih, List.flatMap_cons]

theorem decode?_encode (text : String) : decode? (encode text) = some text := by
  have hbytes : (encode text).toByteArray = text.toByteArray := by
    simp [encode, ByteArray.ext_iff]
  rw [decode?, hbytes, String.fromUTF8?, dif_pos text.isValidUTF8]
  rfl

/-- Of the encoded characters only the line feed itself has its byte: the bytes of a character
with more than one are all above those of ASCII. -/
theorem eq_of_lineFeed_mem {c : Char} (h : lineFeed ∈ String.utf8EncodeChar c) : c = '\n' := by
  have hlineFeed : lineFeed.toNat = 10 := rfl
  unfold String.utf8EncodeChar at h
  dsimp only at h
  split_ifs at h <;>
    simp only [List.mem_cons, List.not_mem_nil, or_false, ← UInt8.toNat_inj, UInt8.toNat_ofNat',
      hlineFeed] at h
  · rw [← Char.toNat_inj]
    change c.val.toNat = 10
    omega
  all_goals omega

theorem lineFeed_notMem_encode {text : String} (h : '\n' ∉ text.toList) :
    lineFeed ∉ encode text := by
  intro hmem
  rw [encode, String.toUTF8_eq_toByteArray, ← String.utf8Encode_toList, List.utf8Encode,
    List.data_toByteArray, List.mem_flatMap] at hmem
  obtain ⟨c, hc, hbyte⟩ := hmem
  exact h (eq_of_lineFeed_mem hbyte ▸ hc)

theorem splitOn_terminated {pieces : List (List UInt8)} (h : ∀ piece ∈ pieces, lineFeed ∉ piece) :
    (pieces.flatMap (· ++ [lineFeed])).splitOn lineFeed = pieces ++ [[]] := by
  induction pieces with
  | nil => rfl
  | cons piece pieces ih =>
      rw [List.flatMap_cons, List.append_assoc, List.singleton_append,
        List.splitOn_append_cons_self_of_not_mem (h piece List.mem_cons_self),
        ih fun other hmem => h other (List.mem_cons_of_mem _ hmem), List.cons_append]

theorem lines_encode_join {texts : List String} (h : ∀ text ∈ texts, '\n' ∉ text.toList) :
    lines (encode (String.join (texts.map (· ++ "\n")))) = texts.map encode := by
  have hbytes : encode (String.join (texts.map (· ++ "\n"))) =
      (texts.map encode).flatMap (· ++ [lineFeed]) := by
    rw [encode_join, List.flatMap_map, List.flatMap_map]
    exact List.flatMap_congr fun text _ => encode_append text "\n"
  have hpieces : ∀ piece ∈ texts.map encode, lineFeed ∉ piece := by
    intro piece hmem
    obtain ⟨text, htext, rfl⟩ := List.mem_map.mp hmem
    exact lineFeed_notMem_encode (h text htext)
  rw [lines, hbytes, splitOn_terminated hpieces]
  simp

/-- A visible character of ASCII that neither separates words nor begins a comment. -/
structure IsPlain (c : Char) : Prop where
  lower : 0x21 ≤ c.toNat
  upper : c.toNat ≤ 0x7E
  comma : c ≠ ','
  semicolon : c ≠ ';'

theorem IsPlain.isSeparator_eq_false {c : Char} (h : IsPlain c) : isSeparator c = false := by
  obtain ⟨hlower, hupper, hcomma, -⟩ := h
  simp [isSeparator, isBlank, whiteSpace, hcomma]
  omega

theorem IsPlain.ne_lineFeed {c : Char} (h : IsPlain c) : c ≠ '\n' := by
  rintro rfl
  exact absurd h.lower (by decide)

/-- A text that is one word wherever it stands between separators. -/
structure IsWord (word : String) : Prop where
  nonempty : word.toList ≠ []
  plain : ∀ c ∈ word.toList, IsPlain c

theorem splitOnP_intercalate {words : List String} (h : ∀ word ∈ words, IsWord word)
    (hwords : words ≠ []) :
    ([' '].intercalate (words.map String.toList)).splitOnP isSeparator =
      words.map String.toList := by
  induction words with
  | nil => exact absurd rfl hwords
  | cons word words ih =>
      have hword : ∀ c ∈ word.toList, isSeparator c = false := fun c hc =>
        ((h word List.mem_cons_self).plain c hc).isSeparator_eq_false
      rcases words with _ | ⟨other, words⟩
      · rw [List.map_cons, List.map_nil, List.intercalate_singleton,
          List.splitOnP_eq_singleton hword]
      · have hrest := ih (fun w hmem => h w (List.mem_cons_of_mem _ hmem)) (List.cons_ne_nil _ _)
        rw [List.map_cons, List.map_cons, List.intercalate_cons_cons, List.append_assoc,
          List.singleton_append, List.splitOnP_append_cons_of_forall_mem hword ' ' (by decide),
          ← List.map_cons, hrest]

theorem mem_intercalate {words : List String} {c : Char}
    (h : c ∈ (" ".intercalate words).toList) : c = ' ' ∨ ∃ word ∈ words, c ∈ word.toList := by
  induction words with
  | nil => simp at h
  | cons word words ih =>
      rcases words with _ | ⟨other, words⟩
      · exact .inr ⟨word, List.mem_cons_self, by simpa using h⟩
      · rw [String.intercalate_cons_cons, String.toList_append, String.toList_append,
          List.mem_append, List.mem_append] at h
        rcases h with (h | h) | h
        · exact .inr ⟨word, List.mem_cons_self, h⟩
        · exact .inl (by simpa using h)
        · obtain hspace | ⟨found, hmem, hc⟩ := ih h
          · exact .inl hspace
          · exact .inr ⟨found, List.mem_cons_of_mem _ hmem, hc⟩

section Words

variable {words : List String} (h : ∀ word ∈ words, IsWord word)
include h

theorem lineFeed_notMem_intercalate : '\n' ∉ (" ".intercalate words).toList := by
  intro hmem
  obtain hspace | ⟨word, hword, hc⟩ := mem_intercalate hmem
  · exact absurd hspace (by decide)
  · exact ((h word hword).plain _ hc).ne_lineFeed rfl

theorem words_intercalate : Text.words (" ".intercalate words) = words := by
  have hcode : code (" ".intercalate words).toList = (" ".intercalate words).toList := by
    rw [code, List.takeWhile_eq_self_iff]
    intro c hc
    obtain rfl | ⟨word, hword, hc⟩ := mem_intercalate hc
    · rfl
    · simpa using ((h word hword).plain c hc).semicolon
  rw [Text.words, hcode, wordsOf, String.toList_intercalate]
  change List.map _ (List.filter _ (List.splitOnP _ ([' '].intercalate _))) = words
  rcases eq_or_ne words [] with rfl | hwords
  · rfl
  · rw [splitOnP_intercalate h hwords, List.filter_eq_self.mpr, List.map_map]
    · simp [Function.comp_def]
    · intro text hmem
      obtain ⟨word, hword, rfl⟩ := List.mem_map.mp hmem
      simpa using (h word hword).nonempty

end Words

end StackAsm.Text
