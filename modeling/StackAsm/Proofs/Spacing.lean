import Mathlib
import StackAsm.Proofs.Renumbering
import StackAsm.Proofs.Scanning

namespace StackAsm

namespace Text

/-- The lines that hold words, each with its number. The first of all lines has the given number.
-/
def filled (first : Nat) (words : List (List String)) : List (List String × Nat) :=
  (words.zipIdx first).filter (·.1 ≠ [])

theorem filled_cons_nil (first : Nat) (words : List (List String)) :
    filled first ([] :: words) = filled (first + 1) words := by
  simp [filled, List.zipIdx_cons]

theorem filled_cons {line : List String} (hline : line ≠ []) (first : Nat)
    (words : List (List String)) :
    filled first (line :: words) = (line, first) :: filled (first + 1) words := by
  simp [filled, List.zipIdx_cons, hline]

theorem nodup_filled (first : Nat) (words : List (List String)) :
    ((filled first words).map Prod.snd).Nodup := by
  have hnodup : ((words.zipIdx first).map Prod.snd).Nodup := by
    rw [List.zipIdx_map_snd]
    exact List.nodup_range'
  exact hnodup.sublist (List.filter_sublist.map Prod.snd)

theorem exists_renumbering {words : List (List String)} {numbers : List Nat}
    (hlength : (filled 1 words).length = numbers.length) :
    ∃ f : Nat → Nat, ((filled 1 words).map Prod.snd).map f = numbers := by
  set own := (filled 1 words).map Prod.snd with hown
  refine ⟨fun number => numbers.getD (own.idxOf number) 0, ?_⟩
  apply List.ext_getElem
  · rw [List.length_map, hown, List.length_map, hlength]
  · intro i hi hnumbers
    have hnodup : own.Nodup := nodup_filled 1 words
    simp [hnodup.idxOf_getElem, hnumbers]

theorem numbered_eq (first : Nat) (words : List (List String)) :
    numbered first words =
      (filled first words).flatMap fun (line, number) => line.map fun word => (word, number) := by
  induction words generalizing first with
  | nil => rfl
  | cons line words ih =>
      rw [numbered_cons, ih]
      rcases eq_or_ne line [] with rfl | hline
      · rw [filled_cons_nil]
        rfl
      · rw [filled_cons hline, List.flatMap_cons]

end Text

namespace Scan

theorem countP_filled (first : Nat) (words : List (List String)) :
    (Text.filled first words).countP (InvalidLine ·.1) = words.countP (InvalidLine ·) := by
  induction words generalizing first with
  | nil => rfl
  | cons line words ih =>
      rcases eq_or_ne line [] with rfl | hline
      · rw [Text.filled_cons_nil, ih, List.countP_cons_of_neg (by simp [InvalidLine])]
      · rw [Text.filled_cons hline, List.countP_cons, List.countP_cons, ih]

section Moved

variable {f : Nat → Nat} {words others : List (List String)}
  (h : Text.filled 1 others = (Text.filled 1 words).map (Prod.map id f))
include h

theorem result_ofLines_moved :
    (ofLines 1 others).result = (ofLines 1 words).result.map (List.map (Token.moved f)) := by
  have hcount : others.countP (InvalidLine ·) = words.countP (InvalidLine ·) := by
    rw [← countP_filled 1 others, ← countP_filled 1 words, h, List.countP_map]
    rfl
  have hnumbered : Text.numbered 1 others = (Text.numbered 1 words).map (Prod.map id f) := by
    rw [Text.numbered_eq, Text.numbered_eq, h, List.flatMap_map, List.map_flatMap]
    refine List.flatMap_congr fun entry _ => ?_
    rw [List.map_map]
    rfl
  have htokens : (Text.numbered 1 others).filterMap token? =
      ((Text.numbered 1 words).filterMap token?).map (Token.moved f) := by
    rw [hnumbered, List.filterMap_map, List.map_filterMap]
    refine List.filterMap_congr fun entry _ => ?_
    simp only [Function.comp_apply, token?, Option.map_map]
    rfl
  rw [result_ofLines, result_ofLines, hcount, htokens]
  split <;> rfl

end Moved

theorem line_of_mem_result {first : Nat} {words : List (List String)} {tokens : List Token}
    (h : (ofLines first words).result = .ok tokens) {token : Token} (hmem : token ∈ tokens) :
    token.line ∈ (Text.filled first words).map Prod.snd := by
  rw [result_ofLines] at h
  split at h
  · cases h
    obtain ⟨entry, hentry, htoken⟩ := List.mem_filterMap.mp hmem
    rw [Text.numbered_eq, List.mem_flatMap] at hentry
    obtain ⟨⟨line, number⟩, hline, hword⟩ := hentry
    obtain ⟨word, -, rfl⟩ := List.mem_map.mp hword
    rw [(token?_eq_some_iff.mp htoken).1]
    exact List.mem_map_of_mem hline
  · cases h

end Scan

/-- Sources with the same words in their lines, blank ones left out, assemble to the same image, or
have the same fault up to the numbers of these lines. -/
theorem Assembly.ofSource_respaced {source other : List UInt8} {words others : List (List String)}
    (hsource : Text.ReadsLines source words) (hother : Text.ReadsLines other others)
    (hsame : (Text.filled 1 others).map Prod.fst = (Text.filled 1 words).map Prod.fst) :
    (∃ f : Nat → Nat, ((Text.filled 1 words).map Prod.snd).map f =
      (Text.filled 1 others).map Prod.snd) ∧
    ∀ f : Nat → Nat, ((Text.filled 1 words).map Prod.snd).map f =
        (Text.filled 1 others).map Prod.snd →
      ofSource other = (ofSource source).mapError (Fault.moved f) := by
  constructor
  · apply Text.exists_renumbering
    simpa using (congrArg List.length hsame).symm
  · intro f hf
    have hpairs (entries : List (List String × Nat)) :
        (entries.map Prod.fst).zip (entries.map Prod.snd) = entries := by
      simpa [List.unzip_eq_map] using List.zip_unzip entries
    have hfilled : Text.filled 1 others = (Text.filled 1 words).map (Prod.map id f) := by
      rw [← hpairs (Text.filled 1 others), hsame, ← hf, ← hpairs ((Text.filled 1 words).map _)]
      simp only [List.map_map]
      rfl
    have hresult := Scan.result_ofLines_moved hfilled
    rw [← Scan.ofSource_of_readsLines hsource, ← Scan.ofSource_of_readsLines hother] at hresult
    rw [ofSource_eq, ofSource_eq, Program.ofSource_eq, Program.ofSource_eq, Scan.ofSource_eq,
      Scan.ofSource_eq, hresult]
    cases hscan : (Survey.ofSource source).result with
    | error fault =>
        rcases Survey.result_eq_error hscan with rfl | ⟨count, rfl⟩ <;> rfl
    | ok tokens =>
        apply Program.bind_ofTokens_moved
        rw [Scan.ofSource_of_readsLines hsource] at hscan
        have hinjective := List.inj_on_of_nodup_map (hf ▸ Text.nodup_filled 1 others)
        intro a ha b hb
        exact hinjective (Scan.line_of_mem_result hscan ha) (Scan.line_of_mem_result hscan hb)

/-- A source with comments, blank lines and no line feed at its end. -/
def Text.roomy : List UInt8 :=
  encode "; prints\n  section main ; entry\n\n\tCALL print,\n ;\nHALT"

/-- The same words with other line ends and separators. -/
def Text.tight : List UInt8 :=
  encode "section,main\r\nCALL print;,\r\nHALT\n"

theorem Assembly.roomy_respaced :
    Text.ReadsLines Text.roomy [[], ["section", "main"], [], ["CALL", "print"], [], ["HALT"]] ∧
      Text.ReadsLines Text.tight [["section", "main"], ["CALL", "print"], ["HALT"]] ∧
      ofSource Text.roomy = .error (.symbols [.unknownSymbol "print" 4]) ∧
      ofSource Text.tight = .error (.symbols [.unknownSymbol "print" 2]) ∧
      ∀ f : Nat → Nat, [2, 4, 6].map f = [1, 2, 3] →
        ofSource Text.tight = (ofSource Text.roomy).mapError (Fault.moved f) := by
  have hroomy : Text.ReadsLines Text.roomy
      [[], ["section", "main"], [], ["CALL", "print"], [], ["HALT"]] :=
    Text.readsLines_iff.mpr
      ⟨["; prints", "  section main ; entry", "", "\tCALL print,", " ;", "HALT"],
        by decide +kernel, by decide +kernel⟩
  have htight : Text.ReadsLines Text.tight [["section", "main"], ["CALL", "print"], ["HALT"]] :=
    Text.readsLines_iff.mpr
      ⟨["section,main\r", "CALL print;,\r", "HALT"], by decide +kernel, by decide +kernel⟩
  refine ⟨hroomy, htight, by decide +kernel, by decide +kernel, ?_⟩
  exact (ofSource_respaced hroomy htight (by decide)).2

end StackAsm
