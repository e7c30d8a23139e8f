import Mathlib
import StackAsm.Proofs.Judgements

/-!
Tokens in runs. A run has no empty or mixed forms, so tokens fall into runs in one way only, if
neighbouring runs are to be on different lines: the way in which they are read.
-/

namespace StackAsm

namespace Run

def tokens (run : Run) : List Token :=
  (run.first :: run.rest).map fun lexeme => { lexeme, line := run.line }

/-- The tokens are those of the runs, and each run goes on as long as the line stays the same. -/
structure Partition (tokens : List Token) (runs : List Run) : Prop where
  flatMap_tokens : runs.flatMap Run.tokens = tokens
  maximal : runs.IsChain fun a b => a.line ≠ b.line

theorem ofTokens?_tokens (run : Run) : ofTokens? run.tokens = some run := by
  simp [ofTokens?, tokens, Function.comp_def]

theorem tokens_ne_nil (run : Run) : run.tokens ≠ [] := by
  simp [tokens]

theorem line_of_mem_tokens {run : Run} {token : Token} (h : token ∈ run.tokens) :
    token.line = run.line := by
  obtain ⟨lexeme, -, rfl⟩ := List.mem_map.mp h
  rfl

theorem Partition.forall_lexeme {tokens : List Token} {runs : List Run} {p : Lexeme → Prop}
    (h : Partition tokens runs) (hp : ∀ token ∈ tokens, p token.lexeme) :
    ∀ run ∈ runs, ∀ lexeme ∈ run.first :: run.rest, p lexeme := by
  intro run hrun lexeme hlexeme
  apply hp { lexeme, line := run.line }
  rw [← h.flatMap_tokens, List.mem_flatMap]
  exact ⟨run, hrun, List.mem_map_of_mem hlexeme⟩

theorem all_flatMap_tokens {runs : List Run} (h : runs.IsChain fun a b => a.line ≠ b.line) :
    all (runs.flatMap tokens) = runs := by
  have hsplit : (runs.map tokens).flatten.splitBy (fun a b => a.line == b.line) =
      runs.map tokens := by
    apply List.splitBy_flatten
    · intro hnil
      obtain ⟨run, -, hrun⟩ := List.mem_map.mp hnil
      exact run.tokens_ne_nil hrun
    · intro group hgroup
      obtain ⟨run, -, rfl⟩ := List.mem_map.mp hgroup
      apply List.Pairwise.isChain
      rw [List.pairwise_iff_forall_sublist]
      intro a b hab
      have ha := line_of_mem_tokens (hab.subset (List.mem_cons_self))
      have hb := line_of_mem_tokens (hab.subset (List.mem_cons_of_mem _ List.mem_cons_self))
      simp [ha, hb]
    · rw [List.isChain_map]
      refine h.imp ?_
      intro a b hab
      refine ⟨a.tokens_ne_nil, b.tokens_ne_nil, ?_⟩
      rw [line_of_mem_tokens (List.getLast_mem a.tokens_ne_nil),
        line_of_mem_tokens (List.head_mem b.tokens_ne_nil)]
      simpa using hab
  rw [all, List.flatMap_def, hsplit, List.filterMap_map]
  simp only [Function.comp_def, ofTokens?_tokens, List.filterMap_some]

theorem exists_tokens_eq {group : List Token} (hne : group ≠ [])
    (hline : group.IsChain fun a b => (a.line == b.line) = true) :
    ∃ run : Run, run.tokens = group := by
  obtain ⟨token, rest, rfl⟩ := List.exists_cons_of_ne_nil hne
  refine ⟨{ line := token.line, first := token.lexeme, rest := rest.map Token.lexeme }, ?_⟩
  have hsame : ∀ other ∈ rest, token.line = other.line := by
    intro other hmem
    have hchain : ((token :: rest).map Token.line).IsChain (· = ·) := by
      rw [List.isChain_map]
      exact hline.imp fun _ _ h => by simpa using h
    exact hchain.rel_cons (List.mem_map_of_mem hmem)
  rw [tokens, List.map_cons, List.map_map, List.map_congr_left (g := id), List.map_id]
  intro other hmem
  simp [hsame other hmem]

theorem partition_all (tokens : List Token) : Partition tokens (all tokens) := by
  set groups := tokens.splitBy fun a b => a.line == b.line with hgroups
  obtain ⟨hflatten, hnil, hline, hmaximal⟩ := List.splitBy_eq_iff.mp hgroups.symm
  have hrange : groups ∈ Set.range (List.map Run.tokens) := by
    rw [Set.range_list_map]
    intro group hgroup
    exact exists_tokens_eq (fun h => hnil (h ▸ hgroup)) (hline group hgroup)
  obtain ⟨runs, hruns⟩ := hrange
  have hall : all tokens = runs := by
    rw [all, ← hgroups, ← hruns, List.filterMap_map]
    simp only [Function.comp_def, ofTokens?_tokens, List.filterMap_some]
  rw [hall]
  constructor
  · rw [List.flatMap_def, hruns, hflatten]
  · rw [← hruns, List.isChain_map] at hmaximal
    refine hmaximal.imp ?_
    rintro a b ⟨ha, hb, hab⟩
    rw [line_of_mem_tokens (List.getLast_mem ha), line_of_mem_tokens (List.head_mem hb)] at hab
    simpa using hab

theorem partition_iff {tokens : List Token} {runs : List Run} :
    Partition tokens runs ↔ all tokens = runs := by
  constructor
  · rintro ⟨rfl, hmaximal⟩
    exact all_flatMap_tokens hmaximal
  · rintro rfl
    exact partition_all tokens

end Run

end StackAsm
