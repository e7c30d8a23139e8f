import Mathlib
import StackAsm.Proofs.Extension

namespace StackAsm

namespace Program

/-- A section of the program has the instruction at the position. -/
def Holds (program : Program) (position : Position) (instruction : Instruction) : Prop :=
  ∃ sec, program.declarations[position.declaration]? = some (.code sec) ∧
    sec.instructions[position.instruction]? = some instruction

theorem holds_iff {program : Program} {position : Position} {instruction : Instruction} :
    program.Holds position instruction ↔ (position, instruction) ∈ program.instructions := by
  rw [mem_instructions_iff]
  constructor
  · rintro ⟨sec, hdeclaration, hinstruction⟩
    exact ⟨.code sec, hdeclaration, hinstruction⟩
  · rintro ⟨sec | routine, hdeclaration, hinstruction⟩
    · exact ⟨sec, hdeclaration, hinstruction⟩
    · simp [Declaration.instructions] at hinstruction

section Ordered

variable {entries : List (Position × Instruction)}
  (hordered : entries.Pairwise fun a b => a.1.Before b.1)
include hordered

theorem nodup_of_ordered : entries.Nodup := by
  refine hordered.imp ?_
  intro a b hbefore hab
  exact hbefore.ne (congrArg Prod.fst hab)

theorem filter_position_of_mem {position : Position} {instruction : Instruction}
    (hmem : (position, instruction) ∈ entries) :
    entries.filter (fun entry => entry.1 = position) = [(position, instruction)] := by
  obtain ⟨before, after, rfl⟩ := List.append_of_mem hmem
  obtain ⟨-, hafter, hbefore⟩ := List.pairwise_append.mp hordered
  have hnone : before.filter (fun entry => entry.1 = position) = [] := by
    rw [List.filter_eq_nil_iff]
    intro entry hentry
    have hne := (hbefore entry hentry _ List.mem_cons_self).ne
    simpa using hne
  have hlater : after.filter (fun entry => entry.1 = position) = [] := by
    rw [List.filter_eq_nil_iff]
    intro entry hentry
    have hne := (List.rel_of_pairwise_cons hafter hentry).ne
    simpa using hne.symm
  rw [List.filter_append, hnone, List.nil_append, List.filter_cons_of_pos (by simp), hlater]

end Ordered

/-- The entries list the instructions of the program's sections. -/
structure Enumerates (program : Program) (entries : List (Position × Instruction)) : Prop where
  ordered : entries.Pairwise fun a b => a.1.Before b.1
  holds : ∀ entry ∈ entries, program.Holds entry.1 entry.2
  /-- The position of an instruction occurs once, and with that instruction. -/
  once : ∀ position instruction, program.Holds position instruction →
    entries.filter (fun entry => entry.1 = position) = [(position, instruction)]

theorem Enumerates.mem_iff {program : Program} {entries : List (Position × Instruction)}
    (h : program.Enumerates entries) (entry : Position × Instruction) :
    entry ∈ entries ↔ program.Holds entry.1 entry.2 := by
  constructor
  · exact h.holds entry
  · intro hholds
    have hmem : entry ∈ entries.filter fun other => decide (other.1 = entry.1) := by
      rw [h.once entry.1 entry.2 hholds]
      exact List.mem_singleton_self entry
    exact List.mem_of_mem_filter hmem

theorem enumerates_iff {program : Program} {entries : List (Position × Instruction)} :
    program.Enumerates entries ↔ entries = program.instructions := by
  have hinstructions := instructions_pairwise program
  constructor
  · intro h
    -- Entries in order are distinct, so the same entries in the same order are the same list.
    have hperm : entries.Perm program.instructions := by
      rw [List.perm_ext_iff_of_nodup (nodup_of_ordered h.ordered) (nodup_of_ordered hinstructions)]
      intro entry
      rw [h.mem_iff, holds_iff]
    refine hperm.eq_of_pairwise ?_ h.ordered hinstructions
    intro a b _ _ hab hba
    exact absurd hba hab.asymm
  · rintro rfl
    constructor
    · exact hinstructions
    · exact fun entry hentry => holds_iff.mpr hentry
    · exact fun position instruction hholds =>
        filter_position_of_mem hinstructions (holds_iff.mp hholds)

theorem getElem?_concat_eq_some_iff {α : Type} {xs : List α} {last x : α} {i : Nat} :
    (xs ++ [last])[i]? = some x ↔ xs[i]? = some x ∨ i = xs.length ∧ last = x := by
  rcases lt_trichotomy i xs.length with hi | rfl | hi
  · rw [List.getElem?_append_left hi]
    simp [hi.ne]
  · simp
  · have hnone : (xs ++ [last])[i]? = none := by
      rw [List.getElem?_eq_none_iff, List.length_append, List.length_singleton]
      exact hi
    rw [hnone, List.getElem?_eq_none hi.le]
    simp [hi.ne']

/-- The number of sections among some declarations. -/
def countSections (declarations : List Declaration) : Nat :=
  declarations.countP fun declaration => declaration.code?.isSome

/-- The section is declared behind as many other sections as its place says. -/
def IsSection (declarations : List Declaration) (place : Nat) (sec : Section) : Prop :=
  ∃ index, declarations[index]? = some (.code sec) ∧
    countSections (declarations.take index) = place

theorem isSection_concat_iff {declarations : List Declaration} {last : Declaration} {place : Nat}
    {sec : Section} :
    IsSection (declarations ++ [last]) place sec ↔
      IsSection declarations place sec ∨
        place = countSections declarations ∧ last = .code sec := by
  constructor
  · rintro ⟨index, hindex, hplace⟩
    rcases getElem?_concat_eq_some_iff.mp hindex with hindex | ⟨rfl, hlast⟩
    · have hle := (List.getElem?_eq_some_iff.mp hindex).1.le
      rw [List.take_append_of_le_length hle] at hplace
      exact Or.inl ⟨index, hindex, hplace⟩
    · rw [List.take_left] at hplace
      exact Or.inr ⟨hplace.symm, hlast⟩
  · rintro (⟨index, hindex, hplace⟩ | ⟨rfl, rfl⟩)
    · have hle := (List.getElem?_eq_some_iff.mp hindex).1.le
      refine ⟨index, getElem?_concat_eq_some_iff.mpr (Or.inl hindex), ?_⟩
      rw [List.take_append_of_le_length hle]
      exact hplace
    · refine ⟨declarations.length, List.getElem?_concat_length, ?_⟩
      rw [List.take_left]

end Program

namespace SymbolTable

open Program

/-- Adds the symbol of a declaration to those collected so far. -/
def collect (table : SymbolTable) : Declaration → SymbolTable
  | .code sec =>
      { table with sections := table.sections ++ [symbolOf (sec, table.sections.length)] }
  | .native routine =>
      { table with
        natives := table.natives ++ [{ name := routine.name, identifier := routine.identifier }] }

theorem ofProgram_extended (program : Program) (declaration : Declaration) :
    ofProgram (program.extended [declaration]) = (ofProgram program).collect declaration := by
  rw [ofProgram, sections_extended, natives_extended]
  cases declaration with
  | code sec =>
      simp [ofProgram, collect, symbolOf, Declaration.code?, Declaration.native?,
        List.zipIdx_append]
  | native routine =>
      simp [ofProgram, collect, Declaration.code?, Declaration.native?, List.filterMap_cons]

theorem ofProgram_eq_foldl (program : Program) :
    ofProgram program = program.declarations.foldl collect empty := by
  obtain ⟨declarations⟩ := program
  induction declarations using List.reverseRecOn with
  | nil => rfl
  | append_singleton declarations last ih =>
      have hstep := ofProgram_extended { declarations } last
      rw [ih] at hstep
      rw [List.foldl_append]
      exact hstep

/-- The symbols are those of the declared sections. A symbol is in the place that it says. -/
structure Catalogues (declarations : List Declaration) (secs : List SectionSymbol) : Prop where
  length_eq : secs.length = countSections declarations
  getElem?_iff : ∀ place symbol, secs[place]? = some symbol ↔
    ∃ sec, IsSection declarations place sec ∧
      symbol = { name := sec.name, index := place, count := sec.instructions.length, address := 0 }

theorem catalogues_empty : Catalogues [] empty.sections where
  length_eq := rfl
  getElem?_iff := by simp [empty, IsSection]

namespace Catalogues

variable {earlier : List Declaration} {table : SymbolTable}

theorem collect (h : Catalogues earlier table.sections) (declaration : Declaration) :
    Catalogues (earlier ++ [declaration]) (table.collect declaration).sections := by
  cases declaration with
  | code sec =>
      constructor
      · simp [SymbolTable.collect, countSections, Declaration.code?, h.length_eq]
      · intro place symbol
        rw [SymbolTable.collect, getElem?_concat_eq_some_iff, h.getElem?_iff, h.length_eq]
        simp only [isSection_concat_iff]
        constructor
        · rintro (⟨other, hother, rfl⟩ | ⟨rfl, rfl⟩)
          · exact ⟨other, Or.inl hother, rfl⟩
          · exact ⟨sec, Or.inr ⟨rfl, rfl⟩, rfl⟩
        · rintro ⟨other, hother | ⟨rfl, hsec⟩, rfl⟩
          · exact Or.inl ⟨other, hother, rfl⟩
          · cases hsec
            exact Or.inr ⟨rfl, rfl⟩
  | native routine =>
      constructor
      · simp [SymbolTable.collect, countSections, Declaration.code?, h.length_eq]
      · intro place symbol
        rw [SymbolTable.collect, h.getElem?_iff]
        simp only [isSection_concat_iff, reduceCtorEq, and_false, or_false]

theorem foldl_collect (h : Catalogues earlier table.sections) (declarations : List Declaration) :
    Catalogues (earlier ++ declarations)
      (declarations.foldl SymbolTable.collect table).sections := by
  induction declarations generalizing earlier table with
  | nil => rwa [List.append_nil]
  | cons declaration declarations ih =>
      rw [List.append_cons]
      exact ih (h.collect declaration)

end Catalogues

theorem catalogues_ofProgram (program : Program) :
    Catalogues program.declarations (ofProgram program).sections := by
  rw [ofProgram_eq_foldl]
  exact catalogues_empty.foldl_collect program.declarations

theorem countOf_ofProgram (program : Program) :
    countOf (ofProgram program).sections = program.instructions.length := by
  have hextent := countOf_symbolOf program.sections 0
  rw [Program.extent, ← length_instructions, ← sections_ofProgram] at hextent
  omega

end SymbolTable

namespace Program

/-- The list of instructions is the only one that has, in order and once each, every instruction of
every section at its position. It is as long as the counts of the program's table say, and the table
has the sections in the same order, numbered without the native routines. -/
theorem instructions_exact (program : Program) :
    (∀ entries, program.Enumerates entries ↔ entries = program.instructions) ∧
      program.instructions.length =
        SymbolTable.countOf (SymbolTable.ofProgram program).sections ∧
      SymbolTable.Catalogues program.declarations (SymbolTable.ofProgram program).sections := by
  refine ⟨?_, ?_, ?_⟩
  · exact fun entries => enumerates_iff
  · exact (SymbolTable.countOf_ofProgram program).symm
  · exact SymbolTable.catalogues_ofProgram program

/-- Places in a table pass over the native routines. Positions count them. -/
def interleaved : Program :=
  { declarations :=
      [ .native { name := "bell", identifier := 7, line := 1 },
        .code { name := "gate", instructions := [], line := 2 },
        .native { name := "lamp", identifier := 8, line := 3 },
        .code
          { name := "main"
            instructions :=
              [ { mnemonic := "NOOP", argument := none, line := 5 },
                { mnemonic := "NOOP", argument := none, line := 6 } ]
            line := 4 },
        .code
          { name := "yard"
            instructions := [{ mnemonic := "HALT", argument := none, line := 8 }]
            line := 7 } ] }

example :
    interleaved.instructions.map Prod.fst =
        [ { declaration := 3, instruction := 0 }, { declaration := 3, instruction := 1 },
          { declaration := 4, instruction := 0 } ] ∧
      (SymbolTable.ofProgram interleaved).sections =
        [ { name := "gate", index := 0, count := 0, address := 0 },
          { name := "main", index := 1, count := 2, address := 0 },
          { name := "yard", index := 2, count := 1, address := 0 } ] := by
  decide

end Program

end StackAsm
