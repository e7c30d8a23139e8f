import Mathlib
import StackAsm.Program

namespace StackAsm

/-- The order in which the instructions of a program are emitted. -/
def Position.Before (a b : Position) : Prop :=
  a.declaration < b.declaration ∨
    a.declaration = b.declaration ∧ a.instruction < b.instruction

theorem Position.Before.asymm {a b : Position} (h : a.Before b) : ¬b.Before a := by
  simp only [Before] at h ⊢
  omega

theorem Position.Before.ne {a b : Position} (h : a.Before b) : a ≠ b := by
  rintro rfl
  exact h.asymm h

namespace Program

theorem map_snd_placed (index : Nat) (declaration : Declaration) :
    (placed index declaration).map Prod.snd = declaration.instructions := by
  simp only [placed, List.map_map]
  exact List.zipIdx_map_fst 0 declaration.instructions

theorem mem_placed_iff {index : Nat} {declaration : Declaration} {position : Position}
    {instruction : Instruction} :
    (position, instruction) ∈ placed index declaration ↔
      position.declaration = index ∧
        declaration.instructions[position.instruction]? = some instruction := by
  simp only [placed, List.mem_map, Prod.exists, Prod.mk.injEq, List.mk_mem_zipIdx_iff_getElem?]
  constructor
  · rintro ⟨_, i, h, rfl, rfl⟩
    exact ⟨rfl, h⟩
  · rintro ⟨rfl, h⟩
    exact ⟨instruction, position.instruction, h, rfl, rfl⟩

theorem mem_instructions_iff {program : Program} {position : Position}
    {instruction : Instruction} :
    (position, instruction) ∈ program.instructions ↔
      ∃ declaration, program.declarations[position.declaration]? = some declaration ∧
        declaration.instructions[position.instruction]? = some instruction := by
  simp only [instructions, List.mem_flatMap, Prod.exists, List.mk_mem_zipIdx_iff_getElem?,
    mem_placed_iff]
  constructor
  · rintro ⟨declaration, index, hdeclaration, rfl, hinstruction⟩
    exact ⟨declaration, hdeclaration, hinstruction⟩
  · rintro ⟨declaration, hdeclaration, hinstruction⟩
    exact ⟨declaration, position.declaration, hdeclaration, rfl, hinstruction⟩

theorem instruction_unique {program : Program} {position : Position} {a b : Instruction}
    (ha : (position, a) ∈ program.instructions) (hb : (position, b) ∈ program.instructions) :
    a = b := by
  obtain ⟨declaration, hdeclaration, ha⟩ := mem_instructions_iff.mp ha
  obtain ⟨other, hother, hb⟩ := mem_instructions_iff.mp hb
  rw [hdeclaration] at hother
  cases hother
  rw [ha] at hb
  exact Option.some.inj hb

theorem zipIdx_pairwise {α : Type} (xs : List α) (start : Nat) :
    (xs.zipIdx start).Pairwise fun a b => a.2 < b.2 := by
  have h : ((xs.zipIdx start).map Prod.snd).Pairwise (· < ·) := by
    rw [List.zipIdx_map_snd]
    exact List.pairwise_lt_range'
  exact List.pairwise_map.mp h

theorem instructions_pairwise (program : Program) :
    program.instructions.Pairwise fun a b => a.1.Before b.1 := by
  rw [instructions, List.pairwise_flatMap]
  constructor
  · rintro ⟨declaration, index⟩ -
    simp only [placed, List.pairwise_map]
    refine (zipIdx_pairwise declaration.instructions 0).imp ?_
    intro a b h
    exact Or.inr ⟨rfl, h⟩
  · refine (zipIdx_pairwise program.declarations 0).imp ?_
    rintro ⟨first, i⟩ ⟨second, j⟩ h ⟨a, _⟩ ha ⟨b, _⟩ hb
    obtain ⟨rfl, -⟩ := mem_placed_iff.mp ha
    obtain ⟨rfl, -⟩ := mem_placed_iff.mp hb
    exact Or.inl h

theorem sections_map {f : Declaration → Declaration} {g : Section → Section}
    (hf : ∀ declaration, (f declaration).code? = declaration.code?.map g)
    (declarations : List Declaration) :
    (Program.mk (declarations.map f)).sections = (Program.mk declarations).sections.map g := by
  rw [sections, sections, List.filterMap_map, List.map_filterMap]
  exact List.filterMap_congr fun declaration _ => hf declaration

theorem natives_map {f : Declaration → Declaration} {g : Native → Native}
    (hf : ∀ declaration, (f declaration).native? = declaration.native?.map g)
    (declarations : List Declaration) :
    (Program.mk (declarations.map f)).natives = (Program.mk declarations).natives.map g := by
  rw [natives, natives, List.filterMap_map, List.map_filterMap]
  exact List.filterMap_congr fun declaration _ => hf declaration

theorem flatMap_instructions (declarations : List Declaration) :
    declarations.flatMap Declaration.instructions =
      (declarations.filterMap Declaration.code?).flatMap Section.instructions := by
  induction declarations with
  | nil => rfl
  | cons declaration declarations ih =>
      cases declaration with
      | code sec =>
          simp only [List.flatMap_cons, ih, List.filterMap_cons, Declaration.code?,
            Declaration.instructions]
      | native routine =>
          simp only [List.flatMap_cons, ih, List.filterMap_cons, Declaration.code?,
            Declaration.instructions, List.nil_append]

theorem instructions_map_snd (program : Program) :
    program.instructions.map Prod.snd = program.sections.flatMap Section.instructions := by
  rw [sections, ← flatMap_instructions, instructions, List.map_flatMap]
  simp only [map_snd_placed]
  rw [← List.flatMap_map, List.zipIdx_map_fst]

theorem length_instructions (program : Program) :
    program.instructions.length = (program.sections.flatMap Section.instructions).length := by
  rw [← instructions_map_snd, List.length_map]

theorem mem_references_iff {program : Program} {position : Position} {instruction : Instruction}
    {name : String} :
    (position, instruction, name) ∈ program.references ↔
      (position, instruction) ∈ program.instructions ∧ instruction.symbol? = some name := by
  simp only [references, List.mem_filterMap, Prod.exists, Option.map_eq_some_iff, Prod.mk.injEq]
  constructor
  · rintro ⟨_, _, hmem, _, hname, rfl, rfl, rfl⟩
    exact ⟨hmem, hname⟩
  · rintro ⟨hmem, hname⟩
    exact ⟨position, instruction, hmem, name, hname, rfl, rfl, rfl⟩

theorem references_pairwise (program : Program) :
    program.references.Pairwise fun a b => a.1 ≠ b.1 := by
  rw [references, List.pairwise_filterMap]
  refine (instructions_pairwise program).imp ?_
  rintro ⟨p, i⟩ ⟨q, j⟩ h a ha b hb
  obtain ⟨_, -, rfl⟩ := Option.map_eq_some_iff.mp ha
  obtain ⟨_, -, rfl⟩ := Option.map_eq_some_iff.mp hb
  exact h.ne

end Program

namespace Instruction

theorem symbol?_eq_some_iff {instruction : Instruction} {name : String} :
    instruction.symbol? = some name ↔ instruction.argument = some (.symbol name) := by
  rcases instruction with ⟨mnemonic, _ | argument, line⟩
  · simp [symbol?]
  · cases argument <;> simp [symbol?, Argument.name?]

end Instruction

end StackAsm
