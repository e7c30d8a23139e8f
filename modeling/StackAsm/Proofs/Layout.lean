import Mathlib
import StackAsm.SymbolTable
import StackAsm.Proofs.Enumeration

namespace StackAsm

/-- The length in bytes of the image of some sections. -/
def Program.extent (secs : List Section) : Nat :=
  9 * (secs.flatMap Section.instructions).length

namespace SymbolTable

/-- The number of instructions in some sections, without a bound. -/
def countOf (secs : List SectionSymbol) : Nat :=
  (secs.map SectionSymbol.count).sum

theorem countOf_cons (sec : SectionSymbol) (secs : List SectionSymbol) :
    countOf (sec :: secs) = sec.count + countOf secs := by
  simp [countOf]

theorem totalCount_eq (secs : List SectionSymbol) :
    totalCount secs = UInt64.ofNat (countOf secs) := by
  have hfold : ∀ (total : Nat),
      secs.foldl (fun total sec => total + UInt64.ofNat sec.count) (UInt64.ofNat total) =
        UInt64.ofNat (total + countOf secs) := by
    induction secs with
    | nil => intro total; rfl
    | cons sec secs ih =>
        intro total
        rw [List.foldl_cons, ← UInt64.ofNat_add, ih, countOf_cons, Nat.add_assoc]
  have h := hfold 0
  rw [Nat.zero_add] at h
  exact h

theorem imageSize_eq (table : SymbolTable) :
    table.imageSize = UInt64.ofNat (9 * countOf table.sections) := by
  rw [imageSize, totalCount_eq, ← UInt64.ofNat_mul, Nat.mul_comm]
  rfl

theorem layOutFrom_cons (start : Nat) (sec : SectionSymbol) (secs : List SectionSymbol) :
    layOutFrom (UInt64.ofNat start) (sec :: secs) =
      { sec with address := UInt64.ofNat start } ::
        layOutFrom (UInt64.ofNat (start + 9 * sec.count)) secs := by
  have hnext : UInt64.ofNat start + UInt64.ofNat sec.count * UInt64.ofNat Record.width =
      UInt64.ofNat (start + 9 * sec.count) := by
    rw [← UInt64.ofNat_mul, ← UInt64.ofNat_add, Nat.mul_comm]
    rfl
  rw [layOutFrom, hnext]

theorem layOutFrom_append (start : Nat) (before after : List SectionSymbol) :
    layOutFrom (UInt64.ofNat start) (before ++ after) =
      layOutFrom (UInt64.ofNat start) before ++
        layOutFrom (UInt64.ofNat (start + 9 * countOf before)) after := by
  induction before generalizing start with
  | nil => rfl
  | cons sec before ih =>
      have hsum : start + 9 * sec.count + 9 * countOf before =
          start + 9 * countOf (sec :: before) := by
        rw [countOf_cons]
        omega
      rw [List.cons_append, layOutFrom_cons, layOutFrom_cons, ih, hsum, List.cons_append]

theorem layOutFrom_eq_mapIdx (start : Nat) (secs : List SectionSymbol) :
    layOutFrom (UInt64.ofNat start) secs =
      secs.mapIdx fun i sec =>
        { sec with address := UInt64.ofNat (start + 9 * countOf (secs.take i)) } := by
  induction secs generalizing start with
  | nil => rfl
  | cons sec secs ih =>
      have hsum (i : Nat) : start + 9 * sec.count + 9 * countOf (secs.take i) =
          start + 9 * countOf ((sec :: secs).take (i + 1)) := by
        rw [List.take_succ_cons, countOf_cons]
        omega
      rw [layOutFrom_cons, ih, List.mapIdx_cons]
      simp only [hsum]
      rfl

theorem layOut_eq (table : SymbolTable) :
    table.layOut =
      { table with
        sections := table.sections.mapIdx fun i sec =>
          { sec with address := UInt64.ofNat (9 * countOf (table.sections.take i)) } } := by
  have h := layOutFrom_eq_mapIdx 0 table.sections
  simp only [Nat.zero_add] at h
  rw [layOut, ← h]
  rfl

theorem map_layOutFrom {α : Type} (f : SectionSymbol → α)
    (hf : ∀ sec address, f { sec with address } = f sec) (start : UInt64)
    (secs : List SectionSymbol) : (layOutFrom start secs).map f = secs.map f := by
  induction secs generalizing start with
  | nil => rfl
  | cons sec secs ih => rw [layOutFrom, List.map_cons, List.map_cons, hf, ih]

theorem names_layOut (table : SymbolTable) : table.layOut.names = table.names := by
  have h := map_layOutFrom SectionSymbol.name (fun _ _ => rfl) 0 table.sections
  rw [names, names, layOut, h]

theorem imageSize_layOut (table : SymbolTable) : table.layOut.imageSize = table.imageSize := by
  have h := map_layOutFrom SectionSymbol.count (fun _ _ => rfl) 0 table.sections
  rw [imageSize_eq, imageSize_eq, countOf, countOf, layOut, h]

section OfProgram

/-- A section as a table lists it before the layout, with its place among the sections. -/
def symbolOf (entry : Section × Nat) : SectionSymbol :=
  { name := entry.1.name, index := entry.2, count := entry.1.instructions.length, address := 0 }

theorem sections_ofProgram (program : Program) :
    (ofProgram program).sections = program.sections.zipIdx.map symbolOf :=
  rfl

theorem map_name_ofProgram (program : Program) :
    (ofProgram program).sections.map SectionSymbol.name = program.sections.map Section.name := by
  rw [sections_ofProgram, List.map_map]
  change program.sections.zipIdx.map (Section.name ∘ Prod.fst) = _
  rw [← List.map_map, List.zipIdx_map_fst]

theorem names_ofProgram (program : Program) :
    (ofProgram program).names =
      program.sections.map Section.name ++ program.natives.map Native.name := by
  rw [names, map_name_ofProgram]
  simp [ofProgram, Function.comp_def]

theorem countOf_symbolOf (secs : List Section) (index : Nat) :
    9 * countOf ((secs.zipIdx index).map symbolOf) = Program.extent secs := by
  induction secs generalizing index with
  | nil => rfl
  | cons sec secs ih =>
      rw [List.zipIdx_cons, List.map_cons, countOf_cons, Nat.mul_add, ih]
      simp only [Program.extent, List.flatMap_cons, List.length_append, symbolOf]
      omega

theorem imageSize_ofProgram (program : Program) :
    (ofProgram program).imageSize = UInt64.ofNat (Program.extent program.sections) := by
  rw [imageSize_eq, sections_ofProgram, countOf_symbolOf]

theorem mem_layOut_ofProgram {program : Program} {before after : List Section} {sec : Section}
    (h : program.sections = before ++ sec :: after) :
    { name := sec.name, index := before.length, count := sec.instructions.length
      address := UInt64.ofNat (Program.extent before) : SectionSymbol } ∈
      (ofProgram program).layOut.sections := by
  change _ ∈ layOutFrom (UInt64.ofNat 0) (ofProgram program).sections
  rw [sections_ofProgram, h, List.zipIdx_append, List.map_append, layOutFrom_append,
    countOf_symbolOf, List.zipIdx_cons, List.map_cons, layOutFrom]
  apply List.mem_append_right
  simp [symbolOf]

end OfProgram

end SymbolTable

end StackAsm
