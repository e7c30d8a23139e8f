import Mathlib
import StackAsm.Proofs.Extension

namespace StackAsm

namespace Instruction

/-- The instruction has a record, given what is stored at its position. -/
structure Encodable (instruction : Instruction) (referent? : Option Referent) : Prop where
  wellFormed : instruction.WellFormed
  stored : ∀ name, instruction.argument = some (.symbol name) →
    ∃ referent, referent? = some referent

/-- Why an instruction has no record. What is stored is asked for only if the instruction has no
flaw by itself. -/
inductive Obstacle (instruction : Instruction) (referent? : Option Referent) :
    InstructionFault.Cause → Prop
  | flaw {cause : InstructionFault.Cause} (hflaw : instruction.Flaw cause) :
      Obstacle instruction referent? cause
  | unresolved {name : String} (hwellFormed : instruction.WellFormed)
      (hargument : instruction.argument = some (.symbol name)) (hnone : referent? = none) :
      Obstacle instruction referent? (.unresolved name)

section Encode

variable {instruction : Instruction} {referent? : Option Referent}

theorem Encodes.encodable {record : Record} (h : instruction.Encodes referent? record) :
    instruction.Encodable referent? := by
  refine ⟨h.wellFormed, ?_⟩
  intro name hname
  have hoperand := h.operand_eq
  rw [hname] at hoperand
  obtain ⟨referent, hreferent, -⟩ := Option.map_eq_some_iff.mp hoperand
  exact ⟨referent, hreferent⟩

theorem Obstacle.not_encodable {cause : InstructionFault.Cause}
    (h : instruction.Obstacle referent? cause) : ¬instruction.Encodable referent? := by
  intro hencodable
  cases h with
  | flaw hflaw => exact hflaw.not_wellFormed hencodable.wellFormed
  | unresolved _ hargument hnone =>
      obtain ⟨referent, hreferent⟩ := hencodable.stored _ hargument
      rw [hnone] at hreferent
      cases hreferent

theorem encode_of_obstacle {cause : InstructionFault.Cause}
    (h : instruction.Obstacle referent? cause) :
    instruction.encode referent? = .error { line := instruction.line, cause } := by
  cases h with
  | flaw hflaw => exact encode_of_flaw hflaw referent?
  | unresolved hwellFormed hargument hnone =>
      obtain ⟨operation, hnamed, harity, -⟩ := hwellFormed
      have hfind := Operation.find?_eq_some_iff.mpr hnamed
      rw [hargument, Option.isSome_some] at harity
      simp [encode, hfind, hargument, hnone, ← harity]

theorem encode_total (instruction : Instruction) (referent? : Option Referent) :
    (∃ record, instruction.encode referent? = .ok record ∧
        instruction.Encodes referent? record) ∨
      ∃ cause, instruction.encode referent? = .error { line := instruction.line, cause } ∧
        instruction.Obstacle referent? cause := by
  rcases encode_cases instruction referent? with
    hrecord | ⟨cause, hencode, hflaw⟩ | ⟨name, hencode, hname, hnone, hwellFormed⟩
  · exact .inl hrecord
  · exact .inr ⟨cause, hencode, .flaw hflaw⟩
  · exact .inr ⟨_, hencode, .unresolved hwellFormed hname hnone⟩

theorem encode_eq_ok_iff {record : Record} :
    instruction.encode referent? = .ok record ↔ instruction.Encodes referent? record := by
  constructor
  · exact encodes_of_encode_eq_ok
  · intro h
    cases h with
    | absent hnamed htakes hargument =>
        have hfind := Operation.find?_eq_some_iff.mpr hnamed
        simp [encode, hfind, hargument, htakes]
    | symbol hnamed htakes hargument hreferent =>
        have hfind := Operation.find?_eq_some_iff.mpr hnamed
        simp [encode, hfind, hargument, htakes, hreferent]
    | literal hnamed htakes hargument hbits =>
        have hfind := Operation.find?_eq_some_iff.mpr hnamed
        simp [encode, hfind, hargument, htakes, hbits]

theorem exists_encode_iff :
    (∃ record, instruction.encode referent? = .ok record) ↔ instruction.Encodable referent? := by
  rcases encode_total instruction referent? with
    ⟨record, hencode, hrecord⟩ | ⟨_, hencode, hobstacle⟩
  · exact ⟨fun _ => hrecord.encodable, fun _ => ⟨record, hencode⟩⟩
  · rw [hencode]
    exact ⟨fun ⟨_, h⟩ => (by cases h), fun h => absurd h hobstacle.not_encodable⟩

theorem encode_eq_error_iff_obstacle {fault : InstructionFault} :
    instruction.encode referent? = .error fault ↔
      fault.line = instruction.line ∧ instruction.Obstacle referent? fault.cause := by
  rcases encode_total instruction referent? with
    ⟨record, hencode, hrecord⟩ | ⟨cause, hencode, hobstacle⟩
  · rw [hencode]
    exact ⟨fun h => (by cases h), fun h => absurd hrecord.encodable h.2.not_encodable⟩
  · constructor
    · intro h
      rw [hencode] at h
      cases h
      exact ⟨rfl, hobstacle⟩
    · rcases fault with ⟨line, other⟩
      rintro ⟨rfl, hother⟩
      exact encode_of_obstacle hother

theorem encode_of_not_symbol (h : ¬∃ name, instruction.argument = some (.symbol name))
    (other? : Option Referent) : instruction.encode other? = instruction.encode referent? := by
  rcases instruction with ⟨mnemonic, _ | name | literal, line⟩
  · rfl
  · exact absurd ⟨name, rfl⟩ h
  · rfl

end Encode

end Instruction

/-- The position that results if the given number of declarations is put in front. -/
def Position.behind (count : Nat) (position : Position) : Position :=
  { position with declaration := count + position.declaration }

namespace Resolutions

/-- What is stored for the declarations behind the first ones, by their positions among
themselves. -/
def behind (count : Nat) (resolutions : Resolutions) : Resolutions :=
  { entries := resolutions.entries.filterMap fun (position, referent) =>
      if count ≤ position.declaration then
        some ({ position with declaration := position.declaration - count }, referent)
      else none }

theorem get?_behind (count : Nat) (resolutions : Resolutions) (position : Position) :
    (resolutions.behind count).get? position = resolutions.get? (position.behind count) := by
  have hentry (entry : Position × Referent) :
      (if count ≤ entry.1.declaration then
          some ({ entry.1 with declaration := entry.1.declaration - count }, entry.2)
        else none).any (fun moved : Position × Referent => moved.1 = position) =
      decide (entry.1 = position.behind count) := by
    obtain ⟨⟨declaration, instruction⟩, referent⟩ := entry
    obtain ⟨ownDeclaration, ownInstruction⟩ := position
    simp only [Position.behind, Position.mk.injEq]
    split
    · simp only [Option.any_some, Position.mk.injEq, decide_eq_decide]
      omega
    · simp only [Option.any_none, Bool.false_eq, decide_eq_false_iff_not]
      omega
  rw [get?, get?, behind, List.find?_filterMap]
  simp only [hentry]
  cases hfind : resolutions.entries.find? fun entry => entry.1 = position.behind count with
  | none => rfl
  | some entry =>
      have hposition : entry.1 = position.behind count := by simpa using List.find?_some hfind
      simp [hposition, Position.behind]

end Resolutions

namespace Program

section Extended

variable (program : Program) (further : List Declaration) (resolutions : Resolutions)

theorem map_behind_placed (count index : Nat) (declaration : Declaration) :
    (placed index declaration).map (Prod.map (Position.behind count) id) =
      placed (count + index) declaration := by
  rw [placed, placed, List.map_map]
  rfl

theorem positions_extended :
    (program.extended further).instructions =
      program.instructions ++
        (Program.mk further).instructions.map
          (Prod.map (Position.behind program.declarations.length) id) := by
  rw [instructions, extended, List.zipIdx_append, List.flatMap_append]
  congr 1
  rw [Nat.zero_add, List.zipIdx_eq_map_add, List.flatMap_map, instructions, List.map_flatMap]
  simp only [map_behind_placed]

theorem records_extended :
    (program.extended further).records resolutions =
      (do
        let first ← program.records resolutions
        let second ← (Program.mk further).records
          (resolutions.behind program.declarations.length)
        return first ++ second) := by
  rw [records, positions_extended, List.mapM_append, List.mapM_map]
  congr 1
  funext first
  congr 1
  apply Outcome.mapM_congr
  rintro ⟨position, instruction⟩ -
  simp only [Function.comp_apply, Prod.map_apply, id_eq, Resolutions.get?_behind]

end Extended

section Image

variable {program : Program} {resolutions : Resolutions}

theorem image_eq_ok_iff {bytes : List UInt8} :
    program.image resolutions = .ok bytes ↔
      ∃ records,
        List.Forall₂ (fun entry record => entry.2.Encodes (resolutions.get? entry.1) record)
          program.instructions records ∧
        bytes = records.flatMap Record.bytes := by
  rw [image_eq, Outcome.map_eq_ok_iff]
  simp only [records, Outcome.mapM_eq_ok_iff, Instruction.encode_eq_ok_iff]
  refine exists_congr fun records => and_congr_right fun _ => ?_
  exact eq_comm

theorem exists_image_iff :
    (∃ bytes, program.image resolutions = .ok bytes) ↔
      ∀ entry ∈ program.instructions, entry.2.Encodable (resolutions.get? entry.1) := by
  simp only [← Instruction.exists_encode_iff, ← Outcome.exists_mapM_eq_ok_iff]
  simp only [image_eq, Outcome.map_eq_ok_iff, records]
  constructor
  · rintro ⟨_, records, hrecords, -⟩
    exact ⟨records, hrecords⟩
  · rintro ⟨records, hrecords⟩
    exact ⟨_, records, hrecords, rfl⟩

theorem image_eq_error_iff {fault : InstructionFault} :
    program.image resolutions = .error fault ↔
      ∃ before position instruction after cause,
        program.instructions = before ++ (position, instruction) :: after ∧
          (∀ earlier ∈ before, earlier.2.Encodable (resolutions.get? earlier.1)) ∧
            instruction.Obstacle (resolutions.get? position) cause ∧
              fault = { line := instruction.line, cause } := by
  rw [image_eq, Outcome.map_eq_error_iff, records, Outcome.mapM_eq_error_iff]
  simp only [Instruction.exists_encode_iff, Instruction.encode_eq_error_iff_obstacle]
  constructor
  · rintro ⟨before, ⟨position, instruction⟩, after, hsplit, hbefore, hline, hobstacle⟩
    refine ⟨before, position, instruction, after, _, hsplit, hbefore, hobstacle, ?_⟩
    rw [← hline]
  · rintro ⟨before, position, instruction, after, cause, hsplit, hbefore, hobstacle, rfl⟩
    exact ⟨before, _, after, hsplit, hbefore, rfl, hobstacle⟩

theorem image_congr {other : Resolutions}
    (h : ∀ position instruction name, (position, instruction) ∈ program.instructions →
      instruction.argument = some (.symbol name) →
        other.get? position = resolutions.get? position) :
    program.image other = program.image resolutions := by
  have hrecords : program.records other = program.records resolutions := by
    apply Outcome.mapM_congr
    rintro ⟨position, instruction⟩ hmem
    by_cases hsymbol : ∃ name, instruction.argument = some (.symbol name)
    · obtain ⟨name, hname⟩ := hsymbol
      simp only [h position instruction name hmem hname]
    · exact Instruction.encode_of_not_symbol hsymbol _
  rw [image_eq, image_eq, hrecords]

theorem image_extended_eq_ok_iff {further : List Declaration} {bytes : List UInt8} :
    (program.extended further).image resolutions = .ok bytes ↔
      ∃ first second, program.image resolutions = .ok first ∧
        (Program.mk further).image (resolutions.behind program.declarations.length) = .ok second ∧
          bytes = first ++ second := by
  simp only [image_eq, Outcome.map_eq_ok_iff, records_extended, Outcome.bind_eq_ok_iff]
  constructor
  · rintro ⟨_, ⟨first, hfirst, second, hsecond, hpure⟩, rfl⟩
    cases hpure
    exact ⟨_, _, ⟨first, hfirst, rfl⟩, ⟨second, hsecond, rfl⟩, List.flatMap_append⟩
  · rintro ⟨_, _, ⟨first, hfirst, rfl⟩, ⟨second, hsecond, rfl⟩, rfl⟩
    exact ⟨_, ⟨first, hfirst, second, hsecond, rfl⟩, List.flatMap_append⟩

/-- An image is made of any program with any resolutions exactly if each instruction has a record,
given the entry at its own position. It then holds these records of nine bytes, in the order of the
instructions, and otherwise the first instruction without a record is reported. Entries at other
positions make no difference, and declarations that follow add their own image, which is the one
that they have by themselves with the entries counted from where they begin. -/
theorem image_exact (program : Program) (resolutions : Resolutions) :
    ((∃ bytes, program.image resolutions = .ok bytes) ↔
      ∀ entry ∈ program.instructions, entry.2.Encodable (resolutions.get? entry.1)) ∧
    (∀ bytes, program.image resolutions = .ok bytes ↔
      ∃ records,
        List.Forall₂ (fun entry record => entry.2.Encodes (resolutions.get? entry.1) record)
          program.instructions records ∧
        bytes = records.flatMap Record.bytes ∧ bytes.length = 9 * program.instructions.length) ∧
    (∀ fault, program.image resolutions = .error fault ↔
      ∃ before position instruction after cause,
        program.instructions = before ++ (position, instruction) :: after ∧
          (∀ earlier ∈ before, earlier.2.Encodable (resolutions.get? earlier.1)) ∧
            instruction.Obstacle (resolutions.get? position) cause ∧
              fault = { line := instruction.line, cause }) ∧
    (∀ other : Resolutions,
      (∀ position instruction name, (position, instruction) ∈ program.instructions →
        instruction.argument = some (.symbol name) →
          other.get? position = resolutions.get? position) →
      program.image other = program.image resolutions) ∧
    ∀ further bytes, (program.extended further).image resolutions = .ok bytes ↔
      ∃ first second, program.image resolutions = .ok first ∧
        (Program.mk further).image (resolutions.behind program.declarations.length) = .ok second ∧
          bytes = first ++ second := by
  refine ⟨exists_image_iff, fun bytes => ?_, fun _ => image_eq_error_iff,
    fun _ => image_congr, fun _ _ => image_extended_eq_ok_iff⟩
  rw [image_eq_ok_iff]
  apply exists_congr
  intro records
  apply and_congr_right
  intro hrecords
  constructor
  · rintro rfl
    refine ⟨rfl, ?_⟩
    have hwidth : ∀ chunk ∈ records.map Record.bytes, chunk.length = 9 := by
      intro chunk hchunk
      obtain ⟨record, -, rfl⟩ := List.mem_map.mp hchunk
      rfl
    rw [List.flatMap_def, length_flatten hwidth, List.length_map, hrecords.length_eq]
  · rintro ⟨hbytes, -⟩
    exact hbytes

end Image

/-- Calls and a jump, and a literal in the place of a name. -/
def crossing : Program :=
  { declarations :=
      [ .native { name := "out", identifier := 1, line := 1 },
        .code
          { name := "main"
            instructions :=
              [ { mnemonic := "JMP", argument := some (.symbol "main"), line := 3 },
                { mnemonic := "CALL", argument := some (.symbol "main"), line := 4 },
                { mnemonic := "CALL", argument := some (.literal ⟨.hex, "0x12"⟩), line := 5 } ]
            line := 2 } ] }

/-- Entries that say nothing of what the program declares. -/
def astray : Resolutions :=
  { entries :=
      [ ({ declaration := 1, instruction := 0 }, { value := 9, kind := .native }),
        ({ declaration := 1, instruction := 1 }, { value := 5, kind := .native }),
        ({ declaration := 1, instruction := 2 }, { value := 7, kind := .native }),
        ({ declaration := 0, instruction := 0 }, { value := 3, kind := .code }) ] }

/-- A call takes its byte from the entry, a jump has only one, and a literal needs no entry. -/
example :
    crossing.image astray =
      .ok [ 0x50, 0, 0, 0, 0, 0, 0, 0, 0x09,
            0x62, 0, 0, 0, 0, 0, 0, 0, 0x05,
            0x60, 0, 0, 0, 0, 0, 0, 0, 0x12 ] := by
  decide +kernel

end Program

end StackAsm
