import Mathlib
import StackAsm.Proofs.Assembling
import StackAsm.Proofs.Encoding

namespace StackAsm

namespace Program

/-- The argument of the instruction is the name of a native routine. -/
def NamesNative (program : Program) (instruction : Instruction) : Prop :=
  ∃ routine ∈ program.natives, instruction.argument = some (.symbol routine.name)

instance (program : Program) (instruction : Instruction) :
    Decidable (program.NamesNative instruction) :=
  inferInstanceAs (Decidable (∃ routine ∈ program.natives, _))

/-- The byte that the records of an operation begin with. Only calls have two of them, the second
one for native routines. -/
def opcodeOf (operation : Operation) (native : Bool) : UInt8 :=
  match operation.encoding with
  | .single byte => byte
  | .call _ _ => if native then 0x62 else 0x60

/-- The bytes are the record of an instruction of the program: the byte of the operation, and
eight bytes for the number that the argument means in the program. -/
structure RecordOf (program : Program) (instruction : Instruction) (bytes : List UInt8) :
    Prop where
  length_eq : bytes.length = 9
  opcode : ∃ operation : Operation, operation.Named instruction.mnemonic ∧
    bytes.head? = some (opcodeOf operation (program.NamesNative instruction))
  absent : instruction.argument = none → bigEndianValue bytes.tail = 0
  literal : ∀ literal, instruction.argument = some (.literal literal) →
    ∃ bits, literal.bits = .ok bits ∧ bigEndianValue bytes.tail = bits.toNat
  declared : ∀ name, instruction.argument = some (.symbol name) →
    name ∈ program.sections.map Section.name ++ program.natives.map Native.name
  native : ∀ routine ∈ program.natives, instruction.argument = some (.symbol routine.name) →
    bigEndianValue bytes.tail = routine.identifier.toNat
  code : ∀ before sec after, program.sections = before ++ sec :: after →
    instruction.argument = some (.symbol sec.name) →
      bigEndianValue bytes.tail = extent before

/-- The assembly holds the records of the program's instructions, and nothing else. -/
structure LaidOutIn (program : Program) (assembly : Assembly) : Prop where
  length_bytes : assembly.bytes.length = 9 * program.instructions.length
  imageSize : assembly.symbols.imageSize.toNat = 9 * program.instructions.length
  record : ∀ k (hk : k < program.instructions.length),
    program.RecordOf program.instructions[k].2 ((assembly.bytes.drop (9 * k)).take 9)
  /-- A reference to a section leads to the records of its own instructions. -/
  linked : ∀ before sec after, program.sections = before ++ sec :: after →
    ∃ chunks,
      (assembly.bytes.drop (extent before)).take (9 * sec.instructions.length) =
        chunks.flatten ∧
      List.Forall₂ program.RecordOf sec.instructions chunks

section References

variable {program : Program} {instruction : Instruction}

theorem referent?_code (hsound : program.SoundNames) {before after : List Section} {sec : Section}
    (hsections : program.sections = before ++ sec :: after)
    (hargument : instruction.argument = some (.symbol sec.name)) :
    program.laidOut.referent? instruction =
      some { value := UInt64.ofNat (extent before), kind := .code } := by
  rw [referent?_of_symbol hargument, SymbolTable.find?_of_mem_sections hsound.names_nodup
    (SymbolTable.mem_layOut_ofProgram hsections)]
  rfl

theorem referent?_native (hsound : program.SoundNames) {routine : Native}
    (hmem : routine ∈ program.natives)
    (hargument : instruction.argument = some (.symbol routine.name)) :
    program.laidOut.referent? instruction =
      some { value := routine.identifier.toUInt64, kind := .native } := by
  have hsymbol : { name := routine.name, identifier := routine.identifier : NativeSymbol } ∈
      program.laidOut.natives := List.mem_map_of_mem hmem
  rw [referent?_of_symbol hargument, SymbolTable.find?_of_mem_natives hsound.names_nodup hsymbol]
  rfl

theorem kind_eq_native_iff (hsound : program.SoundNames) {name : String} {referent : Referent}
    (hargument : instruction.argument = some (.symbol name))
    (hreferent : program.laidOut.referent? instruction = some referent) :
    referent.kind = .native ↔ program.NamesNative instruction := by
  constructor
  · intro hkind
    rw [referent?_of_symbol hargument] at hreferent
    obtain ⟨symbol, hfind, rfl⟩ := Option.map_eq_some_iff.mp hreferent
    cases symbol with
    | code sec => cases hkind
    | native symbol =>
        obtain ⟨hmem, rfl, -⟩ := SymbolTable.mem_of_find?_native hfind
        obtain ⟨routine, hroutine, rfl⟩ := List.mem_map.mp hmem
        exact ⟨routine, hroutine, hargument⟩
  · rintro ⟨routine, hmem, hsymbol⟩
    rw [referent?_native hsound hmem hsymbol] at hreferent
    cases hreferent
    rfl

end References

theorem extent_le (before : List Section) (sec : Section) (after : List Section) :
    extent before ≤ extent (before ++ sec :: after) := by
  simp only [extent, List.flatMap_append, List.length_append]
  omega

theorem byte_eq_opcodeOf {operation : Operation} (hmem : operation ∈ Operation.all)
    {kind : Option SymbolKind} {native : Bool} (hkind : kind = some .native ↔ native = true) :
    operation.encoding.byte kind = opcodeOf operation native := by
  rcases Operation.encoding_of_mem operation hmem with hsingle | hcall
  · rw [opcodeOf, hsingle]
    rfl
  · rw [opcodeOf, hcall]
    cases native with
    | true => rw [hkind.mpr rfl]; rfl
    | false =>
        cases kind with
        | none => rfl
        | some kind =>
            cases kind with
            | code => rfl
            | native => cases hkind.mp rfl

theorem opcode_of_encodes {program : Program} (hsound : program.SoundNames)
    {instruction : Instruction} {record : Record}
    (h : instruction.Encodes (program.laidOut.referent? instruction) record) :
    ∃ operation : Operation, operation.Named instruction.mnemonic ∧
      record.opcode = opcodeOf operation (program.NamesNative instruction) := by
  have hnot (hsymbol : ∀ name, instruction.argument ≠ some (.symbol name)) :
      none = some SymbolKind.native ↔ decide (program.NamesNative instruction) = true := by
    rw [decide_eq_true_iff]
    constructor
    · intro hnone
      cases hnone
    · rintro ⟨routine, -, hargument⟩
      exact absurd hargument (hsymbol routine.name)
  cases h with
  | absent hnamed _ hargument =>
      exact ⟨_, hnamed, byte_eq_opcodeOf hnamed.1 (hnot fun name => by simp [hargument])⟩
  | literal hnamed _ hargument _ =>
      exact ⟨_, hnamed, byte_eq_opcodeOf hnamed.1 (hnot fun name => by simp [hargument])⟩
  | symbol hnamed _ hargument hreferent =>
      refine ⟨_, hnamed, byte_eq_opcodeOf hnamed.1 ?_⟩
      rw [decide_eq_true_iff, Option.some.injEq]
      exact kind_eq_native_iff hsound hargument hreferent

theorem recordOf_of_recordIn {program : Program} (hsound : program.SoundNames)
    (hsize : extent program.sections < 2 ^ 64) {instruction : Instruction}
    (hmem : instruction ∈ program.instructions.map Prod.snd) {record : Record}
    (h : recordIn program.laidOut instruction = .ok record) :
    program.RecordOf instruction record.bytes := by
  have hencodes := Instruction.encodes_of_encode_eq_ok h
  have hvalue : bigEndianValue record.bytes.tail = record.operand.toNat :=
    bigEndianValue_bigEndian record.operand
  obtain ⟨operation, hnamed, hopcode⟩ := opcode_of_encodes hsound hencodes
  have hoperand := hencodes.operand_eq
  refine ⟨rfl, ⟨operation, hnamed, congrArg some hopcode⟩, ?_, ?_,
    hsound.declared instruction hmem, ?_, ?_⟩
  · intro hargument
    rw [hargument] at hoperand
    rw [hvalue, hoperand]
    rfl
  · intro literal hargument
    rw [hargument] at hoperand
    exact ⟨_, hoperand, hvalue⟩
  · intro routine hroutine hargument
    rw [hargument, referent?_native hsound hroutine hargument] at hoperand
    rw [hvalue, ← Option.some.inj hoperand]
    exact UInt32.toNat_toUInt64 routine.identifier
  · intro before sec after hsections hargument
    rw [hargument, referent?_code hsound hsections hargument] at hoperand
    rw [hvalue, ← Option.some.inj hoperand]
    apply UInt64.toNat_ofNat_of_lt'
    rw [hsections] at hsize
    exact lt_of_le_of_lt (extent_le before sec after) hsize

theorem length_flatten {α : Type} {width : Nat} {chunks : List (List α)}
    (h : ∀ chunk ∈ chunks, chunk.length = width) :
    chunks.flatten.length = width * chunks.length := by
  induction chunks with
  | nil => rfl
  | cons chunk chunks ih =>
      obtain ⟨hchunk, hchunks⟩ := List.forall_mem_cons.mp h
      rw [List.flatten_cons, List.length_append, hchunk, ih hchunks, List.length_cons,
        Nat.mul_succ, Nat.add_comm]

theorem drop_flatten {α : Type} {width : Nat} {chunks : List (List α)}
    (h : ∀ chunk ∈ chunks, chunk.length = width) (k : Nat) :
    chunks.flatten.drop (width * k) = (chunks.drop k).flatten := by
  induction chunks generalizing k with
  | nil => simp
  | cons chunk chunks ih =>
      obtain ⟨hchunk, hchunks⟩ := List.forall_mem_cons.mp h
      cases k with
      | zero => rfl
      | succ k =>
          have hwidth : width * (k + 1) = chunk.length + width * k := by
            rw [hchunk, Nat.mul_succ, Nat.add_comm]
          rw [List.flatten_cons, hwidth, List.drop_length_add_append, ih hchunks,
            List.drop_succ_cons]

theorem take_flatten {α : Type} {width : Nat} {chunks : List (List α)}
    (h : ∀ chunk ∈ chunks, chunk.length = width) (k : Nat) :
    chunks.flatten.take (width * k) = (chunks.take k).flatten := by
  induction chunks generalizing k with
  | nil => simp
  | cons chunk chunks ih =>
      obtain ⟨hchunk, hchunks⟩ := List.forall_mem_cons.mp h
      cases k with
      | zero => rfl
      | succ k =>
          have hwidth : width * (k + 1) = chunk.length + width * k := by
            rw [hchunk, Nat.mul_succ, Nat.add_comm]
          rw [List.flatten_cons, hwidth, List.take_length_add_append, ih hchunks,
            List.take_succ_cons, List.flatten_cons]

theorem forall₂_recordOf {program : Program} {assembly : Assembly}
    (h : program.assemble = .ok assembly) (hsize : extent program.sections < 2 ^ 64) :
    ∃ chunks, assembly.bytes = chunks.flatten ∧
      List.Forall₂ program.RecordOf (program.instructions.map Prod.snd) chunks := by
  obtain ⟨hsound, -, records, hrecords, hbytes⟩ := assemble_eq_ok_iff.mp h
  refine ⟨records.map Record.bytes, hbytes, ?_⟩
  rw [List.forall₂_map_right_iff]
  have hmem := (List.forall₂_and_left _ _).mpr ⟨fun instruction hmem => hmem, hrecords⟩
  exact hmem.imp fun instruction record ⟨hmem, hrecord⟩ =>
    recordOf_of_recordIn hsound hsize hmem hrecord

/-- The image of a program that assembles holds one record for each instruction, in the order of
the program. The records of a section begin where references to it lead. -/
theorem assemble_laidOutIn {program : Program} {assembly : Assembly}
    (h : program.assemble = .ok assembly) (hsize : 9 * program.instructions.length < 2 ^ 64) :
    program.LaidOutIn assembly := by
  have hextent : extent program.sections = 9 * program.instructions.length := by
    rw [extent, length_instructions]
  rw [← hextent] at hsize
  obtain ⟨chunks, hbytes, hchunks⟩ := forall₂_recordOf h hsize
  have hlength : chunks.length = program.instructions.length := by
    rw [← hchunks.length_eq, List.length_map]
  have hwidth : ∀ chunk ∈ chunks, chunk.length = 9 := by
    intro chunk hchunk
    obtain ⟨i, hi, rfl⟩ := List.mem_iff_getElem.mp hchunk
    exact (hchunks.get (by rw [hchunks.length_eq]; exact hi) hi).length_eq
  have hslice : ∀ k m, (assembly.bytes.drop (9 * k)).take (9 * m) =
      ((chunks.drop k).take m).flatten := by
    intro k m
    rw [hbytes, drop_flatten hwidth,
      take_flatten fun chunk hchunk => hwidth chunk (List.mem_of_mem_drop hchunk)]
  refine ⟨?_, ?_, ?_, ?_⟩
  · rw [hbytes, length_flatten hwidth, hlength]
  · obtain ⟨-, hsymbols, -⟩ := assemble_eq_ok_iff.mp h
    rw [hsymbols, laidOut, SymbolTable.imageSize_layOut, SymbolTable.imageSize_ofProgram,
      UInt64.toNat_ofNat_of_lt' hsize, hextent]
  · intro k hk
    have hchunk : k < chunks.length := by omega
    have hrecord := hchunks.get (by rwa [List.length_map]) hchunk
    rw [hslice k 1, List.drop_eq_getElem_cons hchunk, List.take_succ_cons, List.take_zero,
      List.flatten_singleton]
    simpa using hrecord
  · intro before sec after hsections
    refine ⟨_, hslice _ _, ?_⟩
    have hsplit := List.forall₂_take sec.instructions.length
      (List.forall₂_drop (before.flatMap Section.instructions).length hchunks)
    rw [instructions_map_snd, hsections, List.flatMap_append, List.drop_left, List.flatMap_cons,
      List.take_left] at hsplit
    exact hsplit

/-- A program with a reference ahead, an empty section, and native routines in between. -/
def greeting : Program :=
  { declarations :=
      [ .native { name := "std.putch", identifier := 1, line := 1 },
        .code
          { name := "main"
            instructions :=
              [ { mnemonic := "LOADI", argument := some (.literal ⟨.hex, "0x48"⟩), line := 3 },
                { mnemonic := "CALL", argument := some (.symbol "std.putch"), line := 4 },
                { mnemonic := "JMP", argument := some (.symbol "done"), line := 5 } ]
            line := 2 },
        .code { name := "unused", instructions := [], line := 6 },
        .native { name := "std.flush", identifier := 2, line := 7 },
        .code
          { name := "done"
            instructions := [{ mnemonic := "HALT", argument := none, line := 9 }]
            line := 8 } ] }

/-- What the program assembles to. The jump leads behind its three predecessors. -/
def greetingAssembly : Assembly :=
  { symbols := greeting.laidOut
    bytes :=
      [ 0x10, 0, 0, 0, 0, 0, 0, 0, 0x48,
        0x62, 0, 0, 0, 0, 0, 0, 0, 0x01,
        0x50, 0, 0, 0, 0, 0, 0, 0, 0x1B,
        0x01, 0, 0, 0, 0, 0, 0, 0, 0 ] }

theorem greeting_laidOutIn :
    greeting.assemble = .ok greetingAssembly ∧ 9 * greeting.instructions.length < 2 ^ 64 ∧
      greeting.LaidOutIn greetingAssembly := by
  have hassemble : greeting.assemble = .ok greetingAssembly := by decide +kernel
  have hsize : 9 * greeting.instructions.length < 2 ^ 64 := by decide +kernel
  exact ⟨hassemble, hsize, assemble_laidOutIn hassemble hsize⟩

end Program

end StackAsm
