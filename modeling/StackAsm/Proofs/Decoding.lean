import Mathlib
import StackAsm.Proofs.Linking

namespace StackAsm

theorem Record.bytes_injective : Function.Injective Record.bytes := by
  rintro ⟨opcode, operand⟩ ⟨other, number⟩ h
  obtain ⟨hopcode, hbytes⟩ := List.cons.inj h
  have hoperand := congrArg bigEndianValue hbytes
  rw [bigEndianValue_bigEndian, bigEndianValue_bigEndian, UInt64.toNat_inj] at hoperand
  exact congrArg₂ Record.mk hopcode hoperand

theorem flatMap_bytes_injective :
    Function.Injective fun records : List Record => records.flatMap Record.bytes := by
  intro records others h
  have hcut := congrArg cutRecords h
  simp only [cutRecords_flatMap] at hcut
  exact Record.bytes_injective.list_map hcut

namespace Operation

theorem eq_call_iff {operation : Operation} {mnemonic : String} (h : operation.Named mnemonic) :
    operation = call ↔ mnemonic.toLower = "call" := by
  have hcall : call.mnemonic.toLower = "call" := by decide +kernel
  constructor
  · rintro rfl
    rw [← h.2, hcall]
  · intro hname
    exact h.unique ⟨call_mem, by rw [hcall, hname]⟩

section Tables

open Program (opcodeOf)

theorem opcodeOf_eq :
    ∀ operation ∈ all, ∀ native,
      opcodeOf operation native = opcodeOf operation (decide (operation = call) && native) := by
  decide

theorem mnemonicOf?_opcodeOf :
    ∀ operation ∈ all,
      mnemonicOf? (opcodeOf operation false) = some operation.mnemonic ∧
        operation.mnemonic ≠ "CALLN" := by
  decide +kernel

theorem mnemonicOf?_opcodeOf_call : mnemonicOf? (opcodeOf call true) = some "CALLN" := by
  decide +kernel

end Tables

end Operation

namespace Program

/-- The instruction is a call of a native routine. -/
def CallsNative (program : Program) (instruction : Instruction) : Prop :=
  instruction.mnemonic.toLower = "call" ∧ program.NamesNative instruction

instance (program : Program) (instruction : Instruction) :
    Decidable (program.CallsNative instruction) :=
  inferInstanceAs (Decidable (_ ∧ _))

/-- The number that the argument of an instruction means in a program, on 64 bits. A section means
the length of the sections before it. -/
inductive Operand (program : Program) (instruction : Instruction) : UInt64 → Prop
  | absent (hargument : instruction.argument = none) : Operand program instruction 0
  | literal {literal : Literal} {bits : UInt64}
      (hargument : instruction.argument = some (.literal literal))
      (hbits : literal.bits = .ok bits) :
      Operand program instruction bits
  | native {routine : Native} (hmem : routine ∈ program.natives)
      (hargument : instruction.argument = some (.symbol routine.name)) :
      Operand program instruction routine.identifier.toUInt64
  | code {before after : List Section} {sec : Section}
      (hsections : program.sections = before ++ sec :: after)
      (hargument : instruction.argument = some (.symbol sec.name)) :
      Operand program instruction (UInt64.ofNat (extent before))

/-- What can be read from the record of an instruction. -/
structure ReadsAs (program : Program) (instruction : Instruction) (bytes : List UInt8) :
    Prop where
  length_eq : bytes.length = 9
  /-- The first byte gives the name of the operation as the instruction set spells it, unless a
  native routine is called. -/
  mnemonic : ¬program.CallsNative instruction →
    ∃ operation : Operation, operation.Named instruction.mnemonic ∧
      bytes.head?.bind Operation.mnemonicOf? = some operation.mnemonic
  native : bytes.head?.bind Operation.mnemonicOf? = some "CALLN" ↔ program.CallsNative instruction
  operand : ∃ value, program.Operand instruction value ∧ bigEndianValue bytes.tail = value.toNat

/-- Two instructions say the same, each in its own program. -/
structure Agrees (program other : Program) (instruction again : Instruction) : Prop where
  mnemonic : instruction.mnemonic.toLower = again.mnemonic.toLower
  native : program.CallsNative instruction ↔ other.CallsNative again
  operand : ∃ value, program.Operand instruction value ∧ other.Operand again value

theorem operand_of_referent? {program : Program} (hsound : program.SoundNames)
    {instruction : Instruction} {name : String} {referent : Referent}
    (hargument : instruction.argument = some (.symbol name))
    (hreferent : program.laidOut.referent? instruction = some referent) :
    program.Operand instruction referent.value := by
  have hname : name ∈ program.laidOut.names := by
    rw [referent?_of_symbol hargument] at hreferent
    obtain ⟨symbol, hfind, -⟩ := Option.map_eq_some_iff.mp hreferent
    exact SymbolTable.exists_find?_iff.mp ⟨symbol, hfind⟩
  rw [names_laidOut, List.mem_append] at hname
  rcases hname with hname | hname
  · obtain ⟨sec, hsec, rfl⟩ := List.mem_map.mp hname
    obtain ⟨before, after, hsections⟩ := List.append_of_mem hsec
    rw [referent?_code hsound hsections hargument] at hreferent
    cases hreferent
    exact .code hsections hargument
  · obtain ⟨routine, hroutine, rfl⟩ := List.mem_map.mp hname
    rw [referent?_native hsound hroutine hargument] at hreferent
    cases hreferent
    exact .native hroutine hargument

section Record

variable {program : Program} (hsound : program.SoundNames) {instruction : Instruction}
  {record : Record} (h : recordIn program.laidOut instruction = .ok record)
include hsound h

theorem operand_iff {value : UInt64} :
    program.Operand instruction value ↔ value = record.operand := by
  have hoperand := (Instruction.encodes_of_encode_eq_ok h).operand_eq
  constructor
  · intro hvalue
    cases hvalue with
    | absent hargument =>
        rw [hargument] at hoperand
        exact hoperand.symm
    | literal hargument hbits =>
        rw [hargument] at hoperand
        exact Except.ok.inj (hbits.symm.trans hoperand)
    | native hmem hargument =>
        rw [hargument, referent?_native hsound hmem hargument] at hoperand
        exact Option.some.inj hoperand
    | code hsections hargument =>
        rw [hargument, referent?_code hsound hsections hargument] at hoperand
        exact Option.some.inj hoperand
  · rintro rfl
    rcases hargument : instruction.argument with _ | name | literal
    · rw [hargument] at hoperand
      rw [hoperand]
      exact .absent hargument
    · rw [hargument] at hoperand
      obtain ⟨referent, hreferent, hvalue⟩ := Option.map_eq_some_iff.mp hoperand
      rw [← hvalue]
      exact operand_of_referent? hsound hargument hreferent
    · rw [hargument] at hoperand
      exact .literal hargument hoperand

theorem exists_opcode_eq :
    ∃ operation : Operation, operation.Named instruction.mnemonic ∧
      record.opcode = opcodeOf operation (program.CallsNative instruction) := by
  obtain ⟨operation, hnamed, hopcode⟩ :=
    opcode_of_encodes hsound (Instruction.encodes_of_encode_eq_ok h)
  refine ⟨operation, hnamed, ?_⟩
  have hcalls : program.CallsNative instruction ↔
      operation = Operation.call ∧ program.NamesNative instruction := by
    rw [CallsNative, Operation.eq_call_iff hnamed]
  rw [hopcode, Operation.opcodeOf_eq operation hnamed.1, ← Bool.decide_and,
    decide_eq_decide.mpr hcalls]

theorem mnemonicOf?_opcode (hcalls : ¬program.CallsNative instruction) :
    ∃ operation : Operation, operation.Named instruction.mnemonic ∧
      Operation.mnemonicOf? record.opcode = some operation.mnemonic := by
  obtain ⟨operation, hnamed, hopcode⟩ := exists_opcode_eq hsound h
  rw [decide_eq_false hcalls] at hopcode
  rw [hopcode]
  exact ⟨operation, hnamed, (Operation.mnemonicOf?_opcodeOf operation hnamed.1).1⟩

theorem mnemonicOf?_opcode_eq_calln_iff :
    Operation.mnemonicOf? record.opcode = some "CALLN" ↔ program.CallsNative instruction := by
  constructor
  · intro hname
    by_contra hcalls
    obtain ⟨operation, hnamed, hother⟩ := mnemonicOf?_opcode hsound h hcalls
    rw [hname] at hother
    exact (Operation.mnemonicOf?_opcodeOf operation hnamed.1).2 (Option.some.inj hother).symm
  · intro hcalls
    obtain ⟨operation, hnamed, hopcode⟩ := exists_opcode_eq hsound h
    rw [hopcode, decide_eq_true hcalls, (Operation.eq_call_iff hnamed).mpr hcalls.1]
    exact Operation.mnemonicOf?_opcodeOf_call

theorem readsAs_bytes : program.ReadsAs instruction record.bytes where
  length_eq := rfl
  mnemonic := mnemonicOf?_opcode hsound h
  native := mnemonicOf?_opcode_eq_calln_iff hsound h
  operand := ⟨record.operand, (operand_iff hsound h).mpr rfl, bigEndianValue_bigEndian _⟩

variable {other : Program} (hother : other.SoundNames) {again : Instruction} {copy : Record}
  (hagain : recordIn other.laidOut again = .ok copy)
include hother hagain

theorem record_eq_iff : record = copy ↔ program.Agrees other instruction again := by
  constructor
  · rintro rfl
    have hnative : program.CallsNative instruction ↔ other.CallsNative again :=
      (mnemonicOf?_opcode_eq_calln_iff hsound h).symm.trans
        (mnemonicOf?_opcode_eq_calln_iff hother hagain)
    refine ⟨?_, hnative, record.operand, (operand_iff hsound h).mpr rfl,
      (operand_iff hother hagain).mpr rfl⟩
    -- the name that is read back is the operation's own except for calls of native routines
    by_cases hcalls : program.CallsNative instruction
    · rw [hcalls.1, (hnative.mp hcalls).1]
    · obtain ⟨operation, hnamed, hname⟩ := mnemonicOf?_opcode hsound h hcalls
      obtain ⟨same, hsame, hname'⟩ := mnemonicOf?_opcode hother hagain (mt hnative.mpr hcalls)
      rw [hname] at hname'
      rw [← hnamed.2, ← hsame.2, Option.some.inj hname']
  · rintro ⟨hmnemonic, hnative, value, hvalue, hvalue'⟩
    obtain ⟨operation, hnamed, hopcode⟩ := exists_opcode_eq hsound h
    obtain ⟨same, hsame, hopcode'⟩ := exists_opcode_eq hother hagain
    have hoperation : operation = same := hnamed.unique ⟨hsame.1, hsame.2.trans hmnemonic.symm⟩
    have hopcodes : record.opcode = copy.opcode := by
      rw [hopcode, hopcode', hoperation, decide_eq_decide.mpr hnative]
    have hoperands : record.operand = copy.operand :=
      ((operand_iff hsound h).mp hvalue).symm.trans ((operand_iff hother hagain).mp hvalue')
    cases record
    cases copy
    exact congrArg₂ Record.mk hopcodes hoperands

end Record

/-- The image of a program can be read record by record. It is also the image of another program
exactly if that has as many instructions, which say the same one by one. -/
theorem image_decodes {program : Program} {assembly : Assembly}
    (h : program.assemble = .ok assembly) :
    List.Forall₂ program.ReadsAs (program.instructions.map Prod.snd) (cutRecords assembly.bytes) ∧
      ∀ other again, other.assemble = .ok again →
        (assembly.bytes = again.bytes ↔
          List.Forall₂ (program.Agrees other) (program.instructions.map Prod.snd)
            (other.instructions.map Prod.snd)) := by
  obtain ⟨hsound, -, records, hrecords, hbytes⟩ := assemble_eq_ok_iff.mp h
  constructor
  · rw [hbytes, cutRecords_flatMap, List.forall₂_map_right_iff]
    exact hrecords.imp fun _ _ hrecord => readsAs_bytes hsound hrecord
  · intro other again hagain
    obtain ⟨hother, -, copies, hcopies, hagainBytes⟩ := assemble_eq_ok_iff.mp hagain
    rw [hbytes, hagainBytes, flatMap_bytes_injective.eq_iff]
    exact Outcome.eq_iff_forall₂
      (fun _ _ _ _ hrecord hcopy => record_eq_iff hsound hrecord hother hcopy) hrecords hcopies

/-- The greeting in other words: no name is the same, one section is left out, and addresses are
written as numbers. -/
def paraphrase : Program :=
  { declarations :=
      [ .code
          { name := "main"
            instructions :=
              [ { mnemonic := "LOADI", argument := some (.literal ⟨.decimal, "72"⟩), line := 2 },
                { mnemonic := "CALL", argument := some (.symbol "put"), line := 3 },
                { mnemonic := "JMP", argument := some (.literal ⟨.binary, "0b11011"⟩), line := 4 },
                { mnemonic := "HALT", argument := none, line := 5 } ]
            line := 1 },
        .native { name := "put", identifier := 1, line := 6 } ] }

theorem greeting_decodes :
    greeting.assemble = .ok greetingAssembly ∧
      List.Forall₂ greeting.ReadsAs (greeting.instructions.map Prod.snd)
        (cutRecords greetingAssembly.bytes) ∧
      paraphrase.assemble =
        .ok { symbols := paraphrase.laidOut, bytes := greetingAssembly.bytes } ∧
      List.Forall₂ (greeting.Agrees paraphrase) (greeting.instructions.map Prod.snd)
        (paraphrase.instructions.map Prod.snd) := by
  have hgreeting : greeting.assemble = .ok greetingAssembly := by decide +kernel
  have hparaphrase : paraphrase.assemble =
      .ok { symbols := paraphrase.laidOut, bytes := greetingAssembly.bytes } := by decide +kernel
  obtain ⟨hreads, hequal⟩ := image_decodes hgreeting
  exact ⟨hgreeting, hreads, hparaphrase, (hequal _ _ hparaphrase).mp rfl⟩

end Program

end StackAsm
