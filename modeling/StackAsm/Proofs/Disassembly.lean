import Mathlib
import StackAsm.Proofs.HexLiterals
import StackAsm.Proofs.Linking
import StackAsm.Proofs.Renumbering
import StackAsm.Proofs.RoundTrip

namespace StackAsm

namespace Disassembly

/-- The byte that calls of native routines begin with. -/
def nativeCall : UInt8 := 0x62

/-- The number behind the first byte of a record. -/
def operand (record : List UInt8) : Nat :=
  bigEndianValue record.tail

/-- The name of the native routine with a number. -/
def nativeName (width number : Nat) : String :=
  "n" ++ Hexadecimal.padded width number

/-- The declaration of the native routine with a number. -/
def nativeLine (width number : Nat) : String :=
  "native " ++ nativeName width number ++ " 0x" ++ Hexadecimal.padded width number

/-- The mnemonic of the records that begin with the byte. Calls of native routines are calls. -/
def mnemonic? (byte : UInt8) : Option String :=
  if byte = nativeCall then some "CALL" else Operation.mnemonicOf? byte

/-- The line of a record, if its first byte is that of an operation. -/
def line? (width : Nat) (record : List UInt8) : Option String := do
  let byte ← record.head?
  let mnemonic ← mnemonic? byte
  let operation ← Operation.find? mnemonic
  if operation.takesArgument then
    let argument :=
      if byte = nativeCall then nativeName width (operand record)
      else "0x" ++ Hexadecimal.padded 16 (operand record)
    return mnemonic ++ " " ++ argument
  else return mnemonic

/-- The source that an image is written out as, with the given native routines. -/
def source? (width : Nat) (natives : List Nat) (image : List UInt8) : Option (List UInt8) :=
  ((cutRecords image).mapM (line? width)).map fun lines =>
    let lines := natives.map (nativeLine width) ++ "section main" :: lines
    Text.encode (String.join (lines.map (· ++ "\n")))

/-- The numbers are those of the native routines that an image calls, in any order. -/
structure Calls (image : List UInt8) (natives : List Nat) : Prop where
  nodup : natives.Nodup
  mem_iff : ∀ number, number ∈ natives ↔
    ∃ record ∈ cutRecords image, record.head? = some nativeCall ∧ operand record = number

theorem exists_calls (image : List UInt8) : ∃ natives, Calls image natives := by
  set called := (cutRecords image).filter (·.head? = some nativeCall)
  refine ⟨(called.map operand).dedup, List.nodup_dedup _, fun number => ?_⟩
  simp [called, and_assoc]

inductive Written (width : Nat) : Record → Instruction → Prop
  | plain {operation : Operation} (hmem : operation ∈ Operation.all)
      (htakes : operation.takesArgument = false) :
      Written width { opcode := operation.encoding.byte none, operand := 0 }
        { mnemonic := operation.mnemonic, argument := none, line := 0 }
  | number {operation : Operation} {operand : UInt64} (hmem : operation ∈ Operation.all)
      (htakes : operation.takesArgument = true) :
      Written width { opcode := operation.encoding.byte none, operand }
        { mnemonic := operation.mnemonic
          argument := some (.literal
            { kind := .hex, text := "0x" ++ Hexadecimal.padded 16 operand.toNat })
          line := 0 }
  | native {operand : UInt64} (hlimit : operand.toNat < UInt32.size) :
      Written width { opcode := nativeCall, operand }
        { mnemonic := "CALL"
          argument := some (.symbol (nativeName width operand.toNat))
          line := 0 }

section Tables

theorem byte_ne_nativeCall :
    ∀ operation ∈ Operation.all, operation.encoding.byte none ≠ nativeCall := by
  decide

theorem mnemonic?_byte :
    ∀ operation ∈ Operation.all,
      mnemonic? (operation.encoding.byte none) = some operation.mnemonic := by
  decide +kernel

theorem find?_mnemonic {operation : Operation} (hmem : operation ∈ Operation.all) :
    Operation.find? operation.mnemonic = some operation :=
  Operation.find?_eq_some_iff.mpr ⟨hmem, rfl⟩

end Tables

theorem exists_written (width : Nat) {table : SymbolTable} {instruction : Instruction}
    {record : Record} (h : Program.recordIn table instruction = .ok record) :
    ∃ written, Written width record written := by
  cases Instruction.encodes_of_encode_eq_ok h with
  | absent hnamed htakes hargument => exact ⟨_, .plain hnamed.1 htakes⟩
  | literal hnamed htakes hargument hbits => exact ⟨_, .number hnamed.1 htakes⟩
  | @symbol operation name referent hnamed htakes hargument hreferent =>
      rw [Program.referent?_of_symbol hargument, Option.map_eq_some_iff] at hreferent
      obtain ⟨symbol, -, rfl⟩ := hreferent
      have hnumber (hbyte : operation.encoding.byte (some symbol.referent.kind) =
          operation.encoding.byte none) :
          ∃ written, Written width
            { opcode := operation.encoding.byte (some symbol.referent.kind)
              operand := symbol.referent.value } written := by
        rw [hbyte]
        exact ⟨_, .number hnamed.1 htakes⟩
      -- the kind of what is referred to shows in the byte of calls only
      rcases Operation.encoding_of_mem operation hnamed.1 with hsingle | hcall
      · apply hnumber
        rw [hsingle]
        rfl
      · cases symbol with
        | code sec =>
            apply hnumber
            rw [hcall]
            rfl
        | native routine =>
            rw [hcall]
            refine ⟨_, .native ?_⟩
            change routine.identifier.toUInt64.toNat < UInt32.size
            rw [UInt32.toNat_toUInt64]
            exact routine.identifier.toNat_lt_size

theorem bits_padded (operand : UInt64) :
    Literal.bits { kind := .hex, text := "0x" ++ Hexadecimal.padded 16 operand.toNat } =
      .ok operand := by
  rw [Literal.bits_hex (Literal.padded_mem_literal 16 _) (Literal.hexValue?_padded 16 _)
    operand.toNat_lt_size, UInt64.ofNat_toNat]

theorem exists_forall₂_written (width : Nat) {table : SymbolTable}
    {instructions : List Instruction} {records : List Record}
    (h : List.Forall₂ (fun instruction record => Program.recordIn table instruction = .ok record)
      instructions records) :
    ∃ written, List.Forall₂ (Written width) records written := by
  induction h with
  | nil => exact ⟨[], .nil⟩
  | cons hrecord _ ih =>
      obtain ⟨instruction, hhead⟩ := exists_written width hrecord
      obtain ⟨written, htail⟩ := ih
      exact ⟨instruction :: written, .cons hhead htail⟩

theorem toList_nativeName (width number : Nat) :
    (nativeName width number).toList = 'n' :: (Hexadecimal.padded width number).toList := by
  rw [nativeName, String.toList_append]
  rfl

theorem isLabel_nativeName (width number : Nat) : Lexeme.IsLabel (nativeName width number) := by
  have hname := toList_nativeName width number
  have hdigits := Hexadecimal.isDigitOf_padded width number
  refine ⟨?_, ?_, ?_⟩
  · rw [← Lexeme.isName_iff_mem, hname, Lexeme.isName, Bool.and_eq_true, List.all_eq_true]
    refine ⟨by decide, fun c hc => ?_⟩
    have hdigit := Pattern.within_hexDigits.mpr (hdigits c hc)
    rw [← Pattern.within_continuesName]
    simp only [Pattern.within_cons, Pattern.within_nil, or_false, Char.reduceToNat] at hdigit ⊢
    omega
  · intro heq
    rw [heq] at hname
    exact absurd (List.cons.inj hname).1 (by decide)
  · intro heq
    rw [heq] at hname
    have htail : (Hexadecimal.padded width number).toList = "ative".toList :=
      (List.cons.inj hname).2.symm
    rw [htail] at hdigits
    exact absurd (hdigits 't' (by decide)) (by decide)

section Written

variable {width : Nat} {record : Record} {instruction : Instruction}
  (h : Written width record instruction)
include h

theorem Written.line?_bytes : line? width record.bytes = some instruction.text := by
  have hoperand : operand record.bytes = record.operand.toNat :=
    bigEndianValue_bigEndian record.operand
  have hhead : record.bytes.head? = some record.opcode := rfl
  simp only [line?, hhead, hoperand]
  cases h with
  | plain hmem htakes => simp [mnemonic?_byte _ hmem, find?_mnemonic hmem, htakes, Instruction.text]
  | number hmem htakes =>
      simp [mnemonic?_byte _ hmem, find?_mnemonic hmem, htakes, byte_ne_nativeCall _ hmem,
        Instruction.text, Argument.text]
  | native hlimit =>
      have hfind : Operation.find? "CALL" = some Operation.call := find?_mnemonic Operation.call_mem
      simp [mnemonic?, hfind, Operation.call, Instruction.text, Argument.text]

theorem Written.canonical : instruction.Canonical := by
  cases h with
  | plain hmem htakes =>
      refine ⟨_, hmem, rfl, by rw [htakes]; rfl, ?_⟩
      intro literal hliteral
      cases hliteral
  | number hmem htakes =>
      refine ⟨_, hmem, rfl, by rw [htakes]; rfl, ?_⟩
      intro literal hliteral
      cases hliteral
      exact ⟨_, bits_padded _⟩
  | native hlimit =>
      refine ⟨Operation.call, Operation.call_mem, rfl, rfl, ?_⟩
      intro literal hliteral
      cases hliteral

theorem Written.printable : ∀ argument ∈ instruction.argument, argument.Printable := by
  cases h with
  | plain hmem htakes => simp
  | number hmem htakes =>
      rintro argument ⟨⟩
      exact Literal.padded_mem_literal 16 _
  | native hlimit =>
      rintro argument ⟨⟩
      exact isLabel_nativeName width _

theorem Written.symbol {name : String} (hname : instruction.argument = some (.symbol name)) :
    instruction.mnemonic = "CALL" ∧ name = nativeName width record.operand.toNat ∧
      record.opcode = nativeCall := by
  cases h with
  | plain hmem htakes => cases hname
  | number hmem htakes => cases hname
  | native hlimit =>
      cases hname
      exact ⟨rfl, rfl, rfl⟩

theorem Written.of_nativeCall (hopcode : record.opcode = nativeCall) :
    record.operand.toNat < UInt32.size ∧
      instruction.argument = some (.symbol (nativeName width record.operand.toNat)) := by
  cases h with
  | plain hmem htakes => exact absurd hopcode (byte_ne_nativeCall _ hmem)
  | number hmem htakes => exact absurd hopcode (byte_ne_nativeCall _ hmem)
  | native hlimit => exact ⟨hlimit, rfl⟩

theorem Written.encode_eq {referent? : Option Referent}
    (hreferent : record.opcode = nativeCall →
      referent? = some { value := record.operand, kind := .native }) :
    instruction.encode referent? = .ok record := by
  cases h with
  | plain hmem htakes => simp [Instruction.encode, find?_mnemonic hmem, htakes]
  | number hmem htakes => simp [Instruction.encode, find?_mnemonic hmem, htakes, bits_padded]
  | native hlimit =>
      have hfind : Operation.find? "CALL" = some Operation.call := find?_mnemonic Operation.call_mem
      rw [hreferent rfl]
      simp only [Instruction.encode, hfind]
      rfl

end Written

theorem nativeName_injective (width : Nat) : Function.Injective (nativeName width) := by
  intro a b h
  have hlist := congrArg String.toList h
  rw [toList_nativeName, toList_nativeName, List.cons.injEq, String.toList_inj] at hlist
  exact Hexadecimal.padded_injective width hlist.2

/-- The program that an image is written out as. -/
def program (width : Nat) (natives : List Nat) (instructions : List Instruction) : Program :=
  { declarations :=
      natives.map (fun number => .native
        { name := nativeName width number, identifier := UInt32.ofNat number, line := 0 }) ++
      [.code { name := "main", instructions, line := 0 }] }

section Program

variable (width : Nat) (natives : List Nat) (instructions : List Instruction)

theorem sections_program :
    (program width natives instructions).sections =
      [{ name := "main", instructions, line := 0 }] := by
  rw [Program.sections, program, List.filterMap_append, List.filterMap_map]
  simp [Function.comp_def, Declaration.code?]

theorem natives_program :
    (program width natives instructions).natives = natives.map fun number =>
      { name := nativeName width number, identifier := UInt32.ofNat number, line := 0 } := by
  rw [Program.natives, program, List.filterMap_append, List.filterMap_map]
  simp [Function.comp_def, Declaration.native?]

theorem instructions_program :
    (program width natives instructions).instructions.map Prod.snd = instructions := by
  rw [Program.instructions_map_snd, sections_program, List.flatMap_singleton]

theorem lines_program (hlimit : ∀ number ∈ natives, number < UInt32.size) :
    (program width natives instructions).lines width =
      natives.map (nativeLine width) ++ "section main" :: instructions.map Instruction.text := by
  have hnatives : (natives.map fun number =>
      Declaration.native
        { name := nativeName width number, identifier := UInt32.ofNat number, line := 0 }).flatMap
          (Declaration.lines width) = natives.map (nativeLine width) := by
    rw [List.flatMap_map, List.map_eq_flatMap]
    refine List.flatMap_congr fun number hnumber => ?_
    have hspace : " 0x" = " " ++ "0x" := rfl
    rw [Declaration.lines, nativeLine, Native.number, hspace,
      UInt32.toNat_ofNat_of_lt' (hlimit number hnumber)]
    simp only [String.append_assoc]
  rw [Program.lines, program, List.flatMap_append, hnatives, List.flatMap_singleton]
  rfl

end Program

section Written

variable {width : Nat} {natives : List Nat} {records : List Record}
  {instructions : List Instruction}

theorem exists_of_mem_instructions (hwritten : List.Forall₂ (Written width) records instructions)
    {instruction : Instruction} (hmem : instruction ∈ instructions) :
    ∃ record ∈ records, Written width record instruction :=
  Outcome.exists_of_forall₂ (List.Forall₂.flip hwritten) hmem

theorem mapM_line?_bytes (hwritten : List.Forall₂ (Written width) records instructions) :
    (records.map Record.bytes).mapM (line? width) = some (instructions.map Instruction.text) := by
  induction hwritten with
  | nil => rfl
  | cons hhead _ ih =>
      rw [List.map_cons, List.mapM_cons, hhead.line?_bytes, ih]
      rfl

theorem printable_program (natives : List Nat)
    (hwritten : List.Forall₂ (Written width) records instructions) :
    (program width natives instructions).Printable := by
  constructor
  · rw [sections_program]
    intro sec hsec
    have hmain : Lexeme.IsLabel "main" := by decide
    rwa [List.mem_singleton.mp hsec]
  · rw [natives_program]
    intro routine hroutine
    obtain ⟨number, -, rfl⟩ := List.mem_map.mp hroutine
    exact isLabel_nativeName width number
  · rw [instructions_program]
    intro instruction hinstruction
    obtain ⟨record, -, h⟩ := exists_of_mem_instructions hwritten hinstruction
    exact h.canonical
  · rw [instructions_program]
    intro instruction hinstruction
    obtain ⟨record, -, h⟩ := exists_of_mem_instructions hwritten hinstruction
    exact h.printable

section Calls

variable (hcalls : Calls (records.flatMap Record.bytes) natives)
include hcalls

theorem Calls.mem_natives_iff {number : Nat} :
    number ∈ natives ↔
      ∃ record ∈ records, record.opcode = nativeCall ∧ record.operand.toNat = number := by
  rw [hcalls.mem_iff, cutRecords_flatMap]
  constructor
  · rintro ⟨_, hrecord, hhead, rfl⟩
    obtain ⟨record, hmem, rfl⟩ := List.mem_map.mp hrecord
    exact ⟨record, hmem, Option.some.inj hhead, (bigEndianValue_bigEndian record.operand).symm⟩
  · rintro ⟨record, hmem, hopcode, rfl⟩
    exact ⟨record.bytes, List.mem_map_of_mem hmem, congrArg some hopcode,
      bigEndianValue_bigEndian record.operand⟩

variable (hwritten : List.Forall₂ (Written width) records instructions)
include hwritten

theorem Calls.lt_size : ∀ number ∈ natives, number < UInt32.size := by
  intro number hnumber
  obtain ⟨record, hrecord, hopcode, rfl⟩ := hcalls.mem_natives_iff.mp hnumber
  obtain ⟨instruction, -, h⟩ := Outcome.exists_of_forall₂ hwritten hrecord
  exact (h.of_nativeCall hopcode).1

theorem Calls.soundNames : (program width natives instructions).SoundNames := by
  have hsymbol : ∀ instruction ∈ instructions, ∀ name,
      instruction.argument = some (.symbol name) →
        instruction.mnemonic = "CALL" ∧ name ∈ natives.map (nativeName width) := by
    intro instruction hinstruction name hname
    obtain ⟨record, hrecord, h⟩ := exists_of_mem_instructions hwritten hinstruction
    obtain ⟨hmnemonic, rfl, hopcode⟩ := h.symbol hname
    exact ⟨hmnemonic, List.mem_map_of_mem
      (hcalls.mem_natives_iff.mpr ⟨record, hrecord, hopcode, rfl⟩)⟩
  have hnames : (program width natives instructions).natives.map Native.name =
      natives.map (nativeName width) := by
    rw [natives_program, List.map_map]
    rfl
  constructor
  · rw [sections_program]
    exact List.mem_singleton.mpr rfl
  · rw [hnames, sections_program, List.map_singleton, List.singleton_append, List.nodup_cons]
    refine ⟨?_, hcalls.nodup.map (nativeName_injective width)⟩
    intro hmain
    obtain ⟨number, -, hname⟩ := List.mem_map.mp hmain
    have hlist : 'n' :: (Hexadecimal.padded width number).toList = "main".toList := by
      rw [← toList_nativeName, hname]
    exact absurd (List.cons.inj hlist).1 (by decide)
  · rw [instructions_program, hnames]
    intro instruction hinstruction name hname
    exact List.mem_append_right _ (hsymbol instruction hinstruction name hname).2
  · rw [instructions_program]
    intro instruction hinstruction name hname hjump
    rw [(hsymbol instruction hinstruction name hname).1] at hjump
    exact absurd hjump (by decide +kernel)

theorem Calls.assemble_program :
    (program width natives instructions).assemble =
      .ok
        { symbols := (program width natives instructions).laidOut
          bytes := records.flatMap Record.bytes } := by
  have hsound := hcalls.soundNames hwritten
  rw [Program.assemble_eq_ok_iff]
  refine ⟨hsound, rfl, records, ?_, rfl⟩
  rw [instructions_program]
  have hmem := (List.forall₂_and_left _ _).mpr ⟨fun record hrecord => hrecord, hwritten⟩
  refine List.Forall₂.flip (hmem.imp ?_)
  rintro record instruction ⟨hrecord, h⟩
  apply h.encode_eq
  intro hopcode
  obtain ⟨hlimit, hargument⟩ := h.of_nativeCall hopcode
  have hroutine : { name := nativeName width record.operand.toNat
                    identifier := UInt32.ofNat record.operand.toNat
                    line := 0 : Native } ∈ (program width natives instructions).natives := by
    rw [natives_program, List.mem_map]
    exact ⟨_, hcalls.mem_natives_iff.mpr ⟨record, hrecord, hopcode, rfl⟩, rfl⟩
  rw [Program.referent?_native hsound hroutine hargument]
  congr 2
  rw [← UInt64.toNat_inj, UInt32.toNat_toUInt64]
  exact UInt32.toNat_ofNat_of_lt' hlimit

theorem Calls.source?_eq :
    source? width natives (records.flatMap Record.bytes) =
      some ((program width natives instructions).file width) := by
  rw [source?, cutRecords_flatMap, mapM_line?_bytes hwritten, Program.file,
    lines_program width natives instructions (hcalls.lt_size hwritten)]
  rfl

end Calls

end Written

end Disassembly

namespace Program

theorem moved_renumbered (program : Program) :
    program.renumbered.moved (fun _ => 0) = program.moved fun _ => 0 := by
  have hplaced (line : Nat) (declaration : Declaration) :
      (declaration.placedAt line).moved (fun _ => 0) = declaration.moved fun _ => 0 := by
    cases declaration with
    | code sec =>
        have hfst := congrArg (List.map (Instruction.moved fun _ => 0))
          (List.zipIdx_map_fst (line + 1) sec.instructions)
        simp only [Declaration.placedAt, Declaration.moved, List.map_map, ← hfst]
        rfl
    | native routine => rfl
  have hdeclarations (line : Nat) (declarations : List Declaration) :
      (Declaration.renumber line declarations).map (Declaration.moved fun _ => 0) =
        declarations.map (Declaration.moved fun _ => 0) := by
    induction declarations generalizing line with
    | nil => rfl
    | cons declaration declarations ih =>
        rw [Declaration.renumber, List.map_cons, List.map_cons, hplaced, ih]
  rw [moved, moved, renumbered, hdeclarations]

theorem assemble_renumbered_eq_ok_iff {program : Program} {assembly : Assembly} :
    program.renumbered.assemble = .ok assembly ↔ program.assemble = .ok assembly := by
  have hmoved (other : Program) :
      (other.moved fun _ => 0).assemble = .ok assembly ↔ other.assemble = .ok assembly := by
    rw [assemble_moved, Outcome.mapError_eq_ok_iff]
  rw [← hmoved, moved_renumbered, hmoved]

/-- The disassembly of what a program assembles to, with its native routines declared in any order
and their numbers written with any number of zeros, assembles to the same image. -/
theorem disassembly_reassembles {program : Program} {assembly : Assembly}
    (h : program.assemble = .ok assembly) :
    (∃ natives, Disassembly.Calls assembly.bytes natives) ∧
      ∀ width natives, Disassembly.Calls assembly.bytes natives →
        ∃ source, Disassembly.source? width natives assembly.bytes = some source ∧
          ∃ again, Assembly.ofSource source = .ok again ∧ again.bytes = assembly.bytes := by
  refine ⟨Disassembly.exists_calls assembly.bytes, ?_⟩
  intro width natives hcalls
  obtain ⟨-, -, records, hrecords, hbytes⟩ := assemble_eq_ok_iff.mp h
  rw [hbytes] at hcalls ⊢
  obtain ⟨instructions, hwritten⟩ := Disassembly.exists_forall₂_written width hrecords
  have hassemble := assemble_renumbered_eq_ok_iff.mpr (hcalls.assemble_program hwritten)
  set again := Disassembly.program width natives instructions
  refine ⟨_, hcalls.source?_eq hwritten, { symbols := again.laidOut, bytes := _ }, ?_, rfl⟩
  rw [Assembly.ofSource_eq, read_file width (Disassembly.printable_program natives hwritten)]
  exact hassemble

theorem greeting_reassembles :
    greeting.assemble = .ok greetingAssembly ∧ Disassembly.Calls greetingAssembly.bytes [1] ∧
      Disassembly.source? 2 [1] greetingAssembly.bytes =
        some (Text.encode ("native n01 0x01\nsection main\nLOADI 0x0000000000000048\n" ++
          "CALL n01\nJMP 0x000000000000001B\nHALT\n")) ∧
      ∃ source, Disassembly.source? 2 [1] greetingAssembly.bytes = some source ∧
        ∃ again, Assembly.ofSource source = .ok again ∧ again.bytes = greetingAssembly.bytes := by
  have hassemble : greeting.assemble = .ok greetingAssembly := by decide +kernel
  have hcut : cutRecords greetingAssembly.bytes =
      [[0x10, 0, 0, 0, 0, 0, 0, 0, 0x48], [0x62, 0, 0, 0, 0, 0, 0, 0, 0x01],
        [0x50, 0, 0, 0, 0, 0, 0, 0, 0x1B], [0x01, 0, 0, 0, 0, 0, 0, 0, 0]] := by
    simp [greetingAssembly, cutRecords, Record.width]
  have hcalls : Disassembly.Calls greetingAssembly.bytes [1] := by
    refine ⟨by decide, fun number => ?_⟩
    rw [hcut]
    simp [Disassembly.nativeCall, Disassembly.operand, bigEndianValue, eq_comm]
  refine ⟨hassemble, hcalls, ?_, (disassembly_reassembles hassemble).2 2 [1] hcalls⟩
  rw [Disassembly.source?, hcut]
  decide +kernel

end Program

end StackAsm
