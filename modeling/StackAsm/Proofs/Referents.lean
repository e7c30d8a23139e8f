import Mathlib
import StackAsm.Session
import StackAsm.Proofs.Assembling

namespace StackAsm

namespace SymbolTable

/-- What a name stands for: the first section that has it, which begins where the sections before it
end, or else the first native routine that has it. -/
inductive StandsFor (table : SymbolTable) (name : String) : Referent → Prop where
  | code {before after : List SectionSymbol} {sec : SectionSymbol} {value : UInt64}
      (hsections : table.sections = before ++ sec :: after) (hname : sec.name = name)
      (hfirst : ∀ other ∈ before, other.name ≠ name) (hvalue : value.toNat = 9 * countOf before) :
      StandsFor table name { value, kind := .code }
  | native {before after : List NativeSymbol} {routine : NativeSymbol} {value : UInt64}
      (hnone : ∀ sec ∈ table.sections, sec.name ≠ name)
      (hnatives : table.natives = before ++ routine :: after) (hname : routine.name = name)
      (hfirst : ∀ other ∈ before, other.name ≠ name)
      (hvalue : value.toNat = routine.identifier.toNat) :
      StandsFor table name { value, kind := .native }

/-- The table without its addresses. -/
def unplaced (table : SymbolTable) : SymbolTable :=
  { table with sections := table.sections.map fun sec => { sec with address := 0 } }

theorem layOutFrom_map_address (start : UInt64) (secs : List SectionSymbol) :
    layOutFrom start (secs.map fun sec => { sec with address := 0 }) = layOutFrom start secs := by
  induction secs generalizing start with
  | nil => rfl
  | cons sec secs ih => rw [List.map_cons, layOutFrom, layOutFrom, ih]

theorem layOut_unplaced (table : SymbolTable) : table.unplaced.layOut = table.layOut := by
  rw [layOut, layOut, unplaced, layOutFrom_map_address]

theorem layOut_eq_of_unplaced {table other : SymbolTable} (h : other.unplaced = table.unplaced) :
    other.layOut = table.layOut := by
  rw [← layOut_unplaced, h, layOut_unplaced]

theorem countOf_le_of_sublist {secs all : List SectionSymbol} (h : secs.Sublist all) :
    countOf secs ≤ countOf all :=
  (h.map SectionSymbol.count).sum_le_sum fun _ _ => Nat.zero_le _

theorem StandsFor.find? {table : SymbolTable} {name : String} {referent : Referent}
    (h : table.StandsFor name referent) :
    (table.layOut.find? name).map Symbol.referent = some referent := by
  cases h with
  | @code before after sec value hsections hname hfirst hvalue =>
      have hlaidOut : table.layOut.sections =
          layOutFrom (UInt64.ofNat 0) before ++
            { sec with address := UInt64.ofNat (9 * countOf before) } ::
              layOutFrom (UInt64.ofNat (9 * countOf before + 9 * sec.count)) after := by
        change layOutFrom (UInt64.ofNat 0) table.sections = _
        rw [hsections, layOutFrom_append, layOutFrom_cons, Nat.zero_add]
      have hbefore : ∀ other ∈ layOutFrom (UInt64.ofNat 0) before, other.name ≠ name := by
        have hnames := map_layOutFrom SectionSymbol.name (fun _ _ => rfl) (UInt64.ofNat 0) before
        rw [← List.forall_mem_map (f := SectionSymbol.name) (P := (· ≠ name)), hnames,
          List.forall_mem_map]
        exact hfirst
      have hfound : table.layOut.section? name =
          some { sec with address := UInt64.ofNat (9 * countOf before) } := by
        rw [section?, hlaidOut, List.find?_eq_some_iff_append]
        exact ⟨by simpa using hname, _, _, rfl, by simpa using hbefore⟩
      rw [SymbolTable.find?, hfound, ← UInt64.ofNat_toNat (x := value), hvalue]
      rfl
  | @native before after routine value hnone hnatives hname hfirst hvalue =>
      have hsection : table.layOut.section? name = none := by
        have hnames := map_layOutFrom SectionSymbol.name (fun _ _ => rfl) 0 table.sections
        rw [section?_eq_none_iff, layOut, hnames]
        simpa using hnone
      have hfound : table.layOut.native? name = some routine := by
        rw [native?, layOut, hnatives, List.find?_eq_some_iff_append]
        exact ⟨by simpa using hname, _, _, rfl, by simpa using hfirst⟩
      have hsame : value = routine.identifier.toUInt64 := by
        rw [← UInt64.toNat_inj, hvalue, UInt32.toNat_toUInt64]
      rw [SymbolTable.find?, hsection, hfound, hsame]
      rfl

section Bounded

variable {table : SymbolTable} (hsize : 9 * countOf table.sections < 2 ^ 64)
include hsize

theorem toNat_ofNat_countOf {secs : List SectionSymbol} (h : secs.Sublist table.sections) :
    (UInt64.ofNat (9 * countOf secs)).toNat = 9 * countOf secs := by
  have hle := countOf_le_of_sublist h
  rw [UInt64.toNat_ofNat']
  exact Nat.mod_eq_of_lt (by omega)

theorem toNat_address_layOut {i : Nat} {sec : SectionSymbol}
    (h : table.layOut.sections[i]? = some sec) :
    sec.address.toNat = 9 * countOf (table.sections.take i) := by
  rw [layOut_eq, List.getElem?_mapIdx, Option.map_eq_some_iff] at h
  obtain ⟨_, -, rfl⟩ := h
  exact toNat_ofNat_countOf hsize (List.take_sublist _ _)

theorem exists_standsFor {name : String} (h : name ∈ table.names) :
    ∃ referent, table.StandsFor name referent := by
  obtain ⟨symbol, hfind⟩ := exists_find?_iff.mpr h
  rw [SymbolTable.find?] at hfind
  cases hsection : table.section? name with
  | some sec =>
      obtain ⟨hname, before, after, hsections, hbefore⟩ :=
        List.find?_eq_some_iff_append.mp hsection
      refine ⟨_, .code hsections (by simpa using hname) (by simpa using hbefore)
        (toNat_ofNat_countOf hsize ?_)⟩
      rw [hsections]
      exact List.sublist_append_left _ _
  | none =>
      rw [hsection] at hfind
      obtain ⟨routine, hnative, -⟩ := Option.map_eq_some_iff.mp hfind
      obtain ⟨hname, before, after, hnatives, hbefore⟩ :=
        List.find?_eq_some_iff_append.mp hnative
      refine ⟨_, .native ?_ hnatives (by simpa using hname) (by simpa using hbefore)
        (UInt32.toNat_toUInt64 _)⟩
      simpa using section?_eq_none_iff.mp hsection

theorem standsFor_iff {name : String} {referent : Referent} :
    table.StandsFor name referent ↔
      (table.layOut.find? name).map Symbol.referent = some referent := by
  refine ⟨StandsFor.find?, fun h => ?_⟩
  obtain ⟨symbol, hfind, -⟩ := Option.map_eq_some_iff.mp h
  have hname := exists_find?_iff.mp ⟨symbol, hfind⟩
  rw [names_layOut] at hname
  obtain ⟨other, hother⟩ := exists_standsFor hsize hname
  rw [hother.find?] at h
  cases h
  exact hother

end Bounded

end SymbolTable

namespace Resolutions

/-- There is one entry for each instruction that has a symbol for an argument, with what the symbol
stands for in the table, and there are no others. -/
structure Exact (program : Program) (table : SymbolTable) (resolutions : Resolutions) : Prop where
  distinct : (resolutions.entries.map Prod.fst).Nodup
  size_eq : resolutions.size = program.instructions.countP fun entry => entry.2.symbol?.isSome
  exists_iff : ∀ position, (∃ referent, resolutions.get? position = some referent) ↔
    ∃ instruction name, (position, instruction) ∈ program.instructions ∧
      instruction.argument = some (.symbol name)
  standsFor_iff : ∀ position instruction name referent,
    (position, instruction) ∈ program.instructions →
      instruction.argument = some (.symbol name) →
        (resolutions.get? position = some referent ↔ table.StandsFor name referent)

variable {program : Program} {table : SymbolTable} {resolutions : Resolutions}
  (hresolve : resolve program table = .ok resolutions)
include hresolve

theorem nodup_map_fst_entries : (resolutions.entries.map Prod.fst).Nodup := by
  rw [map_fst_entries hresolve]
  exact List.pairwise_map.mpr program.references_pairwise

theorem size_resolve :
    resolutions.size = program.instructions.countP fun entry => entry.2.symbol?.isSome := by
  have hlength := congrArg List.length (map_fst_entries hresolve)
  rw [List.length_map, List.length_map, Program.references, List.length_filterMap_eq_countP]
    at hlength
  rw [size, hlength]
  congr 1
  funext entry
  exact Option.isSome_map

theorem exists_get?_iff {position : Position} :
    (∃ referent, resolutions.get? position = some referent) ↔
      ∃ instruction name, (position, instruction) ∈ program.instructions ∧
        instruction.argument = some (.symbol name) := by
  have hentry : (∃ referent, resolutions.get? position = some referent) ↔
      position ∈ resolutions.entries.map Prod.fst := by
    rw [← not_iff_not, not_exists, ← Option.eq_none_iff_forall_ne_some, get?,
      Option.map_eq_none_iff]
    exact Keys.find?_eq_none_iff
  rw [hentry, map_fst_entries hresolve, List.mem_map]
  simp only [← Instruction.symbol?_eq_some_iff, ← Program.mem_references_iff]
  constructor
  · rintro ⟨⟨_, instruction, name⟩, hmem, rfl⟩
    exact ⟨instruction, name, hmem⟩
  · rintro ⟨instruction, name, hmem⟩
    exact ⟨_, hmem, rfl⟩

theorem exact_of_resolve (hsize : 9 * SymbolTable.countOf table.sections < 2 ^ 64) :
    resolutions.Exact program table where
  distinct := nodup_map_fst_entries hresolve
  size_eq := size_resolve hresolve
  exists_iff := fun _ => exists_get?_iff hresolve
  standsFor_iff := by
    intro position instruction name referent hmem hname
    rw [get?_resolve hresolve hmem, Program.referent?_of_symbol hname,
      SymbolTable.standsFor_iff hsize]

end Resolutions

namespace Session

theorem step_resolve (state : State) :
    (step state .resolve).1 =
      { state with
        table := state.table.layOut
        resolutions :=
          (Resolutions.resolve state.program state.table).toOption.getD state.resolutions } := by
  simp only [step]
  cases Resolutions.resolve state.program state.table <;> rfl

/-- Of the table of a session only the addresses change when names are resolved, whether or not this
succeeds, and they become those of a layout from the beginning of the image. The addresses that it
had make no difference to anything. If all names are found the session holds exactly their
resolutions, and otherwise it keeps the resolutions that it had. -/
theorem step_resolve_exact (state : State)
    (hsize : 9 * SymbolTable.countOf state.table.sections < 2 ^ 64) :
    let later := (step state .resolve).1
    later.table =
        { state.table with
          sections := state.table.sections.mapIdx fun i sec =>
            { sec with
              address := UInt64.ofNat (9 * SymbolTable.countOf (state.table.sections.take i)) } } ∧
      (∀ i sec, later.table.sections[i]? = some sec →
        sec.address.toNat = 9 * SymbolTable.countOf (state.table.sections.take i)) ∧
      (∀ other : SymbolTable, other.unplaced = state.table.unplaced →
        Resolutions.resolve state.program other = Resolutions.resolve state.program state.table ∧
          step { state with table := other } .resolve = step state .resolve) ∧
      (∀ fault, Resolutions.resolve state.program state.table = .error fault →
        later.resolutions = state.resolutions) ∧
      ∀ resolutions, Resolutions.resolve state.program state.table = .ok resolutions →
        later.resolutions = resolutions ∧ resolutions.Exact state.program state.table := by
  intro later
  have hlater := step_resolve state
  have htable : later.table = state.table.layOut := congrArg State.table hlater
  have hresolutions : later.resolutions =
      (Resolutions.resolve state.program state.table).toOption.getD state.resolutions :=
    congrArg State.resolutions hlater
  refine ⟨?_, ?_, ?_, ?_, ?_⟩
  · rw [htable, SymbolTable.layOut_eq]
  · intro i sec hsec
    rw [htable] at hsec
    exact SymbolTable.toNat_address_layOut hsize hsec
  · intro other hother
    have hlayOut := SymbolTable.layOut_eq_of_unplaced hother
    have hresolve : Resolutions.resolve state.program other =
        Resolutions.resolve state.program state.table := by
      rw [Resolutions.resolve_eq, Resolutions.resolve_eq, hlayOut]
    refine ⟨hresolve, ?_⟩
    simp only [step, hresolve, hlayOut]
  · intro fault hfault
    rw [hresolutions, hfault]
    rfl
  · intro resolutions hresolve
    refine ⟨?_, Resolutions.exact_of_resolve hresolve hsize⟩
    rw [hresolutions, hresolve]
    rfl

/-- A session whose table is not that of its program. Sections and native routines share names in
it, and addresses and resolutions are left from before. -/
def patchwork : State where
  program :=
    { declarations :=
        [ .native { name := "out", identifier := 3, line := 1 },
          .code
            { name := "main"
              instructions :=
                [ { mnemonic := "JMP", argument := some (.symbol "twice"), line := 3 },
                  { mnemonic := "HALT", argument := none, line := 4 },
                  { mnemonic := "CALL", argument := some (.symbol "out"), line := 5 } ]
              line := 2 } ] }
  table :=
    { sections :=
        [ { name := "first", index := 4, count := 3, address := 90 },
          { name := "twice", index := 0, count := 1, address := 7 },
          { name := "twice", index := 0, count := 2, address := 7 } ]
      natives :=
        [ { name := "twice", identifier := 5 }, { name := "out", identifier := 6 },
          { name := "out", identifier := 8 } ] }
  resolutions :=
    { entries := [({ declaration := 0, instruction := 0 }, { value := 1, kind := .native })] }
  buffer := []

theorem patchwork_resolve :
    9 * SymbolTable.countOf patchwork.table.sections < 2 ^ 64 ∧
      (step patchwork .resolve).1.table.sections.map SectionSymbol.address = [0, 27, 36] ∧
        ∃ resolutions, (step patchwork .resolve).1.resolutions = resolutions ∧
          resolutions.size = 2 ∧
            resolutions.get? { declaration := 1, instruction := 0 } =
              some { value := 27, kind := .code } ∧
              resolutions.get? { declaration := 1, instruction := 2 } =
                some { value := 6, kind := .native } := by
  have hsize : 9 * SymbolTable.countOf patchwork.table.sections < 2 ^ 64 := by decide
  obtain ⟨resolutions, hresolve⟩ :
      ∃ resolutions, Resolutions.resolve patchwork.program patchwork.table = .ok resolutions :=
    ⟨_, rfl⟩
  obtain ⟨htable, -, -, -, hresolved⟩ := step_resolve_exact patchwork hsize
  obtain ⟨hresolutions, hexact⟩ := hresolved resolutions hresolve
  have hsections : patchwork.table.sections = patchwork.table.sections.take 1 ++
      { name := "twice", index := 0, count := 1, address := 7 } ::
        patchwork.table.sections.drop 2 := rfl
  have hnatives : patchwork.table.natives = patchwork.table.natives.take 1 ++
      { name := "out", identifier := 6 } :: patchwork.table.natives.drop 2 := rfl
  refine ⟨hsize, ?_, resolutions, hresolutions, ?_, ?_, ?_⟩
  · rw [htable]
    decide
  · rw [hexact.size_eq]
    decide
  · refine (hexact.standsFor_iff _
      { mnemonic := "JMP", argument := some (.symbol "twice"), line := 3 } "twice" _
      (by decide) rfl).mpr ?_
    exact .code hsections rfl (by decide) (by decide)
  · refine (hexact.standsFor_iff _
      { mnemonic := "CALL", argument := some (.symbol "out"), line := 5 } "out" _
      (by decide) rfl).mpr ?_
    exact .native (by decide) hnatives rfl (by decide) (by decide)

end Session

end StackAsm
