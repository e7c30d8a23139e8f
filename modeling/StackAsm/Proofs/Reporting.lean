import Mathlib
import StackAsm.Proofs.Naming

namespace StackAsm

namespace SymbolTable

section Repeats

/-- At the place in the list the name occurs for the second time, where all names that were seen
before come first. -/
def RecursAfter (seen names : List String) (name : String) (place : Nat) : Prop :=
  names[place]? = some name ∧ seen.count name + (names.take place).count name = 1

/-- The place in the list is that of the second occurrence of the name. -/
def RecursAt (names : List String) (name : String) (place : Nat) : Prop :=
  names[place]? = some name ∧ (names.take place).count name = 1

/-- The names that occur at least twice in a list: each once, and in the order of their second
occurrences. -/
structure Repeats (names repeated : List String) : Prop where
  mem_iff : ∀ name, name ∈ repeated ↔ 2 ≤ names.count name
  nodup : repeated.Nodup
  ordered : repeated.Pairwise fun a b =>
    ∃ i j, RecursAt names a i ∧ RecursAt names b j ∧ i < j

theorem recursAfter_nil_iff {names : List String} {name : String} {place : Nat} :
    RecursAfter [] names name place ↔ RecursAt names name place := by
  rw [RecursAfter, RecursAt, List.count_nil, Nat.zero_add]

theorem recursAfter_zero_iff {seen names : List String} {first name : String} :
    RecursAfter seen (first :: names) name 0 ↔ first = name ∧ seen.count name = 1 := by
  simp [RecursAfter]

theorem recursAfter_succ_iff {seen names : List String} {first name : String} {place : Nat} :
    RecursAfter seen (first :: names) name (place + 1) ↔
      RecursAfter (first :: seen) names name place := by
  simp only [RecursAfter, List.getElem?_cons_succ, List.take_succ_cons, List.count_cons]
  refine and_congr_right fun _ => ?_
  omega

theorem RecursAt.unique {names : List String} {name : String} {i j : Nat}
    (hi : RecursAt names name i) (hj : RecursAt names name j) : i = j := by
  have hbefore : ∀ {i j}, RecursAt names name i → RecursAt names name j → ¬i < j := by
    intro i j hi hj hlt
    have hmore : (names.take (i + 1)).count name ≤ (names.take j).count name :=
      (List.take_prefix_take_left hlt).sublist.count_le name
    rw [List.take_add_one, hi.1, List.count_append, hi.2, hj.2] at hmore
    simp at hmore
  exact Nat.le_antisymm (Nat.not_lt.mp (hbefore hj hi)) (Nat.not_lt.mp (hbefore hi hj))

theorem exists_recursAfter_iff {seen names : List String} {name : String} :
    (∃ place, RecursAfter seen names name place) ↔
      seen.count name ≤ 1 ∧ 2 ≤ seen.count name + names.count name := by
  induction names generalizing seen with
  | nil =>
      simp only [RecursAfter, List.getElem?_nil, List.count_nil]
      constructor
      · rintro ⟨_, h, -⟩
        cases h
      · rintro ⟨h, h'⟩
        omega
  | cons first names ih =>
      have hstep : (∃ place, RecursAfter seen (first :: names) name place) ↔
          (first = name ∧ seen.count name = 1) ∨
            ∃ place, RecursAfter (first :: seen) names name place := by
        rw [← Nat.or_exists_add_one, recursAfter_zero_iff]
        simp only [recursAfter_succ_iff]
      rw [hstep, ih]
      by_cases hname : first = name
      · subst hname
        simp only [List.count_cons_self, true_and]
        omega
      · simp [List.count_cons_of_ne hname, hname]

theorem mem_repeatedAfter_iff {seen names : List String} {name : String} :
    name ∈ repeatedAfter seen names ↔ ∃ place, RecursAfter seen names name place := by
  induction names generalizing seen with
  | nil => simp [repeatedAfter, RecursAfter]
  | cons first names ih =>
      rw [← Nat.or_exists_add_one, recursAfter_zero_iff, repeatedAfter]
      simp only [recursAfter_succ_iff, ← ih]
      by_cases hseen : seen.count first = 1
      · rw [if_pos hseen, List.mem_cons]
        refine or_congr_left ⟨?_, fun h => h.1.symm⟩
        rintro rfl
        exact ⟨rfl, hseen⟩
      · rw [if_neg hseen]
        refine (or_iff_right ?_).symm
        rintro ⟨rfl, hone⟩
        exact hseen hone

theorem pairwise_repeatedAfter (seen names : List String) :
    (repeatedAfter seen names).Pairwise fun a b =>
      ∃ i j, RecursAfter seen names a i ∧ RecursAfter seen names b j ∧ i < j := by
  induction names generalizing seen with
  | nil => exact .nil
  | cons first names ih =>
      have hlater : (repeatedAfter (first :: seen) names).Pairwise fun a b =>
          ∃ i j, RecursAfter seen (first :: names) a i ∧
            RecursAfter seen (first :: names) b j ∧ i < j := by
        refine (ih (first :: seen)).imp ?_
        rintro a b ⟨i, j, hi, hj, hlt⟩
        exact ⟨i + 1, j + 1, recursAfter_succ_iff.mpr hi, recursAfter_succ_iff.mpr hj,
          Nat.succ_lt_succ hlt⟩
      rw [repeatedAfter]
      split
      case isTrue hseen =>
        refine .cons ?_ hlater
        intro name hmem
        obtain ⟨place, hplace⟩ := mem_repeatedAfter_iff.mp hmem
        exact ⟨0, place + 1, recursAfter_zero_iff.mpr ⟨rfl, hseen⟩,
          recursAfter_succ_iff.mpr hplace, Nat.succ_pos _⟩
      case isFalse => exact hlater

theorem repeats_repeatedAfter (names : List String) :
    Repeats names (repeatedAfter [] names) := by
  have hordered := pairwise_repeatedAfter [] names
  simp only [recursAfter_nil_iff] at hordered
  refine ⟨fun name => ?_, hordered.imp ?_, hordered⟩
  · rw [mem_repeatedAfter_iff, exists_recursAfter_iff, List.count_nil]
    omega
  · rintro a _ ⟨i, j, hi, hj, hlt⟩ rfl
    exact hlt.ne (hi.unique hj)

theorem Repeats.unique {names repeated other : List String} (h : Repeats names repeated)
    (hother : Repeats names other) : repeated = other := by
  have hperm : repeated.Perm other :=
    (List.perm_ext_iff_of_nodup h.nodup hother.nodup).mpr fun name =>
      (h.mem_iff name).trans (hother.mem_iff name).symm
  refine hperm.eq_of_pairwise ?_ h.ordered hother.ordered
  rintro a b - - ⟨i, j, hi, hj, hlt⟩ ⟨i', j', hi', hj', hlt'⟩
  rw [hi.unique hj', hj.unique hi'] at hlt
  exact absurd hlt hlt'.asymm

end Repeats

/-- What is wrong with the use of a name in an instruction: nothing of that name is declared, or a
native routine of that name is jumped to and there is no section to be meant instead. -/
inductive Misuse (table : SymbolTable) (instruction : Instruction) : SymbolFault → Prop where
  | unknown {name : String} (hname : instruction.argument = some (.symbol name))
      (hsections : name ∉ table.sections.map SectionSymbol.name)
      (hnatives : name ∉ table.natives.map NativeSymbol.name) :
      Misuse table instruction (.unknownSymbol name instruction.line)
  | jump {name : String} (hname : instruction.argument = some (.symbol name))
      (hjump : instruction.mnemonic.toLower ∈ ["jmp", "jne", "jeq"])
      (hnative : name ∈ table.natives.map NativeSymbol.name)
      (hsections : name ∉ table.sections.map SectionSymbol.name) :
      Misuse table instruction (.jumpToNative name instruction.mnemonic instruction.line)

/-- The misuses of names by instructions, one after the other. -/
inductive Misuses (table : SymbolTable) : List Instruction → List SymbolFault → Prop where
  | nil : Misuses table [] []
  | proper {instruction : Instruction} {instructions : List Instruction}
      {faults : List SymbolFault} (hproper : ∀ fault, ¬Misuse table instruction fault)
      (hrest : Misuses table instructions faults) :
      Misuses table (instruction :: instructions) faults
  | misuse {instruction : Instruction} {instructions : List Instruction} {fault : SymbolFault}
      {faults : List SymbolFault} (hmisuse : Misuse table instruction fault)
      (hrest : Misuses table instructions faults) :
      Misuses table (instruction :: instructions) (fault :: faults)

/-- The list reports all that is wrong with the names of a program and a table, and nothing else. -/
def Reports (table : SymbolTable) (program : Program) (faults : List SymbolFault) : Prop :=
  ∃ repeated misuses, Repeats table.names repeated ∧
    Misuses table (program.instructions.map Prod.snd) misuses ∧
      faults =
        (if "main" ∈ table.sections.map SectionSymbol.name then [] else [.missingEntry]) ++
          repeated.map .duplicateName ++ misuses

section Misuse

/-- The fault of the use of a name in an instruction, if it has one. -/
def useFault? (table : SymbolTable) (instruction : Instruction) : Option SymbolFault :=
  instruction.symbol?.bind (table.referenceFault? instruction)

variable {table : SymbolTable} {instruction : Instruction} {instructions : List Instruction}

theorem misuse_iff {fault : SymbolFault} :
    table.Misuse instruction fault ↔ table.useFault? instruction = some fault := by
  simp only [useFault?, Option.bind_eq_some_iff, Instruction.symbol?_eq_some_iff]
  constructor
  · intro h
    cases h with
    | @unknown name hname hsections hnatives =>
        have hfind : table.find? name = none := by
          rw [find?_eq_none_iff, names, List.mem_append, not_or]
          exact ⟨hsections, hnatives⟩
        exact ⟨name, hname, by rw [referenceFault?, hfind]⟩
    | @jump name hname hjump hnative hsections =>
        obtain ⟨symbol, hfind⟩ := exists_find?_iff.mpr (List.mem_append_right _ hnative)
        cases symbol with
        | code sec =>
            obtain ⟨hsec, rfl⟩ := mem_of_find?_code hfind
            exact absurd (List.mem_map_of_mem hsec) hsections
        | native routine =>
            refine ⟨name, hname, ?_⟩
            rw [referenceFault?, hfind]
            exact if_pos (Instruction.jumps_iff.mpr hjump)
  · rintro ⟨name, hname, hfault⟩
    rw [referenceFault?] at hfault
    cases hfind : table.find? name with
    | none =>
        rw [hfind] at hfault
        obtain ⟨hsections, hnatives⟩ :
            name ∉ table.sections.map SectionSymbol.name ∧
              name ∉ table.natives.map NativeSymbol.name := by
          rw [← not_or, ← List.mem_append]
          exact find?_eq_none_iff.mp hfind
        cases hfault
        exact .unknown hname hsections hnatives
    | some symbol =>
        rw [hfind] at hfault
        cases symbol with
        | code sec => cases hfault
        | native routine =>
            obtain ⟨hmem, rfl, hsections⟩ := mem_of_find?_native hfind
            obtain ⟨hjump, hsame⟩ := Option.ite_none_right_eq_some.mp hfault
            cases hsame
            exact .jump hname (Instruction.jumps_iff.mp hjump) (List.mem_map_of_mem hmem) hsections

theorem misuses_iff {faults : List SymbolFault} :
    table.Misuses instructions faults ↔ faults = instructions.filterMap table.useFault? := by
  constructor
  · intro h
    induction h with
    | nil => rfl
    | proper hproper _ ih =>
        rw [List.filterMap_cons_none, ih]
        exact Option.eq_none_iff_forall_ne_some.mpr fun fault => mt misuse_iff.mpr (hproper fault)
    | misuse hmisuse _ ih => rw [List.filterMap_cons_some (misuse_iff.mp hmisuse), ih]
  · rintro rfl
    induction instructions with
    | nil => exact .nil
    | cons instruction instructions ih =>
        cases hfault : table.useFault? instruction with
        | none =>
            rw [List.filterMap_cons_none hfault]
            refine .proper (fun fault hmisuse => ?_) ih
            rw [misuse_iff, hfault] at hmisuse
            cases hmisuse
        | some fault =>
            rw [List.filterMap_cons_some hfault]
            exact .misuse (misuse_iff.mpr hfault) ih

end Misuse

theorem entryFaults_eq (table : SymbolTable) :
    table.entryFaults =
      if "main" ∈ table.sections.map SectionSymbol.name then [] else [.missingEntry] := by
  split
  case isTrue hentry => exact entryFaults_eq_nil_iff.mpr hentry
  case isFalse hentry =>
    rw [entryFaults, if_pos]
    rw [Option.isNone_iff_eq_none]
    exact section?_eq_none_iff.mpr hentry

/-- A check reports what it has to and nothing else, in one order. It reports nothing exactly if
there is an entry, all names are distinct and none of them is misused. -/
theorem check_exact (table : SymbolTable) (program : Program) :
    (∀ faults, table.check program = faults ↔ table.Reports program faults) ∧
      (table.check program = [] ↔
        "main" ∈ table.sections.map SectionSymbol.name ∧ table.names.Nodup ∧
          ∀ instruction ∈ program.instructions.map Prod.snd, ∀ fault,
            ¬table.Misuse instruction fault) := by
  refine ⟨fun faults => ?_, ?_⟩
  · rw [check, entryFaults_eq, duplicateFaults]
    constructor
    · rintro rfl
      exact ⟨_, _, repeats_repeatedAfter _, misuses_iff.mpr (referenceFaults_eq _ _), rfl⟩
    · rintro ⟨repeated, misuses, hrepeated, hmisuses, rfl⟩
      rw [hrepeated.unique (repeats_repeatedAfter _), misuses_iff.mp hmisuses, referenceFaults_eq]
      rfl
  · rw [check, List.append_eq_nil_iff, List.append_eq_nil_iff, entryFaults_eq_nil_iff,
      duplicateFaults_eq_nil_iff, referenceFaults_eq, List.filterMap_eq_nil_iff, and_assoc]
    simp only [misuse_iff, ← Option.eq_none_iff_forall_ne_some]
    rfl

end SymbolTable

end StackAsm
