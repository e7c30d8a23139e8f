import Mathlib
import StackAsm.Proofs.Referents

namespace StackAsm

/-- An offset of the image is within the section. -/
def SectionSymbol.Holds (sec : SectionSymbol) (offset : Nat) : Prop :=
  sec.address.toNat ≤ offset ∧ offset < sec.address.toNat + 9 * sec.count

namespace SymbolTable

section Checked

/-- A number in 64 bits, if they are enough for it. Sums and products are checked alike. -/
def word? (value : Nat) : Option UInt64 :=
  if value < 2 ^ 64 then some (UInt64.ofNat value) else none

def sum? (a b : UInt64) : Option UInt64 :=
  if a.toNat + b.toNat < 2 ^ 64 then some (a + b) else none

def product? (a b : UInt64) : Option UInt64 :=
  if a.toNat * b.toNat < 2 ^ 64 then some (a * b) else none

/-- Where a section ends that begins at an address, every step on the way being checked. -/
def finish? (start : UInt64) (sec : SectionSymbol) : Option UInt64 := do
  let count ← word? sec.count
  let length ← product? count (UInt64.ofNat Record.width)
  sum? start length

/-- The layout of sections from a start address, every step being checked. -/
def layOutFrom? (start : UInt64) : List SectionSymbol → Option (List SectionSymbol)
  | [] => some []
  | sec :: secs => do
      let next ← finish? start sec
      let placed ← layOutFrom? next secs
      return { sec with address := start } :: placed

/-- The number of instructions in some sections, every step being checked. -/
def totalCount? (secs : List SectionSymbol) : Option UInt64 :=
  secs.foldlM (fun total sec => do sum? total (← word? sec.count)) 0

/-- The length of the image in bytes, every step being checked. -/
def imageSize? (table : SymbolTable) : Option UInt64 := do
  let total ← totalCount? table.sections
  product? total (UInt64.ofNat Record.width)

theorem sum?_ofNat {a b : Nat} (ha : a < 2 ^ 64) (hb : b < 2 ^ 64) :
    sum? (UInt64.ofNat a) (UInt64.ofNat b) = word? (a + b) := by
  rw [sum?, word?, UInt64.toNat_ofNat_of_lt' ha, UInt64.toNat_ofNat_of_lt' hb, UInt64.ofNat_add]

theorem product?_ofNat {a b : Nat} (ha : a < 2 ^ 64) (hb : b < 2 ^ 64) :
    product? (UInt64.ofNat a) (UInt64.ofNat b) = word? (a * b) := by
  rw [product?, word?, UInt64.toNat_ofNat_of_lt' ha, UInt64.toNat_ofNat_of_lt' hb, UInt64.ofNat_mul]

theorem word?_of_lt {value : Nat} (h : value < 2 ^ 64) : word? value = some (UInt64.ofNat value) :=
  if_pos h

theorem word?_of_le {value : Nat} (h : 2 ^ 64 ≤ value) : word? value = none :=
  if_neg (not_lt.mpr h)

theorem finish?_ofNat {start : Nat} (hstart : start < 2 ^ 64) (sec : SectionSymbol) :
    finish? (UInt64.ofNat start) sec = word? (start + 9 * sec.count) := by
  rcases lt_or_ge (sec.count * 9) (2 ^ 64) with hlength | hlength
  · have hcount : sec.count < 2 ^ 64 := by omega
    have hwidth : Record.width < 2 ^ 64 := by decide
    simp only [finish?, word?_of_lt hcount, Option.bind_eq_bind, Option.bind_some,
      product?_ofNat hcount hwidth]
    rw [Record.width, word?_of_lt hlength, Option.bind_some, sum?_ofNat hstart hlength,
      Nat.mul_comm]
  · rw [word?_of_le (by omega)]
    rcases lt_or_ge sec.count (2 ^ 64) with hcount | hcount
    · have hwidth : Record.width < 2 ^ 64 := by decide
      simp only [finish?, word?_of_lt hcount, Option.bind_eq_bind, Option.bind_some,
        product?_ofNat hcount hwidth]
      rw [Record.width, word?_of_le hlength]
      rfl
    · rw [finish?, word?_of_le hcount]
      rfl

/-- A checked layout comes to the same addresses, and it comes to an end exactly if the end of the
last section is a number of 64 bits. -/
theorem layOutFrom?_ofNat {start : Nat} (hstart : start < 2 ^ 64) (secs : List SectionSymbol) :
    layOutFrom? (UInt64.ofNat start) secs =
      if start + 9 * countOf secs < 2 ^ 64 then some (layOutFrom (UInt64.ofNat start) secs)
      else none := by
  induction secs generalizing start with
  | nil =>
      have hend : start + 9 * countOf [] < 2 ^ 64 := by simpa [countOf] using hstart
      rw [if_pos hend]
      rfl
  | cons sec secs ih =>
      have hend : start + 9 * countOf (sec :: secs) = start + 9 * sec.count + 9 * countOf secs := by
        rw [countOf_cons]
        omega
      rw [layOutFrom?, finish?_ofNat hstart, layOutFrom_cons, hend]
      rcases lt_or_ge (start + 9 * sec.count) (2 ^ 64) with hnext | hnext
      · rw [word?_of_lt hnext, Option.bind_eq_bind, Option.bind_some, ih hnext]
        split
        · rfl
        · rfl
      · rw [word?_of_le hnext, if_neg (by omega)]
        rfl

theorem totalCount?_eq (secs : List SectionSymbol) :
    totalCount? secs = word? (countOf secs) := by
  have hfold : ∀ total < 2 ^ 64,
      secs.foldlM (fun total sec => do sum? total (← word? sec.count)) (UInt64.ofNat total) =
        word? (total + countOf secs) := by
    induction secs with
    | nil =>
        intro total htotal
        rw [countOf, List.map_nil, List.sum_nil, Nat.add_zero, word?_of_lt htotal]
        rfl
    | cons sec secs ih =>
        intro total htotal
        rw [List.foldlM_cons, countOf_cons, ← Nat.add_assoc]
        rcases lt_or_ge sec.count (2 ^ 64) with hcount | hcount
        · rw [word?_of_lt hcount, Option.bind_eq_bind, Option.bind_some,
            sum?_ofNat htotal hcount]
          rcases lt_or_ge (total + sec.count) (2 ^ 64) with hnext | hnext
          · rw [word?_of_lt hnext]
            exact ih _ hnext
          · rw [word?_of_le hnext, word?_of_le (by omega)]
            rfl
        · rw [word?_of_le hcount, word?_of_le (by omega)]
          rfl
  have h := hfold 0 (by decide)
  rw [Nat.zero_add] at h
  exact h

theorem imageSize?_eq (table : SymbolTable) :
    table.imageSize? = word? (9 * countOf table.sections) := by
  rw [imageSize?, totalCount?_eq]
  rcases lt_or_ge (countOf table.sections) (2 ^ 64) with hcount | hcount
  · rw [word?_of_lt hcount, Option.bind_eq_bind, Option.bind_some,
      product?_ofNat hcount (by decide), Nat.mul_comm, Record.width]
  · rw [word?_of_le hcount, word?_of_le (by omega)]
    rfl

end Checked

/-- Sections one behind the other. The first of them begins at one address, and the last ends at the
other. -/
def Tiles (start finish : Nat) : List SectionSymbol → Prop
  | [] => start = finish
  | sec :: secs => sec.address.toNat = start ∧ Tiles (start + 9 * sec.count) finish secs

theorem tiles_layOutFrom {start : Nat} {secs : List SectionSymbol}
    (h : start + 9 * countOf secs < 2 ^ 64) :
    Tiles start (start + 9 * countOf secs) (layOutFrom (UInt64.ofNat start) secs) := by
  induction secs generalizing start with
  | nil => rfl
  | cons sec secs ih =>
      have hend : start + 9 * countOf (sec :: secs) = start + 9 * sec.count + 9 * countOf secs := by
        rw [countOf_cons]
        omega
      rw [hend] at h ⊢
      rw [layOutFrom_cons]
      have hstart : start < 2 ^ 64 := by omega
      exact ⟨UInt64.toNat_ofNat_of_lt' hstart, ih h⟩

namespace Tiles

variable {start finish : Nat} {secs : List SectionSymbol}

theorem finish_eq (h : Tiles start finish secs) : finish = start + 9 * countOf secs := by
  induction secs generalizing start with
  | nil => exact h.symm
  | cons sec secs ih =>
      rw [ih h.2, countOf_cons]
      omega

theorem le_address (h : Tiles start finish secs) : ∀ sec ∈ secs, start ≤ sec.address.toNat := by
  induction secs generalizing start with
  | nil => simp
  | cons sec secs ih =>
      rw [List.forall_mem_cons]
      refine ⟨h.1.ge, ?_⟩
      intro other hother
      have hle := ih h.2 other hother
      omega

theorem split {before after : List SectionSymbol} (h : Tiles start finish (before ++ after)) :
    Tiles (start + 9 * countOf before) finish after := by
  induction before generalizing start with
  | nil => exact h
  | cons sec before ih =>
      have hafter := ih h.2
      rw [countOf_cons]
      have hsum : start + 9 * (sec.count + countOf before) =
          start + 9 * sec.count + 9 * countOf before := by
        omega
      rw [hsum]
      exact hafter

theorem isChain (h : Tiles start finish secs) :
    secs.IsChain fun a b => b.address.toNat = a.address.toNat + 9 * a.count := by
  induction secs generalizing start with
  | nil => exact .nil
  | cons sec secs ih =>
      rcases secs with _ | ⟨next, secs⟩
      · exact .singleton sec
      · refine .cons_cons ?_ (ih h.2)
        rw [h.1, h.2.1]

theorem pairwise (h : Tiles start finish secs) :
    secs.Pairwise fun a b => a.address.toNat ≤ b.address.toNat := by
  induction secs generalizing start with
  | nil => exact .nil
  | cons sec secs ih =>
      refine .cons ?_ (ih h.2)
      intro later hlater
      have hle := h.2.le_address later hlater
      have hstart := h.1
      omega

theorem dvd_address (h : Tiles start finish secs) (hstart : 9 ∣ start) :
    ∀ sec ∈ secs, 9 ∣ sec.address.toNat := by
  induction secs generalizing start with
  | nil => simp
  | cons sec secs ih =>
      rw [List.forall_mem_cons, h.1]
      exact ⟨hstart, ih h.2 (dvd_add hstart (dvd_mul_right 9 sec.count))⟩

theorem existsUnique (h : Tiles start finish secs) {offset : Nat} (hstart : start ≤ offset)
    (hfinish : offset < finish) :
    ∃! i : Nat, ∃ sec ∈ secs[i]?, sec.Holds offset := by
  induction secs generalizing start with
  | nil =>
      have hempty : start = finish := h
      omega
  | cons sec secs ih =>
      have haddress := h.1
      rcases lt_or_ge offset (start + 9 * sec.count) with hoffset | hoffset
      · refine ⟨0, ⟨sec, rfl, by omega, by omega⟩, ?_⟩
        rintro (_ | i) ⟨other, hother, hle, hlt⟩
        · rfl
        · have hlater := h.2.le_address other (List.mem_of_getElem? hother)
          omega
      · obtain ⟨i, hi, hunique⟩ := ih h.2 hoffset
        refine ⟨i + 1, hi, ?_⟩
        rintro (_ | j) ⟨other, hother, hle, hlt⟩
        · cases hother
          omega
        · exact congrArg (· + 1) (hunique j ⟨other, hother, hle, hlt⟩)

end Tiles

/-- The sections divide up an image of the given size. -/
structure Tiled (secs : List SectionSymbol) (size : Nat) : Prop where
  first : ∀ sec ∈ secs.head?, sec.address.toNat = 0
  /-- A section begins where the one before it ends. -/
  next : secs.IsChain fun a b => b.address.toNat = a.address.toNat + 9 * a.count
  last : ∀ sec ∈ secs.getLast?, sec.address.toNat + 9 * sec.count = size
  covered : ∀ offset < size, ∃! i : Nat, ∃ sec ∈ secs[i]?, sec.Holds offset
  aligned : ∀ sec ∈ secs, 9 ∣ sec.address.toNat
  ordered : secs.Pairwise fun a b => a.address.toNat ≤ b.address.toNat
  /-- Only sections with nothing in them, and nothing but such sections behind them, begin at the
  end of the image. -/
  within : ∀ before sec after, secs = before ++ sec :: after →
    if ∀ other ∈ sec :: after, other.count = 0 then sec.address.toNat = size
    else sec.address.toNat < size

theorem countOf_eq_zero_iff {secs : List SectionSymbol} :
    countOf secs = 0 ↔ ∀ sec ∈ secs, sec.count = 0 := by
  rw [countOf, List.sum_eq_zero_iff, List.forall_mem_map]

theorem Tiles.tiled {secs : List SectionSymbol} {size : Nat} (h : Tiles 0 size secs) :
    Tiled secs size where
  first := by
    intro sec hsec
    obtain ⟨rest, rfl⟩ := List.head?_eq_some_iff.mp hsec
    exact h.1
  next := h.isChain
  last := by
    intro sec hsec
    obtain ⟨before, rfl⟩ := List.getLast?_eq_some_iff.mp hsec
    obtain ⟨haddress, hfinish⟩ := h.split
    have hend : 0 + 9 * countOf before + 9 * sec.count = size := hfinish
    omega
  covered := fun _ hoffset => h.existsUnique (Nat.zero_le _) hoffset
  aligned := h.dvd_address (dvd_zero 9)
  ordered := h.pairwise
  within := by
    rintro before sec after rfl
    have hsplit := h.split
    have hsize := hsplit.finish_eq
    have haddress := hsplit.1
    split
    · next hempty =>
      rw [countOf_eq_zero_iff.mpr hempty] at hsize
      omega
    · next hfilled =>
      rw [← countOf_eq_zero_iff] at hfilled
      omega

theorem unplaced_layOut (table : SymbolTable) : table.layOut.unplaced = table.unplaced := by
  have hsections := map_layOutFrom (fun sec => { sec with address := 0 }) (fun _ _ => rfl) 0
    table.sections
  rw [unplaced, unplaced]
  exact congrArg (fun secs => { table with sections := secs }) hsections

/-- Sections whose image is shorter than `2 ^ 64` are laid out without a carry that is lost, and so
is the length of the image computed. They divide the image up among themselves, and only their
addresses are new. To lay them out again changes nothing. -/
theorem layOut_tiled {table : SymbolTable} (hsize : 9 * countOf table.sections < 2 ^ 64) :
    layOutFrom? 0 table.sections = some table.layOut.sections ∧
      table.imageSize? = some table.imageSize ∧
      table.imageSize.toNat = 9 * countOf table.sections ∧
      Tiled table.layOut.sections table.imageSize.toNat ∧
      table.layOut.unplaced = table.unplaced ∧
      table.layOut.imageSize = table.imageSize ∧
      table.layOut.layOut = table.layOut := by
  have hend : 0 + 9 * countOf table.sections < 2 ^ 64 := by rwa [Nat.zero_add]
  have himageSize : table.imageSize.toNat = 9 * countOf table.sections := by
    rw [imageSize_eq, UInt64.toNat_ofNat_of_lt' hsize]
  refine ⟨?_, ?_, himageSize, ?_, table.unplaced_layOut, table.imageSize_layOut, ?_⟩
  · have hchecked := layOutFrom?_ofNat (by decide : 0 < 2 ^ 64) table.sections
    rw [if_pos hend] at hchecked
    exact hchecked
  · rw [imageSize?_eq, word?_of_lt hsize, imageSize_eq]
  · have htiles := tiles_layOutFrom hend
    rw [Nat.zero_add] at htiles
    rw [himageSize]
    exact htiles.tiled
  · exact layOut_eq_of_unplaced table.unplaced_layOut

/-- Sections of which the first, one in the middle and the last two are empty, and one that fills
more than half of the greatest image. Their addresses are left from before. -/
def terrace : SymbolTable :=
  { sections :=
      [ { name := "gate", index := 0, count := 0, address := 5 },
        { name := "main", index := 1, count := 3, address := 0xFFFFFFFFFFFFFFFF },
        { name := "yard", index := 2, count := 0, address := 27 },
        { name := "hall", index := 3, count := 2 ^ 60, address := 0 },
        { name := "shed", index := 4, count := 0, address := 9 },
        { name := "wall", index := 5, count := 0, address := 9 } ]
    natives := [{ name := "bell", identifier := 7 }] }

theorem terrace_tiled :
    9 * countOf terrace.sections < 2 ^ 64 ∧
      terrace.layOut.sections.map SectionSymbol.address =
        [0, 0, 27, 27, 0x900000000000001B, 0x900000000000001B] ∧
      layOutFrom? 0 terrace.sections = some terrace.layOut.sections ∧
      terrace.imageSize? = some 0x900000000000001B ∧
      Tiled terrace.layOut.sections terrace.imageSize.toNat ∧
      terrace.layOut.layOut = terrace.layOut := by
  have hsize : 9 * countOf terrace.sections < 2 ^ 64 := by decide
  obtain ⟨hlayOut, himageSize, -, htiled, -, -, hagain⟩ := layOut_tiled hsize
  refine ⟨hsize, by decide, hlayOut, ?_, htiled, hagain⟩
  rw [himageSize]
  decide

end SymbolTable

end StackAsm
