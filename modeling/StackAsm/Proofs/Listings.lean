import Mathlib
import StackAsm.Listing
import StackAsm.Proofs.HexText

/-!
What can be read from a listing. Its cells have no blanks in them, so every line falls into the four
cells that it was made of, and the image is regained from the last ones. All widths depend on all
rows, but within a line only the blanks do.
-/

namespace StackAsm

namespace Text

theorem isWord_of_replicate {c : Char} (hc : IsPlain c) {count : Nat} (hcount : 0 < count) :
    IsWord (String.ofList (List.replicate count c)) := by
  constructor
  · simpa using hcount.ne'
  · intro d hd
    rw [String.toList_ofList] at hd
    rwa [List.eq_of_mem_replicate hd]

theorem IsWord.append {word other : String} (h : IsWord word) (hother : IsWord other) :
    IsWord (word ++ other) := by
  constructor
  · rw [String.toList_append]
    exact List.append_ne_nil_of_left_ne_nil h.nonempty _
  · intro c hc
    rw [String.toList_append, List.mem_append] at hc
    rcases hc with hc | hc
    · exact h.plain c hc
    · exact hother.plain c hc

end Text

open Text (IsPlain IsWord)

open Grid (padded columnWidth columnWidths writeRow)

section Groups

theorem cutRecords_of_ne_nil {image : List UInt8} (hne : image ≠ []) :
    cutRecords image = image.take 9 :: cutRecords (image.drop 9) := by
  obtain ⟨byte, rest, rfl⟩ := List.exists_cons_of_ne_nil hne
  rw [cutRecords]
  rfl

theorem flatten_cutRecords (image : List UInt8) : (cutRecords image).flatten = image := by
  induction hlength : image.length using Nat.strongRecOn generalizing image with
  | _ length ih =>
      subst hlength
      rcases eq_or_ne image [] with rfl | hne
      · rw [cutRecords]
        rfl
      · have hpos := List.length_pos_of_ne_nil hne
        have hrest := ih (image.drop 9).length (by rw [List.length_drop]; omega) _ rfl
        rw [cutRecords_of_ne_nil hne, List.flatten_cons, hrest, List.take_append_drop]

theorem getElem?_cutRecords (image : List UInt8) (index : Nat) :
    (cutRecords image)[index]? =
      if 9 * index < image.length then some ((image.drop (9 * index)).take 9) else none := by
  induction index generalizing image with
  | zero =>
      rcases eq_or_ne image [] with rfl | hne
      · rw [cutRecords]
        rfl
      · have hpos := List.length_pos_of_ne_nil hne
        rw [cutRecords_of_ne_nil hne]
        simp [hpos]
  | succ index ih =>
      rcases eq_or_ne image [] with rfl | hne
      · rw [cutRecords]
        simp
      · rw [cutRecords_of_ne_nil hne, List.getElem?_cons_succ, ih, List.length_drop,
          List.drop_drop]
        have hsame : 9 * index < image.length - 9 ↔ 9 * (index + 1) < image.length := by omega
        simp only [hsame, Nat.mul_succ, Nat.add_comm]

end Groups

namespace Listing

/-- What stands between the spaces of a text. -/
def cellsOf (text : List Char) : List String :=
  ((text.splitOn ' ').filter (!·.isEmpty)).map String.ofList

/-- What stands between the spaces of a line. -/
def cells (line : String) : List String :=
  cellsOf line.toList

/-- The cells of some lines that have the same place. -/
def column (lines : List String) (place : Nat) : List String :=
  lines.filterMap fun line => (cells line)[place]?

/-- The bytes that the last cells of some lines stand for, read one after the other. -/
def image? (lines : List String) : Option (List UInt8) :=
  Hexadecimal.readBytes? (lines.flatMap fun line => ((cells line).getLast?.getD "").toList)

/-- The cells of the row for a group of bytes. -/
def Shows (index : Nat) (group : List UInt8) (cells : List String) : Prop :=
  ∃ byte others address bytes, group = byte :: others ∧
    Hexadecimal.Writes 8 (9 * index) address ∧
    Hexadecimal.readBytes? bytes.toList = some group ∧
    (∀ c ∈ bytes.toList, c.isLower = false) ∧
    cells =
      ["0x" ++ address ++ ":", (Operation.mnemonicOf? byte).getD "???", "=>", bytes]

def Widest (cells : List String) (width : Nat) : Prop :=
  (∀ cell ∈ cells, cell.length ≤ width) ∧ (cells ≠ [] → ∃ cell ∈ cells, cell.length = width)

/-- In the line there are so many characters before the cell. -/
def StandsAt (line cell : String) (place : Nat) : Prop :=
  ∃ before after, line = before ++ cell ++ after ∧ before.length = place

/-- The lines are the rows of an image. -/
structure Tabulates (image : List UInt8) (lines : List String) : Prop where
  row_iff : ∀ index, index < lines.length ↔ 9 * index < image.length
  shows : ∀ index line, lines[index]? = some line →
    Shows index ((image.drop (9 * index)).take 9) (cells line)
  lossless : image? lines = some image
  aligned : ∃ first second third, Widest (column lines 0) first ∧
    Widest (column lines 1) second ∧ Widest (column lines 2) third ∧
      ∀ line ∈ lines, ∀ address mnemonic arrow bytes,
        cells line = [address, mnemonic, arrow, bytes] →
          StandsAt line address 0 ∧ StandsAt line mnemonic (first + 1) ∧
            StandsAt line arrow (first + 1 + (second + 1)) ∧
              StandsAt line bytes (first + 1 + (second + 1) + (third + 1))
  trimmed : ∀ line ∈ lines, line.toList.getLast? ≠ some ' '

section Cells

theorem isPlain_of_isDigitOf {c : Char} (h : Numeral.isDigitOf 16 c = true) : IsPlain c :=
  Pattern.isPlain_oneOf (by decide) [c] ⟨c, Pattern.within_hexDigits.mpr h, rfl⟩ c
    List.mem_cons_self

theorem isWord_bytes {group : List UInt8} (hne : group ≠ []) :
    IsWord (Hexadecimal.bytes group) := by
  constructor
  · intro hnil
    have hread := Hexadecimal.readBytes?_bytes group
    rw [hnil] at hread
    exact hne (Option.some.inj hread).symm
  · intro c hc
    apply isPlain_of_isDigitOf
    exact Hexadecimal.forall_mem_bytes
      (fun byte => Hexadecimal.isDigitOf_padded 2 byte.toNat) c hc

theorem isWord_address (number : Nat) : IsWord (Hexadecimal.address number ++ ":") := by
  have hliteral := Lexeme.isWord_of_mem_literal (Literal.padded_mem_literal 8 number)
  have hcolon : IsPlain ':' := ⟨by decide, by decide, by decide, by decide⟩
  exact hliteral.append (Text.isWord_of_replicate hcolon Nat.one_pos)

theorem isWord_mnemonic (byte : UInt8) :
    IsWord ((Operation.mnemonicOf? byte).getD unknownMnemonic) := by
  have hnames : ∀ operation ∈ Operation.all,
      Lexeme.isName operation.mnemonic.toList = true ∧
        Lexeme.isName (operation.mnemonic ++ "N").toList = true := by
    decide +kernel
  cases hname : Operation.mnemonicOf? byte with
  | none =>
      have hmark : IsPlain '?' := ⟨by decide, by decide, by decide, by decide⟩
      exact Text.isWord_of_replicate hmark (Nat.succ_pos 2)
  | some name =>
      obtain ⟨operation, hmem, hoperation⟩ := List.exists_of_findSome?_eq_some hname
      obtain ⟨hplain, hcall⟩ := hnames operation hmem
      have hchoice : name = operation.mnemonic ∨ name = operation.mnemonic ++ "N" := by
        rw [Operation.nameOf?] at hoperation
        split at hoperation
        · obtain ⟨-, hsame⟩ := Option.ite_none_right_eq_some.mp hoperation
          exact .inl (Option.some.inj hsame).symm
        · split_ifs at hoperation
          · exact .inl (Option.some.inj hoperation).symm
          · exact .inr (Option.some.inj hoperation).symm
      apply Lexeme.isWord_of_mem_label
      rw [← Lexeme.isName_iff_mem]
      rcases hchoice with rfl | rfl
      · exact hplain
      · exact hcall

end Cells

section Rows

/-- All cells of the row are words. -/
structure Row.Worded (row : Row) : Prop where
  address : IsWord row.address
  mnemonic : IsWord row.mnemonic
  arrow : IsWord row.arrow
  bytes : IsWord row.bytes

/-- A row as a line of a listing whose columns have the given widths. -/
def Row.line (first second third : Nat) (row : Row) : String :=
  padded first row.address ++ padded second row.mnemonic ++ padded third row.arrow ++ row.bytes

theorem cellsOf_space (text : List Char) : cellsOf (' ' :: text) = cellsOf text := by
  rw [cellsOf, List.splitOn_cons_eq_if_modifyHead]
  rfl

theorem cells_of_isWord {word : String} (h : IsWord word) : cells word = [word] := by
  have hspace : ' ' ∉ word.toList := by
    intro hmem
    exact absurd (h.plain _ hmem).lower (by decide)
  rw [cells, cellsOf, List.splitOn_eq_singleton hspace]
  simp [h.nonempty]

theorem cells_padded_append {word : String} (h : IsWord word) (width : Nat) (rest : String) :
    cells (padded width word ++ rest) = word :: cells rest := by
  have hspace : ' ' ∉ word.toList := by
    intro hmem
    exact absurd (h.plain _ hmem).lower (by decide)
  have hblanks : ∀ count, cellsOf (List.replicate count ' ' ++ rest.toList) = cells rest := by
    intro count
    induction count with
    | zero => rfl
    | succ count ih => rw [List.replicate_succ, List.cons_append, cellsOf_space, ih]
  rw [← hblanks (width - word.length), cells, padded, String.toList_append, String.toList_append,
    String.toList_ofList, List.replicate_succ, List.append_assoc, List.cons_append, cellsOf,
    List.splitOn_append_cons_self_of_not_mem hspace]
  simp [h.nonempty, cellsOf]

theorem cells_line {row : Row} (h : row.Worded) (first second third : Nat) :
    cells (row.line first second third) = [row.address, row.mnemonic, row.arrow, row.bytes] := by
  rw [Row.line, String.append_assoc, String.append_assoc, cells_padded_append h.address,
    cells_padded_append h.mnemonic, cells_padded_append h.arrow, cells_of_isWord h.bytes]

theorem length_padded {width : Nat} {cell : String} (h : cell.length ≤ width) :
    (padded width cell).length = width + 1 := by
  rw [padded, String.length_append, String.length_ofList, List.length_replicate]
  omega

theorem standsAt_padded (before cell rest : String) (width : Nat) :
    StandsAt (before ++ (padded width cell ++ rest)) cell before.length := by
  refine ⟨before, String.ofList (List.replicate (width - cell.length + 1) ' ') ++ rest, ?_, rfl⟩
  simp only [padded, String.append_assoc]

theorem standsAt_line {row : Row} {first second third : Nat} (hfirst : row.address.length ≤ first)
    (hsecond : row.mnemonic.length ≤ second) (hthird : row.arrow.length ≤ third) :
    StandsAt (row.line first second third) row.address 0 ∧
      StandsAt (row.line first second third) row.mnemonic (first + 1) ∧
      StandsAt (row.line first second third) row.arrow (first + 1 + (second + 1)) ∧
      StandsAt (row.line first second third) row.bytes
        (first + 1 + (second + 1) + (third + 1)) := by
  simp only [← length_padded hfirst, ← length_padded hsecond, ← length_padded hthird,
    ← String.length_append]
  refine ⟨?_, ?_, ?_, ?_⟩
  · have h := standsAt_padded "" row.address
      (padded second row.mnemonic ++ padded third row.arrow ++ row.bytes) first
    simpa only [Row.line, String.append_assoc, String.empty_append, String.length_empty] using h
  · have h := standsAt_padded (padded first row.address) row.mnemonic
      (padded third row.arrow ++ row.bytes) second
    simpa only [Row.line, String.append_assoc] using h
  · have h := standsAt_padded (padded first row.address ++ padded second row.mnemonic) row.arrow
      row.bytes third
    simpa only [Row.line, String.append_assoc] using h
  · refine ⟨padded first row.address ++ padded second row.mnemonic ++ padded third row.arrow, "",
      ?_, rfl⟩
    simp only [Row.line, String.append_empty]

theorem mem_padded {word : String} (h : IsWord word) {width : Nat} {c : Char}
    (hc : c ∈ (padded width word).toList) : c = ' ' ∨ IsPlain c := by
  rw [padded, String.toList_append, String.toList_ofList, List.mem_append] at hc
  rcases hc with hc | hc
  · exact .inr (h.plain c hc)
  · exact .inl (List.eq_of_mem_replicate hc)

theorem lineFeed_notMem_line {row : Row} (h : row.Worded) (first second third : Nat) :
    '\n' ∉ (row.line first second third).toList := by
  intro hmem
  have hplain : '\n' = ' ' ∨ IsPlain '\n' := by
    simp only [Row.line, String.toList_append, List.mem_append] at hmem
    rcases hmem with ((hmem | hmem) | hmem) | hmem
    · exact mem_padded h.address hmem
    · exact mem_padded h.mnemonic hmem
    · exact mem_padded h.arrow hmem
    · exact .inr (h.bytes.plain _ hmem)
  rcases hplain with hspace | hplain
  · exact absurd hspace (by decide)
  · exact hplain.ne_lineFeed rfl

theorem getLast?_line {row : Row} (h : row.Worded) (first second third : Nat) :
    (row.line first second third).toList.getLast? ≠ some ' ' := by
  rw [Row.line, String.toList_append, List.getLast?_append_of_ne_nil _ h.bytes.nonempty]
  intro hlast
  exact absurd (h.bytes.plain _ (List.mem_of_getLast? hlast)).lower (by decide)

theorem widest_columnWidth (cells : List String) : Widest cells (columnWidth cells) := by
  have hfold : ∀ (lengths : List Nat) (start : Nat),
      start ≤ lengths.foldl max start ∧ (∀ length ∈ lengths, length ≤ lengths.foldl max start) ∧
        lengths.foldl max start ∈ start :: lengths := by
    intro lengths
    induction lengths with
    | nil => simp
    | cons length lengths ih =>
        intro start
        obtain ⟨hstart, hall, hmem⟩ := ih (max start length)
        rw [List.foldl_cons]
        refine ⟨by omega, ?_, ?_⟩
        · intro other hother
          rcases List.mem_cons.mp hother with rfl | hother
          · omega
          · exact hall other hother
        · rcases List.mem_cons.mp hmem with hmem | hmem
          · rw [hmem]
            rcases Nat.le_total start length with h | h
            · simp [Nat.max_eq_right h]
            · simp [Nat.max_eq_left h]
          · simp [hmem]
  obtain ⟨-, hall, hmem⟩ := hfold (cells.map String.length) 0
  constructor
  · exact fun cell hcell => hall _ (List.mem_map_of_mem hcell)
  · intro hne
    obtain ⟨cell, others, rfl⟩ := List.exists_cons_of_ne_nil hne
    rcases List.mem_cons.mp hmem with hzero | hmem
    · -- if the greatest width is zero, that is the width of every cell
      have hcell : cell.length ≤ columnWidth (cell :: others) :=
        hall _ (List.mem_map_of_mem List.mem_cons_self)
      refine ⟨cell, List.mem_cons_self, ?_⟩
      rw [columnWidth] at hcell ⊢
      omega
    · obtain ⟨found, hfound, hlength⟩ := List.mem_map.mp hmem
      exact ⟨found, hfound, hlength⟩

end Rows

section Image

variable (image : List UInt8)

theorem getElem?_rows (index : Nat) :
    (rows image)[index]? =
      if 9 * index < image.length then some (row index ((image.drop (9 * index)).take 9))
      else none := by
  rw [rows, List.getElem?_map, List.getElem?_zipIdx, getElem?_cutRecords]
  split
  · simp
  · rfl

theorem worded_row (index : Nat) {group : List UInt8} (hne : group ≠ []) :
    (row index group).Worded := by
  obtain ⟨byte, others, rfl⟩ := List.exists_cons_of_ne_nil hne
  have harrow : IsWord "=>" := by
    refine ⟨by decide, ?_⟩
    intro c hc
    rcases List.mem_pair.mp hc with rfl | rfl
    · exact ⟨by decide, by decide, by decide, by decide⟩
    · exact ⟨by decide, by decide, by decide, by decide⟩
  exact ⟨isWord_address _, isWord_mnemonic byte, harrow, isWord_bytes hne⟩

theorem shows_row (index : Nat) {group : List UInt8} (hne : group ≠ []) :
    Shows index group
      [(row index group).address, (row index group).mnemonic, (row index group).arrow,
        (row index group).bytes] := by
  obtain ⟨byte, others, rfl⟩ := List.exists_cons_of_ne_nil hne
  refine ⟨byte, others, Hexadecimal.padded 8 (9 * index), _, rfl,
    Hexadecimal.writes_padded (by decide) _, Hexadecimal.readBytes?_bytes _, ?_, rfl⟩
  exact Hexadecimal.forall_mem_bytes fun byte c hc => Hexadecimal.isLower_of_mem_padded hc

theorem exists_of_mem_rows {shown : Row} (h : shown ∈ rows image) :
    ∃ index group, group ≠ [] ∧ shown = row index group := by
  obtain ⟨index, hindex⟩ := List.mem_iff_getElem?.mp h
  rw [getElem?_rows] at hindex
  split at hindex
  · next hlt =>
    refine ⟨index, _, ?_, (Option.some.inj hindex).symm⟩
    intro hnil
    simp at hnil
    omega
  · cases hindex

theorem bytes_flatten (groups : List (List UInt8)) :
    (Hexadecimal.bytes groups.flatten).toList =
      groups.flatMap fun group => (Hexadecimal.bytes group).toList := by
  induction groups with
  | nil => simp [Hexadecimal.bytes]
  | cons group groups ih =>
      rw [List.flatten_cons, List.flatMap_cons, ← ih]
      simp [Hexadecimal.bytes]

/-- A row as a line of the listing of an image. -/
def lineOf (shown : Row) : String :=
  shown.line (columnWidth ((rows image).map Row.address))
    (columnWidth ((rows image).map Row.mnemonic)) (columnWidth ((rows image).map Row.arrow))

section Row

variable {image} {shown : Row} (h : shown ∈ rows image)
include h

theorem worded_of_mem_rows : shown.Worded := by
  obtain ⟨index, group, hne, rfl⟩ := exists_of_mem_rows image h
  exact worded_row index hne

theorem cells_lineOf :
    cells (lineOf image shown) =
      [shown.address, shown.mnemonic, shown.arrow, shown.bytes] :=
  cells_line (worded_of_mem_rows h) _ _ _

theorem standsAt_lineOf :
    StandsAt (lineOf image shown) shown.address 0 ∧
      StandsAt (lineOf image shown) shown.mnemonic
        (columnWidth ((rows image).map Row.address) + 1) ∧
      StandsAt (lineOf image shown) shown.arrow
        (columnWidth ((rows image).map Row.address) + 1 +
          (columnWidth ((rows image).map Row.mnemonic) + 1)) ∧
      StandsAt (lineOf image shown) shown.bytes
        (columnWidth ((rows image).map Row.address) + 1 +
          (columnWidth ((rows image).map Row.mnemonic) + 1) +
            (columnWidth ((rows image).map Row.arrow) + 1)) := by
  apply standsAt_line
  · exact (widest_columnWidth _).1 _ (List.mem_map_of_mem h)
  · exact (widest_columnWidth _).1 _ (List.mem_map_of_mem h)
  · exact (widest_columnWidth _).1 _ (List.mem_map_of_mem h)

end Row

theorem printable_of_isWord {word : String} (h : IsWord word) : Grid.Printable word := by
  intro c hc
  obtain ⟨hlower, hupper, -, -⟩ := h.plain c hc
  constructor
  · exact Nat.le_of_succ_le hlower
  · exact hupper

theorem printable_of_mem_cells {shown : Row} (h : shown ∈ rows image) :
    ∀ cell ∈ shown.cells, Grid.Printable cell := by
  obtain ⟨haddress, hmnemonic, harrow, hbytes⟩ := worded_of_mem_rows h
  simp only [Row.cells, List.forall_mem_cons]
  exact ⟨printable_of_isWord haddress, printable_of_isWord hmnemonic, printable_of_isWord harrow,
    printable_of_isWord hbytes, List.forall_mem_nil _⟩

theorem columnWidths_cells :
    columnWidths columns ((rows image).map Row.cells) =
      [columnWidth ((rows image).map Row.address), columnWidth ((rows image).map Row.mnemonic),
        columnWidth ((rows image).map Row.arrow), columnWidth ((rows image).map Row.bytes)] := by
  have hcolumn (place : Nat) (cell : Row → String)
      (hcell : ∀ shown : Row, shown.cells[place]? = some (cell shown)) :
      ((rows image).map Row.cells).filterMap (·[place]?) = (rows image).map cell := by
    rw [List.filterMap_map, ← List.filterMap_eq_map]
    exact congrArg (List.filterMap · (rows image)) (funext hcell)
  rw [← hcolumn 0 Row.address fun _ => rfl, ← hcolumn 1 Row.mnemonic fun _ => rfl,
    ← hcolumn 2 Row.arrow fun _ => rfl, ← hcolumn 3 Row.bytes fun _ => rfl]
  rfl

theorem onGrid_eq {grid : Grid} (hgrid : grid.Aligns) :
    onGrid grid image = String.join (((rows image).map (lineOf image)).map (· ++ "\n")) := by
  have hlength : ∀ cells ∈ (rows image).map Row.cells, cells.length = columns := by
    rw [List.forall_mem_map]
    exact fun _ _ => rfl
  have hprintable : ∀ cells ∈ (rows image).map Row.cells, ∀ cell ∈ cells,
      Grid.Printable cell := by
    rw [List.forall_mem_map]
    exact fun shown hshown => printable_of_mem_cells image hshown
  rw [onGrid, hgrid columns _ (by decide) hlength hprintable, columnWidths_cells, List.map_map,
    List.map_map]
  refine congrArg String.join (List.map_congr_left fun shown _ => ?_)
  simp only [Function.comp_apply, Row.cells, writeRow, lineOf, Row.line, String.append_assoc]

theorem column_lines {place : Nat} {cell : Row → String}
    (hcell : ∀ shown : Row,
      [shown.address, shown.mnemonic, shown.arrow, shown.bytes][place]? = some (cell shown)) :
    column ((rows image).map (lineOf image)) place = (rows image).map cell := by
  have hsame : (rows image).filterMap (fun shown => (cells (lineOf image shown))[place]?) =
      (rows image).filterMap (some ∘ cell) := by
    apply List.filterMap_congr
    intro shown hshown
    rw [cells_lineOf hshown, hcell, Function.comp_apply]
  rw [column, List.filterMap_map]
  exact hsame.trans (by rw [List.filterMap_eq_map])

theorem image?_lines : image? ((rows image).map (lineOf image)) = some image := by
  have hcells : (rows image).flatMap
      (fun shown => ((cells (lineOf image shown)).getLast?.getD "").toList) =
        (rows image).flatMap fun shown => shown.bytes.toList := by
    apply List.flatMap_congr
    intro shown hshown
    rw [cells_lineOf hshown]
    rfl
  have hgroups : (rows image).flatMap (fun shown => shown.bytes.toList) =
      (Hexadecimal.bytes image).toList := by
    conv_rhs => rw [← flatten_cutRecords image, bytes_flatten,
      ← List.zipIdx_map_fst 0 (cutRecords image), List.flatMap_map]
    rw [rows, List.flatMap_map]
    rfl
  rw [image?, List.flatMap_map, hcells, hgroups, Hexadecimal.readBytes?_bytes]

theorem lt_length_rows_iff (index : Nat) :
    index < (rows image).length ↔ 9 * index < image.length := by
  rw [← not_le, ← List.getElem?_eq_none_iff, getElem?_rows]
  split
  · next hlt => simpa using hlt
  · next hlt => simpa using hlt

theorem shows_lines {index : Nat} {line : String}
    (h : ((rows image).map (lineOf image))[index]? = some line) :
    Shows index ((image.drop (9 * index)).take 9) (cells line) := by
  rw [List.getElem?_map, Option.map_eq_some_iff] at h
  obtain ⟨shown, hshown, rfl⟩ := h
  rw [cells_lineOf (List.mem_of_getElem? hshown)]
  rw [getElem?_rows, Option.ite_none_right_eq_some] at hshown
  obtain ⟨hlt, hrow⟩ := hshown
  cases hrow
  apply shows_row
  intro hnil
  simp at hnil
  omega

theorem tabulates_lines : Tabulates image ((rows image).map (lineOf image)) := by
  constructor
  · intro index
    rw [List.length_map]
    exact lt_length_rows_iff image index
  · exact fun index line hline => shows_lines image hline
  · exact image?_lines image
  · refine ⟨columnWidth ((rows image).map Row.address), columnWidth ((rows image).map Row.mnemonic),
      columnWidth ((rows image).map Row.arrow), ?_, ?_, ?_, ?_⟩
    · rw [column_lines image fun _ => rfl]
      exact widest_columnWidth _
    · rw [column_lines image fun _ => rfl]
      exact widest_columnWidth _
    · rw [column_lines image fun _ => rfl]
      exact widest_columnWidth _
    · intro line hline address mnemonic arrow bytes hcells
      obtain ⟨shown, hshown, rfl⟩ := List.mem_map.mp hline
      rw [cells_lineOf hshown] at hcells
      cases hcells
      exact standsAt_lineOf hshown
  · intro line hline
    obtain ⟨shown, hshown, rfl⟩ := List.mem_map.mp hline
    exact getLast?_line (worded_of_mem_rows hshown) _ _ _

/-- The listing of any bytes on any grid that aligns its cells. -/
theorem onGrid_tabulates {grid : Grid} (hgrid : grid.Aligns) :
    ∃ lines : List String, onGrid grid image = String.join (lines.map (· ++ "\n")) ∧
      (∀ line ∈ lines, '\n' ∉ line.toList) ∧ Tabulates image lines := by
  refine ⟨_, onGrid_eq image hgrid, ?_, tabulates_lines image⟩
  intro line hline
  obtain ⟨shown, hshown, rfl⟩ := List.mem_map.mp hline
  exact lineFeed_notMem_line (worded_of_mem_rows hshown) _ _ _

theorem onGrid_tabulates_aligned :
    Grid.aligned.Aligns ∧
      ofImage [16, 0, 0, 0, 0, 0, 0, 0, 9, 255, 1] =
        "0x00000000: LOADI => 100000000000000009\n0x00000009: ???   => FF01\n" ∧
      ∃ lines : List String,
        ofImage [16, 0, 0, 0, 0, 0, 0, 0, 9, 255, 1] = String.join (lines.map (· ++ "\n")) ∧
          (∀ line ∈ lines, '\n' ∉ line.toList) ∧
            Tabulates [16, 0, 0, 0, 0, 0, 0, 0, 9, 255, 1] lines :=
  ⟨Grid.aligned_aligns, by cbv, onGrid_tabulates _ Grid.aligned_aligns⟩

end Image

end Listing

end StackAsm
