import StackAsm.Image
import StackAsm.Number.Hexadecimal

/-!
Listings: an image as a table with one row for each record, showing its address, its mnemonic and
its bytes. The cells are put on a grid, which is left to whoever lays them out.
-/

namespace StackAsm

/-- A way to lay out cells, which fill a number of columns from left to right, as a text. -/
abbrev Grid : Type :=
  Nat → List String → String

namespace Grid

/-- The width of the widest of some cells. -/
def columnWidth (cells : List String) : Nat :=
  (cells.map String.length).foldl max 0

def columnWidths (columns : Nat) (rows : List (List String)) : List Nat :=
  (List.range columns).map fun place => columnWidth (rows.filterMap (·[place]?))

/-- A cell with blanks behind it up to the width of its column, and one more before the next
column. -/
def padded (width : Nat) (cell : String) : String :=
  cell ++ String.ofList (List.replicate (width - cell.length + 1) ' ')

/-- Writes a row. The last cell needs no blanks behind it. -/
def writeRow : List Nat → List String → String
  | _, [] => "\n"
  | _, [cell] => cell ++ "\n"
  | [], cell :: cells => padded 0 cell ++ writeRow [] cells
  | width :: widths, cell :: cells => padded width cell ++ writeRow widths cells

/-- Every character of the cell is a printable one of ASCII, and so takes one place of a line. -/
def Printable (cell : String) : Prop :=
  ∀ c ∈ cell.toList, ' ' ≤ c ∧ c ≤ '~'

/-- A grid writes full rows below each other with aligned columns: each cell but the last of a row
is as wide as its column and a blank. -/
def Aligns (grid : Grid) : Prop :=
  ∀ (columns : Nat) (rows : List (List String)), 0 < columns →
    (∀ row ∈ rows, row.length = columns) → (∀ row ∈ rows, ∀ cell ∈ row, Printable cell) →
      grid columns rows.flatten = String.join (rows.map (writeRow (columnWidths columns rows)))

/-- Cuts cells into rows. -/
def rowsOf (columns : Nat) : List String → List (List String)
  | [] => []
  | cell :: cells => (cell :: cells.take (columns - 1)) :: rowsOf columns (cells.drop (columns - 1))
termination_by cells => cells.length
decreasing_by simp only [List.length_drop, List.length_cons]; omega

/-- The grid that cuts its cells into rows and aligns these. -/
def aligned : Grid := fun columns cells =>
  let rows := rowsOf columns cells
  String.join (rows.map (writeRow (columnWidths columns rows)))

theorem rowsOf_flatten {columns : Nat} {rows : List (List String)} (hpos : 0 < columns)
    (h : ∀ row ∈ rows, row.length = columns) : rowsOf columns rows.flatten = rows := by
  induction rows with
  | nil =>
      rw [List.flatten_nil, rowsOf]
  | cons row rows ih =>
      obtain ⟨hlength, hrows⟩ := List.forall_mem_cons.mp h
      obtain ⟨cell, cells, rfl⟩ := List.exists_cons_of_length_pos (hlength ▸ hpos)
      have hcells : cells.length = columns - 1 := by
        rw [List.length_cons] at hlength
        omega
      rw [List.flatten_cons, List.cons_append, rowsOf, List.take_left' hcells,
        List.drop_left' hcells, ih hrows]

theorem aligned_aligns : aligned.Aligns := by
  intro columns rows hpos hrows _
  rw [aligned, rowsOf_flatten hpos hrows]

end Grid

namespace Listing

/-- What a listing shows for a byte that begins no record. -/
def unknownMnemonic : String := "???"

structure Row where
  address : String
  mnemonic : String
  arrow : String
  bytes : String
  deriving DecidableEq, Repr

/-- The cells of a row from left to right. -/
def Row.cells (row : Row) : List String :=
  [row.address, row.mnemonic, row.arrow, row.bytes]

/-- The row of a record that has the given index in its image. -/
def row (index : Nat) (record : List UInt8) : Row :=
  { address := Hexadecimal.address (Record.width * index) ++ ":"
    mnemonic := (record.head?.bind Operation.mnemonicOf?).getD unknownMnemonic
    arrow := "=>"
    bytes := Hexadecimal.bytes record }

def rows (image : List UInt8) : List Row :=
  (cutRecords image).zipIdx.map fun (record, index) => row index record

/-- The number of cells in a row. -/
def columns : Nat := 4

def onGrid (grid : Grid) (image : List UInt8) : String :=
  grid columns ((rows image).map Row.cells).flatten

def ofImage (image : List UInt8) : String :=
  onGrid .aligned image

end Listing

end StackAsm
