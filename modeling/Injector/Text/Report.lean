import Injector.Text.Blank

/-!
# Reports

Columns, lists, flags and counts as a command prints them.
-/

namespace Injector.Report

/-! ### Columns -/

/-- A cell filled up with spaces to a width, counted in characters. -/
def padded (width : Nat) (cell : String) : String :=
  cell ++ String.ofList (List.replicate (width - cell.length) ' ')

/-- The width of the column at an index: that of its widest cell. -/
def columnWidth (headers : List String) (rows : List (List String)) (index : Nat) : Nat :=
  ((headers :: rows).filterMap (·[index]?)).foldl (fun w cell => max w cell.length) 0

def columnWidths (headers : List String) (rows : List (List String)) : List Nat :=
  (List.range headers.length).map (columnWidth headers rows)

/-- One line of a table; cells beyond the columns are dropped, and so are blanks at its end. -/
def tableLine (widths : List Nat) (cells : List String) : String :=
  "  " ++ trimEnd ("  ".intercalate (List.zipWith padded widths cells)) ++ "\n"

/-- Rows under headers, in aligned columns two blanks in. -/
def table (headers : List String) (rows : List (List String)) : String :=
  String.join ((headers :: rows).map (tableLine (columnWidths headers rows)))

/-! ### Lists and counts -/

def nothing : String := "-"

def itemList (items : List String) : String :=
  let joined := ", ".intercalate items
  if joined.isEmpty then nothing else joined

def flagList (flags : List (Bool × String)) : String :=
  let set := (flags.filter (·.1)).map (·.2)
  if set.isEmpty then nothing else ",".intercalate set

def counted (count : Nat) (singular plural : String) : String :=
  toString count ++ " " ++ if count = 1 then singular else plural

def rule (width : Nat) : String := String.ofList (List.replicate width '═')

end Injector.Report
