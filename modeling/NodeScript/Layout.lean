import NodeScript.Display

/-! Plain text for what is printed: outlines are indented and the columns of tables are aligned. -/

namespace NodeScript.Layout

open Text

mutual

def outlineLines (indent : String) : Outline → List String
  | .node label children => (indent ++ plainMarkup label) :: childLines (indent ++ "  ") children

def childLines (indent : String) : List Outline → List String
  | [] => []
  | o :: os => outlineLines indent o ++ childLines indent os

end

/-- A cell filled up with blanks. -/
def padded (width : Nat) (cell : String) : String :=
  cell ++ String.ofList (List.replicate (width - cell.length) ' ')

/-- The width of each column of some rows. -/
def widths (rows : List (List String)) : List Nat :=
  rows.foldl (fun ws row => merge ws (row.map String.length)) []
where
  merge : List Nat → List Nat → List Nat
    | [], ns => ns
    | ms, [] => ms
    | m :: ms, n :: ns => max m n :: merge ms ns

def tableLines (t : TextTable) : List String :=
  let rows := (t.columns :: t.rows).map (·.map plainMarkup)
  let ws := widths rows
  t.title :: rows.map fun row => "  ".intercalate (ws.zipWith padded row)

/-- The lines of something printed. -/
def lines : Printed → List String
  | .line markup => [plainMarkup markup]
  | .outline o => outlineLines "" o
  | .table t => tableLines t

end NodeScript.Layout
