import PropertyGraph.Client.Normalize
import PropertyGraph.Graph.Metrics
import PropertyGraph.Number.Decimal
import PropertyGraph.Text.Columns
import PropertyGraph.Value.Text

/-!
What the console prints: results of queries and the state of the store. The map of an element shows
its label and its properties, in round brackets for a node and in square ones for a relationship.
Results are set out in a box with a rule between all rows, or with one line for each column.
-/

namespace PropertyGraph.Console

def kindOf (entries : List (Value × Value)) : Option String :=
  (Dictionary.get? (.string "_type") entries).bind Value.string?

/-- A key that tells about the element itself. -/
def isMark : Value → Bool
  | .string key => key.toList.head? = some '_'
  | _ => false

def elementCell (kind : Option String) (label body : String) : String :=
  match kind with
  | some "node" => "(:" ++ label ++ " " ++ body ++ ")"
  | some "relationship" => "[:" ++ label ++ " " ++ body ++ "]"
  | _ => body

mutual

def cell : Value → String
  | .null => "null"
  | .string s => s
  | .list items => Text.listed (cells items)
  | .map entries =>
      let kind := kindOf entries
      elementCell kind (labelCell entries) (Text.braced (entryCells kind.isSome entries))
  | .bool b => Value.text (.bool b)
  | .int i => Value.text (.int i)
  | .float x => Value.text (.float x)
  | .vertex v => Value.text (.vertex v)
  | .edge e => Value.text (.edge e)
  | .property owner key value => Value.text (.property owner key value)

def cells : List Value → List String
  | [] => []
  | item :: rest => cell item :: cells rest

def labelCell : List (Value × Value) → String
  | [] => ""
  | entry :: rest => if entry.1 = .string "_label" then valueCell entry else labelCell rest

def entryCells (hideMarks : Bool) : List (Value × Value) → List String
  | [] => []
  | entry :: rest =>
      if hideMarks && isMark entry.1 then entryCells hideMarks rest
      else entryCell entry :: entryCells hideMarks rest

def valueCell : Value × Value → String
  | (_, value) => cell value

def entryCell : Value × Value → String
  | (key, value) => cell key ++ ": " ++ cell value

end

/-- The lines of a text; a carriage return before a line feed goes with it. `line` holds what is
read of the current line, backwards. -/
def linesFrom (line : List Char) : List Char → List (List Char)
  | [] => if line.isEmpty then [] else [line.reverse]
  | '\n' :: rest =>
      let whole := match line with
        | '\r' :: before => before
        | _ => line
      whole.reverse :: linesFrom [] rest
  | c :: rest => linesFrom (c :: line) rest

abbrev Lines := List (List Char)

def linesOf (s : String) : Lines := linesFrom [] s.toList

namespace Table

def width (lines : Lines) : Nat := (lines.map Text.displayWidth).foldl max 0

def widths (titles : List Lines) (rows : List (List Lines)) : List Nat :=
  rows.foldl (fun known row => List.zipWith max known (row.map width)) (titles.map width)

def rule (left middle right : String) (columns : List Nat) : String :=
  left ++ Text.joined middle (columns.map fun n => String.ofList (List.replicate (n + 2) '─'))
    ++ right ++ "\n"

def padded (columns : Nat) (line : List Char) : String :=
  String.ofList (line ++ List.replicate (columns - Text.displayWidth line) ' ')

def rowLine (columns : List Nat) (row : List Lines) (i : Nat) : String :=
  let parts := List.zipWith (fun n lines => " " ++ padded n (lines.getD i []) ++ " ") columns row
  "│" ++ Text.joined "│" parts ++ "│\n"

def rowText (columns : List Nat) (row : List Lines) : String :=
  let height := (row.map List.length).foldl max 1
  String.join ((List.range height).map (rowLine columns row))

def boxed (titles : List String) (rows : List (List String)) : String :=
  let head := titles.map linesOf
  let body := rows.map (·.map linesOf)
  let columns := widths head body
  let ruled := (head :: body).map (rowText columns)
  rule "┌" "┬" "┐" columns ++ Text.joined (rule "├" "┼" "┤" columns) ruled
    ++ rule "└" "┴" "┘" columns

/-- Titles are set flush right by their count of characters. -/
def field (columns : Nat) (title value : String) : String :=
  String.ofList (List.replicate (columns - title.length) ' ') ++ title ++ ": " ++ value ++ "\n"

def record (titles : List String) (columns number : Nat) (row : List String) : String :=
  let stars := "***************************"
  stars ++ " " ++ natText number ++ ". row " ++ stars ++ "\n"
    ++ String.join (List.zipWith (field columns) titles row)

def vertical (titles : List String) (rows : List (List String)) : String :=
  let columns := (titles.map String.length).foldl max 0
  String.join (rows.zipIdx.map fun (row, i) => record titles columns (i + 1) row)

end Table

inductive Layout where
  | table
  | vertical
deriving DecidableEq

def cellsOf (columns : List String) (row : Row) : List String :=
  columns.map fun column => ((Dictionary.get? column row).map cell).getD ""

def layOut : Layout → List String → List (List String) → String
  | .table => Table.boxed
  | .vertical => Table.vertical

def inMilliseconds (n : Nat) : String := "(" ++ natText n ++ " ms)\n"

/-- Rows under the columns of the first one. -/
def rowsReport (layout : Layout) (found : List Row) (milliseconds : Nat) : String :=
  match found.head?.map Dictionary.keys with
  | none | some [] => "Empty set " ++ inMilliseconds milliseconds
  | some columns =>
      layOut layout columns (found.map (cellsOf columns)) ++ "\n" ++ natText found.length
        ++ " row(s) in set " ++ inMilliseconds milliseconds

/-- What is shown of the state of a store. -/
structure Overview where
  vertices : Nat
  edges : Nat
  labels : List String
  metrics : Metrics

def overviewOf (s : Store) : Overview :=
  ⟨s.graph.vertices.length, s.graph.edges.length, s.graph.labels, s.metrics⟩

def overviewReport (o : Overview) (averageQuery : Binary64) : String :=
  Table.boxed ["Property", "Value"]
    [["Vertex Count", natText o.vertices],
      ["Edge Count", natText o.edges],
      ["Labels", Text.joined ", " o.labels],
      ["Queries", natText o.metrics.queries],
      ["Failed Queries", natText o.metrics.failed],
      ["Explained", natText o.metrics.explanations],
      ["Avg Query Time (ms)", Decimal.fixed 2 averageQuery]]

end PropertyGraph.Console
