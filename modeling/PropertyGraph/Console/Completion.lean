import PropertyGraph.Text.CharClass
import PropertyGraph.Text.Casing

/-!
Completion of what is typed: commands by their start, keywords by their start in any letter case,
and after a blank the words that follow a keyword.
-/

namespace PropertyGraph.Console

structure Completion where
  /-- Byte at which the candidates begin. -/
  start : Nat
  candidates : List String

namespace Completion

def commands : List String :=
  [":help", ":h", ":quit", ":q", ":exit", ":explain", ":stats", ":clear"]

def keywords : List String :=
  ["EXPLAIN", "MATCH", "WHERE", "CREATE", "SET", "DELETE", "DETACH", "RETURN", "DISTINCT", "AS",
    "ORDER", "BY", "ASC", "DESC", "ASCENDING", "DESCENDING", "SKIP", "LIMIT", "AND", "OR", "XOR",
    "NOT", "IN", "IS", "NULL", "TRUE", "FALSE", "STARTS", "ENDS", "WITH", "CONTAINS", "count",
    "collect", "sum", "min", "max", "avg", "id", "type", "labels", "keys", "toString", "toInteger",
    "toFloat", "toBoolean", "size"]

def following (keyword : String) : List String :=
  match keyword with
  | "ORDER" => ["BY"]
  | "DETACH" => ["DELETE"]
  | "IS" => ["NULL", "NOT"]
  | "STARTS" | "ENDS" => ["WITH"]
  | "RETURN" => ["DISTINCT"]
  | _ => []

/-- The last run of characters that are not blank. -/
def lastWord (text : List Char) : List Char :=
  ((text.reverse.dropWhile Text.isBlank).takeWhile fun c => !Text.isBlank c).reverse

def startsWith (start : List Char) (word : List Char) : Bool := start.isPrefixOf word

def complete (line : List Char) (position : Nat) : Completion :=
  let typed := Text.firstBytes position line
  if typed.head? = some ':' && !typed.contains ' ' then
    ⟨0, commands.filter fun c => startsWith typed c.toList⟩
  else
    let last := lastWord typed
    let capital := Text.uppercase last
    if last.isEmpty then ⟨position, []⟩
    else if typed.getLast?.any Text.isBlank then ⟨position, following (String.ofList capital)⟩
    else
      ⟨position - Text.byteLength last,
        keywords.filter fun k => startsWith capital (Text.uppercase k.toList)⟩

end Completion

end PropertyGraph.Console
