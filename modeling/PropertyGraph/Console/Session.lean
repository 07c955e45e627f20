import PropertyGraph.Client.Basic
import PropertyGraph.Console.Report
import PropertyGraph.Text.Casing
import PropertyGraph.Text.CharClass

/-!
A session: lines are queries or commands, and every line has its reply. Commands start with a colon,
and their names are read in any letter case.
-/

namespace PropertyGraph.Console

inductive Command where
  | help
  | exit
  | statistics
  | clear
  | explain (query : String)
  | explainNothing
  | unknown (name : String)

def isCommand (line : List Char) : Bool := (Text.trimStart line).head? = some ':'

def Command.ofName (name : String) (argument : List Char) : Command :=
  match name with
  | "help" | "h" => .help
  | "quit" | "q" | "exit" => .exit
  | "stats" => .statistics
  | "clear" => .clear
  | "explain" =>
      if argument.isEmpty then .explainNothing else .explain (String.ofList argument)
  | other => .unknown other

/-- A colon may be left out. -/
def Command.read (line : List Char) : Command :=
  let text := match Text.trim line with
    | ':' :: rest => rest
    | whole => whole
  let (name, rest) := text.span fun c => !Text.isBlank c
  .ofName (String.ofList (Text.lowercase name)) (Text.trim rest)

/-- The query of a line, and whether a mark at its end asks for one line for each column. -/
def verticalMark (line : List Char) : List Char × Bool :=
  let text := Text.trim line
  match text.reverse with
  | 'G' :: '\\' :: query => (Text.trim query.reverse, true)
  | 'g' :: '\\' :: query => (Text.trim query.reverse, true)
  | _ => (text, false)

/-- A person's properties. -/
def named (name : String) : String := Text.braced ["name: '" ++ name ++ "'"]

def helpText : String :=
  "
═══════════════════════════════════════════════════════════════
                   cyphergraph CLI 命令帮助
═══════════════════════════════════════════════════════════════

Cypher 语句:
  MATCH (n:person) RETURN n.name
  MATCH (a)-[r:knows]->(b) WHERE a.age > 30 RETURN a, r, b
  MATCH (a)-[:knows*1..3]->(b) RETURN DISTINCT b.name ORDER BY b.name
  MATCH (n) RETURN labels(n) AS l, count(*) AS c
  CREATE (a:person " ++ named "Alice" ++ ")-[:knows]->(b:person " ++ named "Bob" ++ ")
  MATCH (n " ++ named "Alice" ++ ") SET n.age = 30
  MATCH (n " ++ named "Bob" ++ ") DETACH DELETE n
  EXPLAIN MATCH (n) RETURN n

控制台命令 (以 : 开头):
  :help, :h              显示帮助
  :quit, :q, :exit       退出程序
  :explain <query>       显示翻译结果，不执行
  :stats                 显示图与查询统计
  :clear                 清屏

提示: 在查询末尾加 \\G 可垂直显示结果
═══════════════════════════════════════════════════════════════
"

def explainUsage : String := "Usage: :explain <query>"

def unknownCommand (name : String) : String :=
  "Unknown command ':" ++ name ++ "'. Type :help for help."

inductive Content where
  | text (s : String)
  | rows (layout : Layout) (found : List Row)
  | overview (o : Overview)

/-- Times that a reply shows: that of its query, and the average of all, in milliseconds. -/
structure Clock where
  query : Nat
  averageQuery : Binary64

def Content.render (clock : Clock) : Content → String
  | .text s => s
  | .rows layout found => rowsReport layout found clock.query
  | .overview o => overviewReport o clock.averageQuery

inductive Reply where
  | printed (content : Content)
  | clear
  | exit

def errorText (e : Error) : String := "ERROR: " ++ e.message ++ "\n"

def contentOf (layout : Layout) : Outcome → Content
  | .rows found => .rows layout found
  | .rejected e => .text (errorText e)
  | .failed e => .text (errorText e)

def runQuery (client : Client) (line : List Char) : Content × Client :=
  let (query, vertical) := verticalMark line
  let (outcome, client) := client.submit (String.ofList query) []
  (contentOf (if vertical then .vertical else .table) outcome, client)

def showQuery (client : Client) (line : List Char) : Reply × Client :=
  let (content, client) := runQuery client line
  (.printed content, client)

def runCommand (client : Client) : Command → Reply × Client
  | .help => (.printed (.text helpText), client)
  | .exit => (.exit, client)
  | .clear => (.clear, client)
  | .statistics => (.printed (.overview (overviewOf client.store)), client)
  | .explain query => showQuery client ("EXPLAIN " ++ query).toList
  | .explainNothing => (.printed (.text (explainUsage ++ "\n")), client)
  | .unknown name => (.printed (.text (unknownCommand name ++ "\n")), client)

def reply (client : Client) (line : String) : Reply × Client :=
  let text := Text.trim line.toList
  if text.isEmpty then (.printed (.text ""), client)
  else if isCommand text then runCommand client (Command.read text)
  else showQuery client text

end PropertyGraph.Console
