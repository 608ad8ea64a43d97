import ForeignCall.Settings.Literal

/-!
# Settings documents

Settings are written in TOML. A document is a list of lines: the header of a section, or a key with
a value (`readDocument`). A value is a literal, an array or an inline table.

Arrays and inline tables nest at most `nesting` deep, and the path of a key has at most as many
names. In one inline table no path may lead through another or to the same place.
-/

namespace ForeignCall.Settings

/-- A value in a document. -/
inductive Item where
  | text (s : String)
  | integer (i : Int)
  | flag (b : Bool)
  /-- A float. No setting is one, so its value is not kept. -/
  | float
  /-- A date, a time, or both. No setting is one, so it is not kept. -/
  | moment
  | list (items : List Item)
  /-- An inline table; a key is a path of names. -/
  | table (entries : List (List String × Item))

/-- A line of a document. -/
inductive Line where
  /-- The header of a section. -/
  | header (path : List String)
  /-- The header of one more section of a list of sections. -/
  | listHeader (path : List String)
  | entry (path : List String) (value : Item)

/-- How deep arrays and inline tables may nest, and how many names a path may have. -/
def nesting : Nat := 79

/-- Whether no path is the beginning of another one, or the same. -/
def areApart : List (List String) → Bool
  | [] => true
  | path :: paths =>
    (paths.all fun other => !(path.isPrefixOf other || other.isPrefixOf path)) && areApart paths

namespace Reader

/-! ## Keys -/

/-- Whether a character may stand in a name without quotes. -/
def isBare (c : Char) : Bool := c.isAlphanum || c == '_' || c == '-'

/-- A name, bare or quoted. -/
def name : Reader String :=
  (do return String.ofList (← span1 isBare)) <|> quoted <|> literal

/-- A path of names, with dots between them. -/
def path : Reader (List String) := do
  let start ← name
  let more ← many do
    blanks
    exactly "."
    blanks
    name
  if more.length < nesting then return start :: more else failure

/-- A key with its value. -/
def pair (value : Reader Item) : Reader (List String × Item) := do
  let key ← path
  blanks
  exactly "="
  blanks
  return (key, ← value)

/-! ## Values -/

/-- A value that holds no others. A number is read as a date or a time first, as a float next. -/
def scalar : Reader Item :=
  (.text <$> string) <|> (.flag <$> flag) <|> (do moment; return .moment) <|>
    (do float; return .float) <|> (.integer <$> integer)

/-- An array; a comma may stand behind its last item. -/
def array (value : Reader Item) : Reader Item := do
  exactly "["
  gap
  let items ← separated value (do gap; exactly ","; gap)
  gap
  let _ ← if items.isEmpty then pure none else optional (exactly ",")
  gap
  exactly "]"
  return .list items

/-- An inline table, on one line. -/
def inlineTable (value : Reader Item) : Reader Item := do
  exactly "\x7b"
  blanks
  let entries ← separated (pair value) (do blanks; exactly ","; blanks)
  blanks
  exactly "\x7d"
  if areApart (entries.map Prod.fst) then return .table entries else failure

/-- A value, in which arrays and tables nest at most `depth` deep. -/
def value : Nat → Reader Item
  | 0 => scalar
  | depth + 1 => scalar <|> array (value depth) <|> inlineTable (value depth)

/-! ## Documents -/

/-- The header of a section. -/
def header : Reader Line := do
  exactly "["
  let isList := (← optional (exactly "[")).isSome
  blanks
  let p ← path
  blanks
  exactly (if isList then "]]" else "]")
  return if isList then .listHeader p else .header p

/-- What may stand on a line, apart from a comment. -/
def content : Reader Line :=
  header <|> (do let (key, v) ← pair (value nesting); return .entry key v)

/-- A line, without its end. -/
def line : Reader (Option Line) := do
  blanks
  let found ← optional content
  blanks
  let _ ← optional comment
  return found

/-- The lines of a document up to its end. -/
def lines : Reader (List Line) := do
  let start ← line
  let more ← many do
    lineEnd
    line
  atEnd
  return (start :: more).filterMap id

end Reader

/-- The lines of a document; a byte order mark in front of it is skipped. -/
def readDocument (source : String) : Option (List Line) :=
  let chars := match source.toList with
    | '\uFEFF' :: rest => rest
    | chars => chars
  (Reader.lines chars).map Prod.fst

end ForeignCall.Settings
