/-!
# Readers

A `Reader` takes characters from the front of a text, and answers nothing when they are not what it
reads. Here are the readers that others are made of: one character, a run of them, a given text, a
choice, a repetition; and those for what has no meaning in a settings document, its blanks and
comments.
-/

namespace ForeignCall.Settings

/-- What takes a part from the front of a text. -/
abbrev Reader (α : Type) : Type := StateT (List Char) Option α

namespace Reader

/-! ## General readers -/

/-- One character of a class. -/
def one (p : Char → Bool) : Reader Char := fun
  | c :: rest => if p c then some (c, rest) else none
  | [] => none

/-- The characters of a class, as many as there are. -/
def span (p : Char → Bool) : Reader (List Char) := fun s =>
  some (s.takeWhile p, s.dropWhile p)

/-- The characters of a class, at least one. -/
def span1 (p : Char → Bool) : Reader (List Char) := do
  let c ← one p
  let rest ← span p
  return c :: rest

/-- The given characters. -/
def exactly (expected : String) : Reader Unit := fun s =>
  if expected.toList.isPrefixOf s then some ((), s.drop expected.length) else none

/-- A reader if it succeeds, and nothing taken otherwise. -/
def optional {α : Type} (r : Reader α) : Reader (Option α) := fun s =>
  match r s with
  | some (a, rest) => some (some a, rest)
  | none => some (none, s)

/-- A reader again and again, at most `fuel` times, until it fails. -/
def manyWithin {α : Type} (r : Reader α) : Nat → Reader (List α)
  | 0 => pure []
  | fuel + 1 => fun s =>
    match r s with
    | some (a, rest) => (manyWithin r fuel rest).map fun (as, rest) => (a :: as, rest)
    | none => some ([], s)

/-- A reader that takes something each time, again and again until it fails. -/
def many {α : Type} (r : Reader α) : Reader (List α) := fun s =>
  match r s with
  | some (a, rest) => (manyWithin r rest.length rest).map fun (as, rest) => (a :: as, rest)
  | none => some ([], s)

/-- Items with a separator between them. -/
def separated {α : Type} (item : Reader α) (separator : Reader Unit) : Reader (List α) := do
  match ← optional item with
  | none => return []
  | some start => return start :: (← many do separator; item)

/-- The end of the text. -/
def atEnd : Reader Unit := fun s => if s.isEmpty then some ((), s) else none

/-! ## Blanks and comments -/

/-- Spaces and tabs. -/
def blanks : Reader Unit := do
  let _ ← span fun c => c == ' ' || c == '\t'

/-- The end of a line. -/
def lineEnd : Reader Unit := exactly "\n" <|> exactly "\r\n"

/-- Whether a character may stand in a comment or, quotes and backslashes apart, in a string. -/
def isPlain (c : Char) : Bool := c == '\t' || (' ' ≤ c && c != '\x7f')

/-- A comment, without the end of its line. -/
def comment : Reader Unit := do
  exactly "#"
  let _ ← span isPlain

/-- Blanks, line ends and comments, as they may stand between the items of an array. -/
def gap : Reader Unit := do
  blanks
  let _ ← many do
    let _ ← optional comment
    lineEnd
    blanks

end Reader

end ForeignCall.Settings
