import ForeignCall.Platform
import ForeignCall.Settings.Reader

/-!
# Literals of settings documents

The values of a TOML document that hold no others: strings in their four forms, integers in their
four bases, floats, dates and times, and truth values. No setting is a float, a date or a time, so
of these only the form is read.
-/

namespace ForeignCall.Settings.Reader

/-! ## Strings -/

/-- The digit that a character stands for in a base of at most 16. -/
def digit? (base : Nat) (c : Char) : Option Nat :=
  let n :=
    if '0' ≤ c && c ≤ '9' then c.toNat - 48
    else if 'a' ≤ c && c ≤ 'f' then c.toNat - 87
    else if 'A' ≤ c && c ≤ 'F' then c.toNat - 55
    else base
  if n < base then some n else none

/-- The number of digits in a base. -/
def toNumber (base : Nat) (digits : List Char) : Nat :=
  digits.foldl (fun n c => n * base + (digit? base c).getD 0) 0

/-- A character by the given number of hexadecimal digits of its code point. -/
def codePoint (width : Nat) : Reader Char := fun s =>
  let digits := s.take width
  let code := toNumber 16 digits
  if digits.length = width ∧ (digits.all fun c => (digit? 16 c).isSome) ∧ code.isValidChar then
    some (Char.ofNat code, s.drop width)
  else none

/-- The rest of an escape, behind its backslash. -/
def escape : Reader Char := do
  match ← one fun _ => true with
  | 'b' => return '\x08'
  | 't' => return '\t'
  | 'n' => return '\n'
  | 'f' => return '\x0c'
  | 'r' => return '\r'
  | '"' => return '"'
  | '\\' => return '\\'
  | 'u' => codePoint 4
  | 'U' => codePoint 8
  | _ => failure

/-- A character of a string in double quotes. -/
def quotedChar : Reader Char := do
  match ← one fun c => isPlain c && c != '"' with
  | '\\' => escape
  | c => return c

/-- A string in double quotes. -/
def quoted : Reader String := do
  exactly "\""
  let chars ← many quotedChar
  exactly "\""
  return String.ofList chars

/-- A string in single quotes, in which nothing is escaped. -/
def literal : Reader String := do
  exactly "'"
  let chars ← span fun c => isPlain c && c != '\''
  exactly "'"
  return String.ofList chars

/-- A backslash at the end of a line, with all blanks and line ends behind it. -/
def continuation : Reader Unit := do
  exactly "\\"
  blanks
  lineEnd
  let _ ← many (lineEnd <|> do let _ ← span1 fun c => c == ' ' || c == '\t')

/-- What stands for itself in a string over several lines: a character, or the end of a line. -/
def longPlain (delimiter : Char) : Reader (List Char) :=
  (do lineEnd; return ['\n']) <|>
  (do return [← one fun c => isPlain c && c != delimiter && (delimiter != '"' || c != '\\')])

/-- One or two delimiters that do not end a string over several lines. -/
def innerQuotes (delimiter : Char) : Reader (List Char) := fun s =>
  let run := s.takeWhile (· == delimiter)
  if 1 ≤ run.length ∧ run.length ≤ 2 then some (run, s.drop run.length) else none

/-- The end of a string over several lines: three delimiters, with up to two more before them. -/
def longEnd (delimiter : Char) : Reader (List Char) := fun s =>
  let run := s.takeWhile (· == delimiter)
  if 3 ≤ run.length then
    let inner := Nat.min (run.length - 3) 2
    some (run.take inner, s.drop (inner + 3))
  else none

/-- A string over several lines; a line end right behind the opening is no part of it. -/
def long (delimiter : Char) (part : Reader (List Char)) : Reader String := do
  exactly (String.ofList (List.replicate 3 delimiter))
  let _ ← optional lineEnd
  let parts ← many (part <|> innerQuotes delimiter)
  let last ← longEnd delimiter
  return String.ofList (parts.flatten ++ last)

/-- A string over several lines in double quotes. -/
def longQuoted : Reader String :=
  long '"' ((do continuation; return []) <|> longPlain '"' <|>
    (do exactly "\\"; return [← escape]))

/-- A string over several lines in single quotes. -/
def longLiteral : Reader String := long '\'' (longPlain '\'')

/-- A string of any of the four forms. -/
def string : Reader String := longQuoted <|> longLiteral <|> quoted <|> literal

/-! ## Integers -/

/-- The sign in front of a number, if there is one: whether it is a minus. -/
def sign : Reader Bool := do
  return (← optional (one fun c => c == '+' || c == '-')) == some '-'

/-- Digits of a base, single underscores between them left out. -/
def digits (base : Nat) : Reader (List Char) := do
  let isDigit (c : Char) : Bool := (digit? base c).isSome
  let start ← span1 isDigit
  let more ← many do
    exactly "_"
    span1 isDigit
  return start ++ more.flatten

/-- A number in a base of its own, without a sign. -/
def based (mark : String) (base : Nat) : Reader Int := do
  exactly mark
  return (toNumber base (← digits base) : Nat)

/-- Decimal digits with no zero in front. -/
def plainDigits : Reader (List Char) := do
  let ds ← digits 10
  if ds.head? = some '0' ∧ ds.length ≠ 1 then failure
  return ds

/-- A decimal number with an optional sign. -/
def decimal : Reader Int := do
  let isNegative ← sign
  let n : Int := (toNumber 10 (← plainDigits) : Nat)
  return if isNegative then -n else n

/-- An integer of 64 bits. -/
def integer : Reader Int := do
  let i ← based "0x" 16 <|> based "0o" 8 <|> based "0b" 2 <|> decimal
  if -(signedLimit : Int) ≤ i ∧ i < signedLimit then return i else failure

/-! ## Floats -/

/-- The least number that is nearer to 2^1024 than to any double below it. -/
def floatLimit : Nat := (1 <<< 1024) - (1 <<< 970)

/-- Whether `m * 10^e` rounds to infinity, where `m` is written with the given digits. -/
def isInfinite (digits : List Char) (e : Int) : Bool :=
  let digits := digits.dropWhile (· == '0')
  let scale := digits.length + e
  if digits.isEmpty ∨ scale ≤ 308 then false
  else if 310 < scale then true
  else
    let m := toNumber 10 digits
    floatLimit * Nat.pow 10 (-e).toNat ≤ m * Nat.pow 10 e.toNat

/-- The part of a number behind its point. -/
def fraction : Reader (List Char) := do
  exactly "."
  digits 10

/-- The power of ten behind a number. -/
def exponent : Reader Int := do
  let _ ← one fun c => c == 'e' || c == 'E'
  let isNegative ← sign
  let n : Int := (toNumber 10 (← digits 10) : Nat)
  return if isNegative then -n else n

/-- A float with a fraction, an exponent or both; one that rounds to positive infinity is refused.
-/
def pointed : Reader Unit := do
  let isNegative ← sign
  let whole ← plainDigits
  let part ← optional fraction
  let e ← if part.isSome then (·.getD 0) <$> optional exponent else exponent
  let part := part.getD []
  if !isNegative && isInfinite (whole ++ part) (e - part.length) then failure

/-- A float. -/
def float : Reader Unit :=
  pointed <|> (do let _ ← sign; exactly "inf" <|> exactly "nan")

/-! ## Dates and times -/

/-- A number of the given count of digits, within bounds. -/
def field (width low high : Nat) : Reader Nat := fun s =>
  let ds := s.take width
  let n := toNumber 10 ds
  if ds.length = width ∧ (ds.all fun c => (digit? 10 c).isSome) ∧ low ≤ n ∧ n ≤ high then
    some (n, s.drop width)
  else none

/-- How many days a month of a year has. -/
def daysOf (year month : Nat) : Nat :=
  if month = 2 then
    if year % 4 = 0 ∧ (year % 100 ≠ 0 ∨ year % 400 = 0) then 29 else 28
  else if month = 4 ∨ month = 6 ∨ month = 9 ∨ month = 11 then 30
  else 31

/-- A day of the calendar. -/
def date : Reader Unit := do
  let year ← field 4 0 9999
  exactly "-"
  let month ← field 2 1 12
  exactly "-"
  let _ ← field 2 1 (daysOf year month)

/-- A time of the day; its seconds may be those of a leap second, and have a fraction. -/
def time : Reader Unit := do
  let _ ← field 2 0 23
  exactly ":"
  let _ ← field 2 0 59
  exactly ":"
  let _ ← field 2 0 60
  let _ ← optional do
    exactly "."
    span1 fun c => (digit? 10 c).isSome

/-- How far a time is from that of Greenwich. -/
def zone : Reader Unit :=
  (do let _ ← one fun c => c == 'Z' || c == 'z') <|> do
    let _ ← one fun c => c == '+' || c == '-'
    let _ ← field 2 0 23
    exactly ":"
    let _ ← field 2 0 59

/-- A date, a time, or a date with a time, which may have a zone. -/
def moment : Reader Unit :=
  (do
    date
    let _ ← optional do
      let _ ← one fun c => c == 'T' || c == 't' || c == ' '
      time
      optional zone) <|> time

/-! ## Truth values -/

/-- A truth value. -/
def flag : Reader Bool :=
  (do exactly "true"; return true) <|> (do exactly "false"; return false)

end ForeignCall.Settings.Reader
