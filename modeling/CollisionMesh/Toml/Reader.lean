import CollisionMesh.Toml

namespace CollisionMesh.Toml

open Number

/-!
# Reading TOML

The grammar of TOML 1.0. A reader takes characters off the front of a text and may
fail; loops are bounded by the length of what is left.

* `Reader` — what reads a part of a text;
* `Reader.key`, `Reader.value` — keys with dots, and values;
* `Reader.statement` — a line of a document;
* `Toml.parse` — a whole document.
-/

/-- What reads a part of a text off its front, or fails. -/
abbrev Reader := StateT (List Char) Option

namespace Reader

/-- The next character, left in place. -/
def peek : Reader (Option Char) := fun s => some (s.head?, s)

/-- The next character. -/
def next : Reader Char
  | [] => none
  | c :: s => some (c, s)

/-- A given text. -/
def literal (text : String) : Reader Unit := fun s =>
  (text.toList.isPrefixOf? s).map fun rest => ((), rest)

/-- The longest stretch of characters that satisfy a test. -/
def takeWhile (p : Char → Bool) : Reader (List Char) := fun s =>
  some (s.takeWhile p, s.dropWhile p)

/-- The number of characters left. -/
def left : Reader Nat := fun s => some (s.length, s)

/-- As many of something as there are, at most a given number. -/
def manyUpTo {β : Type} (r : Reader β) : Nat → Reader (List β)
  | 0 => pure []
  | limit + 1 => do
    match ← optional r with
    | none => return []
    | some b => return b :: (← manyUpTo r limit)

/-- As many of something as there are. -/
def many {β : Type} (r : Reader β) : Reader (List β) := do
  manyUpTo r (← left)

/-- One of the characters that satisfy a test. -/
def one (p : Char → Bool) : Reader Char := do
  let c ← next
  if p c then return c else failure

/-- A given number of something. -/
def times {β : Type} (r : Reader β) : Nat → Reader (List β)
  | 0 => return []
  | n + 1 => return (← r) :: (← times r n)

/-! ### Blanks, comments and line ends -/

/-- Spaces and tabs. -/
def blanks : Reader Unit := do
  let _ ← takeWhile fun c => c == ' ' || c == '\t'

/-- The characters that may stand in comments: all but control characters, tabs
    excepted. -/
def isPlain (c : Char) : Bool :=
  c == '\t' || (0x20 ≤ c.toNat && c.toNat != 0x7F)

/-- A comment up to the end of its line. -/
def comment : Reader Unit := do
  literal "#"
  let _ ← takeWhile isPlain

/-- The end of a line. -/
def newline : Reader Unit :=
  literal "\n" <|> literal "\r\n"

/-- The end of a line or of the document. -/
def lineEnd : Reader Unit := do
  blanks
  let _ ← optional comment
  if (← left) = 0 then return else newline

/-- A space or a tab. -/
def blank : Reader Unit := do
  let _ ← one fun c => c == ' ' || c == '\t'

/-- Blanks, comments and line ends in any number. -/
def filler : Reader Unit := do
  let _ ← many (blank <|> (do let _ ← optional comment; newline))

/-! ### Strings -/

/-- The value of a hexadecimal digit. -/
def hexValue? (c : Char) : Option Nat :=
  if isDigit c then some (digitValue c)
  else if 'a'.toNat ≤ c.toNat ∧ c.toNat ≤ 'f'.toNat then some (c.toNat - 'a'.toNat + 10)
  else if 'A'.toNat ≤ c.toNat ∧ c.toNat ≤ 'F'.toNat then some (c.toNat - 'A'.toNat + 10)
  else none

/-- A character by a number of hexadecimal digits. -/
def codePoint (width : Nat) : Reader Char := do
  let ds ← times (do hexValue? (← next)) width
  let n := ds.foldl (fun n d => 16 * n + d) 0
  if n.isValidChar then return Char.ofNat n else failure

/-- The character that stands behind a backslash. -/
def escaped : Reader Char := do
  match ← next with
  | 'b' => return '\x08'
  | 't' => return '\t'
  | 'n' => return '\n'
  | 'f' => return '\x0c'
  | 'r' => return '\r'
  | '"' => return '"'
  | '\\' => return '\\'
  | 'u' => codePoint 4
  | 'U' => codePoint 8
  | _ => failure

/-- A string between double quotes on one line. -/
def basicString : Reader (List Char) := do
  literal "\""
  let content ← many do
    let c ← one fun c => isPlain c && c != '"'
    if c = '\\' then escaped else return c
  literal "\""
  return content

/-- A string between single quotes on one line, without escapes. -/
def literalString : Reader (List Char) := do
  literal "'"
  let content ← takeWhile fun c => isPlain c && c != '\''
  literal "'"
  return content

/-- One or two quotes inside a string of several lines, where the third is missing. -/
def innerQuotes (quote : Char) : Reader (List Char) := fun s =>
  let quotes := s.takeWhile (· == quote)
  if quotes.length = 1 ∨ quotes.length = 2 then some (quotes, s.dropWhile (· == quote)) else none

/-- The three quotes at the end of a string of several lines, and up to two before
    them that belong to the string. -/
def closingQuotes (quote : Char) : Reader (List Char) := fun s =>
  let quotes := s.takeWhile (· == quote)
  if 3 ≤ quotes.length ∧ quotes.length ≤ 5 then some (quotes.drop 3, s.dropWhile (· == quote))
  else none

/-- A backslash at the end of a line with the blanks and line ends after it. -/
def continuation : Reader (List Char) := do
  literal "\\"
  blanks
  newline
  let _ ← many (blank <|> newline)
  return []

/-- A string of several lines; a line end right after the opening quotes does not
    count, and every other one is a line feed. -/
def longString (quote : Char) (piece : Reader (List Char)) : Reader (List Char) := do
  literal (String.ofList [quote, quote, quote])
  let _ ← optional newline
  let content ← many ((do newline; return ['\n']) <|> piece <|> innerQuotes quote)
  return content.flatten ++ (← closingQuotes quote)

/-- A string of several lines between double quotes. -/
def longBasicString : Reader (List Char) :=
  longString '"' (continuation <|> do
    let c ← one fun c => isPlain c && c != '"'
    if c = '\\' then return [← escaped] else return [c])

/-- A string of several lines between single quotes. -/
def longLiteralString : Reader (List Char) :=
  longString '\'' do return [← one fun c => isPlain c && c != '\'']

/-! ### Numbers and moments -/

/-- Digits with single underscores between them. -/
def digitGroups (p : Char → Bool) : Reader (List Char) := do
  let first ← one p
  let rest ← many (one p <|> do literal "_"; one p)
  return first :: rest

/-- An optional sign. -/
def signChar : Reader (List Char) :=
  return (← optional (one fun c => c == '+' || c == '-')).toList

/-- A decimal integer without a superfluous zero at its front. -/
def wholeDigits : Reader (List Char) := do
  match ← peek with
  | some '0' => return [← next]
  | _ => digitGroups isDigit

/-- The greatest magnitude of a negative integer. -/
def integerBound : Nat := 9223372036854775808

/-- A decimal integer. -/
def decimalInteger : Reader Toml := do
  let sign ← signChar
  let n := digitsValue (← wholeDigits)
  if sign = ['-'] then
    if n ≤ integerBound then return .integer (-n) else failure
  else if n < integerBound then return .integer n else failure

/-- An integer in another base. -/
def basedInteger (mark : String) (base : Nat) : Reader Toml := do
  literal mark
  let ds ← digitGroups fun c => (hexValue? c).any (· < base)
  let n := ds.foldl (fun n d => base * n + (hexValue? d).getD 0) 0
  if n < integerBound then return .integer n else failure

/-- The part of a number behind the point. -/
def fractionPart : Reader (List Char) := do
  literal "."
  return '.' :: (← digitGroups isDigit)

/-- The exponent of a number. -/
def exponentPart : Reader (List Char) := do
  let _ ← one fun c => c == 'e' || c == 'E'
  let sign ← signChar
  return 'e' :: sign ++ (← digitGroups isDigit)

/-- A number with a fraction or an exponent. It must not be too large. -/
def plainFloat : Reader Toml := do
  let sign ← signChar
  let whole ← wholeDigits
  let rest ← (do
    let fraction ← fractionPart
    return fraction ++ ((← optional exponentPart).getD [])) <|> exponentPart
  let x ← real? (sign ++ whole ++ rest)
  if !isFinite x && sign != ['-'] then failure else return .float x

/-- Infinity, and what is not a number. -/
def specialFloat : Reader Toml := do
  let sign ← signChar
  let word ← (do literal "inf"; return "inf".toList) <|> (do literal "nan"; return "nan".toList)
  return .float (← real? (sign ++ word))

/-- A number of exactly so many digits. -/
def fixedDigits (width : Nat) : Reader Nat := do
  return digitsValue (← times (one isDigit) width)

/-- The days of a month. -/
def monthDays (year month : Nat) : Nat :=
  if month = 2 then
    if year % 4 = 0 ∧ (year % 100 ≠ 0 ∨ year % 400 = 0) then 29 else 28
  else if month = 4 ∨ month = 6 ∨ month = 9 ∨ month = 11 then 30
  else 31

/-- A date. -/
def date : Reader Unit := do
  let year ← fixedDigits 4
  literal "-"
  let month ← fixedDigits 2
  literal "-"
  let day ← fixedDigits 2
  if 1 ≤ month ∧ month ≤ 12 ∧ 1 ≤ day ∧ day ≤ monthDays year month then return else failure

/-- A time of the day; a minute may have a leap second. -/
def time : Reader Unit := do
  let hour ← fixedDigits 2
  literal ":"
  let minute ← fixedDigits 2
  literal ":"
  let second ← fixedDigits 2
  let _ ← optional do
    literal "."
    let _ ← one isDigit
    takeWhile isDigit
  if hour ≤ 23 ∧ minute ≤ 59 ∧ second ≤ 60 then return else failure

/-- The distance of a time zone. -/
def zone : Reader Unit :=
  literal "Z" <|> literal "z" <|> do
    let _ ← one fun c => c == '+' || c == '-'
    let hour ← fixedDigits 2
    literal ":"
    let minute ← fixedDigits 2
    if hour ≤ 23 ∧ minute ≤ 59 then return else failure

/-- A date with or without a time, or a time. -/
def moment : Reader Toml := do
  (do
    date
    let _ ← optional do
      let _ ← one fun c => c == 'T' || c == 't' || c == ' '
      time
      optional zone) <|> time
  return .moment

/-! ### Keys and values -/

/-- Arrays and tables nest less deep than this, and keys have fewer parts. -/
def depthLimit : Nat := 80

/-- A part of a key: bare or between quotes. -/
def keyPart : Reader String := do
  let part ← basicString <|> literalString <|> (do
    let isBare (c : Char) := isDigit c || c.isAlpha || c == '_' || c == '-'
    let first ← one isBare
    return first :: (← takeWhile isBare))
  return String.ofList part

/-- The parts of a key with dots: those before the last, and the last. -/
def key : Reader (List String × String) := do
  blanks
  let first ← keyPart
  blanks
  let rest ← many do
    literal "."
    blanks
    let part ← keyPart
    blanks
    return part
  let parts := first :: rest
  if parts.length < depthLimit then return (parts.dropLast, rest.getLastD first) else failure

/-- Values that hold no other values. -/
def scalar : Reader Toml := do
  match ← peek with
  | some '"' => return .text (String.ofList (← longBasicString <|> basicString))
  | some '\'' => return .text (String.ofList (← longLiteralString <|> literalString))
  | some 't' => do literal "true"; return .boolean true
  | some 'f' => do literal "false"; return .boolean false
  | some c =>
    if c == 'i' || c == 'n' then specialFloat
    else
      moment <|> plainFloat <|> specialFloat <|> basedInteger "0x" 16 <|> basedInteger "0o" 8
        <|> basedInteger "0b" 2 <|> decimalInteger
  | none => failure

/-- Some things with commas between them. -/
def commaList {β : Type} (element : Reader β) : Reader (List β) := do
  match ← optional element with
  | none => return []
  | some first => return first :: (← many do literal ","; element)

/-- An array of values; a comma may follow the last. -/
def array (element : Reader Toml) : Reader Toml := do
  literal "["
  let elements ← commaList do
    filler
    let v ← element
    filler
    return v
  if !elements.isEmpty then
    let _ ← optional (literal ",")
  filler
  literal "]"
  return .array elements

/-- A key with its value. -/
def pair (element : Reader Toml) : Reader ((List String × String) × Toml) := do
  let k ← key
  literal "="
  blanks
  return (k, ← element)

/-- A table between braces, on one line. -/
def inlineTable (element : Reader Toml) : Reader Toml := do
  literal "\x7b"
  blanks
  let pairs ← commaList do
    let p ← pair element
    blanks
    return p
  literal "\x7d"
  let entries ← pairs.foldlM (fun entries p => Entries.define p.1.2 p.2 p.1.1 entries) []
  return .table .inline entries

/-- A value in which arrays and tables nest at most so deep. -/
def value : Nat → Reader Toml
  | 0 => scalar
  | depth + 1 => do
    match ← peek with
    | some '[' => array (value depth)
    | some '\x7b' => inlineTable (value depth)
    | _ => scalar

/-! ### Documents -/

/-- A document part way through: its entries, and the table that the last header
    named. -/
structure Draft where
  entries : Entries
  current : List String

/-- A header in double brackets. -/
def elementHeader (d : Draft) : Reader Draft := do
  literal "[["
  let (path, name) ← key
  literal "]]"
  let entries ← d.entries.within (Entries.openElement name) path
  return ⟨entries, path ++ [name]⟩

/-- A header in single brackets. -/
def tableHeader (d : Draft) : Reader Draft := do
  literal "["
  let (path, name) ← key
  literal "]"
  let entries ← d.entries.within (Entries.openTable name) path
  return ⟨entries, path ++ [name]⟩

/-- A key with its value in the current table. -/
def definition (d : Draft) : Reader Draft := do
  let ((path, name), v) ← pair (value (depthLimit - 1))
  let entries ← d.entries.within (Entries.define name v path) d.current
  return { d with entries }

/-- A line of a document, which may be empty. -/
def statement (d : Draft) : Reader Draft := do
  blanks
  let d ← match ← peek with
    | some '[' => elementHeader d <|> tableHeader d
    | some '#' | some '\n' | some '\r' | none => pure d
    | some _ => definition d
  lineEnd
  return d

/-- Lines up to the end of the document, at most so many. -/
def statements : Nat → Draft → Reader Draft
  | 0, d => return d
  | limit + 1, d => do
    if (← left) = 0 then return d
    statements limit (← statement d)

end Reader

/-- The entries of a document, if it is one. A byte order mark at its front is
    skipped. -/
def parse (text : String) : Option Entries :=
  let chars := match text.toList with
    | '\ufeff' :: rest => rest
    | chars => chars
  match Reader.statements chars.length ⟨[], []⟩ chars with
  | some (d, []) => some d.entries
  | _ => none

end CollisionMesh.Toml
