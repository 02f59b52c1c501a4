namespace CollisionMesh.Text

/-!
# Lines and words

A document is read in lines and a line in words.

* `isBlank` — the characters that Unicode's property White_Space holds of;
* `split` — the pieces of a text between the characters that satisfy a test;
* `words` — the maximal stretches of a text without a blank;
* `trim` — a text without the blanks at its two ends;
* `lines` — the lines of a document, ended by a line feed or by a carriage
  return and a line feed.

All of them work on lists of characters; `String` versions stand beside those
that the rest of the library calls on whole lines.
-/

/-- The characters with Unicode's property White_Space. -/
def isBlank (c : Char) : Bool :=
  let n := c.toNat
  (0x09 ≤ n && n ≤ 0x0D) || n == 0x20 || n == 0x85 || n == 0xA0 || n == 0x1680
    || (0x2000 ≤ n && n ≤ 0x200A) || n == 0x2028 || n == 0x2029 || n == 0x202F
    || n == 0x205F || n == 0x3000

/-- The pieces between the characters that satisfy `isCut`, in order; always at
    least one, and empty ones included. -/
def split (isCut : Char → Bool) (text : List Char) : List (List Char) :=
  text.foldr
    (fun c pieces =>
      if isCut c then [] :: pieces
      else match pieces with
        | [] => [[c]]
        | piece :: rest => (c :: piece) :: rest)
    [[]]

/-- The maximal stretches of characters that are not blank, in order. -/
def words (text : List Char) : List (List Char) :=
  (split isBlank text).filter (fun word => !word.isEmpty)

/-- The text without the blanks at its start and at its end. -/
def trimmed (text : List Char) : List Char :=
  ((text.dropWhile isBlank).reverse.dropWhile isBlank).reverse

/-- `trimmed` on strings. -/
def trim (text : String) : String :=
  String.ofList (trimmed text.toList)

/-- A line without one carriage return at its end. -/
def dropReturn (line : List Char) : List Char :=
  if line.getLast? = some '\r' then line.dropLast else line

/-- The lines of a document. A line ends with a line feed, which takes a
    carriage return right before it along; what follows the last line feed is a
    line of its own unless it is empty, and keeps a carriage return. -/
def lineChars (text : List Char) : List (List Char) :=
  let pieces := split (· == '\n') text
  let ended := pieces.dropLast.map dropReturn
  match pieces.getLast? with
  | some [] | none => ended
  | some rest => ended ++ [rest]

/-- `lineChars` on strings. -/
def lines (text : String) : List String :=
  (lineChars text.toList).map String.ofList

/-- The words with one space between neighbours. -/
def joinWords (ws : List (List Char)) : String :=
  String.intercalate " " (ws.map String.ofList)

end CollisionMesh.Text
