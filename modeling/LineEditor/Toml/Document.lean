import LineEditor.Toml.Moment
import LineEditor.Toml.Quoted
import LineEditor.Toml.Table

/-!
# Documents

A document is a list of statements, one on a line: an entry under a key, or a header, to whose table
the entries after it belong. `parse?` reads a document into the entries of its outermost table, or
gives nothing when it is malformed or defines something twice.

Arrays and tables in braces may go over several lines, and nest at most `maxDepth` deep. A dotted
key has at most `maxParts` parts.
-/

namespace LineEditor.Toml

/-- The deepest nesting of arrays and of tables in braces. -/
def maxDepth : Nat := 80

/-- The greatest number of parts of a dotted key. -/
def maxParts : Nat := 80

/-! ### Between the values -/

/-- What follows the blanks that a text begins with. -/
def skipBlanks (s : List Char) : List Char := s.dropWhile fun c => c = ' ' || c = '\t'

/-- What follows the blanks, comments and line breaks that a text begins with; a comment must not
hold control codes. The flag tells whether a comment is open. -/
def skipTrivia : Bool → List Char → Option (List Char)
  | false, '#' :: rest => skipTrivia true rest
  | false, ' ' :: rest | false, '\t' :: rest => skipTrivia false rest
  | _, '\n' :: rest => skipTrivia false rest
  | _, '\r' :: '\n' :: rest => skipTrivia false rest
  | false, s => some s
  | true, [] => some []
  | true, c :: rest => if isContent c then skipTrivia true rest else none

/-- Whether a line may end here. -/
def endsLine : List Char → Bool
  | [] | '\n' :: _ | '\r' :: '\n' :: _ | '#' :: _ => true
  | _ => false

/-! ### Keys -/

/-- A character of a key without quotes. -/
def isBareKeyChar (c : Char) : Bool := c.isAlphanum || c = '_' || c = '-'

/-- The key that a text begins with; and what follows. -/
def simpleKey? (s : List Char) : Option (Key × List Char) :=
  match s with
  | '"' :: rest => basic rest
  | '\'' :: rest => literal rest
  | s =>
    let key := s.takeWhile isBareKeyChar
    if key.isEmpty then none else some (key, s.dropWhile isBareKeyChar)

/-- The dotted key of at most so many parts that a text begins with, as its path and its last part;
and what follows the blanks after it. -/
def keyOf? : Nat → List Char → Option (List Key × Key × List Char)
  | 0, _ => none
  | parts + 1, s => do
    let (key, rest) ← simpleKey? s
    match skipBlanks rest with
    | '.' :: rest =>
      let (path, last, rest) ← keyOf? parts (skipBlanks rest)
      some (key :: path, last, rest)
    | rest => some ([], key, rest)

/-- The dotted key that a text begins with, as its path and its last part; and what follows the
blanks after it. -/
def dottedKey? (s : List Char) : Option (List Key × Key × List Char) := keyOf? maxParts s

/-! ### Values -/

/-- A character that may stand in a value without quotes: any but blanks, line breaks, and the marks
that end a value. -/
def isScalarChar (c : Char) : Bool := !" \t\r\n=,[]\x7b\x7d#".toList.contains c

/-- The value that a text without quotes writes. -/
def scalar? (s : List Char) : Option Value :=
  if s = "true".toList then some (.boolean true)
  else if s = "false".toList then some (.boolean false)
  else if isInteger s then some ((integer? s).elim .noInteger .integer)
  else (real? s).map .real <|> (moment? s).map .moment

/-- Whether a text is a day. -/
def isDate (s : List Char) : Bool := (date? s).any fun (_, rest) => rest.isEmpty

/-- The value without quotes that a text begins with; and what follows. A space may stand between a
day and a time. -/
def leadingScalar? (s : List Char) : Option (Value × List Char) :=
  let first := s.takeWhile isScalarChar
  let rest := s.dropWhile isScalarChar
  let onlyFirst := (scalar? first).map (·, rest)
  match rest with
  | ' ' :: c :: more =>
    if isDate first && c.isDigit then
      (moment? (first ++ ' ' :: (c :: more).takeWhile isScalarChar)).map
        (.moment ·, (c :: more).dropWhile isScalarChar)
    else onlyFirst
  | _ => onlyFirst

mutual

/-- The value that a text begins with; and what follows. -/
def value? : Nat → Nat → List Char → Option (Value × List Char)
  | 0, _, _ => none
  | _ + 1, _, '"' :: rest => (quoted? ('"' :: rest)).map fun (s, rest) => (.text s, rest)
  | _ + 1, _, '\'' :: rest => (quoted? ('\'' :: rest)).map fun (s, rest) => (.text s, rest)
  | _ + 1, 0, '[' :: _ | _ + 1, 0, '{' :: _ => none
  | fuel + 1, depth + 1, '[' :: rest => do items? fuel depth [] (← skipTrivia false rest)
  | fuel + 1, depth + 1, '{' :: rest => do fields? fuel depth [] (← skipTrivia false rest)
  | _ + 1, _, s => leadingScalar? s

/-- The rest of an array, whose items so far are given; and what follows. -/
def items? : Nat → Nat → List Value → List Char → Option (Value × List Char)
  | 0, _, _, _ => none
  | _ + 1, _, items, ']' :: rest => some (.array items, rest)
  | fuel + 1, depth, items, s => do
    let (item, rest) ← value? fuel depth s
    match ← skipTrivia false rest with
    | ',' :: rest => items? fuel depth (items ++ [item]) (← skipTrivia false rest)
    | ']' :: rest => some (.array (items ++ [item]), rest)
    | _ => none

/-- The rest of a table in braces, whose entries so far are given; and what follows. -/
def fields? : Nat → Nat → Entries → List Char → Option (Value × List Char)
  | 0, _, _, _ => none
  | _ + 1, _, entries, '}' :: rest => some (.table .inlined entries, rest)
  | fuel + 1, depth, entries, s => do
    let (path, key, rest) ← dottedKey? s
    let rest ← after? '=' (← skipTrivia false rest)
    let (value, rest) ← value? fuel depth (← skipTrivia false rest)
    let entries ← entries.insertDotted key value path
    match ← skipTrivia false rest with
    | ',' :: rest => fields? fuel depth entries (← skipTrivia false rest)
    | '}' :: rest => some (.table .inlined entries, rest)
    | _ => none

end

/-! ### Statements -/

/-- A statement of a document. -/
inductive Statement where
  /-- An entry under a dotted key. -/
  | entry (path : List Key) (key : Key) (value : Value)
  /-- The header of a table. -/
  | header (path : List Key) (key : Key)
  /-- The header of a table that is added to an array. -/
  | item (path : List Key) (key : Key)

/-- The statement that a text begins with; and what follows. -/
def statement? (s : List Char) : Option (Statement × List Char) :=
  match s with
  | '[' :: '[' :: rest => do
    let (path, key, rest) ← dottedKey? (skipBlanks rest)
    let rest ← after? ']' (← after? ']' rest)
    some (.item path key, rest)
  | '[' :: rest => do
    let (path, key, rest) ← dottedKey? (skipBlanks rest)
    let rest ← after? ']' rest
    some (.header path key, rest)
  | s => do
    let (path, key, rest) ← dottedKey? s
    let rest := skipBlanks (← after? '=' rest)
    let (value, rest) ← value? (2 * rest.length + 2) maxDepth rest
    some (.entry path key value, rest)

/-- The statements of a text. -/
def statements? : Nat → List Char → Option (List Statement)
  | 0, _ => none
  | fuel + 1, s => do
    match ← skipTrivia false s with
    | [] => some []
    | s =>
      let (statement, rest) ← statement? s
      let rest := skipBlanks rest
      if endsLine rest then some (statement :: (← statements? fuel rest)) else none

/-- Carries out the statements, in the table of the last header. -/
def build? : List Key → Entries → List Statement → Option Entries
  | _, root, [] => some root
  | here, root, .entry path key value :: rest => do
    build? here (← root.changeUnder (Entries.insertDotted key value path) here) rest
  | _, root, .header path key :: rest => do
    build? (path ++ [key]) (← root.changeUnder (Entries.defineTable key) path) rest
  | _, root, .item path key :: rest => do
    build? (path ++ [key]) (← root.changeUnder (Entries.addTable key) path) rest

/-- The entries of a document; a mark of the byte order at its beginning does not count. -/
def parse? (s : List Char) : Option Entries :=
  let s := match s with
    | '\uFEFF' :: rest => rest
    | s => s
  (statements? (s.length + 1) s).bind (build? [] [])

end LineEditor.Toml
