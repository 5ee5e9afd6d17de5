import LineEditor.Toml.Number

/-!
# Quoted texts

A text is written between quote marks, on one line between single marks and on several between
triple ones. Between double quote marks a backslash begins an escape; between single quote marks
every character stands for itself. A text of several lines may begin with a line break, which does
not count, and may end in one or two quote marks of its own. In it a backslash at the end of a line
swallows the line break and all blank space after it.

Each reader takes the text that follows the opening mark, and gives what is written and what follows
the closing mark.
-/

namespace LineEditor.Toml

/-- A character that may stand in a text or a comment: no control code but the tab. -/
def isContent (c : Char) : Bool := c = '\t' || (' ' ≤ c && c ≠ '\x7F')

/-! ### Escapes -/

/-- The character that a letter after a backslash stands for. -/
def letterEscape? : Char → Option Char
  | 'b' => some '\x08'
  | 't' => some '\t'
  | 'n' => some '\n'
  | 'f' => some '\x0C'
  | 'r' => some '\r'
  | 'e' => some '\x1B'
  | '"' => some '"'
  | '\\' => some '\\'
  | _ => none

/-- The number of hexadecimal digits that a letter after a backslash asks for. -/
def codeLength? : Char → Option Nat
  | 'x' => some 2
  | 'u' => some 4
  | 'U' => some 8
  | _ => none

/-- The character of a code point, if it is one. -/
def ofCode? (n : Nat) : Option Char := if n.isValidChar then some (Char.ofNat n) else none

/-- What an escape stands for, from the text after its backslash; and what follows. -/
def escape? : List Char → Option (Char × List Char)
  | [] => none
  | c :: rest =>
    match codeLength? c with
    | some length =>
      if length ≤ rest.length ∧ (rest.take length).all isHexDigit then
        (ofCode? (ofDigits 16 (rest.take length))).map (·, rest.drop length)
      else none
    | none => (letterEscape? c).map (·, rest)

theorem length_lt_of_escape {s rest : List Char} {c : Char} (h : escape? s = some (c, rest)) :
    rest.length < s.length := by
  unfold escape? at h
  split at h
  · simp at h
  · split at h
    · split at h
      · obtain ⟨_, _, heq⟩ := Option.map_eq_some_iff.1 h
        obtain ⟨-, rfl⟩ := Prod.mk.inj heq
        simp only [List.length_drop, List.length_cons]
        omega
      · simp at h
    · obtain ⟨_, _, heq⟩ := Option.map_eq_some_iff.1 h
      obtain ⟨-, rfl⟩ := Prod.mk.inj heq
      simp

/-! ### Line breaks -/

/-- What follows the line break that a text begins with. -/
def lineBreak? : List Char → Option (List Char)
  | '\n' :: rest => some rest
  | '\r' :: '\n' :: rest => some rest
  | _ => none

/-- What follows the blank space and the line breaks that a text begins with. -/
def skipSpace : List Char → List Char
  | ' ' :: rest | '\t' :: rest | '\n' :: rest => skipSpace rest
  | '\r' :: '\n' :: rest => skipSpace rest
  | s => s

theorem length_skipSpace_le (s : List Char) : (skipSpace s).length ≤ s.length := by
  fun_induction skipSpace s <;> simp_all <;> omega

/-- What follows a backslash that ends its line: everything from the next character that is neither
blank nor a line break. -/
def continued? (s : List Char) : Option (List Char) :=
  (lineBreak? (s.dropWhile fun c => c = ' ' || c = '\t')).map skipSpace

theorem length_le_of_continued {s rest : List Char} (h : continued? s = some rest) :
    rest.length ≤ s.length := by
  obtain ⟨t, ht, rfl⟩ := Option.map_eq_some_iff.1 h
  refine Nat.le_trans (length_skipSpace_le t) ?_
  have hdrop := (List.dropWhile_suffix (l := s) fun c => c = ' ' || c = '\t').length_le
  unfold lineBreak? at ht
  split at ht
  · rename_i heq
    obtain rfl := by simpa using ht
    rw [heq] at hdrop
    simp only [List.length_cons] at hdrop
    omega
  · rename_i heq
    obtain rfl := by simpa using ht
    rw [heq] at hdrop
    simp only [List.length_cons] at hdrop
    omega
  · simp at ht

/-! ### Readers -/

/-- Puts a character in front of what a reader gives. -/
def consText (c : Char) : Option (List Char × List Char) → Option (List Char × List Char)
  | some (text, rest) => some (c :: text, rest)
  | none => none

/-- A text between double quote marks. -/
def basic : List Char → Option (List Char × List Char)
  | [] => none
  | '"' :: rest => some ([], rest)
  | '\\' :: rest =>
    match _h : escape? rest with
    | none => none
    | some (c, after) => consText c (basic after)
  | c :: rest => if isContent c then consText c (basic rest) else none
termination_by s => s.length
decreasing_by
  · have := length_lt_of_escape _h
    simp only [List.length_cons]
    omega
  · simp

/-- A text between single quote marks. -/
def literal : List Char → Option (List Char × List Char)
  | [] => none
  | '\'' :: rest => some ([], rest)
  | c :: rest => if isContent c then consText c (literal rest) else none

/-- What closes a text of several lines, after its three marks: up to two more of them belong to the
text. -/
def closing (mark : Char) (rest : List Char) : List Char × List Char :=
  let more := (rest.take 2).takeWhile (· = mark)
  (more, rest.drop more.length)

/-- A text between triple double quote marks. -/
def longBasic : List Char → Option (List Char × List Char)
  | [] => none
  | '"' :: '"' :: '"' :: rest => some (closing '"' rest)
  | '\\' :: rest =>
    match _h : continued? rest with
    | some after => longBasic after
    | none =>
      match _h : escape? rest with
      | none => none
      | some (c, after) => consText c (longBasic after)
  | '\r' :: '\n' :: rest => consText '\r' (consText '\n' (longBasic rest))
  | c :: rest => if isContent c || c = '\n' then consText c (longBasic rest) else none
termination_by s => s.length
decreasing_by
  · have := length_le_of_continued _h
    simp only [List.length_cons]
    omega
  · have := length_lt_of_escape _h
    simp only [List.length_cons]
    omega
  · simp only [List.length_cons]
    omega
  · simp

/-- A text between triple single quote marks. -/
def longLiteral : List Char → Option (List Char × List Char)
  | [] => none
  | '\'' :: '\'' :: '\'' :: rest => some (closing '\'' rest)
  | '\r' :: '\n' :: rest => consText '\r' (consText '\n' (longLiteral rest))
  | c :: rest => if isContent c || c = '\n' then consText c (longLiteral rest) else none

/-- The quoted text that a text begins with; and what follows. -/
def quoted? : List Char → Option (List Char × List Char)
  | '"' :: '"' :: '"' :: rest => longBasic ((lineBreak? rest).getD rest)
  | '\'' :: '\'' :: '\'' :: rest => longLiteral ((lineBreak? rest).getD rest)
  | '"' :: rest => basic rest
  | '\'' :: rest => literal rest
  | _ => none

end LineEditor.Toml
