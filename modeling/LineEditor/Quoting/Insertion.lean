import LineEditor.Quoting.Basic

/-!
# Inserting literal text

`literally` spells a text so that it reads as itself where it is inserted: outside quotes the space,
the quote marks and the backslash get a backslash before them; in weak quotes the backslash and the
double quote do; in strong quotes a single quote closes them, stands escaped outside, and opens them
again. A pending escape already covers the first character. In weak quotes a pending escape covers
only a backslash or a double quote, so that characters before the first of these are left out.

A *terminal* insertion ends the word: it closes the quotes that are open and adds a space, unless an
escape is still pending.
-/

namespace LineEditor.Quoting

namespace Context

/-- The spelling of one literal character. -/
def spell (q : Context) (c : Char) : List Char :=
  match q.mode, q.escaped with
  | .plain, escaped =>
    if !escaped && (c = ' ' || c = '"' || c = '\'' || c = '\\') then ['\\', c] else [c]
  | .weak, escaped =>
    if c = '\\' || c = '"' then (if escaped then [c] else ['\\', c])
    else if escaped then [] else [c]
  | .strong, _ => if c = '\'' then ['\'', '\\', '\'', '\''] else [c]

/-- What ends a word: the closing quote mark, if one is open, and a space; nothing while an escape
is pending outside strong quotes. -/
def wordEnd (q : Context) : List Char :=
  match q.mode, q.escaped with
  | .plain, false => [' ']
  | .weak, false => ['"', ' ']
  | .strong, _ => ['\'', ' ']
  | _, true => []

/-- The spelling of a literal text, each character in the context that the spelling before it
leaves; a terminal one ends the word. -/
def literally (terminal : Bool) : Context → List Char → List Char
  | q, [] => if terminal then q.wordEnd else []
  | q, c :: rest => q.spell c ++ literally terminal (q.read (q.spell c)).1 rest

end Context

end LineEditor.Quoting
