/-!
# Quoting

The quoting of a command line is read one character at a time. A `Context` says how the next
character reads: the quotes it stands in, and whether a backslash has just been read.

* Outside quotes a backslash makes the next character literal, and either quote mark opens its kind
  of quotes.
* In double quotes, the *weak* ones, a backslash makes a backslash or a double quote literal, and
  otherwise stands for itself.
* In single quotes, the *strong* ones, every character but the closing mark is literal.

An escaped line feed stands for nothing, in weak quotes too: the line goes on. A text is *pending*
while a quote or an escape is open at its end.

`read` maps a context and a text to the context after it and the characters that it stands for.
`read_append` says that a text may be read in parts.
-/

namespace LineEditor.Quoting

/-- The quotes that a character stands in. -/
inductive Mode where
  /-- Outside quotes. -/
  | plain
  /-- In double quotes. -/
  | weak
  /-- In single quotes. -/
  | strong
  deriving DecidableEq, Repr, Inhabited

/-- How the next character of a text reads. -/
structure Context where
  /-- The quotes it stands in. -/
  mode : Mode := .plain
  /-- Whether a backslash stands before it that makes it literal. -/
  escaped : Bool := false
  deriving DecidableEq, Repr, Inhabited

namespace Context

/-- Whether a quote or an escape is open. -/
def pending (q : Context) : Bool := q.mode ≠ .plain || q.escaped

/-- One character: the context after it, and the characters that it stands for. -/
def advance (q : Context) (c : Char) : Context × List Char :=
  match q.mode, q.escaped with
  | .plain, true => ({ mode := .plain }, if c = '\n' then [] else [c])
  | .plain, false =>
    if c = '\\' then ({ mode := .plain, escaped := true }, [])
    else if c = '"' then ({ mode := .weak }, [])
    else if c = '\'' then ({ mode := .strong }, [])
    else (q, [c])
  | .weak, true =>
    ({ mode := .weak },
      if c = '\\' ∨ c = '"' then [c] else if c = '\n' then [] else ['\\', c])
  | .weak, false =>
    if c = '\\' then ({ mode := .weak, escaped := true }, [])
    else if c = '"' then ({ mode := .plain }, [])
    else (q, [c])
  | .strong, _ => if c = '\'' then ({ mode := .plain }, []) else (q, [c])

/-- A text: the context after it, and the characters that it stands for. -/
def read : Context → List Char → Context × List Char
  | q, [] => (q, [])
  | q, c :: rest =>
    let (next, text) := q.advance c
    let (last, more) := next.read rest
    (last, text ++ more)

@[simp]
theorem read_nil (q : Context) : q.read [] = (q, []) := rfl

@[simp]
theorem read_cons (q : Context) (c : Char) (rest : List Char) :
    q.read (c :: rest) =
      (((q.advance c).1.read rest).1, (q.advance c).2 ++ ((q.advance c).1.read rest).2) := rfl

/-- A text may be read in two parts. -/
theorem read_append (q : Context) (s t : List Char) :
    q.read (s ++ t) =
      (((q.read s).1.read t).1, (q.read s).2 ++ ((q.read s).1.read t).2) := by
  induction s generalizing q with
  | nil => rfl
  | cons c rest ih => simp [ih, List.append_assoc]

end Context

/-- The characters that a text stands for, read from outside quotes. -/
def unquote (text : List Char) : List Char := (({} : Context).read text).2

/-- A text read so far: where its end stands, and what it stands for. -/
structure Reader where
  /-- How the next character reads. -/
  context : Context := {}
  /-- What the characters so far stand for. -/
  output : List Char := []
  deriving DecidableEq, Repr, Inhabited

namespace Reader

/-- Reads some more characters. -/
def feed (r : Reader) (text : List Char) : Reader :=
  let (context, more) := r.context.read text
  { context, output := r.output ++ more }

/-- Whether a quote or an escape is open. -/
def pending (r : Reader) : Bool := r.context.pending

@[simp]
theorem feed_nil (r : Reader) : r.feed [] = r := by simp [feed]

@[simp]
theorem context_feed (r : Reader) (text : List Char) :
    (r.feed text).context = (r.context.read text).1 := rfl

@[simp]
theorem output_feed (r : Reader) (text : List Char) :
    (r.feed text).output = r.output ++ (r.context.read text).2 := rfl

/-- Two texts feed as their concatenation. -/
theorem feed_append (r : Reader) (s t : List Char) : r.feed (s ++ t) = (r.feed s).feed t := by
  simp [feed, Context.read_append, List.append_assoc]

/-- A fresh reader puts out what the text stands for. -/
theorem output_feed_empty (text : List Char) : (({} : Reader).feed text).output = unquote text := by
  simp [feed, unquote]

end Reader

end LineEditor.Quoting
