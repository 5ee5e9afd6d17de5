import LineEditor.Proofs.Quoting.Literal
import LineEditor.Proofs.Session.Entering
import LineEditor.Shell.Evaluation

/-!
# Quoted arguments

A text can be quoted as a whole in three ways: with a backslash before each mark, in double quotes,
or in single quotes (`Quoting.Mode.quote`). Each of them reads as the text and leaves nothing open
(`Quoting.Mode.read_quote`).

So a line that has the shell print such an argument stands for the command word, a space and the
text (`Shell.read_echoLine`). The blank that is cut off is this space, since the command word has
none, and whatever blanks the text has are left to it (`Text.cutAtBlank_append`).
`Shell.prints_literally` concludes that the reply is the text, and that such a line is handed over
at the Enter key.
-/

namespace LineEditor

/-! ### Quoting a whole text -/

namespace Quoting

variable {text : List Char}

/-- The mark that opens and closes quotes; outside quotes there is none. -/
def Mode.mark : Mode → List Char
  | .plain => []
  | .weak => ['"']
  | .strong => ['\'']

/-- A text quoted as a whole: spelled for the inside of the quotes, between their marks. -/
def Mode.quote (mode : Mode) (text : List Char) : List Char :=
  mode.mark ++ ({ mode } : Context).literally false text ++ mode.mark

theorem Mode.read_mark_open (mode : Mode) : ({} : Context).read mode.mark = ({ mode }, []) := by
  cases mode <;> rfl

theorem Mode.read_mark_close (mode : Mode) : ({ mode } : Context).read mode.mark = ({}, []) := by
  cases mode <;> rfl

/-- A quoted text reads as itself, with nothing open behind it. -/
theorem Mode.read_quote (mode : Mode) (hline : '\n' ∉ text) :
    ({} : Context).read (mode.quote text) = ({}, text) := by
  have hinside : ({ mode } : Context).read (({ mode } : Context).literally false text) =
      ({ mode }, text) := Context.read_literally rfl hline
  rw [quote, List.append_assoc, Context.read_append, read_mark_open, Context.read_append, hinside,
    read_mark_close, List.nil_append, List.append_nil]

end Quoting

/-! ### Cutting a line at its first blank -/

namespace Text

variable {word rest : List Char} {blank : Char}

/-- A word at the beginning of a text is cut off at the blank behind it. -/
theorem cutAtBlank_append (hword : ∀ c ∈ word, isBlank c = false) (hblank : isBlank blank = true) :
    cutAtBlank (word ++ blank :: rest) = (word, rest) := by
  have hall : ∀ c ∈ word, (!isBlank c) = true := fun c hc => by rw [hword c hc]; rfl
  rw [cutAtBlank, List.takeWhile_append_of_pos hall, List.dropWhile_append_of_pos hall,
    List.takeWhile_cons_of_neg (by simp [hblank]), List.dropWhile_cons_of_neg (by simp [hblank]),
    List.append_nil, List.tail_cons]

/-- A text that begins with a word begins with no blank. -/
theorem dropBlanks_append (hword : ∀ c ∈ word, isBlank c = false) (hne : word ≠ []) :
    dropBlanks (word ++ rest) = word ++ rest := by
  obtain ⟨c, word, rfl⟩ := List.exists_cons_of_ne_nil hne
  exact List.dropWhile_cons_of_neg (by simp [hword c List.mem_cons_self])

end Text

/-! ### A complete line -/

/-- The Enter key hands over the only line of an entry, if nothing is open in it. -/
theorem Entry.InStep.outcome_enter_of_single {κ : Type} {e : Entry κ} (h : e.InStep)
    (hlines : e.lines = []) (hcomplete : (({} : Quoting.Reader).feed e.line.text).pending = false)
    (functions : FunctionTable) (history : History) (continuation : List Char) :
    (e.handle functions history continuation (.key [Keys.enter])).outcome =
      .submitted e.line.text := by
  have hsingle : List.intercalate ['\n'] (e.lines ++ [e.line.text]) = e.line.text := by
    simp [hlines]
  have hread : (readLines (e.lines ++ [e.line.text])).pending = false := by
    rwa [readLines, hsingle]
  rw [Entry.handle, if_pos rfl, h.enter_of_complete hread, hsingle]

/-! ### Printing an argument -/

namespace Shell

variable {text : List Char}

/-- The word of the command that prints what follows it. -/
def echo : List Char := "echo".toList

/-- The line that has the shell print a text, which is quoted as a whole. -/
def echoLine (mode : Quoting.Mode) (text : List Char) : List Char :=
  echo ++ ' ' :: mode.quote text

theorem blank_echo : ∀ c ∈ echo, Text.isBlank c = false := by
  have hall : echo.all (!Text.isBlank ·) = true := by decide
  simpa using hall

/-- The line stands for the command word, a space and the text, with nothing open behind it. -/
theorem read_echoLine (mode : Quoting.Mode) (hline : '\n' ∉ text) :
    ({} : Quoting.Context).read (echoLine mode text) = ({}, echo ++ ' ' :: text) := by
  have hecho : ({} : Quoting.Context).read (echo ++ [' ']) = ({}, echo ++ [' ']) := by decide
  rw [echoLine, List.append_cons, Quoting.Context.read_append, hecho, mode.read_quote hline,
    ← List.append_cons]

/-- What follows the command word is printed, but for the blank that ends the word. -/
theorem evaluate_of_unquote {line rest : List Char} {blank : Char}
    (hline : Quoting.unquote line = echo ++ blank :: rest) (hblank : Text.isBlank blank = true)
    (history : History) : evaluate line history = .output rest := by
  have hcut : Text.cutAtBlank (Text.dropBlanks (Quoting.unquote line)) = (echo, rest) := by
    rw [hline, Text.dropBlanks_append blank_echo (by decide),
      Text.cutAtBlank_append blank_echo hblank]
  rw [evaluate, hcut]
  rfl

/-- **Quoted arguments are printed literally.** -/
theorem prints_literally (mode : Quoting.Mode) (htext : ∀ c ∈ text, 32 ≤ c.toNat) :
    (∀ history, evaluate (echoLine mode text) history = .output text) ∧
      (({} : Quoting.Reader).feed (echoLine mode text)).pending = false ∧
      ∀ {κ : Type} (e : Entry κ) (functions : FunctionTable) (history : History)
        (continuation : List Char), e.InStep → e.lines = [] → e.line.text = echoLine mode text →
          (e.handle functions history continuation (.key [Keys.enter])).outcome =
            .submitted (echoLine mode text) := by
  have hline : '\n' ∉ text := fun hmem => absurd (htext _ hmem) (by decide)
  have hread := read_echoLine mode hline
  have hcomplete : (({} : Quoting.Reader).feed (echoLine mode text)).pending = false := by
    rw [Quoting.Reader.pending, Quoting.Reader.context_feed, hread]
    rfl
  refine ⟨evaluate_of_unquote (congrArg Prod.snd hread) (by decide), hcomplete, ?_⟩
  intro κ e functions history continuation hstep hlines hentered
  rw [← hentered] at hcomplete ⊢
  exact hstep.outcome_enter_of_single hlines hcomplete functions history continuation

/-- A text that begins with two kinds of blanks and holds every mark. -/
private def marks : List Char := [' ', '\u00A0', '\'', '"', '\\', 'a']

/-- An entry in which the line with this text in single quotes was typed. -/
private def marksEntry : Entry Unit where
  id := 0
  request := { prompt := ['%', ' '], onLine := (), onComplete? := none }
  line := .ofText (echoLine .strong marks)

/-- The line for it, what it prints, and that it is handed over. -/
theorem prints_literally_marks :
    (∀ c ∈ marks, 32 ≤ c.toNat) ∧
      echoLine .strong marks = echo ++ [' ', '\'', ' ', '\u00A0', '\'', '\\', '\'', '\'', '"',
        '\\', 'a', '\''] ∧
      evaluate (echoLine .strong marks) .initial = .output marks ∧
      (marksEntry.handle {} .initial ['>'] (.key [Keys.enter])).outcome =
        .submitted (echoLine .strong marks) := by
  have htext : ∀ c ∈ marks, 32 ≤ c.toNat := by simp [marks]
  obtain ⟨hprints, -, hsubmits⟩ := prints_literally .strong htext
  exact ⟨htext, by decide, hprints .initial,
    hsubmits marksEntry {} .initial ['>'] (Entry.inStep_fresh 0 marksEntry.request) rfl rfl⟩

end Shell

end LineEditor
