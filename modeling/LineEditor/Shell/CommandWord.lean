import LineEditor.Session.World
import LineEditor.Shell.Evaluation

/-!
# Completing the command word

The shell completes the first word of a line among its commands. One candidate completes the word
and ends it; several complete it as far as they agree, or are listed when they agree on nothing
more. `completeCommand` carries the offer out and ends the completion.
-/

namespace LineEditor.Shell

/-- The longest beginning that two texts have in common. -/
def commonPrefix : List Char → List Char → List Char
  | a :: s, b :: t => if a = b then a :: commonPrefix s t else []
  | _, _ => []

/-- The longest beginning that all words have in common; of no words it is empty. -/
def sharedPrefix : List (List Char) → List Char
  | [] => []
  | word :: rest => rest.foldl commonPrefix word

/-- What a word lacks of a beginning. -/
def remainder (word beginning : List Char) : List Char := word.drop beginning.length

/-- What is offered to complete a word. -/
inductive Offer where
  /-- Nothing. -/
  | nothing
  /-- A text to put into the line; a terminal one ends the word. -/
  | insertion (text : List Char) (terminal : Bool)
  /-- A text that lists the candidates. -/
  | listing (text : List Char)
  deriving DecidableEq, Repr

/-- The commands that a word is a beginning of, if it is the first of its line. -/
def candidates (line word : List Char) : List (List Char) :=
  if Text.wordCount line ≤ 1 then commands.filter (word.isPrefixOf ·) else []

/-- What is offered to complete a word of a line. -/
def offer (line word : List Char) : Offer :=
  match candidates line word with
  | [] => .nothing
  | [only] => .insertion (remainder only word) true
  | several =>
    let shared := sharedPrefix several
    if word.length < shared.length then .insertion (remainder shared word) false
    else .listing (List.intercalate [' ', ' '] several)

/-- Completes the command word, and ends the completion. -/
def completeCommand {κ ν : Type} (k : CompletionId) (snapshot : Snapshot) : Program κ ν :=
  let finish : Program κ ν := .ofCall (.finish (some k))
  match offer snapshot.line snapshot.word with
  | .nothing => finish
  | .insertion text terminal => .andThen (.complete (some k) text terminal) finish
  | .listing text => .andThen (.suggest (some k) text) finish

end LineEditor.Shell
