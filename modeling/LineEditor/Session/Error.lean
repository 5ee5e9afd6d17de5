import LineEditor.Text.Escaped

/-!
# Refusals

The calls on a session or a completion can be refused. `Refusal` lists the causes, and
`Refusal.message` words them.

A completion has a status that only moves forward: from *pending*, either to *inlining*, when text
is put into the line, or to *completing*, when suggestions are listed, and from each of the three to
*completed*.
-/

namespace LineEditor

/-- How far a completion has come. -/
inductive Status where
  /-- Nothing has been offered yet. -/
  | pending
  /-- Text has been put into the line. -/
  | inlining
  /-- Suggestions have been listed. -/
  | completing
  /-- The completion is over. -/
  | completed
  deriving DecidableEq, Repr, Inhabited

/-- The name of a status in messages. -/
def Status.name : Status → String
  | .pending => "Pending"
  | .inlining => "Inlining"
  | .completing => "Completing"
  | .completed => "Completed"

/-- The calls that move the status of a completion. -/
inductive CompletionCall where
  /-- Puts text into the line. -/
  | complete
  /-- Lists suggestions. -/
  | suggest
  /-- Ends the completion. -/
  | finish
  deriving DecidableEq, Repr

/-- The name of a call in messages. -/
def CompletionCall.name : CompletionCall → String
  | .complete => "complete"
  | .suggest => "suggest"
  | .finish => "end"

/-- Why a call is refused. -/
inductive Refusal where
  /-- A request is live already. -/
  | alreadyReading
  /-- The session is on no connection. -/
  | notInstalled
  /-- The session is on a connection already. -/
  | alreadyInstalled
  /-- The status of the completion does not allow the call. -/
  | illegalStatus (call : CompletionCall) (status : Status)
  /-- The request that the completion was made for does not wait for it any more. -/
  | stale
  /-- The text to insert holds a control code. -/
  | unsupported (c : Char)
  deriving DecidableEq, Repr

/-- The wording of a refusal. -/
def Refusal.message : Refusal → String
  | .alreadyReading => "already reading a line"
  | .notInstalled => "session is not installed on a connection"
  | .alreadyInstalled => "session is already installed on a connection"
  | .illegalStatus call status => "completion cannot " ++ call.name ++ " while " ++ status.name
  | .stale => "the interaction owning this completion is gone"
  | .unsupported c =>
    "unsupported code point " ++ String.ofList (Text.Escaped.quoteChar c) ++ " in completion text"

end LineEditor
