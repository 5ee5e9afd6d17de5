import LineEditor.Dispatch.Basic

/-!
# Errands

A dispatch whose effects are on record only. An *errand* is a task with a chain of labels: it
records the first, and queues a task with the others when there are any. `rounds` runs a queue again
and again, each time with one more request to quit at its end, and tells what each run has recorded.

The number of messages of a run is bounded by the weight of its queue, in which an errand counts
once for each of its labels.
-/

namespace LineEditor.Dispatch

/-- A task with a chain of labels. -/
abbrev Errand := List (List Char)

/-- What a dispatch has recorded. -/
inductive Dispatched where
  /-- Input was received. -/
  | input (text : List Char)
  /-- A change of size was received. -/
  | resize (size : Size)
  /-- An errand was run under a label. -/
  | errand (label : List Char)
  deriving DecidableEq, Repr

/-- Runs an errand. -/
def runErrand (errand : Errand) (record : List Dispatched) :
    List Dispatched × List (Message Errand) :=
  match errand with
  | [] => (record, [])
  | [label] => (record ++ [.errand label], [])
  | label :: rest => (record ++ [.errand label], [.task rest])

/-- Receivers that put everything on record, of input and changes of size if they are asked to. -/
def recorders (input resize : Bool) : Receivers (List Dispatched) Errand where
  onInput? := if input then some fun text record => (record ++ [.input text], []) else none
  onResize? := if resize then some fun size record => (record ++ [.resize size], []) else none
  onTask := runErrand

/-- A bound on the number of messages that a message comes to. -/
def weight : Message Errand → Nat
  | .task errand => errand.length + 1
  | _ => 1

/-- A bound on the number of messages that a queue comes to. -/
def totalWeight : List (Message Errand) → Nat
  | [] => 0
  | message :: queue => weight message + totalWeight queue

/-- Runs a queue a number of times, each time with one more request to quit at its end; what each
run has recorded. -/
def rounds (r : Receivers (List Dispatched) Errand) :
    Nat → List (Message Errand) → List (List Dispatched)
  | 0, _ => []
  | n + 1, queue =>
    let queue := queue ++ [.quit]
    let ended := run r (totalWeight queue) [] queue
    ended.state :: rounds r n ended.queue

end LineEditor.Dispatch
