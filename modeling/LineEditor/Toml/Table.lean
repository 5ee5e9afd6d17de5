import LineEditor.Toml.Value

/-!
# Defining tables

A table is defined once. A header defines its table and implies those on its path; it may come after
the headers of subtables, which have implied it already. A dotted key defines the tables on its
path, and only another dotted key may add to these. What is written in braces is complete, and so is
an array in brackets; a header in double brackets adds a table to an array that such headers have
begun.
-/

namespace LineEditor.Toml.Entries

/-- The entries with the value of a key replaced. -/
def replace (entries : Entries) (key : Key) (value : Value) : Entries :=
  entries.map fun entry => if entry.1 = key then (key, value) else entry

/-- Adds a value under a dotted key, whose path is looked up first. -/
def insertDotted (key : Key) (value : Value) : List Key → Entries → Option Entries
  | [], entries =>
    match entries.lookup key with
    | none => some (entries ++ [(key, value)])
    | some _ => none
  | step :: path, entries =>
    match entries.lookup step with
    | none => (insertDotted key value path []).map fun t => entries ++ [(step, .table .dotted t)]
    | some (.table .dotted t) =>
      (insertDotted key value path t).map fun t => entries.replace step (.table .dotted t)
    | some (.table .implied t) =>
      if path.isEmpty then none
      else (insertDotted key value path t).map fun t => entries.replace step (.table .implied t)
    | some (.tables ts) =>
      if path.isEmpty then none
      else do
        let t ← insertDotted key value path (← ts.getLast?)
        some (entries.replace step (.tables (ts.dropLast ++ [t])))
    | some _ => none

/-- Changes the table at the end of the path of a header; of an array of tables, the last is
meant. -/
def changeUnder (change : Entries → Option Entries) : List Key → Entries → Option Entries
  | [], entries => change entries
  | step :: path, entries =>
    match entries.lookup step with
    | none => (changeUnder change path []).map fun t => entries ++ [(step, .table .implied t)]
    | some (.table .inlined _) => none
    | some (.table kind t) =>
      (changeUnder change path t).map fun t => entries.replace step (.table kind t)
    | some (.tables ts) => do
      let t ← changeUnder change path (← ts.getLast?)
      some (entries.replace step (.tables (ts.dropLast ++ [t])))
    | some _ => none

/-- Defines a table by a header. -/
def defineTable (key : Key) (entries : Entries) : Option Entries :=
  match entries.lookup key with
  | none => some (entries ++ [(key, .table .header [])])
  | some (.table .implied t) => some (entries.replace key (.table .header t))
  | some _ => none

/-- Adds a table to an array of tables. -/
def addTable (key : Key) (entries : Entries) : Option Entries :=
  match entries.lookup key with
  | none => some (entries ++ [(key, .tables [[]])])
  | some (.tables ts) => some (entries.replace key (.tables (ts ++ [[]])))
  | some _ => none

end LineEditor.Toml.Entries
