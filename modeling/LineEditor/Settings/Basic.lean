import LineEditor.Keys.Keymap
import LineEditor.Toml.Document

/-!
# Settings

The prompts, the size of the history, and the keys that are bound to editing functions beyond the
standard ones. They are read from a document with the tables `prompt`, `history` and `keymap`, each
of which may be absent, and so may each of their fields; what is absent has its default.

A table with known fields may also be written as an array of their values in order, or as a moment,
which has none of the fields. Fields that are not known do not count, but what has the form of a
number there must be one, of a size that can be held (`isReadable`). A document that breaks any of
these rules gives no settings at all.
-/

namespace LineEditor

open Toml (Entries Key Value)

/-- The settings of the line editor. -/
structure Settings where
  /-- The prompt of a logical line. -/
  prompt : List Char := "% ".toList
  /-- The prompt of further physical lines. -/
  continuation : List Char := "> ".toList
  /-- The number of lines that the history keeps; zero keeps all of them. -/
  historyCap : Nat := 500
  /-- Sequences of characters and the names of the functions that they are bound to, by sequence. -/
  bindings : List (List Char × List Char) := []
  deriving DecidableEq, Repr, Inhabited

namespace Settings

/-! ### Values that do not count -/

mutual

/-- Whether every number in a value is one, of a size that can be held. -/
def isReadable : Value → Bool
  | .integer n => Toml.integerFits n
  | .noInteger => false
  | .real x => x.fits
  | .array items => areReadable items
  | .table _ entries => haveReadable entries
  | .tables items => tablesHaveReadable items
  | .text _ | .boolean _ | .moment _ => true

/-- Whether every number in some values is one, of a size that can be held. -/
def areReadable : List Value → Bool
  | [] => true
  | value :: rest => isReadable value && areReadable rest

/-- Whether every number in a table is one, of a size that can be held. -/
def haveReadable : List (Key × Value) → Bool
  | [] => true
  | (_, value) :: rest => isReadable value && haveReadable rest

/-- Whether every number in some tables is one, of a size that can be held. -/
def tablesHaveReadable : List (List (Key × Value)) → Bool
  | [] => true
  | entries :: rest => haveReadable entries && tablesHaveReadable rest

end

/-! ### Fields -/

/-- The values of the named fields of a table, each of which may be absent, if all others are
readable. -/
def named? (names : List Key) (entries : Entries) : Option (List (Option Value)) :=
  if haveReadable (entries.filter fun entry => !names.contains entry.1) then
    some (names.map fun name => entries.lookup name)
  else none

/-- The values of the named fields of a value that may stand for a table. -/
def fields? (names : List Key) : Value → Option (List (Option Value))
  | .table _ entries => named? names entries
  | .array items => some (names.zipIdx.map fun (_, i) => items[i]?)
  | .moment _ => some (names.map fun _ => none)
  | _ => none

/-- The text that a field holds; an absent field has its default. -/
def text? (absent : List Char) : Option Value → Option (List Char)
  | none => some absent
  | some (.text s) => some s
  | some _ => none

/-- The count that a field holds; an absent field has its default. -/
def count? (absent : Nat) : Option Value → Option Nat
  | none => some absent
  | some (.integer (.ofNat n)) => if n < Nat.pow 2 64 then some n else none
  | some _ => none

/-! ### Tables -/

/-- Reads the table of prompts. -/
def withPrompts? (settings : Settings) : Option Value → Option Settings
  | none => some settings
  | some value => do
    match ← fields? ["primary".toList, "continuation".toList] value with
    | [primary, continuation] =>
      some { settings with
        prompt := ← text? settings.prompt primary
        continuation := ← text? settings.continuation continuation }
    | _ => none

/-- Reads the table of the history. -/
def withHistory? (settings : Settings) : Option Value → Option Settings
  | none => some settings
  | some value => do
    match ← fields? ["max_entries".toList] value with
    | [cap] => some { settings with historyCap := ← count? settings.historyCap cap }
    | _ => none

/-- The key under which a moment stands for a table. -/
def momentKey : Key := "$__toml_private_datetime".toList

/-- Whether a text comes before another or is equal to it, by code points. -/
def precedes : List Char → List Char → Bool
  | [], _ => true
  | _ :: _, [] => false
  | a :: s, b :: t => a.toNat < b.toNat || (a = b && precedes s t)

/-- Reads one binding. -/
def binding? : Key × Value → Option (List Char × List Char)
  | (sequence, .text function) => some (sequence, function)
  | _ => none

/-- Reads the table of bindings. -/
def withBindings? (settings : Settings) : Option Value → Option Settings
  | none => some settings
  | some (.table _ entries) => do
    let bindings ← entries.mapM binding?
    some { settings with bindings := bindings.mergeSort fun a b => precedes a.1 b.1 }
  | some (.moment m) => some { settings with bindings := [(momentKey, m.render)] }
  | some _ => none

/-- The settings that the entries of a document hold. -/
def ofEntries? (entries : Entries) : Option Settings := do
  match ← named? ["prompt".toList, "history".toList, "keymap".toList] entries with
  | [prompt, history, keymap] =>
    (← (← ({} : Settings).withPrompts? prompt).withHistory? history).withBindings? keymap
  | _ => none

/-- The settings that the bytes of a document hold, which must be well-formed UTF-8. -/
def ofBytes? (bytes : List UInt8) : Option Settings := do
  let text ← String.fromUTF8? ⟨bytes.toArray⟩
  ofEntries? (← Toml.parse? text.toList)

/-! ### Keymaps -/

/-- The bindings that can be made: neither the sequence nor the name is empty. -/
def usable (settings : Settings) : List (List Char × List Char) :=
  settings.bindings.filter fun (sequence, function) => !sequence.isEmpty && !function.isEmpty

/-- A keymap with the bindings of the settings on top; and how many these are. -/
def applyTo (settings : Settings) (m : Keymap) : Keymap × Nat :=
  (settings.usable.foldl (fun m (sequence, function) => m.bindFunction sequence function) m,
    settings.usable.length)

/-- The standard keymap with the bindings of the settings on top. -/
def keymap (settings : Settings) : Keymap := (settings.applyTo .standard).1

end Settings

end LineEditor
