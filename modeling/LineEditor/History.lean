/-!
# The history of entered lines

A `History` keeps the lines that were entered, oldest first, up to a cap, and a position among them
while the user browses. Entering a line ends the browsing; so does moving past the newest entry.
`pos?_lt` holds at all times: a position is the index of an entry.
-/

namespace LineEditor

/-- The entered lines and the position of the browsing user. -/
structure History where
  /-- The most entries kept; zero keeps all. -/
  cap : Nat := 500
  /-- The entries, oldest first. -/
  entries : List (List Char) := []
  /-- The index of the entry that is shown, while browsing. -/
  pos? : Option Nat := none
  /-- A position is the index of an entry. -/
  pos?_lt : ∀ i ∈ pos?, i < entries.length := by nofun
  deriving DecidableEq, Repr

namespace History

/-- The history without entries, with a cap. -/
def empty (cap : Nat) : History := { cap }

/-- The history that a session begins with. -/
def initial : History := {}

instance : Inhabited History := ⟨initial⟩

/-- The last entries that a cap leaves. -/
def capped (cap : Nat) (entries : List (List Char)) : List (List Char) :=
  if cap = 0 then entries else entries.drop (entries.length - cap)

/-- Ends the browsing, and keeps the line unless it is empty; the oldest entry makes room for it
once the cap is reached. -/
def push (h : History) (line : List Char) : History :=
  if line.isEmpty then { cap := h.cap, entries := h.entries }
  else { cap := h.cap, entries := capped h.cap (h.entries ++ [line]) }

/-- Shows the entry before the one that is shown, or the newest when none is. There is none before
the oldest, which then stays the position. -/
def previous (h : History) : History × Option (List Char) :=
  match hp : h.pos? with
  | none =>
    if hl : 0 < h.entries.length then
      ({ h with
          pos? := some (h.entries.length - 1)
          pos?_lt := by simpa using Nat.sub_one_lt_of_lt hl },
        h.entries[h.entries.length - 1]?)
    else (h, none)
  | some 0 => (h, none)
  | some (i + 1) =>
    ({ h with
        pos? := some i
        pos?_lt := by
          have := h.pos?_lt (i + 1) (by simp [hp])
          simpa using Nat.lt_of_succ_lt this },
      h.entries[i]?)

/-- Shows the entry after the one that is shown. After the newest, or when none is shown, the
browsing ends. -/
def next (h : History) : History × Option (List Char) :=
  match h.pos? with
  | some i =>
    if hi : i + 1 < h.entries.length then
      ({ h with pos? := some (i + 1), pos?_lt := by simpa using hi }, h.entries[i + 1]?)
    else ({ cap := h.cap, entries := h.entries }, none)
  | none => (h, none)

end History

end LineEditor
