import LineEditor.Quoting.Insertion
import Mathlib.Tactic.Common

/-!
# Literal text reads as itself

`Context.literally` spells a text character by character, each for the context that the spelling
before it leaves. A context that *takes* literal text has a spelling for every character but the
line feed that reads as that character and leaves the context as it was, but for an escape, which
the character uses up (`read_spell`). So the spelling of a text reads as the text
(`read_literally`). What ends a word adds a space and leaves nothing open (`read_literally_word`).

Only one context that a text can leave does not take literal text: an open escape in weak quotes
(`takes_of_read`).
-/

namespace LineEditor.Quoting.Context

variable {q : Context} {c : Char} {text : List Char}

/-- Every character but the line feed has a spelling: no escape is open within quotes. -/
def Takes (q : Context) : Prop := q.escaped = true → q.mode = .plain

theorem takes_of_not_escaped (h : q.escaped = false) : q.Takes := by
  intro hescaped
  rw [h] at hescaped
  cases hescaped

/-- Within quotes no escape is open. -/
theorem Takes.not_escaped (h : q.Takes) (hmode : q.mode ≠ .plain) : q.escaped = false := by
  cases hescaped : q.escaped with
  | true => exact absurd (h hescaped) hmode
  | false => rfl

/-- In strong quotes no escape is open, after any character. -/
theorem advance_strong (h : q.mode = .strong → q.escaped = false) (c : Char) :
    (q.advance c).1.mode = .strong → (q.advance c).1.escaped = false := by
  obtain ⟨mode, escaped⟩ := q
  cases mode with
  | plain =>
    cases escaped with
    | true => simp [advance]
    | false =>
      simp only [advance]
      split_ifs <;> simp
  | weak =>
    cases escaped with
    | true => simp [advance]
    | false =>
      simp only [advance]
      split_ifs <;> simp
  | strong =>
    obtain rfl : escaped = false := h rfl
    simp only [advance]
    split_ifs <;> simp

/-- In strong quotes no escape is open, after any text. -/
theorem read_strong (h : q.mode = .strong → q.escaped = false) (text : List Char) :
    (q.read text).1.mode = .strong → (q.read text).1.escaped = false := by
  induction text generalizing q with
  | nil => exact h
  | cons c rest ih => exact ih (advance_strong h c)

/-- What a text leaves takes literal text, unless it is an open escape in weak quotes. -/
theorem takes_of_read (text : List Char)
    (hweak : (({} : Context).read text).1 ≠ { mode := .weak, escaped := true }) :
    (({} : Context).read text).1.Takes := by
  intro hescaped
  have hstrong := read_strong (q := {}) nofun text
  generalize (({} : Context).read text).1 = q at *
  obtain ⟨mode, escaped⟩ := q
  obtain rfl : escaped = true := hescaped
  cases mode with
  | plain => rfl
  | weak => exact absurd rfl hweak
  | strong => cases hstrong rfl

/-- A spelling reads as its character, and uses up an open escape. -/
theorem read_spell (h : q.Takes) (hc : c ≠ '\n') :
    q.read (q.spell c) = ({ q with escaped := false }, [c]) := by
  obtain ⟨mode, escaped⟩ := q
  cases mode with
  | plain =>
    cases escaped with
    | true => simp [spell, advance, hc]
    | false =>
      by_cases hspecial : c = ' ' ∨ c = '"' ∨ c = '\'' ∨ c = '\\'
      · simp [spell, advance, hspecial, hc, or_assoc]
      · obtain ⟨hspace, hweak, hstrong, hescape⟩ : c ≠ ' ' ∧ c ≠ '"' ∧ c ≠ '\'' ∧ c ≠ '\\' := by
          simpa only [not_or] using hspecial
        simp [spell, advance, hspace, hweak, hstrong, hescape]
  | weak =>
    obtain rfl : escaped = false := h.not_escaped nofun
    by_cases hspecial : c = '\\' ∨ c = '"'
    · simp [spell, advance, hspecial]
    · obtain ⟨hescape, hweak⟩ := not_or.1 hspecial
      simp [spell, advance, hescape, hweak]
  | strong =>
    obtain rfl : escaped = false := h.not_escaped nofun
    by_cases hmark : c = '\''
    · subst hmark
      simp [spell, advance]
    · simp [spell, advance, hmark]

/-- The spelling of a text is the spelling of its first character and that of the rest. -/
theorem literally_cons (h : q.Takes) (hc : c ≠ '\n') (terminal : Bool) (rest : List Char) :
    q.literally terminal (c :: rest) =
      q.spell c ++ ({ q with escaped := false } : Context).literally terminal rest := by
  rw [literally, read_spell h hc]

/-- With no escape open, a spelling reads as its text and then as what ends it. -/
theorem read_literally_append (h : q.escaped = false) (hline : '\n' ∉ text) (terminal : Bool) :
    q.read (q.literally terminal text) =
      ((q.read (q.literally terminal [])).1, text ++ (q.read (q.literally terminal [])).2) := by
  have hsame : ({ q with escaped := false } : Context) = q := by rw [← h]
  induction text with
  | nil => rfl
  | cons c rest ih =>
    have hc : c ≠ '\n' := (List.ne_of_not_mem_cons hline).symm
    rw [literally_cons (takes_of_not_escaped h) hc, read_append,
      read_spell (takes_of_not_escaped h) hc, hsame, ih (List.not_mem_of_not_mem_cons hline)]
    rfl

/-- With no escape open, a spelling reads as its text, and nothing else changes. -/
theorem read_literally (h : q.escaped = false) (hline : '\n' ∉ text) :
    q.read (q.literally false text) = (q, text) := by
  rw [read_literally_append h hline]
  simp [literally]

/-- What ends a word reads as a space, and nothing is open behind it. -/
theorem read_wordEnd (h : q.escaped = false) : q.read q.wordEnd = ({}, [' ']) := by
  obtain ⟨mode, escaped⟩ := q
  subst h
  cases mode <;> decide

/-- A word is spelled so that it reads as its text and a space, with nothing open behind it. An open
escape needs a character that it makes literal. -/
theorem read_literally_word (h : q.Takes) (hline : '\n' ∉ text)
    (hsome : text ≠ [] ∨ q.escaped = false) :
    q.read (q.literally true text) = ({}, text ++ [' ']) := by
  -- with no escape open there is nothing to use up
  have hword : ∀ {q : Context} {text : List Char}, q.escaped = false → '\n' ∉ text →
      q.read (q.literally true text) = ({}, text ++ [' ']) := by
    intro q text h hline
    rw [read_literally_append h hline, literally, if_pos rfl, read_wordEnd h]
  cases text with
  | nil => exact hword (hsome.resolve_left (absurd rfl)) hline
  | cons c rest =>
    -- the first character uses up the escape, if there is one
    have hc : c ≠ '\n' := (List.ne_of_not_mem_cons hline).symm
    rw [literally_cons h hc, read_append, read_spell h hc,
      hword rfl (List.not_mem_of_not_mem_cons hline)]
    rfl

/-- A word that holds every kind of mark, in strong quotes that are open. -/
example :
    (({ mode := .strong } : Context).read
      (({ mode := .strong } : Context).literally true ['a', '\'', '"', '\\'])) =
        ({}, ['a', '\'', '"', '\\', ' ']) := by decide

end LineEditor.Quoting.Context
