import LineEditor.Quoting.Basic
import Mathlib.Data.List.Infix

/-!
# The grammar of quoting

A quoted text is a sequence of items: characters that stand for themselves, characters behind a
backslash, texts in single quotes, and texts in double quotes, which are items of their own kind.
`Item.meaning` says what an item stands for. A text that is cut off ends in an item that is not
finished.

Every text has exactly one parse, complete items and then perhaps an unfinished one:
`Parse.spelling` and `parse` are inverse to each other (`spelling_parse`, `parse_spelling`). A
reader holds of its text just what the parse says (`reader_parse`), so that it tells the texts of
the grammar from all others and puts out what their items stand for
(`Reader.feed_followsGrammar`).
-/

namespace LineEditor.Quoting

/-! ### Items -/

/-- An item of a text in double quotes. -/
inductive WeakItem where
  /-- A character that stands for itself. -/
  | plain (c : Char) (h : c ≠ '\\' ∧ c ≠ '"')
  /-- A character behind a backslash. -/
  | escaped (c : Char)
  deriving DecidableEq, Repr

/-- An item of a text. -/
inductive Item where
  /-- A character that stands for itself. -/
  | plain (c : Char) (h : c ≠ '\\' ∧ c ≠ '"' ∧ c ≠ '\'')
  /-- A character behind a backslash. -/
  | escaped (c : Char)
  /-- A text in single quotes. -/
  | strong (text : List Char) (h : '\'' ∉ text)
  /-- A text in double quotes. -/
  | weak (items : List WeakItem)
  deriving DecidableEq, Repr

/-- An item that a text breaks off in. -/
inductive Unfinished where
  /-- A backslash with nothing behind it. -/
  | escape
  /-- Single quotes that are not closed. -/
  | strong (text : List Char) (h : '\'' ∉ text)
  /-- Double quotes that are not closed. -/
  | weak (items : List WeakItem)
  /-- Double quotes that are not closed, and a backslash with nothing behind it. -/
  | weakEscape (items : List WeakItem)
  deriving DecidableEq, Repr

/-- How an item is written. -/
@[simp]
def WeakItem.spelling : WeakItem → List Char
  | .plain c _ => [c]
  | .escaped c => ['\\', c]

/-- What an item stands for: only a backslash and a double quote are made literal by a backslash. -/
@[simp]
def WeakItem.meaning : WeakItem → List Char
  | .plain c _ => [c]
  | .escaped c => if c = '\\' ∨ c = '"' then [c] else if c = '\n' then [] else ['\\', c]

/-- How an item is written. -/
@[simp]
def Item.spelling : Item → List Char
  | .plain c _ => [c]
  | .escaped c => ['\\', c]
  | .strong text _ => '\'' :: text ++ ['\'']
  | .weak items => '"' :: items.flatMap WeakItem.spelling ++ ['"']

/-- What an item stands for. -/
@[simp]
def Item.meaning : Item → List Char
  | .plain c _ => [c]
  | .escaped c => if c = '\n' then [] else [c]
  | .strong text _ => text
  | .weak items => items.flatMap WeakItem.meaning

/-- How an unfinished item is written. -/
@[simp]
def Unfinished.spelling : Unfinished → List Char
  | .escape => ['\\']
  | .strong text _ => '\'' :: text
  | .weak items => '"' :: items.flatMap WeakItem.spelling
  | .weakEscape items => '"' :: items.flatMap WeakItem.spelling ++ ['\\']

/-- What an unfinished item stands for so far. -/
@[simp]
def Unfinished.meaning : Unfinished → List Char
  | .escape => []
  | .strong text _ => text
  | .weak items | .weakEscape items => items.flatMap WeakItem.meaning

/-- How the next character reads behind an unfinished item. -/
@[simp]
def Unfinished.context : Unfinished → Context
  | .escape => { mode := .plain, escaped := true }
  | .strong _ _ => { mode := .strong }
  | .weak _ => { mode := .weak }
  | .weakEscape _ => { mode := .weak, escaped := true }

/-- How some items are written, one after the other. -/
def spelling (items : List Item) : List Char := items.flatMap Item.spelling

/-- What some items stand for. -/
def meaning (items : List Item) : List Char := items.flatMap Item.meaning

/-- A text belongs to the grammar: it consists of items. -/
def WellQuoted (text : List Char) : Prop := ∃ items, spelling items = text

/-! ### Parses -/

/-- How a text is cut into items. -/
structure Parse where
  /-- The items. -/
  items : List Item := []
  /-- The item that the text breaks off in, if it does. -/
  rest? : Option Unfinished := none
  deriving DecidableEq, Repr

namespace Parse

variable {p : Parse} {items : List Item}

/-- The text that is cut. -/
def spelling (p : Parse) : List Char :=
  Quoting.spelling p.items ++ p.rest?.elim [] Unfinished.spelling

/-- What the text stands for. -/
def meaning (p : Parse) : List Char :=
  Quoting.meaning p.items ++ p.rest?.elim [] Unfinished.meaning

/-- How the next character reads. -/
def context (p : Parse) : Context := p.rest?.elim {} Unfinished.context

/-- The parse with one more character. -/
def push : Parse → Char → Parse
  | ⟨items, none⟩, c =>
    if h : c ≠ '\\' ∧ c ≠ '"' ∧ c ≠ '\'' then ⟨items ++ [.plain c h], none⟩
    else if c = '\\' then ⟨items, some .escape⟩
    else if c = '"' then ⟨items, some (.weak [])⟩
    else ⟨items, some (.strong [] List.not_mem_nil)⟩
  | ⟨items, some .escape⟩, c => ⟨items ++ [.escaped c], none⟩
  | ⟨items, some (.strong text h)⟩, c =>
    if hc : c = '\'' then ⟨items ++ [.strong text h], none⟩
    else ⟨items, some (.strong (text ++ [c]) (by simp [h, Ne.symm hc]))⟩
  | ⟨items, some (.weak inner)⟩, c =>
    if h : c ≠ '\\' ∧ c ≠ '"' then ⟨items, some (.weak (inner ++ [.plain c h]))⟩
    else if c = '\\' then ⟨items, some (.weakEscape inner)⟩
    else ⟨items ++ [.weak inner], none⟩
  | ⟨items, some (.weakEscape inner)⟩, c => ⟨items, some (.weak (inner ++ [.escaped c]))⟩

/-- The parse with some more characters. -/
def feed (p : Parse) (text : List Char) : Parse := text.foldl push p

/-- What a reader holds of the text. -/
def reader (p : Parse) : Reader := { context := p.context, output := p.meaning }

theorem feed_cons (p : Parse) (c : Char) (rest : List Char) :
    p.feed (c :: rest) = (p.push c).feed rest := rfl

theorem feed_append (p : Parse) (s t : List Char) : p.feed (s ++ t) = (p.feed s).feed t :=
  List.foldl_append

/-! ### Every text has a parse -/

/-- One more character is written behind the text. -/
theorem spelling_push (p : Parse) (c : Char) : (p.push c).spelling = p.spelling ++ [c] := by
  obtain ⟨items, _ | rest⟩ := p
  · simp only [push]
    split_ifs <;> simp_all [spelling, Quoting.spelling]
  · cases rest with
    | escape | weakEscape inner => simp [push, spelling, Quoting.spelling]
    | strong text h | weak inner =>
      simp only [push]
      split_ifs <;> simp_all [spelling, Quoting.spelling]

theorem spelling_feed (p : Parse) (text : List Char) :
    (p.feed text).spelling = p.spelling ++ text := by
  induction text generalizing p with
  | nil => exact (List.append_nil _).symm
  | cons c rest ih => rw [feed_cons, ih, spelling_push, List.append_assoc, List.singleton_append]

/-- One more character is read behind the text. -/
theorem reader_push (p : Parse) (c : Char) : (p.push c).reader = p.reader.feed [c] := by
  obtain ⟨items, _ | rest⟩ := p
  · simp only [push]
    split_ifs <;> simp_all [reader, context, meaning, Quoting.meaning, Reader.feed, Context.advance]
  · cases rest with
    | escape | weakEscape inner =>
      simp [push, reader, context, meaning, Quoting.meaning, Reader.feed, Context.advance]
    | strong text h | weak inner =>
      simp only [push]
      split_ifs <;>
        simp_all [reader, context, meaning, Quoting.meaning, Reader.feed, Context.advance]

theorem reader_feed (p : Parse) (text : List Char) :
    (p.feed text).reader = p.reader.feed text := by
  induction text generalizing p with
  | nil => exact (Reader.feed_nil _).symm
  | cons c rest ih =>
    rw [feed_cons, ih, reader_push, ← Reader.feed_append, List.singleton_append]

/-! ### No text has another one -/

/-- An item in double quotes is read back. -/
theorem feed_weakItem (inner : List WeakItem) (item : WeakItem) :
    Parse.feed ⟨items, some (.weak inner)⟩ item.spelling =
      ⟨items, some (.weak (inner ++ [item]))⟩ := by
  cases item with
  | plain c h => simp [feed, push, h]
  | escaped c => simp [feed, push]

theorem feed_weakItems (inner more : List WeakItem) :
    Parse.feed ⟨items, some (.weak inner)⟩ (more.flatMap WeakItem.spelling) =
      ⟨items, some (.weak (inner ++ more))⟩ := by
  induction more generalizing inner with
  | nil => rw [List.append_nil]; rfl
  | cons item rest ih =>
    rw [List.flatMap_cons, feed_append, feed_weakItem, ih, List.append_assoc,
      List.singleton_append]

theorem feed_strong_mark (text : List Char) :
    Parse.feed ⟨items, none⟩ ('\'' :: text) =
      Parse.feed ⟨items, some (.strong [] List.not_mem_nil)⟩ text := rfl

theorem feed_weak_mark (text : List Char) :
    Parse.feed ⟨items, none⟩ ('"' :: text) = Parse.feed ⟨items, some (.weak [])⟩ text := rfl

/-- A text in single quotes is read back. -/
theorem feed_strong {text more : List Char} (htext : '\'' ∉ text) (h : '\'' ∉ text ++ more) :
    Parse.feed ⟨items, some (.strong text htext)⟩ more =
      ⟨items, some (.strong (text ++ more) h)⟩ := by
  induction more generalizing text with
  | nil => simp [feed]
  | cons c rest ih =>
    have hc : c ≠ '\'' := by rintro rfl; simp at h
    have hsnoc : '\'' ∉ text ++ [c] := by simp [htext, hc.symm]
    have hrest : '\'' ∉ text ++ [c] ++ rest := by simpa using h
    simp only [feed_cons, push, dif_neg hc, ih hsnoc hrest, List.append_assoc,
      List.singleton_append]

/-- An item is read back. -/
theorem feed_item (item : Item) :
    Parse.feed ⟨items, none⟩ item.spelling = ⟨items ++ [item], none⟩ := by
  cases item with
  | plain c h => simp [feed, push, h]
  | escaped c => simp [feed, push]
  | strong text h =>
    rw [Item.spelling, List.cons_append, feed_strong_mark, feed_append,
      feed_strong List.not_mem_nil h]
    rfl
  | weak inner =>
    rw [Item.spelling, List.cons_append, feed_weak_mark, feed_append, feed_weakItems]
    rfl

theorem feed_items (more : List Item) :
    Parse.feed ⟨items, none⟩ (Quoting.spelling more) = ⟨items ++ more, none⟩ := by
  induction more generalizing items with
  | nil => rw [List.append_nil]; rfl
  | cons item rest ih =>
    rw [Quoting.spelling, List.flatMap_cons, feed_append, feed_item, ← Quoting.spelling, ih,
      List.append_assoc, List.singleton_append]

/-- An unfinished item is read back. -/
theorem feed_unfinished (rest : Unfinished) :
    Parse.feed ⟨items, none⟩ rest.spelling = ⟨items, some rest⟩ := by
  cases rest with
  | escape => rfl
  | strong text h =>
    rw [Unfinished.spelling, feed_strong_mark, feed_strong List.not_mem_nil h]
    rfl
  | weak inner =>
    rw [Unfinished.spelling, feed_weak_mark, feed_weakItems]
    rfl
  | weakEscape inner =>
    rw [Unfinished.spelling, List.cons_append, feed_weak_mark, feed_append, feed_weakItems]
    rfl

end Parse

/-- The parse of a text. -/
def parse (text : List Char) : Parse := ({} : Parse).feed text

/-- The parse of a text is one of this text. -/
theorem spelling_parse (text : List Char) : (parse text).spelling = text :=
  Parse.spelling_feed {} text

/-- A text has no other parse. -/
theorem parse_spelling (p : Parse) : parse p.spelling = p := by
  obtain ⟨items, rest?⟩ := p
  rw [parse, Parse.spelling, Parse.feed_append, Parse.feed_items, List.nil_append]
  cases rest? with
  | none => rfl
  | some rest => exact Parse.feed_unfinished rest

/-- A reader of a text holds what the parse says. -/
theorem reader_parse (text : List Char) : (parse text).reader = ({} : Reader).feed text :=
  Parse.reader_feed {} text

/-! ### What a reader makes of a text -/

theorem spelling_append (items more : List Item) :
    spelling (items ++ more) = spelling items ++ spelling more :=
  List.flatMap_append

/-- The parse of a text that begins with some items begins with them. -/
theorem prefix_items_parse {items : List Item} {text : List Char} (h : spelling items <+: text) :
    items <+: (parse text).items := by
  obtain ⟨rest, rfl⟩ := h
  have hparse : parse (spelling items ++ rest) =
      ⟨items ++ (parse rest).items, (parse rest).rest?⟩ := by
    rw [← parse_spelling ⟨items ++ (parse rest).items, (parse rest).rest?⟩, Parse.spelling,
      spelling_append, List.append_assoc, ← Parse.spelling, spelling_parse]
  rw [hparse]
  exact List.prefix_append ..

theorem wellQuoted_iff {text : List Char} : WellQuoted text ↔ (parse text).rest? = none := by
  constructor
  · rintro ⟨items, rfl⟩
    rw [← List.append_nil (spelling items)]
    exact congrArg Parse.rest? (parse_spelling ⟨items, none⟩)
  · intro h
    refine ⟨(parse text).items, ?_⟩
    conv_rhs => rw [← spelling_parse text, Parse.spelling, h]
    exact (List.append_nil _).symm

/-- What a reader holds of a text, by the items of the text alone. -/
structure Reader.FollowsGrammar (r : Reader) (text : List Char) : Prop where
  /-- Nothing is open exactly if the text belongs to the grammar. -/
  pending_iff : r.pending = false ↔ WellQuoted text
  /-- Then it puts out what the items stand for. -/
  wellQuoted : ∀ items, spelling items = text → r.output = meaning items
  /-- Any other text begins with a longest sequence of items, and breaks off in an item that is not
  finished; the reader puts out what these stand for. -/
  otherwise : ¬ WellQuoted text → ∃ (items : List Item) (rest : Unfinished),
    text = spelling items ++ rest.spelling ∧ r.output = meaning items ++ rest.meaning ∧
      r.context = rest.context ∧ ∀ more, spelling more <+: text → more <+: items

theorem Unfinished.pending_context (rest : Unfinished) : rest.context.pending = true := by
  cases rest <;> rfl

/-- **The grammar of quoting**: a reader of any text holds what the grammar says. -/
theorem Reader.feed_followsGrammar (text : List Char) :
    (({} : Reader).feed text).FollowsGrammar text := by
  rw [← reader_parse]
  constructor
  case pending_iff =>
    rw [wellQuoted_iff, Parse.reader, Reader.pending, Parse.context]
    cases (parse text).rest? with
    | none => exact iff_of_true rfl rfl
    | some rest =>
      have hpending : rest.context.pending ≠ false := by rw [rest.pending_context]; exact nofun
      exact iff_of_false hpending nofun
  case wellQuoted =>
    rintro items rfl
    have hparse := parse_spelling ⟨items, none⟩
    rw [Parse.spelling, Option.elim_none, List.append_nil] at hparse
    rw [hparse]
    exact List.append_nil _
  case otherwise =>
    intro hother
    rw [wellQuoted_iff] at hother
    obtain ⟨rest, hrest⟩ := Option.ne_none_iff_exists'.1 hother
    refine ⟨(parse text).items, rest, ?_, ?_, ?_, fun more => prefix_items_parse⟩
    · conv_lhs => rw [← spelling_parse text, Parse.spelling, hrest]
      rfl
    · rw [Parse.reader, Parse.meaning, hrest]
      rfl
    · rw [Parse.reader, Parse.context, hrest]
      rfl

/-- A backslash in double quotes stands for itself before a letter, and the quotes are open. -/
example :
    (parse ['a', '"', '\\', 'b']).rest? = some (.weak [.escaped 'b']) ∧
      (({} : Reader).feed ['a', '"', '\\', 'b']).output = ['a', '\\', 'b'] := by decide

end LineEditor.Quoting
