import LineEditor.Proofs.Quoting.Insertion
import LineEditor.Proofs.Session.Holding

/-!
# The quoting that a completion is told

The snapshot of the Tab key tells the quoting at the cursor by the word before it alone: that word
is read as if nothing were open where it begins (`Entry.snapshot`). What really stands at the cursor
is what all that was entered before it has left (`Entry.atCursor`). No escape can be open where a
word begins, since a space or a line feed stands before it, or nothing at all. So the two are the
same if no quote is open there.

If a quote is open there, two readers go through the word from different contexts. They stay apart
(`Context.Apart.read`) unless one of them is in strong quotes and the other behind a backslash when
a single quote comes. So the two differ for every word without a backslash before a single quote.
`World.Reachable.tells_quoting` says all this of the Tab key, wherever the cursor stands, and
`World.misses_quote_before_space` that a quote which was opened before a space is missed.
-/

namespace LineEditor

open Quoting (Context Reader)

variable {κ ν : Type}

/-! ### Reading from two contexts -/

namespace Quoting.Context

variable {q r : Context} {c : Char} {text : List Char}

theorem Arises.advance (h : q.Arises) (c : Char) : (q.advance c).1.Arises :=
  arises_iff.2 (advance_strong (arises_iff.1 h) c)

theorem Arises.read (h : q.Arises) (text : List Char) : (q.read text).1.Arises :=
  arises_iff.2 (read_strong (arises_iff.1 h) text)

/-- A character after which an escape is open is a backslash. -/
theorem Arises.eq_of_escaped (h : q.Arises) (hescaped : (q.advance c).1.escaped = true) :
    c = '\\' := by
  have hstrong := arises_iff.1 h
  obtain ⟨mode, escaped⟩ := q
  by_contra hc
  cases mode with
  | plain | weak =>
    cases escaped with
    | true => simp [Context.advance] at hescaped
    | false =>
      simp only [Context.advance, if_neg hc] at hescaped
      split_ifs at hescaped
  | strong =>
    obtain rfl : escaped = false := hstrong rfl
    simp only [Context.advance] at hescaped
    split_ifs at hescaped

/-- Two contexts with different quotes. An escape is open in both or in none, unless one of them is
in strong quotes, where none can be. -/
inductive Apart : Context → Context → Prop where
  | plainWeak (escaped : Bool) : Apart { mode := .plain, escaped } { mode := .weak, escaped }
  | plainStrong (escaped : Bool) : Apart { mode := .plain, escaped } { mode := .strong }
  | weakStrong (escaped : Bool) : Apart { mode := .weak, escaped } { mode := .strong }
  | symm {q r : Context} : Apart q r → Apart r q

theorem Apart.ne (h : q.Apart r) : q ≠ r := by
  induction h with
  | plainWeak | plainStrong | weakStrong => simp
  | symm _ ih => exact ih.symm

/-- A context in which a quote is open, and no escape, is apart from the one outside quotes. -/
theorem apart_of_mode_ne (hescaped : r.escaped = false) (hmode : r.mode ≠ .plain) :
    Apart {} r := by
  obtain ⟨mode, escaped⟩ := r
  obtain rfl : escaped = false := hescaped
  cases mode with
  | plain => exact absurd rfl hmode
  | weak => exact .plainWeak false
  | strong => exact .plainStrong false

/-- A character keeps two contexts apart, unless it is a single quote behind a backslash. -/
theorem Apart.advance (h : q.Apart r) (hc : c = '\'' → q.escaped = false ∧ r.escaped = false) :
    (q.advance c).1.Apart (r.advance c).1 := by
  induction h with
  | plainWeak escaped =>
    cases escaped with
    | true => exact .plainWeak false
    | false =>
      simp only [Context.advance]
      split_ifs
      · exact .plainWeak true
      · exact .symm (.plainWeak false)
      · exact .symm (.weakStrong false)
      · exact .plainWeak false
  | plainStrong escaped =>
    cases escaped with
    | true =>
      have hstrong : c ≠ '\'' := by simpa using hc
      simp only [Context.advance, if_neg hstrong]
      exact .plainStrong false
    | false =>
      by_cases hstrong : c = '\''
      · subst hstrong
        exact .symm (.plainStrong false)
      · simp only [Context.advance, if_neg hstrong]
        split_ifs
        · exact .plainStrong true
        · exact .weakStrong false
        · exact .plainStrong false
  | weakStrong escaped =>
    cases escaped with
    | true =>
      have hstrong : c ≠ '\'' := by simpa using hc
      simp only [Context.advance, if_neg hstrong]
      exact .weakStrong false
    | false =>
      by_cases hstrong : c = '\''
      · subst hstrong
        exact .symm (.plainWeak false)
      · simp only [Context.advance, if_neg hstrong]
        split_ifs
        · exact .weakStrong true
        · exact .plainStrong false
        · exact .weakStrong false
  | symm _ ih => exact .symm (ih fun hstrong => (hc hstrong).symm)

/-- A text in which no single quote stands behind a backslash keeps two contexts apart. -/
theorem Apart.read (h : q.Apart r) (hq : q.Arises) (hr : r.Arises)
    (hhead : text.head? = some '\'' → q.escaped = false ∧ r.escaped = false)
    (htext : ¬ ['\\', '\''] <:+: text) : (q.read text).1.Apart (r.read text).1 := by
  induction text generalizing q r with
  | nil => exact h
  | cons c rest ih =>
    refine ih (h.advance fun hc => hhead (congrArg some hc)) (hq.advance c) (hr.advance c)
      (fun hrest => ?_) fun hinfix => htext (List.infix_cons hinfix)
    -- behind a backslash comes no single quote
    have hc : c ≠ '\\' := by
      rintro rfl
      obtain ⟨more, rfl⟩ := List.head?_eq_some_iff.1 hrest
      exact htext (List.prefix_append ['\\', '\''] more).isInfix
    exact ⟨Bool.eq_false_iff.2 fun hescaped => hc (hq.eq_of_escaped hescaped),
      Bool.eq_false_iff.2 fun hescaped => hc (hr.eq_of_escaped hescaped)⟩

/-- No escape is open behind a text that does not end in a backslash. -/
theorem Arises.escaped_read_concat (h : q.Arises) (hc : c ≠ '\\') :
    (q.read (text ++ [c])).1.escaped = false := by
  rw [read_append]
  exact Bool.eq_false_iff.2 fun hescaped => hc ((h.read text).eq_of_escaped hescaped)

end Quoting.Context

/-! ### Where a word begins -/

/-- A word begins behind a space, or with the line. -/
theorem beforeLastWord_cases (text : List Char) :
    beforeLastWord text = [] ∨ ∃ s, beforeLastWord text = s ++ [' '] := by
  cases h : text.reverse.dropWhile (· ≠ ' ') with
  | nil => exact .inl (by rw [beforeLastWord, h]; rfl)
  | cons c rest =>
    have hc := List.head?_dropWhile_not (· ≠ ' ') text.reverse
    rw [h] at hc
    obtain rfl : c = ' ' := by simpa using hc
    exact .inr ⟨rest.reverse, by rw [beforeLastWord, h, List.reverse_cons]⟩

namespace Entry

variable {e : Entry κ}

/-- The quoting where the word before the cursor begins, by all that was entered before it. -/
def atWord (e : Entry κ) : Reader := readLines (e.lines ++ [beforeLastWord e.line.before])

theorem atCursor_eq (e : Entry κ) : e.atCursor = e.atWord.feed (lastWord e.line.before) := by
  rw [atCursor, atWord, readLines, readLines, intercalate_concat, intercalate_concat,
    ← Reader.feed_append, List.append_assoc, beforeLastWord_append_lastWord]

/-- A space stands where a word begins, or a line feed, or nothing. -/
theorem escaped_atWord (e : Entry κ) : e.atWord.context.escaped = false := by
  have hfresh : ({} : Context).Arises := ⟨[], rfl⟩
  have hread : e.atWord.context = (({} : Context).read
      (e.lines.flatMap (· ++ ['\n']) ++ beforeLastWord e.line.before)).1 := by
    rw [atWord, readLines, intercalate_concat]
    rfl
  rw [hread]
  obtain hword | ⟨s, hword⟩ := beforeLastWord_cases e.line.before <;> rw [hword]
  · rw [List.append_nil]
    obtain hlines | ⟨lines, line, hlines⟩ := List.eq_nil_or_concat e.lines <;> rw [hlines]
    · rfl
    · rw [List.concat_eq_append, List.flatMap_append, List.flatMap_singleton, ← List.append_assoc]
      exact hfresh.escaped_read_concat (by decide)
  · rw [← List.append_assoc]
    exact hfresh.escaped_read_concat (by decide)

/-- What a snapshot tells of the quoting at the cursor. -/
structure TellsQuoting (e : Entry κ) : Prop where
  /-- What stands at the cursor, by the reader of the ended lines. -/
  atCursor : e.reader.feed e.line.before = e.atCursor
  /-- The snapshot tells what the word leaves if nothing is open where it begins. -/
  snapshot : e.snapshot.context = (({} : Context).read (lastWord e.line.before)).1
  /-- No escape is open where the word begins. -/
  escaped : e.atWord.context.escaped = false
  /-- If no quote is open there, the snapshot tells what stands at the cursor. -/
  eq : e.atWord.context.mode = .plain → e.snapshot.context = e.atCursor.context
  /-- If a quote is open there, it does not, but for a word with a single quote behind a
  backslash. -/
  ne : e.atWord.context.mode ≠ .plain → ¬ ['\\', '\''] <:+: lastWord e.line.before →
    e.snapshot.context ≠ e.atCursor.context

theorem InStep.tellsQuoting (h : e.InStep) : e.TellsQuoting where
  atCursor := h.feed e.line.before
  snapshot := rfl
  escaped := e.escaped_atWord
  eq hmode := by
    have hplain : e.atWord.context = {} := by
      rw [← hmode, ← e.escaped_atWord]
    rw [e.atCursor_eq, Reader.context_feed, hplain]
    rfl
  ne hmode hword := by
    have hfresh : ({} : Context).Arises := ⟨[], rfl⟩
    have hbegins : e.atWord.context.Arises := hfresh.read _
    rw [e.atCursor_eq, Reader.context_feed]
    refine ((Context.apart_of_mode_ne e.escaped_atWord hmode).read hfresh hbegins ?_ hword).ne
    exact fun _ => ⟨rfl, e.escaped_atWord⟩

end Entry

/-! ### The Tab key -/

namespace World

variable {w : World κ ν} {s : SessionId} {entry : Entry κ} {decoder : Keys.Decoder}

/-- **What the Tab key tells of the quoting.** In every reachable world in which the Tab key is the
next event of an entry with a handler of completions, it begins a completion with the snapshot of
that entry. The snapshot tells the quoting at the cursor by the word before it, wherever the cursor
stands in whatever line. -/
theorem Reachable.tells_quoting (h : Reachable w) (htab : w.Tabs s entry decoder)
    (client : Client κ ν) :
    (∃ completion, (w.step client).completions[w.completions.length]? = some completion ∧
      completion.IsFor s entry.id ∧ completion.snapshot = entry.snapshot) ∧
        ∀ line : Line, ({ entry with line } : Entry κ).TellsQuoting := by
  obtain ⟨completion, hk, hfor, hsnapshot, -⟩ := (htab.holds h.owned client).completion
  refine ⟨⟨completion, hk, hfor, hsnapshot⟩, fun line => Entry.InStep.tellsQuoting ?_⟩
  obtain ⟨session, hs, hphase, -⟩ := htab.session
  exact ((h.captured s session hs).inStep entry (by rw [hphase]; rfl)).line line

/-- A client that leaves every completion waiting. -/
private def waitingClient : Client Unit Unit where
  onLine _ _ := .done
  onComplete _ _ _ := .done
  onRead _ _ := .done
  onResize _ _ := .done

/-- A request with a handler of completions. -/
private def tabRequest : Request Unit := { prompt := ['>'], onLine := (), onComplete? := some () }

/-- A session on a connection, where a text has been dealt with and the Tab key comes next. -/
private def beforeTab (text : List Char) : World Unit Unit :=
  exec waitingClient (text.length + 3) { sessions := [{}], connections := [{}] } <|
    .andThen (.install 0 0) <|
      .andThen (.request 0 tabRequest) <|
        .ofCall (.type 0 (text ++ [Keys.tab]))

private theorem reachable_beforeTab (text : List Char) : Reachable (beforeTab text) := by
  refine Reachable.trans (Pristine.reachable ?_) (run_exec waitingClient _ _ _)
  constructor <;> simp

/-- A quote was opened on the line before, and another one in the word. -/
private def openInWord : Entry Unit where
  id := 0
  request := tabRequest
  lines := [['\'', 'a']]
  line := .ofText ['b', '\'', ' ', '"', 'c']
  reader := { context := { mode := .strong }, output := ['a', '\n'] }

/-- The world in which it is edited. -/
private def inWord : World Unit Unit :=
  beforeTab ['\'', 'a', Keys.enter, 'b', '\'', ' ', '"', 'c']

/-- The quote that is open in the word is told. -/
theorem tells_quoting_inWord :
    (Reachable inWord ∧ inWord.Tabs 0 openInWord {}) ∧
      (∃ completion,
        (inWord.step waitingClient).completions[inWord.completions.length]? = some completion ∧
          completion.IsFor 0 openInWord.id ∧ completion.snapshot = openInWord.snapshot) ∧
        ∀ line : Line, ({ openInWord with line } : Entry Unit).TellsQuoting := by
  have hreachable : Reachable inWord := reachable_beforeTab _
  have htab : inWord.Tabs 0 openInWord {} := ⟨⟨_, rfl⟩, ⟨_, rfl, rfl, rfl⟩, (), rfl⟩
  exact ⟨⟨hreachable, htab⟩, hreachable.tells_quoting htab waitingClient⟩

/-- A quote was opened before a space, and is still open in the word behind it. -/
private def openBeforeSpace : Entry Unit where
  id := 0
  request := tabRequest
  line := .ofText ['"', 'a', ' ', 'b']

/-- **A quote before a space is missed**: the Tab key tells that nothing is open at the cursor,
where a quote is. -/
theorem misses_quote_before_space :
    Reachable (beforeTab ['"', 'a', ' ', 'b']) ∧
      (beforeTab ['"', 'a', ' ', 'b']).Tabs 0 openBeforeSpace {} ∧
        openBeforeSpace.snapshot.context = {} ∧
          (openBeforeSpace.reader.feed openBeforeSpace.line.before).context = { mode := .weak } := by
  have htab : (beforeTab ['"', 'a', ' ', 'b']).Tabs 0 openBeforeSpace {} :=
    ⟨⟨_, rfl⟩, ⟨_, rfl, rfl, rfl⟩, (), rfl⟩
  exact ⟨reachable_beforeTab _, htab, by decide, by decide⟩

end World

end LineEditor
