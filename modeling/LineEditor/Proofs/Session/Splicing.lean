import LineEditor.Proofs.Quoting.Literal
import LineEditor.Proofs.Session.Capture

/-!
# A completion puts in what it says

The text of a completion is spelled for the quoting at the end of the word before the cursor, read
from the space that begins it, and not for the quoting that really stands at the cursor. Where
nothing is open at the beginning of the word, the two are the same
(`Entry.InStep.context_snapshot`). Then what was entered reads as before with the text spliced in at
the cursor (`Entry.InStep.splices`), and so it is for every pending completion, whatever has
happened since its Tab key (`World.Reachable.splices_completion`).
-/

namespace LineEditor

open Quoting (Context Reader unquote)

variable {κ ν : Type}

/-! ### Words -/

/-- What stands before the last word of a text. -/
def beforeLastWord (text : List Char) : List Char := (text.reverse.dropWhile (· ≠ ' ')).reverse

theorem beforeLastWord_append_lastWord (text : List Char) :
    beforeLastWord text ++ lastWord text = text := by
  rw [beforeLastWord, lastWord, ← List.reverse_append, List.takeWhile_append_dropWhile,
    List.reverse_reverse]

/-! ### Splicing -/

/-- What some lines leave takes literal text, unless it is an open escape in weak quotes. -/
theorem takes_readLines {lines : List (List Char)}
    (hweak : (readLines lines).context ≠ { mode := .weak, escaped := true }) :
    (readLines lines).context.Takes :=
  Context.takes_of_read (List.intercalate ['\n'] lines) hweak

namespace Entry

variable {e : Entry κ} {text : List Char}

/-- The quoting at the cursor, by all that was entered before it. -/
def atCursor (e : Entry κ) : Reader := readLines (e.lines ++ [e.line.before])

/-- In the line, text is spliced into all that was entered: `line` is the line afterwards. -/
structure Splices (e : Entry κ) (text : List Char) (terminal : Bool) (line : Line) : Prop where
  /-- The cursor stands behind what is put in, and what was before it stays. -/
  before : line.before = e.line.before ++ e.atCursor.context.literally terminal text
  /-- What is behind the cursor stays. -/
  after : line.after = e.line.after
  /-- Text within a word reads as itself, and what follows it reads as before. -/
  inner : terminal = false → e.atCursor.context.escaped = false →
    unquote (List.intercalate ['\n'] (e.lines ++ [line.text])) =
        e.atCursor.output ++ text ++ (e.atCursor.context.read e.line.after).2 ∧
      (readLines (e.lines ++ [line.text])).context =
        (readLines (e.lines ++ [e.line.text])).context
  /-- A word at the end of the line reads as itself and a space, and completes the logical line. -/
  word : terminal = true → e.line.after = [] →
    e.atCursor.context ≠ { mode := .weak, escaped := true } →
    (text ≠ [] ∨ e.atCursor.context.escaped = false) →
    unquote (List.intercalate ['\n'] (e.lines ++ [line.text])) =
        e.atCursor.output ++ text ++ [' '] ∧
      (readLines (e.lines ++ [line.text])).pending = false ∧
      ∀ history continuation, (({ e with line } : Entry κ).enter history continuation).outcome =
        .submitted (List.intercalate ['\n'] (e.lines ++ [line.text]))

/-- Where nothing is open at the beginning of the word before the cursor, the quoting at its end is
that of all that was entered. -/
theorem InStep.context_snapshot (h : e.InStep)
    (hplain : (e.reader.feed (beforeLastWord e.line.before)).context = {}) :
    e.snapshot.context = e.atCursor.context := by
  rw [atCursor, ← h.feed, ← beforeLastWord_append_lastWord e.line.before, Reader.feed_append,
    Reader.context_feed, hplain]
  rfl

/-- What was entered with a spelling put in at the cursor, read in three parts. -/
theorem InStep.readLines_insert (h : e.InStep) (s : List Char) :
    readLines (e.lines ++ [(e.line.insert s).text]) =
      ((e.atCursor.feed s).feed e.line.after) := by
  rw [atCursor, ← h.feed, ← h.feed, Line.text_insert, Reader.feed_append, Reader.feed_append]

theorem InStep.readLines_text (h : e.InStep) :
    readLines (e.lines ++ [e.line.text]) = e.atCursor.feed e.line.after := by
  have hinsert := h.readLines_insert []
  rwa [Line.insert_nil, Reader.feed_nil] at hinsert

/-- Enter submits what was entered with any other line that completes it. -/
theorem InStep.outcome_enter (h : e.InStep) {line : Line} {history : History}
    {continuation : List Char}
    (hcomplete : (readLines (e.lines ++ [line.text])).pending = false) :
    (({ e with line } : Entry κ).enter history continuation).outcome =
      .submitted (List.intercalate ['\n'] (e.lines ++ [line.text])) := by
  have hstep : ({ e with line } : Entry κ).InStep := h.line line
  rw [hstep.enter_of_complete hcomplete]

/-- Spelled for the quoting at the cursor, every text is spliced in. -/
theorem InStep.splices (h : e.InStep) (hline : '\n' ∉ text) (terminal : Bool) :
    e.Splices text terminal (e.line.insert (e.atCursor.context.literally terminal text)) where
  before := Line.before_insert ..
  after := Line.after_insert ..
  inner hterminal hescaped := by
    subst hterminal
    have hread := Context.read_literally hescaped hline
    rw [← output_readLines, h.readLines_insert, h.readLines_text]
    simp [hread]
  word hterminal hend hweak hsome := by
    subst hterminal
    have htakes : e.atCursor.context.Takes := takes_readLines hweak
    have hread := Context.read_literally_word htakes hline hsome
    have hreader := h.readLines_insert (e.atCursor.context.literally true text)
    rw [hend, Reader.feed_nil] at hreader
    have hcomplete : (readLines (e.lines ++
        [(e.line.insert (e.atCursor.context.literally true text)).text])).pending = false := by
      rw [hreader, Reader.pending, Reader.context_feed, hread]
      rfl
    refine ⟨?_, hcomplete, fun _ _ => h.outcome_enter hcomplete⟩
    rw [← output_readLines, hreader, Reader.output_feed, hread, List.append_assoc]

end Entry

/-! ### Calls -/

namespace World

variable {w : World κ ν} {k : CompletionId} {completion : Completion} {session : Session κ}
  {entry : Entry κ} {text : List Char}

theorem unsupported?_eq_none (h : ∀ ch ∈ text, 32 ≤ ch.toNat) : unsupported? text = none := by
  refine List.find?_eq_none.2 fun ch hch => ?_
  have hle := h ch hch
  simp
  omega

/-- A call for a pending completion that is waited for puts its text into the line, spelled for the
quoting that was captured. -/
theorem complete_of_waits {c : ConnectionId} (hsupported : unsupported? text = none)
    (hpending : completion.status = .pending)
    (hs : w.sessions[completion.session]? = some session) (hc : session.connection? = some c)
    (hphase : session.phase = .completing entry) (hid : entry.id = completion.entryId)
    (terminal : Bool) :
    (w.complete k completion text terminal).2 = .ok () ∧
      (w.complete k completion text terminal).1.sessions[completion.session]? =
        some { session with
          phase := .completing { entry with
            line := entry.line.insert (completion.snapshot.context.literally terminal text) } } := by
  have hwait : (w.setStatus k .inlining).waiting? completion = some (c, entry) :=
    waiting?_eq_some_iff.2 ⟨session, hs, hc, hphase, hid⟩
  rw [World.complete, hsupported]
  simp only [hpending, hwait, ne_eq, not_true_eq_false, if_false]
  split
  · -- nothing is put in
    rename_i hnothing
    obtain ⟨rfl, rfl⟩ : text = [] ∧ terminal = false := by simpa using hnothing
    refine ⟨rfl, ?_⟩
    rw [setStatus_sessions, hs, Context.literally, if_neg Bool.false_ne_true, Line.insert_nil, ← hphase]
  · refine ⟨rfl, ?_⟩
    rw [write_sessions, getElem?_sessions_changeSession, setStatus_sessions, hs]
    simp

/-- **A completion puts in what it says.** In every reachable world, while a request waits for a
pending completion and nothing is open at the beginning of the word before the cursor, a call that
completes the word is accepted, and splices its text into what was entered. -/
theorem Reachable.splices_completion (h : Reachable w) (agenda : List (Job κ ν))
    (hk : w.completions[k]? = some completion) (hpending : completion.status = .pending)
    (hs : w.sessions[completion.session]? = some session)
    (hphase : session.phase = .completing entry) (hid : entry.id = completion.entryId)
    (hplain : (entry.reader.feed (beforeLastWord entry.line.before)).context = {})
    (htext : ∀ ch ∈ text, 32 ≤ ch.toNat) (terminal : Bool) :
    ∃ line, (({ w with agenda } : World κ ν).complete k completion text terminal).2 = .ok () ∧
      (({ w with agenda } : World κ ν).complete k completion text terminal).1.sessions[
        completion.session]? = some { session with phase := .completing { entry with line } } ∧
      entry.Splices text terminal line := by
  have hstep : entry.InStep := (h.captured _ session hs).inStep entry (by rw [hphase]; rfl)
  have hcontext : completion.snapshot.context = entry.atCursor.context := by
    rw [h.snapshot_eq hk hpending hs hphase hid, hstep.context_snapshot hplain]
  obtain ⟨c, hc⟩ := Option.ne_none_iff_exists'.1
    ((h.owned _ session hs).connected (by simp [hphase]))
  have hline : '\n' ∉ text := fun hmem => absurd (htext _ hmem) (by decide)
  obtain ⟨hok, hsession⟩ := complete_of_waits (w := { w with agenda }) (k := k)
    (unsupported?_eq_none htext) hpending hs hc hphase hid terminal
  rw [hcontext] at hsession
  exact ⟨_, hok, hsession, hstep.splices hline terminal⟩

/-- A client that leaves every completion waiting. -/
private def patientClient : Client Unit Unit where
  onLine _ _ := .done
  onComplete _ _ _ := .done
  onRead _ _ := .done
  onResize _ _ := .done

/-- A session in which the Tab key was pressed behind an open quote and a letter. -/
private def quoted : World Unit Unit :=
  exec patientClient 20 { sessions := [{}], connections := [{}] } <|
    .andThen (.install 0 0) <|
      .andThen (.request 0 { prompt := ['>'], onLine := (), onComplete? := some () }) <|
        .ofCall (.type 0 ['\'', 'a', Keys.tab])

private theorem reachable_quoted : Reachable quoted := by
  refine Reachable.trans (Pristine.reachable ?_) (run_exec patientClient 20 _ _)
  constructor <;> simp

/-- The completion of the Tab key. -/
private def quotedCompletion : Completion where
  session := 0
  entryId := 0
  snapshot := { line := ['a'], word := ['a'], context := { mode := .strong } }
  size? := none

/-- The entry that waits for it. -/
private def quotedEntry : Entry Unit where
  id := 0
  request := { prompt := ['>'], onLine := (), onComplete? := some () }
  line := .ofText ['\'', 'a']

/-- Its session. -/
private def quotedSession : Session Unit := quoted.sessions.getD 0 {}

/-- A quote mark and a space are put in behind the open quote. -/
theorem splices_completion_quoted :
    (quoted.completions[0]? = some quotedCompletion ∧ quotedCompletion.status = .pending ∧
      quoted.sessions[0]? = some quotedSession ∧ quotedSession.phase = .completing quotedEntry ∧
      quotedEntry.id = quotedCompletion.entryId ∧
      (quotedEntry.reader.feed (beforeLastWord quotedEntry.line.before)).context = {} ∧
      ∀ ch ∈ ['\'', ' '], 32 ≤ ch.toNat) ∧
    ∃ line, (quoted.complete 0 quotedCompletion ['\'', ' '] true).2 = .ok () ∧
      (quoted.complete 0 quotedCompletion ['\'', ' '] true).1.sessions[0]? =
        some { quotedSession with phase := .completing { quotedEntry with line } } ∧
      quotedEntry.Splices ['\'', ' '] true line :=
  ⟨⟨by decide, rfl, rfl, rfl, rfl, by decide, by simp⟩,
    reachable_quoted.splices_completion quoted.agenda (by decide) rfl rfl rfl rfl (by decide)
      (by simp) true⟩

end World

end LineEditor
