import LineEditor.Proofs.Quoting.Insertion
import LineEditor.Proofs.Session.Holding
import LineEditor.Proofs.Shell.CommandWord

/-!
# How far the shell completes a command word

While a line has no blank, all of it is one word. Completing it at its end, the shell asks which
commands begin with what the line stands for (`Shell.Extends`): one of them is put in and the word
ended, several are put in as far as they agree (`Shell.Shares`), and where they agree on no more
than there is, they are listed. However the word is quoted, what is put in reads as what was meant,
save behind an escape that is open in weak quotes, and save that an escape keeps a word from ending
to which nothing is added.

`Shell.extends_served` says so of what the shell makes of the line, and
`World.Reachable.extends_command_word` of the steps from the Tab key to the end of its completion.
-/

namespace LineEditor

open Quoting (Context Reader unquote)
open Quoting.Context (openWeak)

variable {κ ν : Type}

/-! ### Reading a line without blanks -/

namespace Quoting

theorem Context.mem_advance {q : Context} {c d : Char} (h : d ∈ (q.advance c).2) :
    d = c ∨ d = '\\' := by
  obtain ⟨mode, escaped⟩ := q
  cases mode <;> cases escaped <;> simp only [advance] at h <;> split_ifs at h <;>
    simp_all [or_comm]

/-- What a text stands for is made of its characters and backslashes. -/
theorem Context.mem_read {q : Context} {text : List Char} {d : Char} (h : d ∈ (q.read text).2) :
    d ∈ text ∨ d = '\\' := by
  induction text generalizing q with
  | nil => cases h
  | cons c rest ih =>
    rw [read_cons] at h
    obtain h | h := List.mem_append.1 h
    · exact (mem_advance h).imp_left fun (hd : d = c) => hd ▸ List.mem_cons_self
    · exact (ih h).imp_left (List.mem_cons_of_mem c)

end Quoting

namespace Text

/-- A text without blanks is one word at most. -/
theorem wordCount_le_one {text : List Char} (h : ∀ c ∈ text, isBlank c = false) :
    wordCount text ≤ 1 := by
  refine Nat.le_of_lt_succ (Nat.not_le.1 fun htwo => ?_)
  obtain ⟨c, hc, -⟩ := (two_le_wordCount_iff text).1 htwo
  have hnone : (dropBlanks text).dropWhile (!isBlank ·) = [] := by
    refine List.dropWhile_eq_nil_iff.2 fun d hd => ?_
    rw [h d ((List.dropWhile_suffix _).subset hd)]
    rfl
  rw [cutAtBlank, hnone] at hc
  cases hc

end Text

theorem lastWord_of_space_notMem {text : List Char} (h : ' ' ∉ text) : lastWord text = text := by
  have hall : text.reverse.takeWhile (· ≠ ' ') = text.reverse := by
    refine List.takeWhile_eq_self_iff.2 fun c hc => ?_
    have hne : c ≠ ' ' := fun hspace => h (hspace ▸ List.mem_reverse.1 hc)
    simpa using hne
  rw [lastWord, hall, List.reverse_reverse]

/-! ### A line of one word -/

/-- All that was entered is one word, which stands for `word`: no line was ended before, there is no
blank, the cursor is at the end, and no escape is open in weak quotes there. -/
structure Entry.OnlyWord (e : Entry κ) (word : List Char) : Prop where
  lines : e.lines = []
  blank : ∀ c ∈ e.line.text, Text.isBlank c = false
  after : e.line.after = []
  context : (({} : Context).read e.line.text).1 ≠ openWeak
  stands : unquote e.line.text = word

namespace Entry.OnlyWord

variable {e : Entry κ} {word : List Char}

theorem before (h : e.OnlyWord word) : e.line.before = e.line.text := by
  rw [← e.line.before_append_after, h.after, List.append_nil]

/-- What the line stands for has no blank either. -/
theorem blank_word (h : e.OnlyWord word) : ∀ c ∈ word, Text.isBlank c = false := by
  intro c hc
  obtain hmem | rfl := Context.mem_read (h.stands ▸ hc : c ∈ unquote e.line.text)
  · exact h.blank c hmem
  · decide

/-- The word is all that a completion is asked for. -/
theorem snapshot_eq (h : e.OnlyWord word) (hstep : e.InStep) :
    e.snapshot = { line := word, word, context := (({} : Context).read e.line.text).1 } := by
  have hreader : e.reader = {} := by
    rw [hstep, h.lines]
    rfl
  have hspace : ' ' ∉ e.line.before := fun hmem =>
    absurd (h.blank ' ' (h.before ▸ hmem)) (by decide)
  rw [snapshot, hreader, lastWord_of_space_notMem hspace, h.before, Reader.output_feed_empty,
    h.stands]
  rfl

/-- Put in at the end, a text reads behind the word. An escape needs a character. -/
theorem read_insert (h : e.OnlyWord word) {text : List Char} (htext : ∀ c ∈ text, 32 ≤ c.toNat)
    (hsome : (({} : Context).read e.line.text).1.escaped = false ∨ text ≠ []) (terminal : Bool) :
    ({} : Context).read
        (e.line.insert ((({} : Context).read e.line.text).1.literally terminal text)).text =
      (if terminal then {} else { (({} : Context).read e.line.text).1 with escaped := false },
        word ++ text ++ if terminal then [' '] else []) := by
  have hline : '\n' ∉ text := fun hmem => absurd (htext _ hmem) (by decide)
  have hread := Context.read_literally_of_takes (Context.takes_of_read e.line.text h.context) hline
    hsome terminal
  rw [Line.text_insert, h.after, List.append_nil, h.before, Context.read_append, hread, ← h.stands,
    List.append_assoc]
  rfl

end Entry.OnlyWord

namespace Shell

/-- What the shell makes of the line of an entry, and what it writes, when the line is a single word
that stands for `word` and with which `words` of the commands begin. -/
structure Extends (words : List (List Char)) (word : List Char) (entry : Entry κ) (line : Line)
    (output : List Char) : Prop where
  /-- At most something is put in at the end. -/
  inserted : ∃ s, line = entry.line.insert s
  /-- Without a command nothing happens. -/
  nothing : words = [] → line = entry.line ∧ output = []
  /-- A single command is put in, and ended so that nothing is open. -/
  single : ∀ command, words = [command] →
    unquote line.text = command ++ [' '] ∧ (({} : Reader).feed line.text).pending = false ∧
      output = entry.line.redraw line
  /-- Of several, what they share is put in, if this is longer than the word, -/
  several : ∀ shared, 2 ≤ words.length → Shares words shared → word.length < shared.length →
    unquote line.text = shared ∧ output = entry.line.redraw line
  /-- and otherwise they are listed below, before the prompt and the line as they were. -/
  listed : ∀ shared, 2 ≤ words.length → Shares words shared → shared.length ≤ word.length →
    line = entry.line ∧ output = newRow ++ List.intercalate [' ', ' '] words ++
      (entry.request.prompt ++ entry.line.text)

variable {entry : Entry κ} {word shared : List Char} {words : List (List Char)}

theorem extends_nothing (entry : Entry κ) (word : List Char) :
    Extends [] word entry entry.line [] where
  inserted := ⟨[], entry.line.insert_nil.symm⟩
  nothing _ := ⟨rfl, rfl⟩
  single _ := nofun
  several _ htwo := absurd htwo (by decide)
  listed _ htwo := absurd htwo (by decide)

/-- The rest of the only command, and the end of the word. -/
theorem extends_single (h : entry.OnlyWord word) {command : List Char} (hmem : command ∈ commands)
    (hbegins : word <+: command)
    (hwhole : (({} : Context).read entry.line.text).1.escaped = true → word ∉ commands)
    {line : Line} (hline : line = entry.line.insert
      ((({} : Context).read entry.line.text).1.literally true (remainder command word))) :
    Extends [command] word entry line (entry.line.redraw line) := by
  have hsome : (({} : Context).read entry.line.text).1.escaped = false ∨
      remainder command word ≠ [] := by
    by_contra hneither
    push Not at hneither
    have hall := append_remainder hbegins
    rw [hneither.2, List.append_nil] at hall
    exact hwhole (by simpa using hneither.1) (hall ▸ hmem)
  have htext : ∀ c ∈ remainder command word, 32 ≤ c.toNat := fun c hc =>
    le_toNat_of_mem_command hmem c (List.mem_of_mem_drop hc)
  have hread := h.read_insert htext hsome true
  rw [← hline, if_pos rfl, if_pos rfl, append_remainder hbegins] at hread
  refine ⟨⟨_, hline⟩, nofun, ?_, fun _ htwo => ?_, fun _ htwo => ?_⟩
  · rintro _ ⟨⟩
    refine ⟨congrArg Prod.snd hread, ?_, rfl⟩
    rw [Reader.pending, Reader.context_feed, hread]
    rfl
  · exact absurd htwo (by simp)
  · exact absurd htwo (by simp)

/-- The rest of what several commands share. -/
theorem extends_several (h : entry.OnlyWord word) (htwo : 2 ≤ words.length)
    (hwords : ∀ command ∈ words, command ∈ commands ∧ word <+: command)
    (hshares : Shares words shared) (hlonger : word.length < shared.length) {line : Line}
    (hline : line = entry.line.insert
      ((({} : Context).read entry.line.text).1.literally false (remainder shared word))) :
    Extends words word entry line (entry.line.redraw line) := by
  obtain ⟨command, hcommand⟩ := List.exists_mem_of_length_pos (Nat.lt_of_lt_of_le Nat.two_pos htwo)
  have hbegins : word <+: shared := (hshares word).2 fun other hother => (hwords other hother).2
  have hshared : shared <+: command := (hshares shared).1 List.prefix_rfl command hcommand
  have hsome : remainder shared word ≠ [] := fun hnil =>
    absurd (List.drop_eq_nil_iff.1 hnil) (Nat.not_le.2 hlonger)
  have htext : ∀ c ∈ remainder shared word, 32 ≤ c.toNat := fun c hc =>
    le_toNat_of_mem_command (hwords command hcommand).1 c (hshared.subset (List.mem_of_mem_drop hc))
  have hread := h.read_insert htext (.inr hsome) false
  rw [← hline, if_neg Bool.false_ne_true, if_neg Bool.false_ne_true, List.append_nil,
    append_remainder hbegins] at hread
  refine ⟨⟨_, hline⟩, ?_, ?_, ?_, ?_⟩
  · rintro rfl
    exact absurd htwo (by decide)
  · rintro _ rfl
    exact absurd htwo (by simp)
  · exact fun other _ hother _ => ⟨hother.unique hshares ▸ congrArg Prod.snd hread, rfl⟩
  · exact fun other _ hother hshorter =>
      absurd (hother.unique hshares ▸ hshorter) (Nat.not_le.2 hlonger)

/-- The list of several commands that share no more than there is. -/
theorem extends_listed (h : entry.OnlyWord word) (htwo : 2 ≤ words.length)
    (hshares : Shares words shared) (hshorter : shared.length ≤ word.length)
    (continuation : List Char) :
    Extends words word entry entry.line
      (newRow ++ List.intercalate [' ', ' '] words ++
        (entry.prompt continuation ++ Line.empty.redraw entry.line)) := by
  refine ⟨⟨[], entry.line.insert_nil.symm⟩, ?_, ?_, ?_, ?_⟩
  · rintro rfl
    exact absurd htwo (by decide)
  · rintro _ rfl
    exact absurd htwo (by simp)
  · exact fun other _ hother hlonger =>
      absurd (hother.unique hshares ▸ hlonger) (Nat.not_lt.2 hshorter)
  · intro other _ _ _
    have hline : Line.empty.redraw entry.line = entry.line.text := by
      rw [Line.redraw_empty, h.after]
      exact List.append_nil _
    rw [Entry.prompt, h.lines, hline]
    exact ⟨rfl, rfl⟩

/-- **What the shell does with the only word of a line.** -/
theorem extends_served (h : entry.OnlyWord word) (hstep : entry.InStep)
    (hwhole : (({} : Context).read entry.line.text).1.escaped = true → word ∉ commands)
    (continuation : List Char) :
    Extends (commands.filter (word.isPrefixOf ·)) word entry
      (served continuation entry entry.snapshot).1
      (served continuation entry entry.snapshot).2 := by
  have hcandidates : candidates word word = commands.filter (word.isPrefixOf ·) := by
    rw [candidates, if_pos (Text.wordCount_le_one h.blank_word)]
  have hwords : ∀ command ∈ commands.filter (word.isPrefixOf ·),
      command ∈ commands ∧ word <+: command := by
    simp
  rw [h.snapshot_eq hstep, served, offer, hcandidates]
  generalize commands.filter (word.isPrefixOf ·) = words at hwords
  rcases words with _ | ⟨command, _ | ⟨next, words⟩⟩
  · exact extends_nothing entry word
  · obtain ⟨hmem, hbegins⟩ := hwords command List.mem_cons_self
    exact extends_single h hmem hbegins hwhole rfl
  · have htwo : 2 ≤ (command :: next :: words).length := by simp
    have hshares := shares_sharedPrefix (List.cons_ne_nil command (next :: words))
    dsimp only
    split_ifs with hlonger
    · exact extends_several h htwo hwords hshares hlonger rfl
    · exact extends_listed h htwo hshares (Nat.not_lt.1 hlonger) continuation

end Shell

/-! ### From the Tab key to the end of the completion -/

namespace World

variable {client : Client κ ν} {w : World κ ν} {s : SessionId} {entry : Entry κ}
  {decoder : Keys.Decoder} {word : List Char}

/-- The Tab key has the handler run for a completion that the entry waits for, and nothing else is
set in motion or written. -/
theorem Tabs.suspends (h : w.Tabs s entry decoder) (howned : Owned w) (client : Client κ ν) :
    ∃ (handler : κ) (session : Session κ) (c : ConnectionId) (v : World κ ν)
        (completion : Completion), entry.request.onComplete? = some handler ∧
      w.sessions[s]? = some session ∧ session.connection? = some c ∧
      completion =
        { session := s, entryId := entry.id, snapshot := entry.snapshot, size? := session.size? } ∧
      w.step client =
        v.push (.run (client.onComplete handler w.completions.length completion)) ∧
      v.Suspended w.completions.length completion
        { session with phase := .completing entry, decoder } entry c ∧
      v.agenda = w.agenda ∧ ∀ d, v.written d = w.written d := by
  obtain ⟨rest, session, c, handler, _, hagenda, hs, hc, hhandler, rfl, hstep⟩ :=
    h.exists_step howned client
  have hs' : ({ w with agenda := rest } : World κ ν).sessions[s]? = some session := hs
  refine ⟨handler, session, c, _, _, hhandler, hs, hc, rfl, hstep, ⟨?_, ?_, hc, rfl, rfl⟩, ?_,
    fun d => ?_⟩
  · exact List.getElem?_concat_length
  · simp only [log_sessions, afterEvent_sessions, getElem?_sessions_changeSession, hs']
    simp [Entry.complete]
  · rw [hagenda]
    exact afterEvent_agenda ..
  · have hafter : (({ w with agenda := rest } : World κ ν).afterEvent s c
        (entry.complete session.history) decoder (.completing entry)).written d = w.written d := by
      rw [written_afterEvent, Entry.complete, ite_self, List.append_nil]
      rfl
    rw [written_log, ← hafter]
    exact List.append_nil _

/-- **The shell extends the command word.** -/
theorem Reachable.extends_command_word (h : Reachable w) (htabs : w.Tabs s entry decoder)
    (hword : entry.OnlyWord word)
    (hwhole : (({} : Context).read entry.line.text).1.escaped = true → word ∉ Shell.commands)
    (hshell : ∀ handler, entry.request.onComplete? = some handler → ∀ k completion,
      client.onComplete handler k completion = Shell.completeCommand k completion.snapshot) :
    ∃ (session : Session κ) (v : World κ ν) (line : Line) (output : List Char),
      w.sessions[s]? = some session ∧ Within client 4 w v ∧
      v.agenda = w.agenda ∧
      v.completions[w.completions.length]? = some
        { session := s, entryId := entry.id, snapshot := entry.snapshot, size? := session.size?,
          status := .completed } ∧
      v.sessions[s]? = some { session with phase := .editing { entry with line }, decoder } ∧
      (∀ d, v.written d = w.written d ++ if session.connection? = some d then output else []) ∧
      Shell.Extends (Shell.commands.filter (word.isPrefixOf ·)) word entry line output := by
  obtain ⟨handler, session, c, v, completion, hhandler, hs, hc, rfl, hstep, hsuspended, hagenda,
    hwritten⟩ := htabs.suspends h.owned client
  obtain ⟨v', hwithin, hconcludes⟩ := hsuspended.within_completeCommand rfl client
  rw [hshell handler hhandler] at hstep
  obtain ⟨rest, hjob⟩ := htabs.agenda
  have hinStep : entry.InStep := by
    obtain ⟨session', hs', hphase, -⟩ := htabs.session
    exact (h.captured s session' hs').inStep entry (by rw [hphase]; rfl)
  refine ⟨session, v', _, _, hs, (Within.one hjob hstep).trans hwithin,
    hconcludes.agenda.trans hagenda, hconcludes.completion_eq, hconcludes.session_eq, fun d => ?_,
    Shell.extends_served hword hinStep hwhole session.continuation⟩
  rw [hconcludes.written, hwritten, hc]
  simp only [Option.some_inj]

/-- A client that completes as the shell does. -/
private def completingClient : Client Unit Unit where
  onLine _ _ := .done
  onComplete _ k completion := Shell.completeCommand k completion.snapshot
  onRead _ _ := .done
  onResize _ _ := .done

/-- The beginning of a command, behind an opening quote. -/
private def halfWord : List Char := ['"', 'e', 'c']

/-- The entry of it. -/
private def halfEntry : Entry Unit where
  id := 0
  request := { prompt := ['%', ' '], onLine := (), onComplete? := some () }
  line := .ofText halfWord

/-- A session in which it was typed, and which is about to handle the Tab key. -/
private def halfTyped : World Unit Unit :=
  exec completingClient (halfWord.length + 3) { sessions := [{}], connections := [{}] } <|
    .andThen (.install 0 0) <|
      .andThen (.request 0 halfEntry.request) <|
        .ofCall (.type 0 (halfWord ++ [Keys.tab]))

private theorem reachable_halfTyped : Reachable halfTyped := by
  refine Reachable.trans (Pristine.reachable ?_) (run_exec completingClient _ _ _)
  constructor <;> simp

/-- A word is completed behind an opening quote. -/
theorem extends_command_word_quoted :
    (Reachable halfTyped ∧ halfTyped.Tabs 0 halfEntry {} ∧ halfEntry.OnlyWord ['e', 'c'] ∧
      ((({} : Context).read halfEntry.line.text).1.escaped = true →
        ['e', 'c'] ∉ Shell.commands) ∧
      ∀ handler, halfEntry.request.onComplete? = some handler → ∀ k completion,
        completingClient.onComplete handler k completion =
          Shell.completeCommand k completion.snapshot) ∧
    ∃ (session : Session Unit) (v : World Unit Unit) (line : Line) (output : List Char),
      halfTyped.sessions[0]? = some session ∧ Within completingClient 4 halfTyped v ∧
      v.agenda = halfTyped.agenda ∧
      v.completions[halfTyped.completions.length]? = some
        { session := 0, entryId := halfEntry.id, snapshot := halfEntry.snapshot,
          size? := session.size?, status := .completed } ∧
      v.sessions[0]? = some
        { session with phase := .editing { halfEntry with line }, decoder := {} } ∧
      (∀ d, v.written d =
        halfTyped.written d ++ if session.connection? = some d then output else []) ∧
      Shell.Extends (Shell.commands.filter (['e', 'c'].isPrefixOf ·)) ['e', 'c'] halfEntry line
        output := by
  have htabs : halfTyped.Tabs 0 halfEntry {} :=
    ⟨⟨_, rfl⟩, ⟨halfTyped.sessions.getD 0 {}, rfl, rfl, rfl⟩, ⟨(), rfl⟩⟩
  have hword : halfEntry.OnlyWord ['e', 'c'] := {
    lines := rfl
    blank := by
      have hall : halfEntry.line.text.all (!Text.isBlank ·) = true := by decide
      simpa using hall
    after := rfl
    context := by decide
    stands := by decide }
  have hwhole : (({} : Context).read halfEntry.line.text).1.escaped = true →
      ['e', 'c'] ∉ Shell.commands := by decide
  exact ⟨⟨reachable_halfTyped, htabs, hword, hwhole, fun _ _ _ _ => rfl⟩,
    reachable_halfTyped.extends_command_word htabs hword hwhole fun _ _ _ _ => rfl⟩

end World

end LineEditor
