import LineEditor.Proofs.Application.Stage
import LineEditor.Proofs.Session.Splicing
import LineEditor.Proofs.Shell.SharedPrefix

/-!
# Where the shell completes

The shell completes commands, and it should do so in the command word alone. What it looks at are
two words of different kinds. Whether the line goes on behind its command word is told by counting
words between blanks (`Text.two_le_wordCount_iff`); what the commands are compared with is the text
between the last space and the cursor. A blank behind the command word ends it, but it begins no
further word before something else than a blank follows. Until then commands are offered, and behind
a space it is all of them.

`World.Reachable.completes_command_word` says when the line and the terminal are left alone, and
that the completion ends in every case, and `World.lists_behind_command_word` that a space behind
the command word is not enough.
-/

namespace LineEditor

open Quoting (unquote)

variable {κ ν : Type}

/-! ### Counting words -/

namespace Text

theorem wordCount_dropBlanks (text : List Char) : wordCount (dropBlanks text) = wordCount text := by
  induction text with
  | nil => rfl
  | cons c rest ih =>
    cases hc : isBlank c with
    | true =>
      have hcount : wordCount (c :: rest) = wordCount rest := by simp [wordCount, countWords, hc]
      rw [hcount, ← ih, dropBlanks, List.dropWhile_cons_of_pos hc]
      rfl
    | false => rw [dropBlanks, List.dropWhile_cons_of_neg (by simp [hc])]

/-- Within a word, the words that follow it are those behind the first blank. -/
theorem countWords_true (text : List Char) :
    countWords true text = wordCount (cutAtBlank text).2 := by
  induction text with
  | nil => rfl
  | cons c rest ih =>
    cases hc : isBlank c with
    | true => simp [countWords, cutAtBlank, wordCount, hc]
    | false => simpa [countWords, cutAtBlank, hc] using ih

/-- There is a word exactly if there is something else than blanks. -/
theorem wordCount_pos_iff (text : List Char) :
    0 < wordCount text ↔ ∃ c ∈ text, isBlank c = false := by
  induction text with
  | nil => simp [wordCount, countWords]
  | cons c rest ih =>
    cases hc : isBlank c with
    | true => simpa [wordCount, countWords, hc] using ih
    | false => simp [wordCount, countWords, hc]

/-- There is another word behind the first one exactly if there is something else than blanks behind
the blank that ends it. -/
theorem two_le_wordCount_iff (text : List Char) :
    2 ≤ wordCount text ↔ ∃ c ∈ (cutAtBlank (dropBlanks text)).2, isBlank c = false := by
  rw [← wordCount_pos_iff, ← wordCount_dropBlanks]
  cases htext : dropBlanks text with
  | nil => decide
  | cons c rest =>
    have hc : isBlank c = false := by
      have hhead := List.head?_dropWhile_not isBlank text
      rw [← dropBlanks, htext] at hhead
      simpa using hhead
    have hrest : (cutAtBlank (c :: rest)).2 = (cutAtBlank rest).2 := by simp [cutAtBlank, hc]
    have hcount : wordCount (c :: rest) = countWords true rest + 1 := by
      simp [wordCount, countWords, hc]
    rw [hrest, hcount, countWords_true]
    omega

end Text

/-! ### What is offered -/

namespace Shell

variable {line word : List Char}

/-- What follows the command word of a line, without the blank that ends it. -/
def afterCommand (line : List Char) : List Char := (Text.cutAtBlank (Text.dropBlanks line)).2

/-- The completion of a word is out of place: another word follows the command word, or no command
begins with it. -/
def OutOfPlace (line word : List Char) : Prop :=
  (∃ c ∈ afterCommand line, Text.isBlank c = false) ∨ ∀ command ∈ commands, ¬ word <+: command

theorem candidates_eq_nil_iff : candidates line word = [] ↔ OutOfPlace line word := by
  rw [OutOfPlace, afterCommand, ← Text.two_le_wordCount_iff, candidates]
  split
  next hfirst => simp [Nat.not_le.2 (Nat.lt_succ_of_le hfirst)]
  next hmore =>
    have htwo : 2 ≤ Text.wordCount line := Nat.not_le.1 hmore
    simp [htwo]

/-- Nothing is offered where it would be out of place. -/
theorem offer_eq_nothing_iff : offer line word = .nothing ↔ OutOfPlace line word := by
  rw [← candidates_eq_nil_iff, offer]
  split
  next hnil => simp [hnil]
  next hone => simp [hone]
  next hsome _ =>
    refine iff_of_false ?_ hsome
    dsimp only
    split <;> exact nofun

/-- With blanks alone behind the command word, an empty word lists all commands. -/
theorem offer_nil (h : ∀ c ∈ afterCommand line, Text.isBlank c = true) :
    offer line [] = .listing (List.intercalate [' ', ' '] commands) := by
  have hcount : ¬ 2 ≤ Text.wordCount line := by
    rw [Text.two_le_wordCount_iff]
    rintro ⟨c, hc, hblank⟩
    rw [h c hc] at hblank
    cases hblank
  have hall : candidates line [] = commands := by
    rw [candidates, if_pos (by omega)]
    rfl
  rw [offer, hall]
  rfl

/-! ### What is offered is put in -/

/-- No command has a control code. -/
theorem le_toNat_of_mem_command {command : List Char} (h : command ∈ commands) :
    ∀ c ∈ command, 32 ≤ c.toNat := by
  intro c hc
  have hall : commands.all (·.all (decide <| 32 ≤ ·.toNat)) = true := by decide
  exact of_decide_eq_true (List.all_eq_true.1 (List.all_eq_true.1 hall command h) c hc)

theorem mem_commands_of_mem_candidates {command : List Char} (h : command ∈ candidates line word) :
    command ∈ commands := by
  rw [candidates] at h
  split at h
  · exact List.mem_of_mem_filter h
  · cases h

/-- A text that is offered has no control code, so that it may be put in. -/
theorem le_toNat_of_mem_offer {text : List Char} {terminal : Bool}
    (h : offer line word = .insertion text terminal) : ∀ c ∈ text, 32 ≤ c.toNat := by
  have hdrop : ∀ {shared command : List Char}, shared ⊆ command → command ∈ candidates line word →
      ∀ c ∈ remainder shared word, 32 ≤ c.toNat := fun hsubset hmem c hc =>
    le_toNat_of_mem_command (mem_commands_of_mem_candidates hmem) c
      (hsubset (List.mem_of_mem_drop hc))
  rw [offer] at h
  split at h
  next => cases h
  next only hone =>
    cases h
    exact hdrop (List.Subset.refl only) (by rw [hone]; exact List.mem_cons_self)
  next hsome _ =>
    dsimp only at h
    split at h
    · cases h
      obtain ⟨first, rest, hcandidates⟩ := List.exists_cons_of_ne_nil hsome
      rw [hcandidates] at hdrop ⊢
      exact hdrop (sharedPrefix_begins first rest).subset List.mem_cons_self
    · cases h

/-- A text that is offered and does not end the word is not empty. -/
theorem ne_nil_of_offer {text : List Char} (h : offer line word = .insertion text false) :
    text ≠ [] := by
  rw [offer] at h
  split at h
  next => cases h
  next => cases h
  next =>
    dsimp only at h
    split at h
    next hlonger =>
      cases h
      exact fun hnil => Nat.not_le.2 hlonger (List.drop_eq_nil_iff.1 hnil)
    next => cases h

/-- Something is put in for what is offered, if no escape is open there. -/
theorem literally_ne_nil_of_offer {text : List Char} {terminal : Bool}
    (h : offer line word = .insertion text terminal) {q : Quoting.Context}
    (hescaped : q.escaped = false) : q.literally terminal text ≠ [] := by
  have hline : '\n' ∉ text := fun hmem => absurd (le_toNat_of_mem_offer h _ hmem) (by decide)
  intro hnil
  cases terminal with
  | true =>
    have hread := Quoting.Context.read_literally_word
      (Quoting.Context.takes_of_not_escaped hescaped) hline (.inr hescaped)
    rw [hnil] at hread
    simp at hread
  | false =>
    have hread := Quoting.Context.read_literally hescaped hline
    rw [hnil] at hread
    exact ne_nil_of_offer h (congrArg Prod.snd hread).symm

/-- What the shell makes of the line of an entry when it completes the word of a snapshot, and what
is written. -/
def served (continuation : List Char) (entry : Entry κ) (snapshot : Snapshot) : Line × List Char :=
  match offer snapshot.line snapshot.word with
  | .nothing => (entry.line, [])
  | .insertion text terminal =>
    let line := entry.line.insert (snapshot.context.literally terminal text)
    (line, entry.line.redraw line)
  | .listing text =>
    (entry.line, newRow ++ text ++ (entry.prompt continuation ++ Line.empty.redraw entry.line))

variable {continuation : List Char} {entry : Entry κ} {snapshot : Snapshot}

/-- At most something is put in at the cursor. -/
theorem exists_served_eq (continuation : List Char) (entry : Entry κ) (snapshot : Snapshot) :
    ∃ s, (served continuation entry snapshot).1 = entry.line.insert s := by
  rw [served]
  split
  · exact ⟨[], entry.line.insert_nil.symm⟩
  · exact ⟨_, rfl⟩
  · exact ⟨[], entry.line.insert_nil.symm⟩

theorem served_of_outOfPlace (h : OutOfPlace snapshot.line snapshot.word) :
    served continuation entry snapshot = (entry.line, []) := by
  rw [served, offer_eq_nothing_iff.2 h]

theorem served_ne (h : ¬ OutOfPlace snapshot.line snapshot.word)
    (hescaped : snapshot.context.escaped = false) :
    served continuation entry snapshot ≠ (entry.line, []) := by
  rw [served]
  cases hoffer : offer snapshot.line snapshot.word with
  | nothing => exact absurd (offer_eq_nothing_iff.1 hoffer) h
  | insertion text terminal =>
    -- what is put in moves the cursor
    intro hsame
    have hbefore := congrArg (fun line : Line => line.before.length) (congrArg Prod.fst hsame)
    simp [Line.before_insert, literally_ne_nil_of_offer hoffer hescaped] at hbefore
  | listing text => simp [newRow]

theorem served_of_nil (hblank : ∀ c ∈ afterCommand snapshot.line, Text.isBlank c = true)
    (hword : snapshot.word = []) :
    served continuation entry snapshot =
      (entry.line, newRow ++ List.intercalate [' ', ' '] commands ++
        (entry.prompt continuation ++ Line.empty.redraw entry.line)) := by
  rw [served, hword, offer_nil hblank]

end Shell

/-! ### Completing -/

namespace World

variable {client : Client κ ν} {w : World κ ν} {k : CompletionId} {completion : Completion}
  {session : Session κ} {entry : Entry κ} {c : ConnectionId}

/-- A request waits for a completion on a connection. -/
structure Suspended (w : World κ ν) (k : CompletionId) (completion : Completion)
    (session : Session κ) (entry : Entry κ) (c : ConnectionId) : Prop where
  completion_eq : w.completions[k]? = some completion
  session_eq : w.sessions[completion.session]? = some session
  connection : session.connection? = some c
  phase : session.phase = .completing entry
  entryId : entry.id = completion.entryId

/-- From `w` to `v` a completion has ended. The request edits `entry` again, and `output` has been
written to its connection, and nothing else to any other. -/
structure Concludes (w v : World κ ν) (k : CompletionId) (completion : Completion)
    (session : Session κ) (entry : Entry κ) (c : ConnectionId) (output : List Char) : Prop where
  agenda : v.agenda = w.agenda
  completion_eq : v.completions[k]? = some { completion with status := .completed }
  session_eq : v.sessions[completion.session]? = some { session with phase := .editing entry }
  written : ∀ d, v.written d = w.written d ++ if c = d then output else []

/-- Client code makes a call on a completion, and goes on. -/
theorem within_act (client : Client κ ν) (call : Call κ ν) {act : Act}
    (hact : call.act? = some (some k, act)) (hk : w.completions[k]? = some completion)
    (next : Answer → Program κ ν) :
    Within client 1 (w.push (.run (.call call next)))
      ((act.result w k completion).1.push
        (.run (next (answerOf (act.result w k completion).2)))) := by
  have hperform : w.perform client call next = _ := perform_of_act? hact next
  rw [onCompletion, completionId, Option.getD_some, hk] at hperform
  exact .one rfl hperform

theorem Suspended.waiting? (h : w.Suspended k completion session entry c) :
    w.waiting? completion = some (c, entry) :=
  waiting?_eq_some_iff.2 ⟨session, h.session_eq, h.connection, h.phase, h.entryId⟩

/-- The end of a completion that a request waits for. -/
theorem Suspended.within_finish (h : w.Suspended k completion session entry c)
    (hopen : completion.status ≠ .completed) (client : Client κ ν) :
    Within client 2 (w.push (.run (.ofCall (.finish (some k)))))
      (w.resumed k completion session entry) := by
  have hcall := within_act client (.finish (some k)) rfl h.completion_eq fun _ => .done
  rw [Act.result, finish_of_waits hopen h.session_eq h.phase h.entryId] at hcall
  exact hcall.trans (.one rfl rfl)

theorem Suspended.concludes (h : w.Suspended k completion session entry c) :
    Concludes w (w.resumed k completion session entry) k completion session entry c
      (completion.redrawing session entry) where
  agenda := by simp [resumed]
  completion_eq := by simp [getElem?_completions_setStatus, h.completion_eq]
  session_eq := by simp [resumed, getElem?_sessions_changeSession, h.session_eq]
  written d := by simp [resumed, h.connection]

/-- What has been done before a completion is concluded. -/
theorem Concludes.after {v v' : World κ ν} {status : Status} {phase : Phase κ}
    {output further : List Char}
    (h : Concludes v v' k { completion with status } { session with phase } entry c further)
    (hagenda : v.agenda = w.agenda)
    (hwritten : ∀ d, v.written d = w.written d ++ if c = d then output else []) :
    Concludes w v' k completion session entry c (output ++ further) where
  agenda := h.agenda.trans hagenda
  completion_eq := h.completion_eq
  session_eq := h.session_eq
  written d := by
    rw [h.written, hwritten, List.append_assoc]
    split <;> rfl

/-- Text is put in for a completion, and the request goes on waiting. -/
theorem Suspended.complete (h : w.Suspended k completion session entry c)
    (hpending : completion.status = .pending) {text : List Char}
    (hsupported : unsupported? text = none) (terminal : Bool) {line : Line}
    (hline : line = entry.line.insert (completion.snapshot.context.literally terminal text)) :
    (w.complete k completion text terminal).1.Suspended k { completion with status := .inlining }
        { session with phase := .completing { entry with line } } { entry with line } c ∧
      (w.complete k completion text terminal).1.agenda = w.agenda ∧
        ∀ d, (w.complete k completion text terminal).1.written d =
          w.written d ++ if c = d then entry.line.redraw line else [] := by
  have hpasses : (Act.complete text terminal).Passes completion.status := ⟨hsupported, hpending⟩
  have hcompletions : (w.complete k completion text terminal).1.completions =
      (w.setStatus k .inlining).completions := (Act.result_of_passes hpasses).1
  have hsession := (complete_of_waits (k := k) hsupported hpending h.session_eq h.connection h.phase
    h.entryId terminal).2
  rw [← hline] at hsession
  refine ⟨⟨?_, hsession, h.connection, rfl, h.entryId⟩, ?_⟩
  · rw [hcompletions, getElem?_completions_setStatus, h.completion_eq]
    simp
  · have hwait : (w.setStatus k .inlining).waiting? completion = some (c, entry) := h.waiting?
    rw [World.complete, hsupported]
    simp only [hpending, hwait, ne_eq, not_true_eq_false, if_false]
    split
    · -- nothing is put in, and nothing written
      rename_i hnothing
      obtain ⟨rfl, rfl⟩ : text = [] ∧ terminal = false := by simpa using hnothing
      have hsame : line = entry.line := by
        rw [hline, Quoting.Context.literally, if_neg Bool.false_ne_true, Line.insert_nil]
      simp [hsame, Line.redraw_self]
    · simp [hline]

/-- Suggestions are listed, and the request goes on waiting. -/
theorem Suspended.suggest (h : w.Suspended k completion session entry c)
    (hpending : completion.status = .pending) (text : List Char) :
    (w.suggest k completion text).1.Suspended k { completion with status := .completing } session
        entry c ∧
      (w.suggest k completion text).1.agenda = w.agenda ∧
        ∀ d, (w.suggest k completion text).1.written d =
          w.written d ++ if c = d then newRow ++ text else [] := by
  have hwait : (w.setStatus k .completing).waiting? completion = some (c, entry) := h.waiting?
  have hsuggest : (w.suggest k completion text).1 =
      (w.setStatus k .completing).write c (newRow ++ text) := by
    rw [World.suggest, if_pos (.inl hpending)]
    dsimp only
    rw [hwait]
    dsimp only
    rw [if_pos hpending]
  rw [hsuggest]
  refine ⟨⟨?_, ?_, h.connection, h.phase, h.entryId⟩, ?_, fun d => ?_⟩
  · simp [getElem?_completions_setStatus, h.completion_eq]
  · rw [write_sessions, setStatus_sessions, h.session_eq]
  · rw [write_agenda, setStatus_agenda]
  · rw [written_write, written_setStatus]

/-- **What the shell does** with a completion that a request waits for. -/
theorem Suspended.within_completeCommand (h : w.Suspended k completion session entry c)
    (hpending : completion.status = .pending) (client : Client κ ν) :
    ∃ v, Within client 3 (w.push (.run (Shell.completeCommand k completion.snapshot))) v ∧
      Concludes w v k completion session
        { entry with line := (Shell.served session.continuation entry completion.snapshot).1 } c
        (Shell.served session.continuation entry completion.snapshot).2 := by
  unfold Shell.completeCommand Shell.served
  dsimp only
  cases hoffer : Shell.offer completion.snapshot.line completion.snapshot.word with
  | nothing =>
    have hconcludes := h.concludes
    rw [Completion.redrawing, if_neg (by simp [hpending])] at hconcludes
    exact ⟨_, (h.within_finish (by simp [hpending]) client).mono (by decide), hconcludes⟩
  | insertion text terminal =>
    obtain ⟨hsuspended, hagenda, hwritten⟩ := h.complete hpending
      (unsupported?_eq_none (Shell.le_toNat_of_mem_offer hoffer)) terminal rfl
    have hcall := within_act client (.complete (some k) text terminal) rfl h.completion_eq
      fun _ => .ofCall (.finish (some k))
    refine ⟨_, hcall.trans (hsuspended.within_finish (by simp) client), ?_⟩
    have hconcludes := hsuspended.concludes.after hagenda hwritten
    rwa [Completion.redrawing, if_neg (by simp), List.append_nil] at hconcludes
  | listing text =>
    obtain ⟨hsuspended, hagenda, hwritten⟩ := h.suggest hpending text
    have hcall := within_act client (.suggest (some k) text) rfl h.completion_eq
      fun _ => .ofCall (.finish (some k))
    refine ⟨_, hcall.trans (hsuspended.within_finish (by simp) client), ?_⟩
    have hconcludes : Concludes w _ k completion session entry c _ :=
      hsuspended.concludes.after hagenda hwritten
    rwa [Completion.redrawing, if_pos (by simp [h.connection])] at hconcludes

/-- The line of a request and what was written are as before. -/
def Unchanged (w v : World κ ν) (s : SessionId) (session : Session κ) (entry : Entry κ) : Prop :=
  v.sessions[s]? = some { session with phase := .editing entry } ∧ ∀ d, v.written d = w.written d

/-- What has come, from `w` to `v`, of a completion that the shell was asked for: `line` is what all
that was entered stands for, and `word` what stands between the last space and the cursor. -/
structure CompletesCommandWord (w v : World κ ν) (k : CompletionId) (completion : Completion)
    (session : Session κ) (entry : Entry κ) (line word : List Char) : Prop where
  /-- Nothing else has been set in motion. -/
  agenda : v.agenda = w.agenda
  /-- The completion is over, -/
  ended : v.completions[k]? = some { completion with status := .completed }
  /-- and the same entry is edited again. At most something has been put in at its cursor. -/
  resumed : ∃ s, v.sessions[completion.session]? =
    some { session with phase := .editing { entry with line := entry.line.insert s } }
  /-- Where the completion is out of place, the line and what was written are as before. -/
  unchanged : Shell.OutOfPlace line word → Unchanged w v completion.session session entry
  /-- Elsewhere they are not, unless an escape is open behind the word. -/
  changed : ¬ Shell.OutOfPlace line word → completion.snapshot.context.escaped = false →
    ¬ Unchanged w v completion.session session entry
  /-- While blanks alone follow the command word, all commands are listed for an empty word, as it
  is behind a space. -/
  listed : (∀ c ∈ Shell.afterCommand line, Text.isBlank c = true) → word = [] →
    v.sessions[completion.session]? = some { session with phase := .editing entry } ∧
      ∃ c, session.connection? = some c ∧
        v.written c = w.written c ++ (newRow ++ List.intercalate [' ', ' '] Shell.commands ++
          (entry.prompt session.continuation ++ Line.empty.redraw entry.line))

theorem Concludes.unchanged_iff {v : World κ ν} {line : Line} {output : List Char}
    (h : Concludes w v k completion session { entry with line } c output) :
    Unchanged w v completion.session session entry ↔ line = entry.line ∧ output = [] := by
  constructor
  · rintro ⟨hsession, hwritten⟩
    have hphase : Phase.editing { entry with line } = Phase.editing entry :=
      congrArg Session.phase (Option.some_inj.1 (h.session_eq.symm.trans hsession))
    have houtput : w.written c ++ output = w.written c := by
      have hwrites := h.written c
      rw [if_pos rfl] at hwrites
      rw [← hwrites, hwritten]
    exact ⟨congrArg Entry.line (Phase.editing.inj hphase), List.append_right_eq_self.1 houtput⟩
  · rintro ⟨rfl, rfl⟩
    exact ⟨h.session_eq, fun d => by rw [h.written, ite_self, List.append_nil]⟩

theorem Concludes.completesCommandWord {v : World κ ν}
    (h : Concludes w v k completion session
      { entry with line := (Shell.served session.continuation entry completion.snapshot).1 } c
      (Shell.served session.continuation entry completion.snapshot).2)
    (hc : session.connection? = some c) :
    CompletesCommandWord w v k completion session entry completion.snapshot.line
      completion.snapshot.word where
  agenda := h.agenda
  ended := h.completion_eq
  resumed := by
    obtain ⟨s, hs⟩ := Shell.exists_served_eq session.continuation entry completion.snapshot
    exact ⟨s, by rw [h.session_eq, hs]⟩
  unchanged hplace := by
    rw [h.unchanged_iff, Shell.served_of_outOfPlace hplace]
    exact ⟨rfl, rfl⟩
  changed hplace hescaped := by
    rw [h.unchanged_iff]
    exact fun hsame => Shell.served_ne hplace hescaped (Prod.ext hsame.1 hsame.2)
  listed hblank hword := by
    have hwritten := h.written c
    have hsession := h.session_eq
    rw [Shell.served_of_nil hblank hword] at hwritten hsession
    exact ⟨hsession, c, hc, by rw [hwritten, if_pos rfl]⟩

/-- **The shell completes the command word.** In every reachable world, while a request waits for a
pending completion, wherever the cursor stands: the completion ends and the same request is edited
again, and the line and the terminal are left alone if another word follows the command word, or if
no command begins with the word before the cursor. -/
theorem Reachable.completes_command_word (h : Reachable w) (agenda : List (Job κ ν))
    (hk : w.completions[k]? = some completion) (hpending : completion.status = .pending)
    (hs : w.sessions[completion.session]? = some session)
    (hphase : session.phase = .completing entry) (hid : entry.id = completion.entryId)
    (client : Client κ ν) :
    ∃ v, Within client 3
        (({ w with agenda } : World κ ν).push
          (.run (Shell.completeCommand k completion.snapshot))) v ∧
      CompletesCommandWord { w with agenda } v k completion session entry
        (unquote (List.intercalate ['\n'] (entry.lines ++ [entry.line.text])))
        (unquote (lastWord entry.line.before)) := by
  have hstep : entry.InStep := (h.captured _ session hs).inStep entry (by rw [hphase]; rfl)
  have hsnapshot := h.snapshot_eq hk hpending hs hphase hid
  have hline : completion.snapshot.line =
      unquote (List.intercalate ['\n'] (entry.lines ++ [entry.line.text])) := by
    rw [hsnapshot, ← output_readLines, ← hstep.feed]
    rfl
  have hword : completion.snapshot.word = unquote (lastWord entry.line.before) := by
    rw [hsnapshot, ← Quoting.Reader.output_feed_empty]
    rfl
  obtain ⟨c, hc⟩ := Option.ne_none_iff_exists'.1
    ((h.owned _ session hs).connected (by simp [hphase]))
  have hsuspended : ({ w with agenda } : World κ ν).Suspended k completion session entry c :=
    ⟨hk, hs, hc, hphase, hid⟩
  obtain ⟨v, hwithin, hconcludes⟩ := hsuspended.within_completeCommand hpending client
  rw [← hline, ← hword]
  exact ⟨v, hwithin, hconcludes.completesCommandWord hc⟩

/-- A client that leaves every completion waiting. -/
private def silentClient : Client Unit Unit where
  onLine _ _ := .done
  onComplete _ _ _ := .done
  onRead _ _ := .done
  onResize _ _ := .done

/-- A request with a handler of completions. -/
private def shellRequest : Request Unit :=
  { prompt := ['%', ' '], onLine := (), onComplete? := some () }

/-- A session in which a text was typed and the Tab key behind it. -/
private def behind (text : List Char) : World Unit Unit :=
  exec silentClient (text.length + 6) { sessions := [{}], connections := [{}] } <|
    .andThen (.install 0 0) <|
      .andThen (.request 0 shellRequest) <|
        .ofCall (.type 0 (text ++ [Keys.tab]))

private theorem reachable_behind (text : List Char) : Reachable (behind text) := by
  refine Reachable.trans (Pristine.reachable ?_) (run_exec silentClient _ _ _)
  constructor <;> simp

/-- The completion of the Tab key. -/
private def completionBehind (text word : List Char) : Completion where
  session := 0
  entryId := 0
  snapshot := { line := text, word, context := {} }
  size? := none

/-- The entry that waits for it. -/
private def entryBehind (text : List Char) : Entry Unit where
  id := 0
  request := shellRequest
  line := .ofText text

/-- Its session. -/
private def sessionBehind (text : List Char) : Session Unit := (behind text).sessions.getD 0 {}

/-- A command word and an argument. -/
private def argued : List Char := ['e', 'c', 'h', 'o', ' ', 'e']

/-- A line with an argument is left alone. -/
theorem completes_command_word_argued :
    ((behind argued).completions[0]? = some (completionBehind argued ['e']) ∧
      (completionBehind argued ['e']).status = .pending ∧
      (behind argued).sessions[0]? = some (sessionBehind argued) ∧
      (sessionBehind argued).phase = .completing (entryBehind argued) ∧
      (entryBehind argued).id = (completionBehind argued ['e']).entryId) ∧
    ∃ v, Within silentClient 3
        (({ behind argued with agenda := [] } : World Unit Unit).push
          (.run (Shell.completeCommand 0 (completionBehind argued ['e']).snapshot))) v ∧
      CompletesCommandWord { behind argued with agenda := [] } v 0
        (completionBehind argued ['e']) (sessionBehind argued) (entryBehind argued)
        (unquote (List.intercalate ['\n'] ((entryBehind argued).lines ++
          [(entryBehind argued).line.text])))
        (unquote (lastWord (entryBehind argued).line.before)) := by
  have hk : (behind argued).completions[0]? = some (completionBehind argued ['e']) := by decide
  have hs : (behind argued).sessions[0]? = some (sessionBehind argued) := rfl
  have hphase : (sessionBehind argued).phase = .completing (entryBehind argued) := rfl
  exact ⟨⟨hk, rfl, hs, hphase, rfl⟩, (reachable_behind argued).completes_command_word
    [] hk rfl hs hphase rfl silentClient⟩

/-- A command word and a space. -/
private def spaced : List Char := ['e', 'c', 'h', 'o', ' ']

/-- **A space behind the command word is not enough**: at the end of a line with a finished command
word, the shell lists all commands. -/
theorem lists_behind_command_word :
    (Reachable (behind spaced) ∧
      (behind spaced).completions[0]? = some (completionBehind spaced []) ∧
      (completionBehind spaced []).status = .pending ∧
      (behind spaced).sessions[0]? = some (sessionBehind spaced) ∧
      (sessionBehind spaced).phase = .completing (entryBehind spaced) ∧
      (entryBehind spaced).id = (completionBehind spaced []).entryId ∧
      (entryBehind spaced).line.after = [] ∧
      ∃ c ∈ Text.dropBlanks (unquote (List.intercalate ['\n']
        ((entryBehind spaced).lines ++ [(entryBehind spaced).line.text]))),
        Text.isBlank c = true) ∧
    (exec silentClient 4 (behind spaced)
        (Shell.completeCommand 0 (completionBehind spaced []).snapshot)).written 0 =
      (behind spaced).written 0 ++
        "\r\necho  exit  help  history  quit% echo ".toList := by
  have hblank : Text.isBlank ' ' = true := by decide
  exact ⟨⟨reachable_behind _, by decide, rfl, rfl, rfl, rfl, by decide, ' ', by decide, hblank⟩,
    by decide⟩

end World

end LineEditor
