import LineEditor.Application.Invocation
import LineEditor.Proofs.Application.Transcript
import LineEditor.Proofs.Keys.LongestMatch
import LineEditor.Proofs.Lists
import LineEditor.Proofs.Text.Streaming

/-!
# A dialogue with the shell

With the default settings, what a user who only writes lines sees on the terminal is what a dialogue
looks like: the prompt, the line as it is written, the reply, the next prompt, and so on until a
line is the end of the shell or no line follows (`dialogue`).

A character is echoed as itself, since the line grows at its end and a redraw is then the character
alone (`Line.redraw_concat`), and the Enter key hands the line over, since its quoting is complete
(`type_enter`). From one line (`type_line`) to all of them it is an induction on the lines, in which
the history is that of the lines so far (`output_type_lines`).
-/

namespace LineEditor

/-! ### Bytes of printable characters -/

namespace Utf8

open String (utf8EncodeChar)

/-- What follows the first byte of an encoding is no character by itself. -/
theorem le_of_mem_continuation {n v : Nat} {byte : UInt8} (h : byte ∈ continuation n v) :
    0x80 ≤ byte.toNat := by
  induction n with
  | zero => cases h
  | succ n ih =>
    rw [continuation, List.mem_cons] at h
    rcases h with rfl | hrest
    · rw [UInt8.toNat_ofNat']
      omega
    · exact ih hrest

/-- A byte that is a character by itself occurs in the encoding of this character only. -/
theorem toNat_eq_of_mem_encodeChar {c : Char} {byte : UInt8} (h : byte ∈ utf8EncodeChar c)
    (hbyte : byte.toNat < 0x80) : c.toNat = byte.toNat := by
  have hmax := toNat_lt_max c
  have hbeyond : ∀ lead n, 0x80 ≤ lead → lead < 0x100 →
      byte ∉ UInt8.ofNat lead :: continuation n c.toNat := by
    intro lead n hlow hhigh hmem
    rcases List.mem_cons.1 hmem with rfl | hrest
    · rw [UInt8.toNat_ofNat', Nat.mod_eq_of_lt hhigh] at hbyte
      omega
    · exact absurd (le_of_mem_continuation hrest) (Nat.not_le.2 hbyte)
  rw [encode_eq] at h
  split_ifs at h with hone htwo hthree
  · rw [List.mem_singleton.1 h, UInt8.toNat_ofNat', Nat.mod_eq_of_lt (by omega)]
  · exact absurd h (hbeyond _ _ (by omega) (by omega))
  · exact absurd h (hbeyond _ _ (by omega) (by omega))
  · exact absurd h (hbeyond _ _ (by omega) (by omega))

end Utf8

/-! ### Writing at the end of a line -/

namespace Line

variable {text s : List Char}

@[simp]
theorem text_ofText (text : List Char) : (ofText text).text = text := rfl

@[simp]
theorem cursor_ofText (text : List Char) : (ofText text).cursor = text.length := rfl

theorem before_ofText (text : List Char) : (ofText text).before = text := List.take_length

theorem after_ofText (text : List Char) : (ofText text).after = [] := List.drop_length

theorem insert_ofText (text s : List Char) : (ofText text).insert s = ofText (text ++ s) := by
  unfold insert
  rw [before_ofText, after_ofText]
  simp [ofParts, ofText]

theorem commonLength_append (text s : List Char) : commonLength text (text ++ s) = text.length := by
  induction text with
  | nil => rfl
  | cons c text ih => rw [List.cons_append, commonLength, if_pos rfl, ih, List.length_cons]

/-- A character that is written at the end of a line is shown as it is. -/
theorem redraw_concat (text : List Char) (c : Char) :
    (ofText text).redraw (ofText (text ++ [c])) = [c] := by
  have hdiffer : (ofText text).text ≠ (ofText (text ++ [c])).text := by simp
  have hstart : min (commonLength text (text ++ [c])) text.length = text.length := by
    rw [commonLength_append, Nat.min_self]
  unfold redraw
  rw [if_neg hdiffer, after_ofText]
  simp only [text_ofText, cursor_ofText]
  rw [hstart, List.take_length, List.drop_length, List.drop_left]
  simp [Text.width, backspaces, erase]

end Line

/-! ### The history of some lines -/

namespace History

/-- The history with some entries, where nobody browses. -/
def ofEntries (cap : Nat) (entries : List (List Char)) : History := { cap, entries }

/-- The history after some lines: the last of them that are not empty, up to a cap. -/
def ofLines (cap : Nat) (lines : List (List Char)) : History :=
  ofEntries cap ((lines.filter (!·.isEmpty)).rtake cap)

/-- Of one more line than there is room for the last ones are kept. -/
theorem capped_rtake {cap : Nat} (hcap : 0 < cap) (entries : List (List Char)) (line : List Char) :
    capped cap (entries.rtake cap ++ [line]) = (entries ++ [line]).rtake cap := by
  have hcapped : capped cap (entries.rtake cap ++ [line]) =
      (entries.rtake cap ++ [line]).rtake cap := if_neg (Nat.pos_iff_ne_zero.1 hcap)
  rw [hcapped, rtake_rtake_concat]

/-- Entering a line. -/
theorem push_ofLines {cap : Nat} (hcap : 0 < cap) (lines : List (List Char)) (line : List Char) :
    (ofLines cap lines).push line = ofLines cap (lines ++ [line]) := by
  unfold ofLines
  rw [List.filter_append]
  by_cases hempty : line.isEmpty = true
  · have hnone : [line].filter (!·.isEmpty) = [] := by simp [hempty]
    rw [hnone, List.append_nil]
    exact if_pos hempty
  · have hkept : [line].filter (!·.isEmpty) = [line] := by simp [hempty]
    rw [hkept, ← capped_rtake hcap]
    exact if_neg hempty

end History

/-! ### Characters that stand for themselves -/

/-- A character that no bound sequence begins with stands for itself. -/
theorem Keys.Trie.resolve_of_free {m : Keymap} {c : Char}
    (hfree : ∀ b ∈ m.bindings, b.sequence.head? ≠ some c) :
    (Keys.Trie.ofKeymap m).resolve [c] = .literal c := by
  have hbegins : ∀ b ∈ m.bindings, ¬ [c] <+: b.sequence := by
    rintro b hb ⟨rest, hsequence⟩
    apply hfree b hb
    rw [← hsequence]
    rfl
  have hunmatched : m.Unmatched [c] := by
    rintro u hne hprefix ⟨b, hb, rfl⟩
    obtain ⟨d, rest, hsequence⟩ := List.exists_cons_of_ne_nil hne
    rw [hsequence, List.cons_prefix_cons] at hprefix
    exact hfree b hb (by rw [hsequence, hprefix.1, List.head?_cons])
  have hnot : ¬ m.Awaits [c] := fun ⟨b, hb, hprefix, _⟩ => hbegins b hb hprefix
  exact (resolve_eq_iff _ _ _).2 (.literal hunmatched rfl hnot)

namespace Application

open Relation (ReflTransGen)

/-! ### Dialogues -/

/-- A character that the default settings leave as it is. -/
def IsPrintable (c : Char) : Prop := 0x20 ≤ c.toNat ∧ c ≠ Keys.delete

instance (c : Char) : Decidable (IsPrintable c) := inferInstanceAs (Decidable (_ ∧ _))

/-- A line of printable characters, in which every quote and escape is complete. -/
structure Plain (line : List Char) : Prop where
  printable : ∀ c ∈ line, IsPrintable c
  complete : (({} : Quoting.Reader).feed line).pending = false

/-- What follows the first prompt of a dialogue, after some lines that were entered before: every
line with its reply, in which line feeds begin new rows, and the next prompt, until a line is the
end of the shell or no line follows. -/
def dialogue (prompt : List Char) (entered : List (List Char)) : List (List Char) → List Char
  | [] => newRow
  | line :: rest =>
    line ++ newRow ++
      match Shell.evaluate line (.ofLines 500 (entered ++ [line])) with
      | .output reply => shown reply ++ prompt ++ dialogue prompt (entered ++ [line]) rest
      | .exit => newRow

/-! ### Keys with the default settings -/

/-- The decoder of the default settings. -/
def keys : Keys.Decoder := .ofKeymap ({} : Settings).keymap

/-- All sequences that are bound begin with a control character. -/
theorem default_bindings : ∀ b ∈ ({} : Settings).keymap.bindings, ∀ c ∈ b.sequence.head?,
    c.toNat < 0x20 ∨ c = Keys.delete := by
  have hall : (({} : Settings).keymap.bindings.all fun b =>
      b.sequence.head?.all fun c => decide (c.toNat < 0x20 ∨ c = Keys.delete)) = true := by
    decide +kernel
  intro b hb c hc
  have hfirst := List.all_eq_true.1 hall b hb
  rw [Option.mem_def.1 hc] at hfirst
  exact of_decide_eq_true hfirst

theorem next?_printable {c : Char} (hc : IsPrintable c) :
    (keys.append [c]).next? = some (.key [c], keys) := by
  have hfree : ∀ b ∈ ({} : Settings).keymap.bindings, b.sequence.head? ≠ some c := by
    intro b hb hhead
    rcases default_bindings b hb c hhead with hcontrol | hdelete
    · exact absurd hc.1 (Nat.not_le.2 hcontrol)
    · exact hc.2 hdelete
  have hresolve : (keys.append [c]).trie.resolve (keys.append [c]).pending = .literal c :=
    Keys.Trie.resolve_of_free hfree
  unfold Keys.Decoder.next?
  rw [hresolve]
  rfl

theorem next?_enter : (keys.append [Keys.enter]).next? = some (.key [Keys.enter], keys) := by
  have hresolve : (keys.append [Keys.enter]).trie.resolve (keys.append [Keys.enter]).pending =
      .bound (.key [Keys.enter]) 1 false := by decide +kernel
  unfold Keys.Decoder.next?
  rw [hresolve]
  rfl

/-! ### Writing a line -/

/-- The entry of a request for which a text has been written. -/
def Desk.entry (desk : Desk) (id : Nat) (text : List Char) : Entry Handler where
  id
  request := desk.request
  line := .ofText text

/-- The sitting in which a text has been written for the line that is asked for. -/
def writing (desk : Desk) (id : Nat) (history : History) (text output : List Char) : Sitting where
  entry? := some (desk.entry id text)
  nextId := id + 1
  decoder := keys
  history
  output

section Writing

variable {desk : Desk} {id : Nat} {history : History} {text output line : List Char} {c : Char}
  {event : KeyEvent}

/-- A key that is an event by itself. -/
theorem type_key (hnext : (keys.append [c]).next? = some (event, keys)) :
    desk.type (writing desk id history text output) [c] =
      desk.react (writing desk id history text output) (desk.entry id text) event := by
  have hrest : (desk.react (writing desk id history text output) (desk.entry id text)
      event).decoder.next? = none := by
    rw [Desk.decoder_react]
    exact Keys.Decoder.next_eq_none_of_pending_nil rfl
  have hdrain : desk.drain ((writing desk id history text output).append [c]) =
      desk.drain (desk.react (writing desk id history text output) (desk.entry id text) event) :=
    Desk.drain_of_next rfl hnext
  rw [Desk.type, hdrain, Desk.drain_of_waits hrest]

/-- A character is written and shown. -/
theorem type_printable (hc : IsPrintable c) :
    desk.type (writing desk id history text output) [c] =
      writing desk id history (text ++ [c]) (output ++ [c]) := by
  have henter : [c] ≠ [Keys.enter] := by
    intro heq
    rw [List.singleton_inj.1 heq] at hc
    exact absurd hc.1 (by decide)
  have htab : [c] ≠ [Keys.tab] := by
    intro heq
    rw [List.singleton_inj.1 heq] at hc
    exact absurd hc.1 (by decide)
  have hhandle : (desk.entry id text).handle desk.functions history desk.continuation (.key [c]) =
      (desk.entry id text).edited history (.ofText (text ++ [c])) := by
    rw [← Line.insert_ofText]
    exact (if_neg henter).trans (if_neg htab)
  have hwritten : (desk.entry id text).line.redraw (.ofText (text ++ [c])) = [c] :=
    Line.redraw_concat text c
  have hreact : desk.react (writing desk id history text output) (desk.entry id text) (.key [c]) =
      writing desk id history (text ++ [c])
        (output ++ (desk.entry id text).line.redraw (.ofText (text ++ [c]))) :=
    Desk.react_goesOn (s := writing desk id history text output) hhandle rfl
  rw [type_key (next?_printable hc), hreact, hwritten]

/-- A text is written and shown. -/
theorem type_text (hline : ∀ c ∈ line, IsPrintable c) :
    desk.type (writing desk id history text output) line =
      writing desk id history (text ++ line) (output ++ line) := by
  induction line generalizing text output with
  | nil =>
    rw [Desk.type_nil, List.append_nil, List.append_nil]
    exact Desk.drain_of_waits (Keys.Decoder.next_eq_none_of_pending_nil rfl)
  | cons c line ih =>
    obtain ⟨hc, hrest⟩ := List.forall_mem_cons.1 hline
    rw [← List.singleton_append, ← Desk.type_type, type_printable hc, ih hrest,
      List.append_assoc, List.append_assoc]

/-- A line that is complete is handed over. -/
theorem type_enter (hcomplete : (({} : Quoting.Reader).feed text).pending = false) :
    desk.type (writing desk id history text output) [Keys.enter] =
      desk.enter (writing desk id history text (output ++ newRow)) text := by
  have hhandle : (desk.entry id text).handle desk.functions history desk.continuation
      (.key [Keys.enter]) = (desk.entry id text).enter history desk.continuation := by
    rw [Entry.handle, if_pos rfl]
  have hpending : ¬ ((desk.entry id text).reader.feed (desk.entry id text).line.text).pending =
      true := Bool.eq_false_iff.1 hcomplete
  have henter : (desk.entry id text).enter history desk.continuation =
      { entry := { desk.entry id text with lines := [], line := .empty, reader := {} }
        history
        written := newRow
        outcome := .submitted (List.intercalate ['\n'] [text]) } := if_neg hpending
  have hline : List.intercalate ['\n'] [text] = text := by simp [List.intercalate]
  rw [hline] at henter
  rw [type_key next?_enter]
  exact Desk.react_submitted (s := writing desk id history text output) (hhandle.trans henter) rfl

/-- A line is written, shown and handed over. -/
theorem type_line (hline : Plain line) :
    desk.type (writing desk id history [] output) (line ++ [Keys.enter]) =
      desk.enter (writing desk id history line (output ++ line ++ newRow)) line := by
  rw [← Desk.type_type, type_text hline.printable, List.nil_append, type_enter hline.complete]

/-- A reply is shown, and the next line is asked for. -/
theorem enter_of_output {reply : List Char}
    (hreply : Shell.evaluate line (history.push line) = .output reply) :
    desk.enter (writing desk id history text output) line =
      writing desk (id + 1) (history.push line) [] (output ++ shown reply ++ desk.prompt) := by
  have hpush : (writing desk id history text output).history.push line = history.push line := rfl
  unfold Desk.enter
  rw [hpush]
  dsimp only
  rw [hreply]
  rfl

/-- Nothing is shown for a line that is the end of the shell. -/
theorem enter_of_exit (desk : Desk) (id : Nat)
    (hreply : Shell.evaluate line (history.push line) = .exit) :
    (desk.enter (writing desk id history text output) line).IsOver ∧
      (desk.enter (writing desk id history text output) line).output = output := by
  have hpush : (writing desk id history text output).history.push line = history.push line := rfl
  unfold Desk.enter
  rw [hpush]
  dsimp only
  rw [hreply]
  exact ⟨rfl, rfl⟩

end Writing

/-! ### Writing lines -/

/-- **Run lemma.** Lines are written one after another, each of them with its reply. -/
theorem output_type_lines (desk : Desk) {lines : List (List Char)} (id : Nat)
    (entered : List (List Char)) (output : List Char) (hlines : ∀ line ∈ lines, Plain line) :
    (desk.type (writing desk id (.ofLines 500 entered) [] output)
        (lines.flatMap (· ++ [Keys.enter]))).output ++ newRow =
      output ++ dialogue desk.prompt entered lines := by
  induction lines generalizing id entered output with
  | nil =>
    have hrest : (writing desk id (.ofLines 500 entered) [] output).decoder.next? = none :=
      Keys.Decoder.next_eq_none_of_pending_nil rfl
    rw [List.flatMap_nil, Desk.type_nil, Desk.drain_of_waits hrest]
    rfl
  | cons line lines ih =>
    obtain ⟨hline, hrest⟩ := List.forall_mem_cons.1 hlines
    have hpush : (History.ofLines 500 entered).push line = .ofLines 500 (entered ++ [line]) :=
      History.push_ofLines (by decide) entered line
    -- the lines after the end of the shell are typed too, but `dialogue` does not go on
    rw [List.flatMap_cons, ← Desk.type_type, type_line hline, dialogue]
    cases hreply : Shell.evaluate line (.ofLines 500 (entered ++ [line])) with
    | output reply =>
      rw [enter_of_output (hpush ▸ hreply), hpush, ih _ _ _ hrest]
      simp only [List.append_assoc]
    | exit =>
      obtain ⟨hover, houtput⟩ := enter_of_exit desk id (hpush ▸ hreply)
      rw [Desk.output_type_of_over hover, houtput]
      simp only [List.append_assoc]

section Whole

variable {prompt : List Char} {lines : List (List Char)} {cut : List (List UInt8)}

/-- Lines as they are written contain no interrupt. -/
theorem interrupt_notMem_encode (hlines : ∀ line ∈ lines, Plain line) :
    Running.interrupt ∉ Utf8.encode (lines.flatMap (· ++ [Keys.enter])) := by
  intro hinterrupt
  obtain ⟨c, hc, hbyte⟩ := List.mem_flatMap.1 hinterrupt
  have hvalue : c.toNat = Running.interrupt.toNat :=
    Utf8.toNat_eq_of_mem_encodeChar hbyte (by decide)
  obtain ⟨line, hline, hmem⟩ := List.mem_flatMap.1 hc
  rcases List.mem_append.1 hmem with htext | henter
  · have hlow := ((hlines line hline).printable c htext).1
    rw [hvalue] at hlow
    exact absurd hlow (by decide)
  · rw [List.mem_singleton.1 henter] at hvalue
    exact absurd hvalue (by decide)

/-- All lines are typed, in whatever blocks they come. -/
theorem typed_of_flatten (hlines : ∀ line ∈ lines, Plain line)
    (hcut : cut.flatten = Utf8.encode (lines.flatMap (· ++ [Keys.enter]))) :
    typed cut = lines.flatMap (· ++ [Keys.enter]) := by
  have hcalm : Running.interrupt ∉ cut.flatten := hcut ▸ interrupt_notMem_encode hlines
  unfold typed
  rw [heard_of_calm hcalm, hcut, Utf8.decode_encode]

/-- With the default settings, lines and their replies make up a dialogue. -/
theorem output_sitting_of_lines (prompt : List Char) (hlines : ∀ line ∈ lines, Plain line)
    (hcut : cut.flatten = Utf8.encode (lines.flatMap (· ++ [Keys.enter]))) :
    (sitting {} prompt cut).output ++ newRow = prompt ++ dialogue prompt [] lines := by
  have hopening : Desk.opening {} prompt =
      writing (Desk.of {} prompt) 0 (.ofLines 500 []) [] prompt := rfl
  unfold sitting
  rw [typed_of_flatten hlines hcut, hopening]
  exact output_type_lines (Desk.of {} prompt) 0 [] prompt hlines

/-- **The whole program.** With the default settings and any prompt, a call that is granted what it
needs, and whose input is complete lines of printable characters, each with the Enter key behind it,
comes to its end: it has written the prompt and the dialogue, and its exit code is zero. So it is in
whatever blocks the bytes come, even if these end inside a character, and in every order of events:
whatever has happened the end can be reached, and this is what the call comes to there. -/
theorem Invocation.outcome_of_lines {i : Invocation} {arguments : Arguments}
    (hrun : readArguments {} i.arguments = .ok (.run arguments))
    (hdefault : (Settings.find i.surroundings arguments.settings?).settings = {})
    (hprompt : arguments.promptIn {} = prompt) (hgrants : i.host.Grants)
    (hlines : ∀ line ∈ lines, Plain line)
    (hinput : i.input = Utf8.encode (lines.flatMap (· ++ [Keys.enter]))) (hends : i.ends = true) :
    i.outcome? = some { exitCode := 0, output := prompt ++ dialogue prompt [] lines } ∧
      ∀ {size? cut p}, cut.flatten = i.input → Process.Reachable {} prompt size? cut p →
        (∃ p', ReflTransGen Process.Moves p p' ∧ p'.left = true) ∧
          (p.left = true → p.running.leave? =
            some { exitCode := 0, output := prompt ++ dialogue prompt [] lines }) := by
  constructor
  · have hlaunch : Running.launch {} prompt i.host = .ok (.start {} prompt i.host.size?) :=
      Running.launch_eq_ok_iff.2 ⟨hgrants, rfl⟩
    have houtcome : i.outcome? = transcript? {} prompt i.host.size? i.input i.ends := by
      unfold outcome?
      rw [hrun]
      dsimp only
      rw [hdefault, hprompt, hlaunch]
      rfl
    have hblocks : (blocks i.input).flatten = _ := (flatten_blocks i.input).trans hinput
    rw [houtcome, transcript?_eq_some i.host.size? (.inl hends),
      output_sitting_of_lines prompt hlines hblocks]
  · intro size? cut p hcut hreachable
    refine ⟨hreachable.exists_left, fun hleft => ?_⟩
    rw [hreachable.leave?_of_left hleft,
      output_sitting_of_lines prompt hlines (hcut.trans hinput)]

end Whole

/-- Four lines, of which the third is the end of the shell. -/
private def fourLines : List (List Char) :=
  ["echo 'à  b'".toList, [], "exit".toList, "help".toList]

/-- A call with a prompt, at which these lines are written. -/
private def fourLinesCall : Invocation where
  arguments := ["--prompt".toList, "$ ".toList]
  surroundings := { files := fun _ => none }
  input := Utf8.encode (fourLines.flatMap (· ++ [Keys.enter]))
  ends := true

/-- What the call comes to, and that it comes to the same when each byte is a block of its own. -/
theorem Invocation.outcome_of_fourLines :
    fourLinesCall.outcome? =
        some
          { exitCode := 0
            output := "$ echo 'à  b'\r\nà  b\r\n$ \r\n$ exit\r\n\r\n".toList } ∧
      ∃ p, Process.Reachable {} "$ ".toList none (fourLinesCall.input.map ([·])) p ∧
        p.left = true ∧ p.running.leave? = fourLinesCall.outcome? := by
  have hlines : ∀ line ∈ fourLines, Plain line := by
    have hprintable : (fourLines.all fun line =>
        line.all fun c => decide (IsPrintable c)) = true := by decide +kernel
    have hcomplete : (fourLines.all fun line =>
        !(({} : Quoting.Reader).feed line).pending) = true := by decide +kernel
    intro line hline
    refine ⟨fun c hc => ?_, ?_⟩
    · exact of_decide_eq_true (List.all_eq_true.1 (List.all_eq_true.1 hprintable line hline) c hc)
    · simpa using List.all_eq_true.1 hcomplete line hline
  have hrun : readArguments {} fourLinesCall.arguments =
      .ok (.run { prompt? := some "$ ".toList }) := by decide +kernel
  have hdefault : (Settings.find fourLinesCall.surroundings none).settings = {} := rfl
  have hprompt : ({ prompt? := some "$ ".toList } : Arguments).promptIn {} = "$ ".toList := rfl
  have hgrants : fourLinesCall.host.Grants := ⟨rfl, rfl, rfl⟩
  have hinput : fourLinesCall.input =
      Utf8.encode (fourLines.flatMap (· ++ [Keys.enter])) := rfl
  have hdialogue : "$ ".toList ++ dialogue "$ ".toList [] fourLines =
      "$ echo 'à  b'\r\nà  b\r\n$ \r\n$ exit\r\n\r\n".toList := by decide +kernel
  obtain ⟨houtcome, hprocess⟩ :=
    Invocation.outcome_of_lines hrun hdefault hprompt hgrants hlines hinput rfl
  have hcut : (fourLinesCall.input.map ([·])).flatten = fourLinesCall.input := by
    rw [← List.flatMap_def, List.flatMap_singleton']
  obtain ⟨⟨p, hmoves, hleft⟩, -⟩ := @hprocess none _ _ hcut .refl
  rw [houtcome, ← hdialogue]
  exact ⟨rfl, p, hmoves, hleft, (hprocess hcut hmoves).2 hleft⟩

end Application

end LineEditor
