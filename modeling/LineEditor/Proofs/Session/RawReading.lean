import LineEditor.Proofs.Keys.Tokens
import LineEditor.Proofs.Session.Returning

/-!
# Input that no request asks for

Without a request, a session hands what is typed to a handler as it was typed, and yet it first
looks whether an event can be decoded. So it keeps what would be the beginning of a bound sequence,
as if a key were awaited, until something is typed that rules this out: a lone Escape does not come
through (`World.withholds_escape`). When it hands something over, it is all that waits.

`World.Reachable.reads_raw` says what the handler has got at any time in a run in which nothing but
such reading takes input from the session.
-/

namespace LineEditor

variable {κ ν : Type}

/-- An event leaves the bindings of a decoder alone. -/
theorem Keys.Decoder.trie_of_next {d d' : Keys.Decoder} {event : KeyEvent}
    (h : d.next? = some (event, d')) : d'.trie = d.trie := by
  unfold next? at h
  split at h <;> cases h <;> rfl

/-- A text waits as a whole: it is nothing, or the beginning of a longer bound sequence. -/
def Keymap.Keeps (m : Keymap) (text : List Char) : Prop := text = [] ∨ m.Awaits text

/-- What goes without being handled is what handlers get. -/
theorem Passage.flatMap_leaving {passages : List (Passage κ)}
    (h : ∀ event taken, .handled event taken ∉ passages) :
    passages.flatMap leaving = (passages.filterMap forwarded?).flatten := by
  induction passages with
  | nil => rfl
  | cons passage passages ih =>
    have hrest := ih fun event taken hmem => h event taken (List.mem_cons_of_mem _ hmem)
    cases passage with
    | typed text => exact hrest
    | handled event taken => exact absurd List.mem_cons_self (h event taken)
    | forwarded handler text =>
      rw [List.flatMap_cons, hrest]
      rfl

namespace World

variable {client : Client κ ν} {w : World κ ν} {s : SessionId} {session : Session κ} {m : Keymap}
  {choices : List (Choice κ ν)}

/-- Session `s` has no request and a handler of input. -/
def Unasked (w : World κ ν) (s : SessionId) : Prop :=
  ∃ session handler, w.sessions[s]? = some session ∧ session.phase = .idle ∧
    session.onRead? = some handler

/-- Whenever session `s` looks for input in a run, it has no request and a handler of input. -/
def ReadsRaw (w : World κ ν) (s : SessionId) (choices : List (Choice κ ν)) : Prop :=
  ∀ v ∈ w.stepped choices, ∀ below, v.agenda = .deliver s :: below → v.Unasked s

/-! ### Bindings stay -/

theorem Passes.trie_eq {before after : Session κ} {passage? : Option (Passage κ)}
    (h : Passes client w s before after passage?) : after.decoder.trie = before.decoder.trie := by
  cases h with
  | nothing h => rw [h]
  | typed _ _ h => rw [h]; rfl
  | handled _ hhandles _ _ _ h => rw [h, Keys.Decoder.trie_of_next hhandles.next]
  | forwarded _ _ _ _ _ h => rw [h]; rfl

/-- **Run lemma.** The bindings of a session stay the same. -/
theorem trie_play (hs : w.sessions[s]? = some session) (choices : List (Choice κ ν)) :
    ∃ last, (w.play choices).sessions[s]? = some last ∧
      last.decoder.trie = session.decoder.trie := by
  induction choices generalizing w session with
  | nil => exact ⟨session, hs, rfl⟩
  | cons choice choices ih =>
    cases choice with
    | run p => exact ih (w := w.push (.run p)) hs
    | step client =>
      obtain ⟨after, hafter, hpasses⟩ := step_passes client hs
      obtain ⟨last, hlast, htrie⟩ := ih hafter
      exact ⟨last, hlast, htrie.trans hpasses.trie_eq⟩

/-! ### Nothing is handled -/

/-- A session without a request handles no event. -/
theorem passage?_ne_handled (hs : w.sessions[s]? = some session)
    (hunasked : ∀ below, w.agenda = .deliver s :: below → w.Unasked s) (client : Client κ ν)
    (event : KeyEvent) (taken : List Char) : w.passage? s ≠ some (.handled event taken) := by
  intro hhandled
  obtain ⟨after, -, hpasses⟩ := step_passes client hs
  rw [hhandled] at hpasses
  cases hpasses with
  | handled hagenda hhandles =>
    obtain ⟨before, handler, hbefore, hidle, -⟩ := hunasked _ hagenda
    have hlookup : w.sessions[s]? = some session := hs
    obtain rfl := Option.some_inj.1 (hlookup.symm.trans hbefore)
    have hphase := hhandles.phase
    rw [hidle] at hphase
    cases hphase

theorem handled_notMem_passages (hs : w.sessions[s]? = some session) (hraw : w.ReadsRaw s choices)
    (event : KeyEvent) (taken : List Char) : .handled event taken ∉ w.passages s choices := by
  induction choices generalizing w session with
  | nil => exact nofun
  | cons choice choices ih =>
    cases choice with
    | run p => exact ih (w := w.push (.run p)) hs hraw
    | step client =>
      obtain ⟨after, hafter, -⟩ := step_passes client hs
      have hfirst := passage?_ne_handled hs (hraw w List.mem_cons_self) client event taken
      have hrest := ih hafter fun v hv => hraw v (List.mem_cons_of_mem _ hv)
      rw [passages_step]
      simpa using ⟨hfirst, hrest⟩

/-! ### Looking for input -/

/-- What comes of it, from `v` to `v'`, that session `s`, which is `before`, looks for input above
`below`, with no request and decoding by the keymap `m`. -/
inductive Looks (client : Client κ ν) (m : Keymap) (v : World κ ν) (s : SessionId)
    (before : Session κ) (below : List (Job κ ν)) (v' : World κ ν) : Prop where
  /-- What waits, waits on, and nothing else changes than that the job is done. -/
  | keeps (hkeeps : m.Keeps before.decoder.pending) (h : v' = { v with agenda := below })
  /-- A handler gets all that waits at once, and the session looks again afterwards. -/
  | hands {handler after} (hnot : ¬ m.Keeps before.decoder.pending)
      (hread : before.onRead? = some handler)
      (hagenda : v'.agenda = .run (client.onRead handler before.decoder.pending) ::
        .deliver s :: below)
      (hforwards : v'.forwards s = v.forwards s ++ [before.decoder.pending])
      (hafter : v'.sessions[s]? = some after) (hpending : after.decoder.pending = [])

theorem forwards_forward (client : Client κ ν) (w : World κ ν) (s : SessionId)
    (session : Session κ) (handler : κ) :
    (w.forward client s session handler).forwards s =
      w.forwards s ++ [session.decoder.pending] := by
  refine (told_log _ (.forwarded s session.decoder.pending)).trans ?_
  simp only [Occurrence.forwardedTo?, if_true, Option.toList_some]
  rfl

/-- A session without a request either keeps what waits or hands all of it to its handler. -/
theorem looks_of_unasked (client : Client κ ν) {below : List (Job κ ν)}
    (hagenda : w.agenda = .deliver s :: below) (hs : w.sessions[s]? = some session)
    (htrie : session.decoder.trie = .ofKeymap m) (hunasked : w.Unasked s) :
    Looks client m w s session below (w.step client) := by
  obtain ⟨_, handler, hsession, hidle, hread⟩ := hunasked
  obtain rfl := Option.some_inj.1 (hs.symm.trans hsession)
  have hs' : ({ w with agenda := below } : World κ ν).sessions[s]? = some session := hs
  have hstep : w.step client = ({ w with agenda := below } : World κ ν).deliver client s := by
    rw [step, hagenda]
  rw [hstep, deliver, hs']
  obtain ⟨hnone, hkeeps⟩ | ⟨event, rest, hnext, hnot, -⟩ := Keys.Decoder.next?_ofKeymap htrie
  · simp only [hnone]
    exact .keeps hkeeps rfl
  · simp only [hnext, hidle, hread]
    have hnot : ¬ m.Keeps session.decoder.pending := by
      rintro (hnil | hawaits)
      · rw [Keys.Decoder.next_eq_none_of_pending_nil hnil] at hnext
        cases hnext
      · exact hnot hawaits
    have hafter : (({ w with agenda := below } : World κ ν).forward client s session
        handler).sessions[s]? = some { session with decoder := session.decoder.takeAll.2 } := by
      simp [forward, getElem?_sessions_changeSession, hs]
    exact .hands hnot hread rfl (forwards_forward client { w with agenda := below } s session
      handler) hafter rfl

/-! ### Raw reading -/

/-- **Raw reading** of session `s`, which is `session` at first and decodes by the keymap `m`. -/
structure RawReading (w : World κ ν) (s : SessionId) (session : Session κ) (m : Keymap)
    (choices : List (Choice κ ν)) : Prop where
  /-- At any time, what waited at first and what was typed is what handlers have got, in its order,
  and what waits. -/
  received : ∀ earlier later, choices = earlier ++ later →
    ∃ last texts, (w.play earlier).sessions[s]? = some last ∧
      (w.play earlier).forwards s = w.forwards s ++ texts ∧
        session.decoder.pending ++ (w.passages s earlier).flatMap Passage.arriving =
          texts.flatten ++ last.decoder.pending
  /-- When the session looks for input, either all that waits waits on, or a handler gets it. -/
  looks : ∀ earlier client later below, choices = earlier ++ .step client :: later →
    (w.play earlier).agenda = .deliver s :: below →
      ∃ before, (w.play earlier).sessions[s]? = some before ∧
        Looks client m (w.play earlier) s before below ((w.play earlier).step client)
  /-- So whenever it has dealt with its input, either nothing waits, or the beginning of a longer
  bound sequence. -/
  returns : ∀ earlier client later below last, choices = earlier ++ .step client :: later →
    (w.play earlier).agenda = .deliver s :: below →
      ((w.play earlier).step client).agenda = below →
        ((w.play earlier).step client).sessions[s]? = some last →
          last.decoder.pending = [] ∨ m.Awaits last.decoder.pending
  /-- And it comes to its end with this, if no client types or changes a size. -/
  ends : ∀ (clients : ℕ → Client κ ν) below last, (∀ n, (clients n).Abstains) →
    (w.play choices).agenda = .deliver s :: below → (w.play choices).sessions[s]? = some last →
      ∃ n, (w.play choices).Returns clients s last below n

section ReadsRaw

variable {earlier later : List (Choice κ ν)}

theorem ReadsRaw.of_append (h : w.ReadsRaw s (earlier ++ later)) : w.ReadsRaw s earlier := by
  intro v hv
  refine h v ?_
  rw [stepped_append]
  exact List.mem_append_left _ hv

/-- Whenever the session looks for input, it keeps what waits or hands it on. -/
theorem ReadsRaw.looks (h : w.ReadsRaw s (earlier ++ .step client :: later))
    (hs : w.sessions[s]? = some session) (htrie : session.decoder.trie = .ofKeymap m)
    {below : List (Job κ ν)} (hagenda : (w.play earlier).agenda = .deliver s :: below) :
    ∃ before, (w.play earlier).sessions[s]? = some before ∧
      Looks client m (w.play earlier) s before below ((w.play earlier).step client) := by
  obtain ⟨before, hbefore, htrie'⟩ := trie_play hs earlier
  have hunasked : (w.play earlier).Unasked s := by
    refine h (w.play earlier) ?_ below hagenda
    rw [stepped_append]
    exact List.mem_append_right _ List.mem_cons_self
  exact ⟨before, hbefore,
    looks_of_unasked client hagenda hbefore (htrie'.trans htrie) hunasked⟩

end ReadsRaw

/-- What waits when the session is done with looking. -/
theorem Looks.keeps_of_done {v v' : World κ ν} {before last : Session κ} {below : List (Job κ ν)}
    (h : Looks client m v s before below v') (hbefore : v.sessions[s]? = some before)
    (hdone : v'.agenda = below) (hlast : v'.sessions[s]? = some last) :
    m.Keeps last.decoder.pending := by
  cases h with
  | keeps hkeeps h =>
    rw [h] at hlast
    obtain rfl := Option.some_inj.1 (hbefore.symm.trans hlast)
    exact hkeeps
  | hands _ _ hagenda =>
    have hlength := congrArg List.length (hagenda.symm.trans hdone)
    simp only [List.length_cons] at hlength
    omega

/-- **What is read without a request** in every run from a reachable world, for any keymap. -/
theorem Reachable.reads_raw (h : Reachable w) (hs : w.sessions[s]? = some session)
    (htrie : session.decoder.trie = .ofKeymap m) (hraw : w.ReadsRaw s choices) :
    RawReading w s session m choices where
  received := by
    rintro earlier later rfl
    obtain ⟨last, hlast, hbalance⟩ := balance_play hs earlier
    refine ⟨last, _, hlast, forwards_play w s earlier, hbalance.trans ?_⟩
    rw [Passage.flatMap_leaving (handled_notMem_passages hs hraw.of_append)]
  looks := by
    rintro earlier client later below rfl hagenda
    exact hraw.looks hs htrie hagenda
  returns := by
    rintro earlier client later below last rfl hagenda hdone hlast
    obtain ⟨before, hbefore, hlooks⟩ := hraw.looks hs htrie hagenda
    exact hlooks.keeps_of_done hbefore hdone hlast
  ends clients below last hclients hagenda hlast :=
    exists_returns_of_abstains (h.trans (run_play w choices)) hagenda hlast hclients

/-- A client that does nothing. -/
private def passive : Client Unit Unit where
  onLine _ _ := .done
  onComplete _ _ _ := .done
  onRead _ _ := .done
  onResize _ _ := .done

/-- A session with the standard bindings and a handler of input. -/
private def listening : World Unit Unit :=
  exec passive 3
    { sessions := [{ decoder := .ofKeymap .standard }], connections := [{}] } <|
    .andThen (.install 0 0) <|
      .ofCall (.setOnRead 0 (some ()))

private theorem reachable_listening : Reachable listening := by
  refine Reachable.trans (Pristine.reachable ?_) (run_exec passive 3 _ _)
  constructor <;> simp

/-- A text is typed. -/
private def typing (text : List Char) : List (Choice Unit Unit) :=
  .run (.ofCall (.type 0 text)) :: List.replicate 5 (.step passive)

private theorem readsRaw_listening : listening.ReadsRaw 0 (typing ['a']) := by
  intro v hv below _
  -- nothing that is done on the way touches the request or the handler
  rcases hv with _ | ⟨_, _ | ⟨_, _ | ⟨_, _ | ⟨_, _ | ⟨_, ⟨⟩⟩⟩⟩⟩⟩ <;> exact ⟨_, _, rfl, rfl, rfl⟩

/-- A letter comes through. -/
theorem reads_raw_letter :
    ∃ session, (Reachable listening ∧ listening.sessions[0]? = some session ∧
        session.decoder.trie = .ofKeymap .standard ∧ listening.ReadsRaw 0 (typing ['a'])) ∧
      (listening.play (typing ['a'])).forwards 0 = [['a']] ∧
        RawReading listening 0 session .standard (typing ['a']) :=
  ⟨_, ⟨reachable_listening, rfl, rfl, readsRaw_listening⟩, by decide +kernel,
    reachable_listening.reads_raw rfl rfl readsRaw_listening⟩

/-- **A lone Escape does not come through**: it is typed, all is done that there is to do, and the
handler has got nothing, since cursor keys begin with it. -/
theorem withholds_escape :
    Reachable (listening.play (typing [Keys.escape])) ∧ listening.Unasked 0 ∧
      (listening.play (typing [Keys.escape])).agenda.isEmpty = true ∧
        (listening.passages 0 (typing [Keys.escape])).flatMap Passage.arriving = [Keys.escape] ∧
          (listening.play (typing [Keys.escape])).forwards 0 = [] ∧
            (∃ session handler,
              (listening.play (typing [Keys.escape])).sessions[0]? = some session ∧
                session.phase = .idle ∧ session.onRead? = some handler ∧
                  session.decoder.pending = [Keys.escape]) :=
  ⟨reachable_listening.trans (run_play _ _), ⟨_, _, rfl, rfl, rfl⟩, by decide +kernel,
    by decide +kernel, by decide +kernel, _, _, rfl, rfl, rfl, rfl⟩

end World

end LineEditor
