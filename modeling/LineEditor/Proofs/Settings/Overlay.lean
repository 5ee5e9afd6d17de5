import LineEditor.Proofs.Keys.Arena
import LineEditor.Proofs.Keys.Tokens
import LineEditor.Proofs.Settings.Reading

/-!
# Settings on top of a keymap

The bindings of the settings are made behind those that a keymap has (`Settings.bindings_applyTo`).
So they count where they bind a sequence, and what any other sequence stands for is as it was
(`Settings.lookup_eq_of_binds`, `Settings.lookup_eq_of_not_binds`). Which of the settings comes
first makes no difference, since they have one entry for each sequence at most (`Settings.IsMap`).

More can change than what a sequence stands for: where a sequence of the settings goes on from one
of the keymap, or begins one, other characters wait than before. It cannot be so in a text without
any character that a sequence of the settings begins with. On such a text, and on what is left of it
when something is taken from its front, both keymaps agree (`Keymap.Agree`), and keymaps that do
read it alike (`Keymap.Reads.of_agree`). `Settings.IsMap.overlays_keymap` puts this together.
-/

namespace LineEditor

/-! ### Keymaps that agree on a text -/

namespace Keymap

variable {m m' : Keymap} {text rest last s u : List Char} {event : KeyEvent}
  {events : List KeyEvent}

/-- Two keymaps say the same of a text: what it begins with is bound to the same, and it awaits a
longer bound sequence of both or of neither. -/
structure Agree (m m' : Keymap) (text : List Char) : Prop where
  lookup : ∀ u, u ≠ [] → u <+: text → m'.lookup u = m.lookup u
  awaits : text ≠ [] → (m'.Awaits text ↔ m.Awaits text)

namespace Agree

theorem isBound_iff (h : m.Agree m' text) (hne : u ≠ []) (hu : u <+: text) :
    m'.IsBound u ↔ m.IsBound u := by
  rw [isBound_iff_lookup, isBound_iff_lookup, h.lookup u hne hu]

theorem unmatched (h : m.Agree m' text) (hnone : m.Unmatched text) : m'.Unmatched text :=
  fun u hne hu hbound => hnone u hne hu ((h.isBound_iff hne hu).1 hbound)

theorem longest (h : m.Agree m' text) (hs : m.Longest text s) : m'.Longest text s where
  ne_nil := hs.ne_nil
  begins := hs.begins
  bound := (h.isBound_iff hs.ne_nil hs.begins).2 hs.bound
  longest u hu hbound := by
    by_cases hnil : u = []
    · rw [hnil]
      exact Nat.zero_le _
    · exact hs.longest u hu ((h.isBound_iff hnil hu).1 hbound)

/-- **Step lemma.** The same is taken next. -/
theorem takes (h : m.Agree m' text) (htakes : m.Takes text event rest) :
    m'.Takes text event rest := by
  cases htakes with
  | bound hs hevent htext =>
    exact .bound (h.longest hs) ((h.lookup _ hs.ne_nil hs.begins).trans hevent) htext
  | literal hnone htext => exact .literal (h.unmatched hnone) htext

end Agree

/-- **Run lemma.** Keymaps that agree on all that can be left of a text read it alike. -/
theorem Reads.of_agree (h : m.Reads text events last)
    (hagree : ∀ s, s <:+ text → m.Agree m' s) : m'.Reads text events last := by
  induction h with
  | @stop text hwaits =>
    refine .stop ?_
    by_cases hnil : text = []
    · exact .inl hnil
    · exact .inr (((hagree text List.suffix_rfl).awaits hnil).2 (hwaits.resolve_left hnil))
  | @next text event rest _ _ hnot htakes _ ih =>
    have htext := hagree text List.suffix_rfl
    obtain ⟨taken, -, hsplit⟩ := htakes.exists_append
    have hrest : rest <:+ text := ⟨taken, hsplit.symm⟩
    refine .next (fun hawaits => hnot ?_) (htext.takes htakes) (ih fun s hs => ?_)
    · exact (htext.awaits htakes.ne_nil).1 hawaits
    · exact hagree s (hs.trans hrest)

/-- Of bindings on top of others the newer count. -/
theorem lookup_append (old new : List Binding) (s : List Char) :
    (⟨old ++ new⟩ : Keymap).lookup s =
      ((⟨new⟩ : Keymap).lookup s).or ((⟨old⟩ : Keymap).lookup s) := by
  simp [lookup, List.find?_append, Option.map_or]

theorem exists_of_lookup (h : m.lookup s = some event) : ⟨s, event⟩ ∈ m.bindings := by
  obtain ⟨b, hb, rfl⟩ := Option.map_eq_some_iff.1 h
  obtain rfl : b.sequence = s := by simpa using List.find?_some hb
  exact List.mem_reverse.1 (List.mem_of_find?_eq_some hb)

end Keymap

namespace Keys

variable {m m' : Keymap} {text : List Char}

/-- Decoders of keymaps that agree give the same events, and keep the same. -/
theorem Decoder.drain_eq_of_agree (hagree : ∀ s, s <:+ text → m.Agree m' s) :
    ((ofKeymap m').append text).drain.1 = ((ofKeymap m).append text).drain.1 ∧
      ((ofKeymap m').append text).drain.2.pending =
        ((ofKeymap m).append text).drain.2.pending := by
  obtain ⟨hreads, -⟩ := reads_drain (m := m) (d := (ofKeymap m).append text) rfl
  obtain ⟨hreads', -⟩ := reads_drain (m := m') (d := (ofKeymap m').append text) rfl
  exact hreads'.unique (hreads.of_agree hagree)

/-- All of some waiting characters are matched by what they are bound to. -/
theorem Trie.resolve_full_iff (m : Keymap) (s : List Char) (event : KeyEvent) :
    (∃ ambiguous, (ofKeymap m).resolve s = .bound event s.length ambiguous) ↔
      s ≠ [] ∧ m.lookup s = some event := by
  simp only [resolve_eq_iff]
  constructor
  · rintro ⟨ambiguous, hsays⟩
    generalize hv : Verdict.bound event s.length ambiguous = v at hsays
    cases hsays with
    | bound hs hevent =>
      injection hv with hsame hlength
      obtain rfl := hs.begins.eq_of_length hlength.symm
      exact ⟨hs.ne_nil, hsame ▸ hevent⟩
    | wait | literal => cases hv
  · rintro ⟨hne, hevent⟩
    have hbound : m.IsBound s := Keymap.isBound_iff_lookup.2 (by simp [hevent])
    have hlongest : m.Longest s s := ⟨hne, List.prefix_rfl, hbound, fun u hu _ => hu.length_le⟩
    by_cases hawaits : m.Awaits s
    · exact ⟨true, .bound hlongest hevent (by simp [hawaits])⟩
    · exact ⟨false, .bound hlongest hevent (by simp [hawaits])⟩

end Keys

/-! ### The bindings of the settings -/

namespace Settings

variable {settings : Settings} {m : Keymap} {s name name' text : List Char}

/-- The settings bind a sequence to the function of a name; neither may be empty. -/
def Binds (settings : Settings) (s name : List Char) : Prop :=
  (s, name) ∈ settings.bindings ∧ s ≠ [] ∧ name ≠ []

/-- No sequence that the settings bind begins with a character of a text. -/
def Spares (settings : Settings) (text : List Char) : Prop :=
  ∀ s name, settings.Binds s name → ∀ c ∈ s.head?, c ∉ text

/-- One entry of the settings on top of a keymap, in which some have been counted: it is bound and
counted too, unless its sequence or its name is empty. -/
def applyEntry (applied : Keymap × Nat) (entry : List Char × List Char) : Keymap × Nat :=
  if entry.1.isEmpty || entry.2.isEmpty then applied
  else (applied.1.bindFunction entry.1 entry.2, applied.2 + 1)

theorem mem_usable : (s, name) ∈ settings.usable ↔ settings.Binds s name := by
  simp [usable, Binds]

theorem IsMap.eq_of_binds (h : settings.IsMap) (hname : settings.Binds s name)
    (hname' : settings.Binds s name') : name = name' := by
  have hsame := List.inj_on_of_nodup_map h hname.1 hname'.1 rfl
  exact congrArg Prod.snd hsame

/-- An entry is made and counted exactly if it is usable. -/
theorem foldl_applyEntry (entries : List (List Char × List Char)) (m : Keymap) (n : Nat) :
    entries.foldl applyEntry (m, n) =
      ((({ bindings := entries } : Settings).applyTo m).1,
        n + (({ bindings := entries } : Settings).applyTo m).2) := by
  induction entries generalizing m n with
  | nil => rfl
  | cons entry rest ih =>
    obtain ⟨s, name⟩ := entry
    rw [List.foldl_cons, applyEntry]
    cases hempty : s.isEmpty || name.isEmpty with
    | true =>
      have hskip : (!s.isEmpty && !name.isEmpty) = false := by rw [← Bool.not_or, hempty]; rfl
      rw [if_pos rfl, ih]
      simp [applyTo, usable, hskip]
    | false =>
      have hmake : (!s.isEmpty && !name.isEmpty) = true := by rw [← Bool.not_or, hempty]; rfl
      rw [if_neg Bool.false_ne_true, ih]
      simp [applyTo, usable, hmake]
      omega

/-- Going through the entries one after the other makes the usable ones and counts them. -/
theorem applyTo_eq_foldl (settings : Settings) (m : Keymap) :
    settings.applyTo m = settings.bindings.foldl applyEntry (m, 0) := by
  rw [foldl_applyEntry, Nat.zero_add]
  rfl

/-- The bindings of the settings are made behind those that there are. -/
theorem bindings_applyTo (settings : Settings) (m : Keymap) :
    (settings.applyTo m).1.bindings =
      m.bindings ++ settings.usable.map fun (s, name) => ⟨s, .function name⟩ := by
  have hne : ∀ entry ∈ settings.usable, entry.1.isEmpty = false := by simp +contextual [usable]
  unfold applyTo
  dsimp only
  generalize settings.usable = entries at hne
  induction entries generalizing m with
  | nil => exact (List.append_nil _).symm
  | cons entry rest ih =>
    obtain ⟨hentry, hrest⟩ := List.forall_mem_cons.1 hne
    have hbind : (m.bindFunction entry.1 entry.2).bindings =
        m.bindings ++ [⟨entry.1, .function entry.2⟩] := by
      simp [Keymap.bindFunction, Keymap.bind, hentry]
    rw [List.foldl_cons, ih _ hrest, hbind, List.map_cons, List.append_assoc,
      List.singleton_append]

/-- What is bound on top counts, and below it what was bound before. -/
theorem lookup_applyTo (settings : Settings) (m : Keymap) (s : List Char) :
    (settings.applyTo m).1.lookup s =
      ((⟨settings.usable.map fun (s, name) => ⟨s, .function name⟩⟩ : Keymap).lookup s).or
        (m.lookup s) := by
  rw [← Keymap.lookup_append, ← bindings_applyTo]

/-- A sequence that the settings bind stands for its function. -/
theorem lookup_eq_of_binds (h : settings.IsMap) (hbinds : settings.Binds s name) (m : Keymap) :
    (settings.applyTo m).1.lookup s = some (.function name) := by
  rw [lookup_applyTo]
  generalize hm : (⟨settings.usable.map fun (s, name) => ⟨s, .function name⟩⟩ : Keymap) = top
  have hbound : top.IsBound s := ⟨⟨s, .function name⟩, by simp [← hm, mem_usable, hbinds], rfl⟩
  obtain ⟨event, hevent⟩ := Option.ne_none_iff_exists'.1 (Keymap.isBound_iff_lookup.1 hbound)
  have hmem := Keymap.exists_of_lookup hevent
  rw [← hm] at hmem
  obtain ⟨⟨s', name'⟩, hentry, heq⟩ := List.mem_map.1 hmem
  cases heq
  rw [hevent, Option.some_or, h.eq_of_binds hbinds (mem_usable.1 hentry)]

/-- What any other sequence stands for stays. -/
theorem lookup_eq_of_not_binds (hnone : ∀ name, ¬ settings.Binds s name) (m : Keymap) :
    (settings.applyTo m).1.lookup s = m.lookup s := by
  rw [lookup_applyTo]
  cases hevent : (⟨settings.usable.map fun (s, name) => ⟨s, .function name⟩⟩ : Keymap).lookup s with
  | none => exact Option.none_or
  | some event =>
    obtain ⟨⟨s', name⟩, hentry, heq⟩ := List.mem_map.1 (Keymap.exists_of_lookup hevent)
    cases heq
    exact absurd (mem_usable.1 hentry) (hnone name)

/-! ### Texts that the settings leave alone -/

theorem Spares.mono (h : settings.Spares text) {u : List Char} (hu : u <:+ text) :
    settings.Spares u :=
  fun s name hbinds c hc hmem => h s name hbinds c hc (hu.subset hmem)

/-- A sequence that the settings bind has no beginning in common with such a text. -/
theorem Spares.eq_nil (h : settings.Spares text) (hbinds : settings.Binds s name) {u : List Char}
    (hu : u <+: text) (hs : u <+: s) : u = [] := by
  cases u with
  | nil => rfl
  | cons c u =>
    obtain ⟨rest, rfl⟩ := hs
    exact absurd (hu.subset List.mem_cons_self) (h _ name hbinds c rfl)

/-- On such a text a keymap agrees with what it becomes. -/
theorem Spares.agree (h : settings.Spares text) (m : Keymap) :
    m.Agree (settings.applyTo m).1 text where
  lookup u hne hu :=
    lookup_eq_of_not_binds (fun _ hbinds => hne (h.eq_nil hbinds hu List.prefix_rfl)) m
  awaits hne := by
    constructor
    · rintro ⟨b, hb, hbegins, hlonger⟩
      rw [bindings_applyTo, List.mem_append] at hb
      refine hb.elim (fun hold => ⟨b, hold, hbegins, hlonger⟩) fun hnew => ?_
      obtain ⟨⟨s, name⟩, hentry, rfl⟩ := List.mem_map.1 hnew
      exact absurd (h.eq_nil (mem_usable.1 hentry) List.prefix_rfl hbegins) hne
    · rintro ⟨b, hb, hbegins, hlonger⟩
      refine ⟨b, ?_, hbegins, hlonger⟩
      rw [bindings_applyTo]
      exact List.mem_append_left _ hb

/-! ### The overlay -/

/-- What becomes of a keymap with the bindings of the settings on top. -/
structure Overlays (settings : Settings) (m : Keymap) : Prop where
  /-- The entries are gone through one after the other; -/
  entries : settings.applyTo m = settings.bindings.foldl applyEntry (m, 0)
  /-- counted are those with neither an empty sequence nor an empty name, -/
  counted : (settings.applyTo m).2 = settings.bindings.countP fun (s, name) => s ≠ [] ∧ name ≠ []
  /-- and there are as many bindings more. -/
  grown : (settings.applyTo m).1.bindings.length = m.bindings.length + (settings.applyTo m).2
  /-- A sequence that the settings bind stands for its function, -/
  bound : ∀ s name, settings.Binds s name →
    (settings.applyTo m).1.lookup s = some (.function name)
  /-- and any other for what it stood for. -/
  kept : ∀ s, (∀ name, ¬ settings.Binds s name) → (settings.applyTo m).1.lookup s = m.lookup s
  /-- The trie matches all of some waiting characters with what they stand for, -/
  compiled : ∀ s event, (∃ ambiguous,
      (Keys.Trie.ofKeymap (settings.applyTo m).1).resolve s = .bound event s.length ambiguous) ↔
    s ≠ [] ∧ (settings.applyTo m).1.lookup s = some event
  /-- in its arena as well. -/
  arena : ∃ arena, Keys.Arena.ofKeymap? (settings.applyTo m).1 = some arena ∧ ∀ waiting,
    arena.resolve? waiting = some ((Keys.Trie.ofKeymap (settings.applyTo m).1).resolve waiting)
  /-- A text in which no sequence that the settings bind can begin gives the same events, and the
  same is left waiting. -/
  decoded : ∀ text, settings.Spares text →
    ((Keys.Decoder.ofKeymap (settings.applyTo m).1).append text).drain.1 =
        ((Keys.Decoder.ofKeymap m).append text).drain.1 ∧
      ((Keys.Decoder.ofKeymap (settings.applyTo m).1).append text).drain.2.pending =
        ((Keys.Decoder.ofKeymap m).append text).drain.2.pending

/-- **Settings overlay a keymap.** -/
theorem IsMap.overlays_keymap (h : settings.IsMap) (m : Keymap) : settings.Overlays m where
  entries := applyTo_eq_foldl settings m
  counted := by
    have husable : settings.usable =
        settings.bindings.filter fun (s, name) => s ≠ [] ∧ name ≠ [] :=
      List.filter_congr fun (s, name) _ => by cases s <;> cases name <;> rfl
    rw [List.countP_eq_length_filter, ← husable]
    rfl
  grown := by
    rw [bindings_applyTo, List.length_append, List.length_map]
    rfl
  bound _ _ hbinds := lookup_eq_of_binds h hbinds m
  kept _ hnone := lookup_eq_of_not_binds hnone m
  compiled := Keys.Trie.resolve_full_iff _
  arena := Keys.Arena.exists_resolve?_eq _
  decoded _ hspares := Keys.Decoder.drain_eq_of_agree fun _ hs => (hspares.mono hs).agree m

/-- Settings that bind a standard key anew, the beginning of standard sequences, and a letter; the
two other entries cannot be made. -/
private def configured : Settings where
  bindings :=
    [([], "kill-line".toList), ([Keys.control 'A'], "end-of-line".toList),
      ([Keys.escape], "kill-line".toList), (['x'], []), (['z', 'z'], "delete-char".toList)]

/-- Three of five entries are made on top of the standard keymap. -/
theorem overlays_keymap_configured :
    configured.IsMap ∧ configured.Overlays .standard ∧ (configured.applyTo .standard).2 = 3 := by
  have hmap : configured.IsMap := by decide
  exact ⟨hmap, hmap.overlays_keymap .standard, by decide⟩

end Settings

end LineEditor
