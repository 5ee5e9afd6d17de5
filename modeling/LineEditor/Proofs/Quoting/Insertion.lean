import LineEditor.Proofs.Quoting.Literal

/-!
# What an insertion reads as

A text can leave every context but an open escape in strong quotes (`Context.arises_iff`), and in
each of them something may be inserted. All of them but one take literal text. Behind an escape
that is open in weak quotes only a backslash or a double quote can stand for itself, so that what
can be inserted of a text begins with the first of these (`Context.insertable`).

Either nothing is inserted at all (`Context.Arises.literally_eq_nil`), or what can be inserted reads
as itself and nothing is open behind it but the quotes that were (`Context.Arises.read_literally`).
`Context.Arises.readsBack` says so for every context in full.
-/

namespace LineEditor.Quoting.Context

variable {q : Context} {c : Char} {text : List Char}

/-! ### The contexts that there are -/

/-- Some text leaves the context. -/
def Arises (q : Context) : Prop := ∃ text, (({} : Context).read text).1 = q

theorem arises_iff : q.Arises ↔ (q.mode = .strong → q.escaped = false) := by
  constructor
  · rintro ⟨text, rfl⟩
    exact read_strong (by exact nofun) text
  · intro h
    obtain ⟨mode, escaped⟩ := q
    cases mode with
    | plain =>
      cases escaped with
      | false => exact ⟨[], rfl⟩
      | true => exact ⟨['\\'], rfl⟩
    | weak =>
      cases escaped with
      | false => exact ⟨['"'], rfl⟩
      | true => exact ⟨['"', '\\'], rfl⟩
    | strong =>
      obtain rfl : escaped = false := h rfl
      exact ⟨['\''], rfl⟩

/-- An escape is open in weak quotes. -/
def openWeak : Context := { mode := .weak, escaped := true }

/-- Every other context takes literal text. -/
theorem Arises.takes (h : q.Arises) (hq : q ≠ openWeak) : q.Takes := by
  obtain ⟨text, rfl⟩ := h
  exact takes_of_read text hq

/-! ### Contexts that take literal text -/

/-- A text reads as itself and uses up an open escape, for which it needs a character. -/
theorem read_literally_of_takes (h : q.Takes) (hline : '\n' ∉ text)
    (hsome : q.escaped = false ∨ text ≠ []) (terminal : Bool) :
    q.read (q.literally terminal text) =
      (if terminal then {} else { q with escaped := false },
        text ++ if terminal then [' '] else []) := by
  cases terminal with
  | true => exact read_literally_word h hline hsome.symm
  | false =>
    rw [if_neg Bool.false_ne_true, if_neg Bool.false_ne_true, List.append_nil]
    cases text with
    | nil =>
      have hescaped : q.escaped = false := hsome.resolve_right fun hne => hne rfl
      rw [read_literally hescaped hline, ← hescaped]
    | cons c rest =>
      have hc : c ≠ '\n' := (List.ne_of_not_mem_cons hline).symm
      rw [literally_cons h hc, read_append, read_spell h hc,
        read_literally rfl (List.not_mem_of_not_mem_cons hline)]
      rfl

/-- An escape that no character uses up keeps the word from ending. -/
theorem literally_nil_of_takes (h : q.Takes) (hescaped : q.escaped = true) (terminal : Bool) :
    q.literally terminal [] = [] := by
  have hmode : q.mode = .plain := h hescaped
  simp [literally, wordEnd, hmode, hescaped]

/-! ### An escape in weak quotes -/

/-- What is left of a text from its first backslash or double quote on. -/
def fromMark (text : List Char) : List Char := text.dropWhile fun c => c ≠ '\\' && c ≠ '"'

/-- What stands before the first mark is left out, and from there on the text is inserted as in weak
quotes. -/
theorem literally_openWeak (text : List Char) (terminal : Bool) :
    openWeak.literally terminal text =
      match fromMark text with
      | [] => []
      | c :: rest => c :: ({ mode := .weak } : Context).literally terminal rest := by
  induction text with
  | nil => simp [literally, wordEnd, openWeak, fromMark]
  | cons c rest ih =>
    by_cases hmark : c = '\\' ∨ c = '"'
    · have hfrom : fromMark (c :: rest) = c :: rest := by
        simp [fromMark, ← not_or, hmark]
      have hspell : openWeak.spell c = [c] := by simp [spell, openWeak, hmark]
      have hread : (openWeak.read [c]).1 = { mode := .weak } := by simp [advance, openWeak]
      rw [hfrom, literally, hspell, hread, List.singleton_append]
    · have hfrom : fromMark (c :: rest) = fromMark rest := by
        simp [fromMark, ← not_or, hmark]
      have hspell : openWeak.spell c = [] := by simp [spell, openWeak, hmark]
      rw [hfrom, literally, hspell, read_nil, List.nil_append, ih]

theorem literally_openWeak_eq_nil (h : fromMark text = []) (terminal : Bool) :
    openWeak.literally terminal text = [] := by
  rw [literally_openWeak, h]

/-- The first mark uses up the escape, and the text reads as itself from there on. -/
theorem read_literally_openWeak (hline : '\n' ∉ text) (hsome : fromMark text ≠ [])
    (terminal : Bool) :
    openWeak.read (openWeak.literally terminal text) =
      (if terminal then {} else { openWeak with escaped := false },
        fromMark text ++ if terminal then [' '] else []) := by
  obtain ⟨c, rest, hfrom⟩ := List.exists_cons_of_ne_nil hsome
  have hsub : ∀ d ∈ c :: rest, d ∈ text := fun d hd =>
    (List.dropWhile_suffix _).subset (show d ∈ fromMark text from hfrom ▸ hd)
  have hmark : c = '\\' ∨ c = '"' := by
    have hhead := List.head?_dropWhile_not (fun c => c ≠ '\\' && c ≠ '"') text
    have hhead' : (text.dropWhile fun c => c ≠ '\\' && c ≠ '"').head? = some c :=
      congrArg List.head? hfrom
    rw [hhead'] at hhead
    simpa [or_iff_not_imp_left] using hhead
  have hadvance : openWeak.advance c = ({ mode := .weak }, [c]) := by
    simp [advance, openWeak, hmark]
  have hread := read_literally_of_takes (q := { mode := .weak }) (takes_of_not_escaped rfl)
    (fun hmem => hline (hsub _ (List.mem_cons_of_mem c hmem))) (.inl rfl) terminal
  rw [literally_openWeak, hfrom]
  simp only [read_cons, hadvance, hread]
  rfl

/-! ### All contexts -/

/-- What can be inserted of a text: all of it, but for what stands before the first mark when an
escape is open in weak quotes. -/
def insertable (q : Context) (text : List Char) : List Char :=
  if q = openWeak then fromMark text else text

/-- **Something is inserted.** It reads as what can be inserted, and at the end of a word as a
space; nothing is open behind it, but within a word the quotes that were. -/
theorem Arises.read_literally (h : q.Arises) (hline : '\n' ∉ text)
    (hsome : q.escaped = false ∨ q.insertable text ≠ []) (terminal : Bool) :
    q.read (q.literally terminal text) =
      (if terminal then {} else { q with escaped := false },
        q.insertable text ++ if terminal then [' '] else []) := by
  by_cases hq : q = openWeak
  · subst hq
    rw [insertable, if_pos rfl] at hsome ⊢
    exact read_literally_openWeak hline (hsome.resolve_left nofun) terminal
  · rw [insertable, if_neg hq] at hsome ⊢
    exact read_literally_of_takes (h.takes hq) hline hsome terminal

/-- **Nothing is inserted** where an escape is open that nothing uses up. -/
theorem Arises.literally_eq_nil (h : q.Arises) (hescaped : q.escaped = true)
    (hnone : q.insertable text = []) (terminal : Bool) : q.literally terminal text = [] := by
  by_cases hq : q = openWeak
  · subst hq
    rw [insertable, if_pos rfl] at hnone
    exact literally_openWeak_eq_nil hnone terminal
  · rw [insertable, if_neg hq] at hnone
    subst hnone
    exact literally_nil_of_takes (h.takes hq) hescaped terminal

/-- What an insertion reads as, and what it leaves. -/
structure ReadsBack (q : Context) (text : List Char) (terminal : Bool) : Prop where
  /-- The text reads as itself, and the end of the word as a space. -/
  literal : q ≠ openWeak → (q.read (q.literally terminal text)).2 =
    text ++ if terminal = true ∧ (q.escaped = false ∨ text ≠ []) then [' '] else []
  /-- Behind an escape in weak quotes the text reads as itself from its first mark on. -/
  marked : q = openWeak → (q.read (q.literally terminal text)).2 =
    fromMark text ++ if terminal = true ∧ fromMark text ≠ [] then [' '] else []
  /-- Within a word the quotes stay that were open, and an escape is used up if anything is
  inserted. -/
  inner : terminal = false → (q.read (q.literally terminal text)).1.mode = q.mode ∧
    ((q.read (q.literally terminal text)).1.escaped = false ∨ q.literally terminal text = [])
  /-- Nothing is open behind a word, unless an escape was and nothing is inserted. -/
  word : terminal = true → (q.read (q.literally terminal text)).1 = {} ∨
    q.escaped = true ∧ q.literally terminal text = []

/-- **Insertions read back** in every context that there is, for every text without control
codes. -/
theorem Arises.readsBack (h : q.Arises) (htext : ∀ c ∈ text, 32 ≤ c.toNat) (terminal : Bool) :
    q.ReadsBack text terminal := by
  have hline : '\n' ∉ text := fun hmem => absurd (htext _ hmem) (by decide)
  by_cases hsome : q.escaped = false ∨ q.insertable text ≠ []
  · have hread := h.read_literally hline hsome terminal
    constructor
    case literal =>
      intro hq
      rw [insertable, if_neg hq] at hsome hread
      simp [hread, hsome]
    case marked =>
      intro hq
      have hmark : fromMark text ≠ [] := by
        rw [insertable, if_pos hq, hq] at hsome
        exact hsome.resolve_left nofun
      rw [insertable, if_pos hq] at hread
      simp [hread, hmark]
    case inner =>
      rintro rfl
      rw [hread]
      exact ⟨rfl, .inl rfl⟩
    case word =>
      rintro rfl
      rw [hread]
      exact .inl rfl
  · obtain ⟨hescaped, hnone⟩ : q.escaped = true ∧ q.insertable text = [] := by
      simpa using hsome
    have hnothing := h.literally_eq_nil hescaped hnone terminal
    constructor
    case literal =>
      intro hq
      rw [insertable, if_neg hq] at hnone
      rw [hnothing, hnone, hescaped]
      simp
    case marked =>
      intro hq
      rw [insertable, if_pos hq] at hnone
      simp [hnothing, hnone]
    case inner =>
      intro
      rw [hnothing]
      exact ⟨rfl, .inr rfl⟩
    case word => exact fun _ => .inr ⟨hescaped, hnothing⟩

/-- Behind an escape in weak quotes a letter is left out, and the double quote after it is not. -/
theorem readsBack_openWeak :
    (openWeak.Arises ∧ ∀ c ∈ ['y', '"', 'x'], 32 ≤ c.toNat) ∧
      openWeak.literally true ['y', '"', 'x'] = ['"', 'x', '"', ' '] ∧
        openWeak.ReadsBack ['y', '"', 'x'] true := by
  have harises : openWeak.Arises := ⟨['"', '\\'], rfl⟩
  have htext : ∀ c ∈ ['y', '"', 'x'], 32 ≤ c.toNat := by simp
  exact ⟨⟨harises, htext⟩, by decide, harises.readsBack htext true⟩

end LineEditor.Quoting.Context
