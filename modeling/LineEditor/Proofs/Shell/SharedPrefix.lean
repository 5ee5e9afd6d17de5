import LineEditor.Proofs.Text.Encoding
import LineEditor.Shell.SharedPrefix
import Mathlib.Data.List.Infix

/-!
# What words share

Among the beginnings that some words have in common there is a longest one, of which all the others
are beginnings (`Shell.Shares`). So it is one for the words in any order (`Shell.Shares.perm`), and
it can be found by going from word to word (`Shell.shares_sharedPrefix`).

It can also be cut from the encoding of the first word, at the least of the places up to which the
others agree with it. Although each of them is compared with all of the first word, and not with
what has been shared so far, this is the place where what is shared ends (`Shell.sharedEnd_eq`): two
beginnings of one word begin one another, and the shorter one is what both words share. There a
character ends, so that none is cut apart (`Utf8.slice?_append`). `Shell.cuts_shared_prefix` puts
this together.
-/

namespace LineEditor

/-! ### Places between characters -/

namespace Utf8

open String (utf8EncodeChar)

variable {s t : List Char}

theorem encode_append (s t : List Char) : encode (s ++ t) = encode s ++ encode t :=
  List.flatMap_append

theorem length_encode_le (h : s <+: t) : (encode s).length ≤ (encode t).length := by
  obtain ⟨rest, rfl⟩ := h
  rw [encode_append, List.length_append]
  exact Nat.le_add_right _ _

/-- The first byte of a character goes on with no other. -/
theorem exists_encodeChar (c : Char) :
    ∃ byte rest, utf8EncodeChar c = byte :: rest ∧ isContinuation byte = false := by
  have hmax := toNat_lt_max c
  -- it is small, or the lead of a sequence
  have hfirst : ∀ {n : Nat}, n < 256 → n < 0x80 ∨ 0xC0 ≤ n →
      isContinuation (UInt8.ofNat n) = false := by
    intro n hn hlead
    rw [isContinuation, UInt8.toNat_ofNat_of_lt' hn, Bool.and_eq_false_iff]
    simpa using hlead
  rw [encode_eq]
  split_ifs with hone htwo hthree
  · exact ⟨_, _, rfl, hfirst (by omega) (by omega)⟩
  · exact ⟨_, _, rfl, hfirst (by omega) (by omega)⟩
  · exact ⟨_, _, rfl, hfirst (by omega) (by omega)⟩
  · exact ⟨_, _, rfl, hfirst (by omega) (by omega)⟩

/-- A text can be cut between two of its characters. -/
theorem isBoundary_append (s t : List Char) :
    isBoundary (encode (s ++ t)) (encode s).length = true := by
  rw [isBoundary, encode_append, List.getElem?_append_right (Nat.le_refl _), Nat.sub_self]
  cases t with
  | nil => simp [encode]
  | cons c t =>
    obtain ⟨byte, rest, hencode, hbyte⟩ := exists_encodeChar c
    simp [encode, hencode, hbyte]

/-- Cut between two characters, a text gives the encoding of what stands before. -/
theorem slice?_append (s t : List Char) :
    slice? (s ++ t) (encode s).length = some (encode s) := by
  rw [slice?, if_pos (isBoundary_append s t), encode_append, List.take_left]

end Utf8

namespace Shell

open Utf8 (encode offsets isBoundary slice? length_encode_le)

/-! ### The longest beginning in common -/

variable {words words' : List (List Char)} {s t first word : List Char}

/-- A text is the longest beginning that all words have in common. -/
def Shares (words : List (List Char)) (shared : List Char) : Prop :=
  ∀ s, s <+: shared ↔ ∀ word ∈ words, s <+: word

theorem Shares.unique {words : List (List Char)} {s t : List Char} (hs : Shares words s)
    (ht : Shares words t) : s = t := by
  have hst : s <+: t := (ht s).2 ((hs s).1 List.prefix_rfl)
  have hts : t <+: s := (hs t).2 ((ht t).1 List.prefix_rfl)
  exact hst.eq_of_length_le hts.length_le

/-- The order of the words makes no difference. -/
theorem Shares.perm (h : Shares words s) (hperm : words'.Perm words) : Shares words' s := by
  intro u
  rw [h u]
  exact forall_congr' fun word => imp_congr_left hperm.mem_iff.symm

theorem prefix_commonPrefix_iff {s a b : List Char} :
    s <+: commonPrefix a b ↔ s <+: a ∧ s <+: b := by
  induction a generalizing s b with
  | nil =>
    cases b <;> exact ⟨fun h => ⟨h, (List.prefix_nil.1 h) ▸ List.nil_prefix⟩, And.left⟩
  | cons c a ih =>
    cases b with
    | nil => exact ⟨fun h => ⟨(List.prefix_nil.1 h) ▸ List.nil_prefix, h⟩, And.right⟩
    | cons d b =>
      cases s with
      | nil => simp
      | cons e s =>
        rw [commonPrefix]
        split
        next hcd =>
          subst hcd
          simp only [List.cons_prefix_cons, ih]
          exact ⟨fun h => ⟨⟨h.1, h.2.1⟩, h.1, h.2.2⟩, fun h => ⟨h.1.1, h.1.2, h.2.2⟩⟩
        next hcd =>
          simp only [List.cons_prefix_cons, List.prefix_nil, reduceCtorEq, false_iff]
          rintro ⟨⟨rfl, -⟩, rfl, -⟩
          exact hcd rfl

theorem prefix_foldl_commonPrefix_iff {s word : List Char} {words : List (List Char)} :
    s <+: words.foldl commonPrefix word ↔ s <+: word ∧ ∀ other ∈ words, s <+: other := by
  induction words generalizing word with
  | nil => simp
  | cons next words ih =>
    rw [List.foldl_cons, ih, prefix_commonPrefix_iff, List.forall_mem_cons, and_assoc]

/-- What is found to be shared is the longest beginning that the words have in common. -/
theorem shares_sharedPrefix {words : List (List Char)} (h : words ≠ []) :
    Shares words (sharedPrefix words) := by
  obtain ⟨word, words, rfl⟩ := List.exists_cons_of_ne_nil h
  intro s
  rw [sharedPrefix, prefix_foldl_commonPrefix_iff, List.forall_mem_cons]

/-- A word and what it lacks of a longer one make the longer one. -/
theorem append_remainder {word beginning : List Char} (h : beginning <+: word) :
    beginning ++ remainder word beginning = word :=
  (List.prefix_iff_eq_append.1 h)

/-! ### Places in the first word -/

/-- The comparison of two words, the first of which begins at some place. -/
theorem agreement_eq (place : Nat) (first word : List Char) :
    ((((offsets place first).zip word).takeWhile fun ((_, a), b) => a = b).getLast?.elim place
        fun ((place, a), _) => place + a.utf8Size) =
      place + (encode (commonPrefix first word)).length := by
  induction first generalizing place word with
  | nil => simp [offsets, commonPrefix, encode]
  | cons a first ih =>
    cases word with
    | nil => simp [commonPrefix, encode]
    | cons b word =>
      rw [offsets, List.zip_cons_cons, commonPrefix]
      by_cases hab : a = b
      · have hrest := ih (place + a.utf8Size) word
        rw [List.takeWhile_cons_of_pos (by simpa using hab), List.getLast?_cons, if_pos hab]
        generalize (((offsets (place + a.utf8Size) first).zip word).takeWhile
          fun ((_, a), b) => a = b).getLast? = last at hrest ⊢
        have hencode : (encode (a :: commonPrefix first word)).length =
            a.utf8Size + (encode (commonPrefix first word)).length := by simp [encode]
        rw [hencode, ← Nat.add_assoc, ← hrest]
        cases last <;> rfl
      · rw [List.takeWhile_cons_of_neg (by simpa using hab), if_neg hab]
        rfl

/-- Words agree up to the end of what they have in common. -/
theorem agreementEnd_eq (first word : List Char) :
    agreementEnd first word = (encode (commonPrefix first word)).length := by
  rw [agreementEnd, agreement_eq, Nat.zero_add]

/-- **Step lemma.** What has been shared with a word so far is a beginning of the first one. What it
shares with the next word ends where it ends itself, or where the first word and the next part. -/
theorem min_agreementEnd (h : s <+: first) (word : List Char) :
    min (agreementEnd first word) (encode s).length = (encode (commonPrefix s word)).length := by
  have hcommon : commonPrefix first word <+: first ∧ commonPrefix first word <+: word :=
    prefix_commonPrefix_iff.1 List.prefix_rfl
  rw [agreementEnd_eq]
  obtain hlonger | hshorter := List.prefix_or_prefix_of_prefix h hcommon.1
  · have hsame : commonPrefix s word = s := by
      refine (prefix_commonPrefix_iff.1 List.prefix_rfl).1.eq_of_length_le (List.IsPrefix.length_le ?_)
      exact prefix_commonPrefix_iff.2 ⟨List.prefix_rfl, hlonger.trans hcommon.2⟩
    rw [hsame, Nat.min_eq_right (length_encode_le hlonger)]
  · have hsame : commonPrefix s word = commonPrefix first word := by
      have hs := prefix_commonPrefix_iff.1 (List.prefix_refl (commonPrefix s word))
      refine List.IsPrefix.eq_of_length_le (prefix_commonPrefix_iff.2 ⟨hs.1.trans h, hs.2⟩)
        (List.IsPrefix.length_le ?_)
      exact prefix_commonPrefix_iff.2 ⟨hshorter, hcommon.2⟩
    rw [hsame, Nat.min_eq_left (length_encode_le hshorter)]

/-- **Run lemma.** The first word is cut where what all words share ends. -/
theorem sharedEnd_eq (first : List Char) (rest : List (List Char)) :
    sharedEnd first rest = (encode (sharedPrefix (first :: rest))).length := by
  have hrun : ∀ s, s <+: first →
      rest.foldl (fun place word => min (agreementEnd first word) place) (encode s).length =
        (encode (rest.foldl commonPrefix s)).length := by
    induction rest with
    | nil => exact fun _ _ => rfl
    | cons word rest ih =>
      intro s hs
      have hnext : commonPrefix s word <+: s := (prefix_commonPrefix_iff.1 List.prefix_rfl).1
      rw [List.foldl_cons, List.foldl_cons, min_agreementEnd hs, ih _ (hnext.trans hs)]
  exact hrun first List.prefix_rfl

/-- What the words share begins the first of them. -/
theorem sharedPrefix_begins (first : List Char) (rest : List (List Char)) :
    sharedPrefix (first :: rest) <+: first :=
  (prefix_foldl_commonPrefix_iff.1 List.prefix_rfl).1

/-- What is cut from the first word is what the words share. -/
theorem sharedBytes?_eq (words : List (List Char)) :
    sharedBytes? words = some (encode (sharedPrefix words)) := by
  cases words with
  | nil => rfl
  | cons first rest =>
    obtain ⟨more, hfirst⟩ := sharedPrefix_begins first rest
    have hcut := Utf8.slice?_append (sharedPrefix (first :: rest)) more
    rwa [hfirst, ← sharedEnd_eq] at hcut

/-! ### The longest shared beginning -/

/-- What is cut from the first of some words. -/
structure CutsShared (first : List Char) (rest : List (List Char)) (shared : List Char) : Prop where
  /-- The place is one where the first word can be cut, -/
  boundary : isBoundary (encode first) (sharedEnd first rest) = true
  /-- and where a beginning of it ends, -/
  ends : sharedEnd first rest = (encode shared).length
  /-- which is what is cut off. -/
  bytes : sharedBytes? (first :: rest) = some (encode shared)
  /-- All words begin with it, -/
  begins : ∀ word ∈ first :: rest, shared <+: word
  /-- but with nothing longer. -/
  longest : ∀ longer, shared.length < longer.length → ∃ word ∈ first :: rest, ¬ longer <+: word
  /-- It is the same for the words in any order. -/
  order : ∀ words, words.Perm (first :: rest) → sharedBytes? words = some (encode shared)

/-- **The longest shared beginning**, with no character cut apart; and a beginning of a word with
what the word lacks of it. -/
theorem cuts_shared_prefix :
    (∀ first rest, CutsShared first rest (sharedPrefix (first :: rest))) ∧
      ∀ word beginning, beginning <+: word → beginning ++ remainder word beginning = word := by
  refine ⟨fun first rest => ?_, fun _ _ => append_remainder⟩
  have hshares : Shares (first :: rest) (sharedPrefix (first :: rest)) :=
    shares_sharedPrefix (List.cons_ne_nil first rest)
  constructor
  case boundary =>
    obtain ⟨more, hfirst⟩ := sharedPrefix_begins first rest
    have hcut := Utf8.isBoundary_append (sharedPrefix (first :: rest)) more
    rwa [hfirst, ← sharedEnd_eq] at hcut
  case ends => exact sharedEnd_eq first rest
  case bytes => exact sharedBytes?_eq _
  case begins => exact (hshares _).1 List.prefix_rfl
  case longest =>
    intro longer hlonger
    by_contra hall
    push Not at hall
    exact absurd ((hshares longer).2 hall).length_le (Nat.not_le.2 hlonger)
  case order =>
    intro words hperm
    have hwords : words ≠ [] := fun hnil =>
      List.cons_ne_nil first rest (hnil ▸ hperm).symm.eq_nil
    rw [sharedBytes?_eq, (shares_sharedPrefix hwords).unique (hshares.perm hperm)]

/-- Two letters that differ in their second byte only share nothing. -/
example : (encode ['é']).take 1 = (encode ['è']).take 1 ∧
    sharedBytes? [['é', 'a'], ['è', 'a']] = some [] := by decide

end Shell

end LineEditor
